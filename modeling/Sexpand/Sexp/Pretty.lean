import Sexpand.Layout.Doc
import Sexpand.Sexp.Atom
import Sexpand.Sexp.Basic

namespace Sexpand.Sexp

mutual

/-- The items of a broken list stand one on a line, two columns in from their list. -/
def doc : Sexp → Doc
  | .atom text => .text (Atom.written text)
  | .list items =>
      .append (.text ['(']) (.append (.group (.nest 2 (.join .line (docs items)))) (.text [')']))

def docs : List Sexp → List Doc
  | [] => []
  | item :: items => doc item :: docs items

end

def prettyAll (width : Nat) (items : List Sexp) : Text :=
  (Doc.join .line (docs items)).render width

def pretty (width : Nat) (e : Sexp) : Text := (doc e).render width

end Sexpand.Sexp
