import Sexpand.Proofs.Layout.Reach
import Sexpand.Sexp.Compact
import Sexpand.Sexp.Pretty

namespace Sexpand

open Layout (Piece chars)

namespace Sexp

mutual

/-- The pieces of the expression on one line. -/
def oneLine : Sexp → List Piece
  | .atom text => [.text (Atom.written text)]
  | .list items => .text ['('] :: (oneLineAll items ++ [.text [')']])

def oneLineAll : List Sexp → List Piece
  | [] => []
  | [item] => oneLine item
  | item :: next :: items => oneLine item ++ .space :: oneLineAll (next :: items)

end

mutual

theorem whole_doc : (e : Sexp) → e.doc.whole = e.oneLine
  | .atom _ => rfl
  | .list items => by
      have hitems := whole_docs items
      rw [doc, oneLine, ← hitems]
      rfl

theorem whole_docs : (items : List Sexp) → (Doc.join .line (docs items)).whole = oneLineAll items
  | [] => rfl
  | [item] => whole_doc item
  | item :: next :: items => by
      have hfirst := whole_doc item
      have hothers := whole_docs (next :: items)
      rw [oneLineAll, ← hfirst, ← hothers]
      rfl

end

end Sexp

namespace Line

mutual

theorem add_eq (line : Line) :
    (e : Sexp) → line.add e = ⟨(Layout.chars e.oneLine).reverse ++ line.spaced, true⟩
  | .atom text => by
      rw [add, List.reverseAux_eq, Sexp.oneLine, Layout.chars_cons]
      simp [Layout.chars, Piece.chars]
  | .list items => by
      have hitems := chars_addAll ⟨'(' :: line.spaced, false⟩ items
      rw [show spaced ⟨'(' :: line.spaced, false⟩ = '(' :: line.spaced from rfl, ite_self] at hitems
      rw [add, hitems, Sexp.oneLine, Layout.chars_cons, Layout.chars_append]
      simp [Layout.chars, Piece.chars]

theorem chars_addAll (line : Line) : (items : List Sexp) → (line.addAll items).chars =
    (Layout.chars (Sexp.oneLineAll items)).reverse ++ (if items = [] then line.chars else line.spaced)
  | [] => rfl
  | [item] => by
      have hitem := add_eq line item
      rw [addAll, addAll, hitem, Sexp.oneLineAll, if_neg (List.cons_ne_nil _ _)]
  | item :: next :: items => by
      have hitem := add_eq line item
      have hothers := chars_addAll (line.add item) (next :: items)
      rw [addAll, hothers, hitem, Sexp.oneLineAll, if_neg (List.cons_ne_nil _ _),
        if_neg (List.cons_ne_nil _ _), Layout.chars_append, Layout.chars_cons]
      simp [spaced, Piece.chars]

end

end Line

namespace Sexp

theorem compact_eq (e : Sexp) : e.compact = chars e.oneLine := by
  rw [compact, Line.add_eq]
  simp [Line.spaced, Line.empty]

theorem compactAll_eq (items : List Sexp) : compactAll items = chars (oneLineAll items) := by
  rw [compactAll, Line.chars_addAll]
  simp [Line.spaced, Line.empty]

end Sexp

/-- An expression as it is laid out. The items of a broken list stand on lines of their own. -/
inductive Laid
  | atom (text : Text)
  | list (broken : Bool) (items : List Laid)

namespace Laid

mutual

def sexp : Laid → Sexp
  | .atom text => .atom text
  | .list _ items => .list (sexps items)

def sexps : List Laid → List Sexp
  | [] => []
  | item :: items => sexp item :: sexps items

end

/-- What stands between the items of a list with `level` lists around them. -/
def separator (broken : Bool) (level : Nat) : Piece := if broken then .newline (2 * level) else .space

theorem separator_isBlank (broken : Bool) (level : Nat) :
    (separator broken level).chars ≠ [] ∧
      ∀ c ∈ (separator broken level).chars, Text.isBlank c = true := by
  cases broken <;> simp [separator, Piece.chars, Text.isBlank]

theorem joined_separator (broken : Bool) (level : Nat) :
    (separator broken level).joined = .space := by
  cases broken <;> rfl

mutual

/-- The pieces of an expression with `level` lists around it. -/
def pieces (level : Nat) : Laid → List Piece
  | .atom text => [.text (Atom.written text)]
  | .list broken items =>
      .text ['('] :: (piecesAll (separator broken (level + 1)) (level + 1) items ++ [.text [')']])

def piecesAll (between : Piece) (level : Nat) : List Laid → List Piece
  | [] => []
  | [item] => pieces level item
  | item :: next :: items =>
      pieces level item ++ between :: piecesAll between level (next :: items)

end

theorem piecesAll_cons (between : Piece) (level : Nat) (l : Laid) {ls : List Laid} (h : ls ≠ []) :
    piecesAll between level (l :: ls) =
      l.pieces level ++ between :: piecesAll between level ls := by
  cases ls with
  | nil => exact absurd rfl h
  | cons next ls => rfl

mutual

def isWhole : Laid → Bool
  | .atom _ => true
  | .list broken items => !broken && areWhole items

def areWhole : List Laid → Bool
  | [] => true
  | item :: items => isWhole item && areWhole items

end

mutual

/-- No list is broken inside a whole one of two items or more. -/
def isOrderly : Laid → Bool
  | .atom _ => true
  | .list broken items => (broken || items.length < 2 || areWhole items) && areOrderly items

def areOrderly : List Laid → Bool
  | [] => true
  | item :: items => isOrderly item && areOrderly items

end

mutual

def whole : Sexp → Laid
  | .atom text => .atom text
  | .list items => .list false (wholes items)

def wholes : List Sexp → List Laid
  | [] => []
  | item :: items => whole item :: wholes items

end

mutual

theorem sexp_whole : (e : Sexp) → (whole e).sexp = e
  | .atom _ => rfl
  | .list items => by
      have hitems := sexps_wholes items
      rw [whole, sexp, hitems]

theorem sexps_wholes : (items : List Sexp) → sexps (wholes items) = items
  | [] => rfl
  | item :: items => by
      have hitem := sexp_whole item
      have hitems := sexps_wholes items
      rw [wholes, sexps, hitem, hitems]

end

mutual

theorem pieces_whole (level : Nat) : (e : Sexp) → (whole e).pieces level = e.oneLine
  | .atom _ => rfl
  | .list items => by
      have hitems := piecesAll_wholes (level + 1) items
      rw [Sexp.oneLine, ← hitems]
      rfl

theorem piecesAll_wholes (level : Nat) :
    (items : List Sexp) → piecesAll .space level (wholes items) = Sexp.oneLineAll items
  | [] => rfl
  | [item] => pieces_whole level item
  | item :: next :: items => by
      have hitem := pieces_whole level item
      have hitems := piecesAll_wholes level (next :: items)
      rw [Sexp.oneLineAll, ← hitem, ← hitems]
      rfl

end

mutual

theorem isWhole_whole : (e : Sexp) → (whole e).isWhole = true
  | .atom _ => rfl
  | .list items => areWhole_wholes items

theorem areWhole_wholes : (items : List Sexp) → areWhole (wholes items) = true
  | [] => rfl
  | item :: items => by
      have hitem := isWhole_whole item
      have hitems := areWhole_wholes items
      rw [wholes, areWhole, hitem, hitems, Bool.and_self]

end

mutual

theorem isOrderly_of_isWhole : (l : Laid) → l.isWhole = true → l.isOrderly = true
  | .atom _, _ => rfl
  | .list broken items, h => by
      rw [isWhole, Bool.and_eq_true] at h
      have hitems := areOrderly_of_areWhole items h.2
      rw [isOrderly, h.2, hitems, Bool.or_true, Bool.and_self]

theorem areOrderly_of_areWhole : (ls : List Laid) → areWhole ls = true → areOrderly ls = true
  | [], _ => rfl
  | l :: ls, h => by
      rw [areWhole, Bool.and_eq_true] at h
      have hl := isOrderly_of_isWhole l h.1
      have hls := areOrderly_of_areWhole ls h.2
      rw [areOrderly, hl, hls, Bool.and_self]

end

mutual

theorem map_joined_pieces (level : Nat) :
    (l : Laid) → (l.pieces level).map Piece.joined = l.sexp.oneLine
  | .atom _ => rfl
  | .list broken items => by
      have hitems := map_joined_piecesAll (separator broken (level + 1)) (joined_separator _ _)
        (level + 1) items
      rw [pieces, List.map_cons, List.map_append, hitems, sexp, Sexp.oneLine]
      rfl

theorem map_joined_piecesAll (between : Piece) (hbetween : between.joined = .space) (level : Nat) :
    (ls : List Laid) → (piecesAll between level ls).map Piece.joined = Sexp.oneLineAll (sexps ls)
  | [] => rfl
  | [l] => map_joined_pieces level l
  | l :: next :: ls => by
      have hl := map_joined_pieces level l
      have hls := map_joined_piecesAll between hbetween level (next :: ls)
      rw [piecesAll, List.map_append, List.map_cons, hl, hls, hbetween]
      rfl

end

end Laid

end Sexpand
