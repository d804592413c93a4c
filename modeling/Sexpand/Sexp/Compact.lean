import Sexpand.Sexp.Atom
import Sexpand.Sexp.Basic

namespace Sexpand

/-- A line being written, with the newest character first. -/
structure Line where
  chars : Text
  needsSpace : Bool
  deriving DecidableEq

namespace Line

def empty : Line := ⟨[], false⟩

def spaced (line : Line) : Text := if line.needsSpace then ' ' :: line.chars else line.chars

mutual

def add (line : Line) : Sexp → Line
  | .atom text => ⟨(Atom.written text).reverseAux line.spaced, true⟩
  | .list items => ⟨')' :: (addAll ⟨'(' :: line.spaced, false⟩ items).chars, true⟩

def addAll (line : Line) : List Sexp → Line
  | [] => line
  | item :: items => addAll (add line item) items

end

end Line

namespace Sexp

def compactAll (items : List Sexp) : Text := (Line.empty.addAll items).chars.reverse

def compact (e : Sexp) : Text := (Line.empty.add e).chars.reverse

end Sexp

end Sexpand
