import Sexpand.Lexeme.Basic

namespace Sexpand.Atom

def isPlain (text : Text) : Bool :=
  match Lexeme.next? text with
  | some (.bare _ _, []) => true
  | some (.quoted _ closed, []) => closed
  | _ => false

/-- The atom as it stands in a source. Braces hold what would not be read as one atom without
them. -/
def written (text : Text) : Text :=
  if isPlain text then text else '{' :: text ++ ['}']

theorem written_ne_nil (text : Text) : written text ≠ [] := by
  unfold written
  split
  · rintro rfl
    simp_all [isPlain, Lexeme.next?]
  · simp

end Sexpand.Atom
