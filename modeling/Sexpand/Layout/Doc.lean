import Sexpand.Text.Width

namespace Sexpand

/-- A document whose lines can be broken or not. All the lines of a group are broken, or none. -/
inductive Doc
  | nil
  | text (content : Text)
  | line
  | append (first second : Doc)
  | nest (indent : Nat) (body : Doc)
  | group (body : Doc)
  deriving DecidableEq

namespace Doc

def join (separator : Doc) : List Doc → Doc
  | [] => .nil
  | [d] => d
  | d :: ds => .append d (.append separator (join separator ds))

def weight : Doc → Nat
  | .nil => 1
  | .text _ => 1
  | .line => 1
  | .append first second => weight first + weight second + 1
  | .nest _ body => weight body + 1
  | .group body => weight body + 1

end Doc

namespace Layout

structure Frame where
  indent : Nat
  flat : Bool
  doc : Doc
  deriving DecidableEq

inductive Piece
  | text (content : Text)
  | space
  | newline (indent : Nat)
  deriving DecidableEq

def Piece.chars : Piece → Text
  | .text content => content
  | .space => [' ']
  | .newline indent => '\n' :: List.replicate indent ' '

def weight : List Frame → Nat
  | [] => 0
  | f :: frames => f.doc.weight + weight frames

@[simp]
theorem weight_cons (f : Frame) (frames : List Frame) :
    weight (f :: frames) = f.doc.weight + weight frames := rfl

def fits (width column : Nat) : List Frame → Bool
  | [] => true
  | ⟨indent, flat, d⟩ :: frames =>
      match d with
      | .nil => fits width column frames
      | .text content =>
          let column := column + Text.width content
          column ≤ width && fits width column frames
      | .line => !flat || column + 1 ≤ width && fits width (column + 1) frames
      | .append first second =>
          fits width column (⟨indent, flat, first⟩ :: ⟨indent, flat, second⟩ :: frames)
      | .nest more body => fits width column (⟨indent + more, flat, body⟩ :: frames)
      | .group body => fits width column (⟨indent, flat, body⟩ :: frames)
termination_by frames => weight frames
decreasing_by
  all_goals simp only [weight_cons, Doc.weight]
  all_goals omega

/-- Lays the frames out from a column on. A group keeps its lines whole where it fits with what
follows it up to the next broken line. -/
def pieces (width column : Nat) : List Frame → List Piece
  | [] => []
  | ⟨indent, flat, d⟩ :: frames =>
      match d with
      | .nil => pieces width column frames
      | .text content => .text content :: pieces width (column + Text.width content) frames
      | .line =>
          if flat then .space :: pieces width (column + 1) frames
          else .newline indent :: pieces width indent frames
      | .append first second =>
          pieces width column (⟨indent, flat, first⟩ :: ⟨indent, flat, second⟩ :: frames)
      | .nest more body => pieces width column (⟨indent + more, flat, body⟩ :: frames)
      | .group body =>
          pieces width column
            (⟨indent, flat || fits width column (⟨indent, true, body⟩ :: frames), body⟩ :: frames)
termination_by frames => weight frames
decreasing_by
  all_goals simp only [weight_cons, Doc.weight]
  all_goals omega

end Layout

namespace Doc

def layout (width : Nat) (d : Doc) : List Layout.Piece := Layout.pieces width 0 [⟨0, false, d⟩]

def render (width : Nat) (d : Doc) : Text := (d.layout width).flatMap Layout.Piece.chars

end Doc

end Sexpand
