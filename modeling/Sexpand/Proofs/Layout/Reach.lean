import Sexpand.Layout.Doc

namespace Sexpand

namespace Layout

def chars (ps : List Piece) : Text := ps.flatMap Piece.chars

theorem chars_cons (p : Piece) (ps : List Piece) : chars (p :: ps) = p.chars ++ chars ps :=
  List.flatMap_cons

theorem chars_append (ps qs : List Piece) : chars (ps ++ qs) = chars ps ++ chars qs :=
  List.flatMap_append

/-- The piece where no line is broken. -/
def Piece.joined : Piece → Piece
  | .newline _ => .space
  | piece => piece

def Piece.columns : Piece → Nat
  | .text content => Text.width content
  | .space => 1
  | .newline indent => indent

def columns : List Piece → Nat
  | [] => 0
  | p :: ps => p.columns + columns ps

@[simp]
theorem columns_nil : columns [] = 0 := rfl

@[simp]
theorem columns_cons (p : Piece) (ps : List Piece) : columns (p :: ps) = p.columns + columns ps := rfl

@[simp]
theorem columns_append (ps qs : List Piece) : columns (ps ++ qs) = columns ps + columns qs := by
  induction ps with
  | nil => exact (Nat.zero_add _).symm
  | cons p ps ih => rw [List.cons_append, columns_cons, ih, columns_cons, Nat.add_assoc]

end Layout

open Layout

namespace Doc

/-- The pieces of the document if none of its lines is broken. -/
def whole : Doc → List Piece
  | .nil => []
  | .text content => [.text content]
  | .line => [.space]
  | .append first second => first.whole ++ second.whole
  | .nest _ body => body.whole
  | .group body => body.whole

/-- The columns up to the next broken line, if `ahead` is their number from the end of the document
on. -/
def reach (flat : Bool) (ahead : Nat) : Doc → Nat
  | .nil => ahead
  | .text content => Text.width content + ahead
  | .line => if flat then 1 + ahead else 0
  | .append first second => first.reach flat (second.reach flat ahead)
  | .nest _ body => body.reach flat ahead
  | .group body => body.reach flat ahead

theorem reach_true (d : Doc) (ahead : Nat) : d.reach true ahead = columns d.whole + ahead := by
  induction d generalizing ahead with
  | nil => exact (Nat.zero_add ahead).symm
  | text content => rfl
  | line => rfl
  | append first second ih ih' => rw [reach, ih, ih', whole, columns_append, Nat.add_assoc]
  | nest more body ih => exact ih ahead
  | group body ih => exact ih ahead

end Doc

namespace Layout

/-- The columns up to the next broken line, where no group is laid out yet. -/
def reach : List Frame → Nat
  | [] => 0
  | f :: frames => f.doc.reach f.flat (reach frames)

theorem fits_of_le {width column : Nat} {frames : List Frame} (h : column + reach frames ≤ width) :
    fits width column frames = true := by
  fun_induction fits width column frames with
  | case1 => rfl
  | case2 | case5 | case6 | case7 =>
      rename_i ih
      exact ih h
  | case3 column indent flat frames content column' ih =>
      have hnext : column + (Text.width content + reach frames) ≤ width := h
      have hrest := ih (by omega)
      simp only [Bool.and_eq_true, decide_eq_true_eq]
      exact ⟨by omega, hrest⟩
  | case4 column indent flat frames ih =>
      cases flat with
      | false => rfl
      | true =>
          have hnext : column + (1 + reach frames) ≤ width := h
          have hrest := ih (by omega)
          simp only [Bool.not_true, Bool.false_or, Bool.and_eq_true, decide_eq_true_eq]
          exact ⟨by omega, hrest⟩

theorem le_of_fits {width column : Nat} {frames : List Frame}
    (h : fits width column frames = true) (hpos : 0 < reach frames) :
    column + reach frames ≤ width := by
  fun_induction fits width column frames with
  | case1 => exact absurd hpos (Nat.lt_irrefl 0)
  | case2 | case5 | case6 | case7 =>
      rename_i ih
      exact ih h hpos
  | case3 column indent flat frames content column' ih =>
      simp only [Bool.and_eq_true, decide_eq_true_eq] at h
      change column + (Text.width content + reach frames) ≤ width
      by_cases hrest : 0 < reach frames
      · have hle := ih h.2 hrest
        omega
      · omega
  | case4 column indent flat frames ih =>
      cases flat with
      | false => exact absurd hpos (Nat.lt_irrefl 0)
      | true =>
          simp only [Bool.not_true, Bool.false_or, Bool.and_eq_true, decide_eq_true_eq] at h
          change column + (1 + reach frames) ≤ width
          by_cases hrest : 0 < reach frames
          · have hle := ih h.2 hrest
            omega
          · omega

theorem fits_iff {width column : Nat} {frames : List Frame} (hpos : 0 < reach frames) :
    fits width column frames = true ↔ column + reach frames ≤ width :=
  ⟨fun h => le_of_fits h hpos, fits_of_le⟩

section Pieces

variable (width column indent : Nat) (flat : Bool) (frames : List Frame)

theorem pieces_text (content : Text) :
    pieces width column (⟨indent, flat, .text content⟩ :: frames) =
      .text content :: pieces width (column + Text.width content) frames := by
  rw [pieces]

theorem pieces_append (first second : Doc) :
    pieces width column (⟨indent, flat, .append first second⟩ :: frames) =
      pieces width column (⟨indent, flat, first⟩ :: ⟨indent, flat, second⟩ :: frames) := by
  rw [pieces]

theorem pieces_line :
    pieces width column (⟨indent, false, .line⟩ :: frames) =
      .newline indent :: pieces width indent frames := by
  rw [pieces]
  rfl

theorem pieces_flat (d : Doc) :
    pieces width column (⟨indent, true, d⟩ :: frames) =
      d.whole ++ pieces width (column + columns d.whole) frames := by
  induction d generalizing column indent frames with
  | nil =>
      rw [pieces]
      rfl
  | text content =>
      rw [pieces_text]
      rfl
  | line =>
      rw [pieces]
      rfl
  | append first second ih ih' =>
      rw [pieces_append, ih, ih', Doc.whole, columns_append, List.append_assoc, Nat.add_assoc]
  | nest more body ih =>
      rw [pieces]
      exact ih column (indent + more) frames
  | group body ih =>
      rw [pieces, Bool.true_or]
      exact ih column indent frames

/-- A group in front of other text keeps its lines whole if all up to the next broken line ends
within the width, and else breaks those that are in no group of its own. -/
theorem pieces_group_nest (more : Nat) (body : Doc) (hpos : 0 < reach frames) :
    pieces width column (⟨indent, false, .group (.nest more body)⟩ :: frames) =
      if column + (columns body.whole + reach frames) ≤ width then
        body.whole ++ pieces width (column + columns body.whole) frames
      else pieces width column (⟨indent + more, false, body⟩ :: frames) := by
  have hreach : reach (⟨indent, true, .nest more body⟩ :: frames) =
      columns body.whole + reach frames := Doc.reach_true (.nest more body) (reach frames)
  have hfits := @fits_iff width column (⟨indent, true, .nest more body⟩ :: frames) (by omega)
  rw [hreach] at hfits
  rw [pieces]
  split
  · rename_i hle
    rw [hfits.2 hle, Bool.false_or, pieces_flat]
    rfl
  · rename_i hle
    rw [Bool.eq_false_iff.2 (mt hfits.1 hle), Bool.false_or, pieces]

end Pieces

end Layout

end Sexpand
