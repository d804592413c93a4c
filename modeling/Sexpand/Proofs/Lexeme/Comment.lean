import Sexpand.Proofs.Sexp.Resumption

namespace Sexpand

namespace Lexeme

def isComment : Lexeme → Bool
  | .comment _ _ => true
  | _ => false

theorem token?_eq_none_iff {lexeme : Lexeme} : lexeme.token? = none ↔ lexeme.isComment = true := by
  cases lexeme <;> simp [token?, isComment]

theorem ofText_nil : ofText [] = [] := by
  rw [ofText, Placed.lexemes_of_none rfl]
  rfl

theorem ofText_of_next? {source rest : Text} {lexeme : Lexeme}
    (h : next? source = some (lexeme, rest)) : ofText source = lexeme :: ofText rest := by
  rw [ofText, Placed.lexemes_of_next? h, ofText, ← Nat.add_zero (0 + _), Placed.lexemes_shift,
    List.map_cons, List.map_map]
  rfl

def dropComments (lexemes : List Lexeme) : List Lexeme :=
  lexemes.filter fun lexeme => !lexeme.isComment

theorem dropComments_append (xs ys : List Lexeme) :
    dropComments (xs ++ ys) = dropComments xs ++ dropComments ys :=
  List.filter_append ..

theorem dropComments_comment {lexeme : Lexeme} (h : lexeme.isComment = true) :
    dropComments [lexeme] = [] := by
  simp [dropComments, h]

theorem dropComments_token {lexeme : Lexeme} (h : lexeme.isComment = false) :
    dropComments [lexeme] = [lexeme] := by
  simp [dropComments, h]

end Lexeme

open Lexeme (Splits slices dropComments)

namespace Text

/-- What is left of the source when its comments are deleted. -/
def withoutComments (source : Text) : Text := slices (dropComments (Lexeme.ofText source))

theorem withoutComments_nil : withoutComments [] = [] := by
  rw [withoutComments, Lexeme.ofText_nil]
  rfl

variable {source rest : Text} {lexeme : Lexeme}

theorem withoutComments_of_comment (h : Lexeme.next? source = some (lexeme, rest))
    (hcomment : lexeme.isComment = true) : withoutComments source = withoutComments rest := by
  rw [withoutComments, Lexeme.ofText_of_next? h, ← List.singleton_append,
    Lexeme.dropComments_append, Lexeme.dropComments_comment hcomment]
  rfl

theorem withoutComments_of_token (h : Lexeme.next? source = some (lexeme, rest))
    (htoken : lexeme.isComment = false) :
    withoutComments source = lexeme.slice ++ withoutComments rest := by
  rw [withoutComments, Lexeme.ofText_of_next? h, ← List.singleton_append,
    Lexeme.dropComments_append, Lexeme.dropComments_token htoken, Lexeme.slices_append,
    Lexeme.slices_singleton]
  rfl

end Text

namespace Placed

/-- How many bytes the comments take that end at the offset or before it. -/
def commentSize (offset : Nat) (ps : List Placed) : Nat :=
  Text.size (slices ((ps.filter fun p => p.lexeme.isComment && p.stop ≤ offset).map lexeme))

theorem lt_stop_of_mem_lexemes {start : Nat} {source : Text} {p : Placed}
    (h : p ∈ lexemes start source) : start < p.stop := by
  induction source using Lexeme.sourceInduction generalizing start with
  | nil =>
      rw [lexemes_of_none rfl] at h
      cases h
  | cons source lexeme rest hnext ih =>
      have hpos := Text.size_pos lexeme.slice_ne_nil
      rw [lexemes_of_next? hnext] at h
      rcases List.mem_cons.1 h with rfl | h
      · exact Nat.lt_add_of_pos_right hpos
      · have hlt := ih h
        omega

theorem commentSize_lexemes (start : Nat) (source : Text) :
    commentSize start (lexemes start source) = 0 := by
  have hnone :
      ((lexemes start source).filter fun p => p.lexeme.isComment && p.stop ≤ start) = [] := by
    rw [List.filter_eq_nil_iff]
    intro p hp
    have hlt := lt_stop_of_mem_lexemes hp
    simp [Nat.not_le.2 hlt]
  rw [commentSize, hnone]
  rfl

theorem commentSize_cons_of_le {p : Placed} {offset : Nat} (h : p.stop ≤ offset) (ps : List Placed) :
    commentSize offset (p :: ps) =
      (if p.lexeme.isComment then Text.size p.lexeme.slice else 0) + commentSize offset ps := by
  cases hcomment : p.lexeme.isComment with
  | true => simp [commentSize, hcomment, h, Lexeme.slices_cons]
  | false => simp [commentSize, hcomment]

end Placed

namespace Lexeme

/-- The comments before the end of a lexeme make up the difference to the text without them. -/
theorem Splits.size_dropComments_add {source rest : Text} {read : List Lexeme}
    (h : Splits source read rest) (start : Nat) :
    Text.size (slices (dropComments read)) +
        Placed.commentSize (start + Text.size (slices read)) (Placed.lexemes start source) =
      Text.size (slices read) := by
  induction h generalizing start with
  | nil rest => exact (Nat.zero_add _).trans (Placed.commentSize_lexemes start rest)
  | @cons source middle rest lexeme read hnext h ih =>
      have hread := ih (start + Text.size lexeme.slice)
      have hstop : Placed.stop ⟨lexeme, start⟩ ≤ start + Text.size lexeme.slice +
          Text.size (slices read) := Nat.le_add_right _ _
      rw [Placed.lexemes_of_next? hnext, slices_cons, Text.size_append, ← Nat.add_assoc,
        Placed.commentSize_cons_of_le hstop, ← List.singleton_append,
        dropComments_append, slices_append, Text.size_append]
      cases hcomment : lexeme.isComment with
      | true =>
          rw [dropComments_comment hcomment, if_pos rfl]
          change 0 + _ + (Text.size lexeme.slice + _) = _
          omega
      | false =>
          rw [dropComments_token hcomment, slices_singleton, if_neg Bool.false_ne_true]
          omega

end Lexeme

end Sexpand
