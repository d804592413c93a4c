import Sexpand.Proofs.Layout.Plan

namespace Sexpand

open Layout (Piece chars)

/-- A text in which the expressions stand one after another, with blanks between them. Blanks may
also stand in front of the first one, and do if `apart` is true. -/
inductive Spells : (apart : Bool) → List Sexp → Text → Prop
  | nil (apart : Bool) : Spells apart [] []
  | atom {apart : Bool} {gap t u : Text} {others : List Sexp}
      (hgap : ∀ c ∈ gap, Text.isBlank c = true) (hapart : apart = true → gap ≠ [])
      (hu : Spells true others u) :
      Spells apart (.atom t :: others) (gap ++ (Atom.written t ++ u))
  | list {apart : Bool} {gap t u : Text} {items others : List Sexp}
      (hgap : ∀ c ∈ gap, Text.isBlank c = true) (hapart : apart = true → gap ≠ [])
      (ht : Spells false items t) (hu : Spells true others u) :
      Spells apart (.list items :: others) (gap ++ ('(' :: (t ++ ')' :: u)))

namespace Spells

theorem gap_append {apart : Bool} {e : Sexp} {others : List Sexp} {gap t : Text}
    (h : Spells false (e :: others) t) (hgap : ∀ c ∈ gap, Text.isBlank c = true)
    (hapart : apart = true → gap ≠ []) : Spells apart (e :: others) (gap ++ t) := by
  have hne : ∀ inner : Text, apart = true → gap ++ inner ≠ [] := fun inner ha =>
    List.append_ne_nil_of_left_ne_nil (hapart ha) inner
  cases h with
  | atom hinner _ hu =>
      rw [← List.append_assoc]
      exact .atom (List.forall_mem_append.2 ⟨hgap, hinner⟩) (hne _) hu
  | list hinner _ ht hu =>
      rw [← List.append_assoc]
      exact .list (List.forall_mem_append.2 ⟨hgap, hinner⟩) (hne _) ht hu

theorem append {apart : Bool} {e : Sexp} {others : List Sexp} {t u : Text}
    (h : Spells apart [e] t) (hu : Spells true others u) : Spells apart (e :: others) (t ++ u) := by
  cases h with
  | atom hgap hapart hnil =>
      cases hnil with
      | nil =>
          rw [List.append_nil, List.append_assoc]
          exact .atom hgap hapart hu
  | list hgap hapart ht hnil =>
      cases hnil with
      | nil =>
          rw [List.append_assoc, List.cons_append, List.append_assoc, List.singleton_append]
          exact .list hgap hapart ht hu

theorem atom_written (t : Text) : Spells false [.atom t] (Atom.written t) := by
  have h : Spells false [.atom t] ([] ++ (Atom.written t ++ [])) :=
    .atom (by simp) (by simp) (.nil true)
  rwa [List.append_nil] at h

theorem list_of_items {items : List Sexp} {t : Text} (h : Spells false items t) :
    Spells false [.list items] ([] ++ '(' :: (t ++ [')'])) :=
  .list (by simp) (by simp) h (.nil true)

end Spells

namespace Laid

mutual

/-- The lines that a layout breaks are blanks like any other. -/
theorem spells (level : Nat) : (l : Laid) → Spells false [l.sexp] (chars (l.pieces level))
  | .atom text => by
      rw [sexp, pieces, Layout.chars_cons]
      simpa [chars, Piece.chars] using Spells.atom_written text
  | .list broken items => by
      have hitems := spellsAll (separator broken (level + 1)) (separator_isBlank _ _) (level + 1) items
      rw [sexp, pieces, Layout.chars_cons, Layout.chars_append]
      simpa [chars, Piece.chars] using Spells.list_of_items hitems

theorem spellsAll (between : Piece)
    (hbetween : between.chars ≠ [] ∧ ∀ c ∈ between.chars, Text.isBlank c = true) (level : Nat) :
    (ls : List Laid) → Spells false (sexps ls) (chars (piecesAll between level ls))
  | [] => .nil false
  | [l] => spells level l
  | l :: next :: ls => by
      have hl := spells level l
      have hls := spellsAll between hbetween level (next :: ls)
      rw [piecesAll, Layout.chars_append, Layout.chars_cons]
      exact hl.append (hls.gap_append hbetween.2 fun _ => hbetween.1)

end

end Laid

namespace Sexp

theorem spells_pretty (width : Nat) (e : Sexp) : Spells false [e] (e.pretty width) := by
  have h := (Laid.plan width 0 0 0 e).spells 0
  rwa [Laid.sexp_plan, ← pretty_eq] at h

theorem spells_compact (e : Sexp) : Spells false [e] e.compact := by
  have h := (Laid.whole e).spells 0
  rwa [Laid.sexp_whole, Laid.pieces_whole, ← compact_eq] at h

end Sexp

end Sexpand
