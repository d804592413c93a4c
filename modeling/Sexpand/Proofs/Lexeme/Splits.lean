import Sexpand.Proofs.Sexp.TokenRun

namespace Sexpand

namespace Lexeme

/-- The source begins with the lexemes, one after another, and `rest` follows them. -/
inductive Splits : (source : Text) → List Lexeme → (rest : Text) → Prop
  | nil (rest : Text) : Splits rest [] rest
  | cons {source middle rest : Text} {lexeme : Lexeme} {lexemes : List Lexeme}
      (hnext : next? source = some (lexeme, middle)) (h : Splits middle lexemes rest) :
      Splits source (lexeme :: lexemes) rest

def slices (lexemes : List Lexeme) : Text := lexemes.flatMap slice

theorem slices_cons (lexeme : Lexeme) (lexemes : List Lexeme) :
    slices (lexeme :: lexemes) = lexeme.slice ++ slices lexemes :=
  List.flatMap_cons

theorem slices_append (xs ys : List Lexeme) : slices (xs ++ ys) = slices xs ++ slices ys :=
  List.flatMap_append

theorem slices_singleton (lexeme : Lexeme) : slices [lexeme] = lexeme.slice :=
  List.flatMap_singleton ..

theorem size_slices_concat (lexemes : List Lexeme) (lexeme : Lexeme) :
    Text.size (slices (lexemes ++ [lexeme])) = Text.size (slices lexemes) + Text.size lexeme.slice := by
  rw [slices_append, Text.size_append, slices_singleton]

theorem slices_eq_nil_iff {lexemes : List Lexeme} : slices lexemes = [] ↔ lexemes = [] := by
  cases lexemes with
  | nil => exact ⟨fun _ => rfl, fun _ => rfl⟩
  | cons lexeme lexemes => simp [slices, lexeme.slice_ne_nil]

theorem eq_nil_of_next?_eq_none {source : Text} (h : next? source = none) : source = [] := by
  unfold next? at h
  split at h
  · rfl
  all_goals first | simp at h | (split at h <;> simp at h)

/-- A source is empty, or a lexeme with a source after it. -/
theorem sourceInduction {motive : Text → Prop} (nil : motive [])
    (cons : ∀ source lexeme rest, next? source = some (lexeme, rest) → motive rest → motive source)
    (source : Text) : motive source := by
  induction hn : source.length using Nat.strongRecOn generalizing source with
  | ind n ih =>
      subst hn
      cases hnext : next? source with
      | none =>
          obtain rfl := eq_nil_of_next?_eq_none hnext
          exact nil
      | some next => exact cons source next.1 next.2 hnext (ih _ (length_lt_of_next? hnext) _ rfl)

def ofText (source : Text) : List Lexeme := (Placed.lexemes 0 source).map Placed.lexeme

namespace Splits

theorem single {source rest : Text} {lexeme : Lexeme} (h : next? source = some (lexeme, rest)) :
    Splits source [lexeme] rest :=
  .cons h (.nil rest)

theorem trans {source middle rest : Text} {xs ys : List Lexeme} (h : Splits source xs middle)
    (h' : Splits middle ys rest) : Splits source (xs ++ ys) rest := by
  induction h with
  | nil => exact h'
  | cons hnext _ ih => exact .cons hnext (ih h')

theorem source_eq {source rest : Text} {lexemes : List Lexeme} (h : Splits source lexemes rest) :
    source = slices lexemes ++ rest := by
  induction h with
  | nil => rfl
  | cons hnext _ ih =>
      rw [slices_cons, List.append_assoc, ← ih, slice_append_of_next? hnext]

theorem size_eq {source rest : Text} {lexemes : List Lexeme} (h : Splits source lexemes rest) :
    Text.size source = Text.size (slices lexemes) + Text.size rest := by
  rw [← Text.size_append, ← h.source_eq]

theorem map_lexemes {source rest : Text} {lexemes : List Lexeme} (h : Splits source lexemes rest)
    (start : Nat) :
    (Placed.lexemes start source).map Placed.lexeme =
      lexemes ++ (Placed.lexemes (start + Text.size (slices lexemes)) rest).map Placed.lexeme := by
  induction h generalizing start with
  | nil => rfl
  | @cons source middle rest lexeme lexemes hnext _ ih =>
      rw [Placed.lexemes_of_next? hnext, List.map_cons, ih, slices_cons, Text.size_append,
        Nat.add_assoc]
      rfl

theorem ofText_eq {source : Text} {lexemes : List Lexeme} (h : Splits source lexemes []) :
    ofText source = lexemes := by
  rw [ofText, h.map_lexemes, Placed.lexemes_of_none rfl, List.map_nil, List.append_nil]

/-- Comments in front of a text hide none of its tokens. -/
theorem ofTextAt_eq {source rest : Text} {comments : List Lexeme}
    (h : Splits source comments rest) (hcomments : ∀ lexeme ∈ comments, lexeme.token? = none)
    (start : Nat) :
    Token.ofTextAt start source = Token.ofTextAt (start + Text.size (slices comments)) rest := by
  induction h generalizing start with
  | nil => rfl
  | @cons source middle rest lexeme lexemes hnext _ ih =>
      obtain ⟨hlexeme, hothers⟩ := List.forall_mem_cons.1 hcomments
      rw [Token.ofTextAt_of_comment hnext hlexeme, ih hothers, slices_cons, Text.size_append,
        Nat.add_assoc]

end Splits

end Lexeme

end Sexpand
