import Sexpand.Text.Basic

namespace Sexpand.Text

/-- The brackets that have to be closed after one more character, the next one to close first. There
are none to tell if the character closes anything but that one. -/
def await (awaited : Text) (c : Char) : Option Text :=
  if c = '(' then some (')' :: awaited)
  else if c = '{' then some ('}' :: awaited)
  else if c = ')' ∨ c = '}' then
    if awaited.head? = some c then some awaited.tail else none
  else some awaited

/-- The brackets that the text leaves to be closed, if it closes none that it has not opened. -/
def awaited? (t : Text) : Option Text := t.foldlM await []

def IsBalanced (t : Text) : Prop := t.awaited? = some []

instance (t : Text) : Decidable t.IsBalanced :=
  inferInstanceAs (Decidable (_ = some []))

theorem await_append {inner inner' : Text} {c : Char} (h : await inner c = some inner')
    (outer : Text) : await (inner ++ outer) c = some (inner' ++ outer) := by
  unfold await at h ⊢
  by_cases hround : c = '('
  · rw [if_pos hround] at h ⊢
    obtain rfl := Option.some.inj h
    rfl
  rw [if_neg hround] at h ⊢
  by_cases hcurly : c = '{'
  · rw [if_pos hcurly] at h ⊢
    obtain rfl := Option.some.inj h
    rfl
  rw [if_neg hcurly] at h ⊢
  by_cases hclose : c = ')' ∨ c = '}'
  · rw [if_pos hclose] at h ⊢
    cases inner with
    | nil => simp at h
    | cons a inner => simpa using h
  · rw [if_neg hclose] at h ⊢
    obtain rfl := Option.some.inj h
    rfl

/-- What is open around a text does not matter to what is opened and closed in it. -/
theorem foldlM_await_append {t inner inner' : Text} (h : t.foldlM await inner = some inner')
    (outer : Text) : t.foldlM await (inner ++ outer) = some (inner' ++ outer) := by
  induction t generalizing inner with
  | nil =>
      obtain rfl := Option.some.inj h
      rfl
  | cons c t ih =>
      rw [List.foldlM_cons] at h ⊢
      obtain ⟨next, hnext, ht⟩ := Option.bind_eq_some_iff.1 h
      rw [await_append hnext]
      exact ih ht

theorem awaited?_ne_none_of_isPrefix {front t : Text} (h : front <+: t) (ht : t.awaited? ≠ none) :
    front.awaited? ≠ none := by
  obtain ⟨back, rfl⟩ := h
  intro hfront
  apply ht
  rw [awaited?, List.foldlM_append, show front.foldlM await [] = none from hfront]
  rfl

namespace IsBalanced

variable {s t : Text}

theorem foldlM_await (h : t.IsBalanced) (outer : Text) : t.foldlM await outer = some outer :=
  foldlM_await_append h outer

theorem nil : IsBalanced [] := rfl

theorem append (hs : s.IsBalanced) (ht : t.IsBalanced) : (s ++ t).IsBalanced := by
  rw [IsBalanced, awaited?, List.foldlM_append, hs.foldlM_await]
  exact ht

theorem flatMap {α : Type} {xs : List α} {f : α → Text} (h : ∀ x ∈ xs, (f x).IsBalanced) :
    IsBalanced (xs.flatMap f) := by
  induction xs with
  | nil => exact nil
  | cons x xs ih =>
      obtain ⟨hx, hxs⟩ := List.forall_mem_cons.1 h
      rw [List.flatMap_cons]
      exact hx.append (ih hxs)

theorem enclosed {front back : Text} {bracket : Char} (hfront : front.awaited? = some [bracket])
    (ht : t.IsBalanced) (hback : back.foldlM await [bracket] = some []) :
    (front ++ (t ++ back)).IsBalanced := by
  rw [IsBalanced, awaited?, List.foldlM_append, show front.foldlM await [] = _ from hfront]
  change (t ++ back).foldlM await [bracket] = some []
  rw [List.foldlM_append, ht.foldlM_await]
  exact hback

end IsBalanced

end Sexpand.Text
