namespace Sexpand

abbrev Text := List Char

namespace Text

/-- The number of bytes that the text takes in UTF-8. All offsets count these. -/
def size (t : Text) : Nat := t.foldr (fun c n => c.utf8Size + n) 0

@[simp]
theorem size_nil : size [] = 0 := rfl

@[simp]
theorem size_cons (c : Char) (t : Text) : size (c :: t) = c.utf8Size + size t := rfl

@[simp]
theorem size_append (s t : Text) : size (s ++ t) = size s + size t := by
  induction s with
  | nil => simp
  | cons c s ih => rw [List.cons_append, size_cons, ih, size_cons, Nat.add_assoc]

theorem length_le_size (t : Text) : t.length ≤ size t := by
  induction t with
  | nil => simp
  | cons c t ih =>
      have hc := Char.utf8Size_pos c
      simp only [List.length_cons, size_cons]
      omega

theorem size_pos {t : Text} (h : t ≠ []) : 0 < size t := by
  have hl := length_le_size t
  have hp := List.length_pos_iff.2 h
  omega

def dropBytes? : Nat → Text → Option Text
  | 0, t => some t
  | _ + 1, [] => none
  | n + 1, c :: t => if c.utf8Size ≤ n + 1 then dropBytes? (n + 1 - c.utf8Size) t else none

theorem dropBytes?_eq_some_iff {n : Nat} {t u : Text} :
    dropBytes? n t = some u ↔ ∃ s, t = s ++ u ∧ size s = n := by
  induction t generalizing n with
  | nil =>
      cases n with
      | zero =>
          simp only [dropBytes?, Option.some.injEq]
          constructor
          · rintro rfl
            exact ⟨[], rfl, rfl⟩
          · rintro ⟨s, hs, _⟩
            exact (List.append_eq_nil_iff.1 hs.symm).2.symm
      | succ n => simp +contextual [dropBytes?]
  | cons c t ih =>
      cases n with
      | zero =>
          constructor
          · intro h
            exact ⟨[], by simpa [dropBytes?] using h, rfl⟩
          · rintro ⟨s, hs, h0⟩
            cases s with
            | nil => simpa [dropBytes?] using hs
            | cons a s =>
                have ha := Char.utf8Size_pos a
                simp only [size_cons] at h0
                omega
      | succ n =>
          simp only [dropBytes?]
          split
          · rename_i hc
            rw [ih]
            constructor
            · rintro ⟨s, rfl, hs⟩
              exact ⟨c :: s, rfl, by simp only [size_cons]; omega⟩
            · rintro ⟨s, hs, hn⟩
              cases s with
              | nil => simp at hn
              | cons a s =>
                  simp only [List.cons_append, List.cons.injEq] at hs
                  obtain ⟨rfl, rfl⟩ := hs
                  simp only [size_cons] at hn
                  exact ⟨s, rfl, by omega⟩
          · rename_i hc
            simp only [reduceCtorEq, false_iff]
            rintro ⟨s, hs, hn⟩
            cases s with
            | nil => simp at hn
            | cons a s =>
                simp only [List.cons_append, List.cons.injEq] at hs
                obtain ⟨rfl, rfl⟩ := hs
                simp only [size_cons] at hn
                omega

/-- Cuts the text at the first `stop`, which is dropped. Without one, all of it is taken. -/
def cutAt (stop : Char) (t : Text) : Text × Option Text :=
  match t.dropWhile (· ≠ stop) with
  | [] => (t, none)
  | _ :: rest => (t.takeWhile (· ≠ stop), some rest)

theorem fst_cutAt (stop : Char) (t : Text) : (cutAt stop t).1 = t.takeWhile (· ≠ stop) := by
  have ht := List.takeWhile_append_dropWhile (p := (· ≠ stop)) (l := t)
  unfold cutAt
  split
  · rename_i hd
    rw [hd, List.append_nil] at ht
    exact ht.symm
  · rfl

theorem eq_append_of_cutAt {stop : Char} {t taken rest : Text}
    (h : cutAt stop t = (taken, some rest)) : t = taken ++ stop :: rest := by
  have ht := List.takeWhile_append_dropWhile (p := (· ≠ stop)) (l := t)
  unfold cutAt at h
  split at h
  · simp at h
  · rename_i c r hd
    simp only [Prod.mk.injEq, Option.some.injEq] at h
    obtain ⟨rfl, rfl⟩ := h
    have hc := List.head?_dropWhile_not (· ≠ stop) t
    rw [hd] at ht hc
    have hs : c = stop := by simpa using hc
    rw [← hs]
    rw [← hs] at ht
    exact ht.symm

theorem eq_of_cutAt {stop : Char} {t taken : Text} (h : cutAt stop t = (taken, none)) :
    t = taken := by
  unfold cutAt at h
  split at h <;> simp_all

end Text

end Sexpand
