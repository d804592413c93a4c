import Sexpand.Marker.Basic

namespace Sexpand

open Utf8 (Bytes)

/-- The longest prefix of the pattern that the bytes end with, by its length. -/
structure Overlap (pattern read : Bytes) (n : Nat) : Prop where
  le_length : n ≤ pattern.length
  take_suffix : pattern.take n <:+ read
  le_of_suffix : ∀ k, k ≤ pattern.length → pattern.take k <:+ read → k ≤ n

theorem take_succ_suffix_concat_iff {pattern read : Bytes} {k : Nat} {byte : UInt8}
    (hk : k < pattern.length) :
    pattern.take (k + 1) <:+ read ++ [byte] ↔ pattern.take k <:+ read ∧ pattern[k]? = some byte := by
  rw [List.take_succ_eq_append_getElem hk, List.getElem?_eq_getElem hk]
  constructor
  · rintro ⟨front, h⟩
    rw [← List.append_assoc] at h
    obtain ⟨hread, hbyte⟩ := List.append_inj' h rfl
    exact ⟨⟨front, hread⟩, by simpa using hbyte⟩
  · rintro ⟨⟨front, rfl⟩, hbyte⟩
    obtain rfl := Option.some.inj hbyte
    exact ⟨front, by simp⟩

namespace Overlap

theorem nil (pattern : Bytes) : Overlap pattern [] 0 where
  le_length := Nat.zero_le _
  take_suffix := by simp
  le_of_suffix k hk h := by
    have hl := h.length_le
    rw [List.length_take, Nat.min_eq_left hk] at hl
    exact hl

theorem eq_length_iff {pattern read : Bytes} {n : Nat} (h : Overlap pattern read n) :
    n = pattern.length ↔ pattern <:+ read := by
  constructor
  · rintro rfl
    simpa using h.take_suffix
  · intro hs
    exact Nat.le_antisymm h.le_length (h.le_of_suffix _ (Nat.le_refl _) (by simpa using hs))

end Overlap

namespace BorderTable

/-- The entries below `size` are the longest proper borders of the prefixes of the pattern. -/
def Agrees (pattern : Bytes) (size : Nat) (t : BorderTable) : Prop :=
  ∀ n, 0 < n → n < size → pattern.take (t.border n) <:+ pattern.take n ∧
    ∀ k, k < n → pattern.take k <:+ pattern.take n → k ≤ t.border n

/-- Walking down the borders of a match passes every shorter match that the byte can extend. -/
theorem advance_overlap {pattern read : Bytes} {t : BorderTable} {matched : Nat} {byte : UInt8}
    (ht : t.Agrees pattern (matched + 1)) (hle : matched ≤ pattern.length)
    (hs : pattern.take matched <:+ read)
    (hk : ∀ k, k < pattern.length → pattern.take (k + 1) <:+ read ++ [byte] → k ≤ matched) :
    Overlap pattern (read ++ [byte]) (t.advance pattern matched byte) := by
  fun_induction advance pattern t matched byte with
  | case1 matched hbyte =>
      obtain ⟨hlt, -⟩ := List.getElem?_eq_some_iff.1 hbyte
      refine ⟨hlt, (take_succ_suffix_concat_iff hlt).2 ⟨hs, hbyte⟩, ?_⟩
      intro k hkl hks
      cases k with
      | zero => omega
      | succ k => exact Nat.succ_le_succ (hk k hkl hks)
  | case2 matched hbyte hpos ih =>
      obtain ⟨hb, hbk⟩ := ht matched hpos (Nat.lt_succ_self _)
      have hlt := t.border_lt hpos
      apply ih (fun n h0 hn => ht n h0 (by omega)) (by omega) (hb.trans hs)
      intro k hkl hks
      obtain ⟨hkr, hkb⟩ := (take_succ_suffix_concat_iff hkl).1 hks
      have hne : k ≠ matched := fun he => hbyte (he ▸ hkb)
      have hkm : k < matched := Nat.lt_of_le_of_ne (hk k hkl hks) hne
      exact hbk k hkm (List.suffix_of_suffix_length_le hkr hs (by
        rw [List.length_take, List.length_take]; omega))
  | case3 matched hbyte hpos =>
      refine ⟨Nat.zero_le _, by simp, ?_⟩
      intro k hkl hks
      cases k with
      | zero => exact Nat.le_refl _
      | succ k =>
          obtain rfl : k = matched := by
            have h := hk k hkl hks
            omega
          exact absurd ((take_succ_suffix_concat_iff hkl).1 hks).2 hbyte

theorem overlap_advance {pattern read : Bytes} {t : BorderTable} {matched : Nat} (byte : UInt8)
    (ht : t.Agrees pattern (matched + 1)) (h : Overlap pattern read matched) :
    Overlap pattern (read ++ [byte]) (t.advance pattern matched byte) :=
  advance_overlap ht h.le_length h.take_suffix fun k hk hks =>
    h.le_of_suffix k (Nat.le_of_lt hk) ((take_succ_suffix_concat_iff hk).1 hks).1

theorem take_suffix_tail_iff {pattern : Bytes} {n k : Nat} (hk : k < n) (hn : n ≤ pattern.length) :
    pattern.take k <:+ (pattern.take n).tail ↔ pattern.take k <:+ pattern.take n := by
  constructor
  · intro h
    exact h.trans (List.tail_suffix _)
  · intro h
    apply List.suffix_of_suffix_length_le h (List.tail_suffix _)
    rw [List.length_tail, List.length_take, List.length_take]
    omega

theorem Agrees.overlap_border {pattern : Bytes} {size n : Nat} {t : BorderTable}
    (ht : t.Agrees pattern size) (h0 : 0 < n) (hn : n < size) (hl : n ≤ pattern.length) :
    Overlap pattern (pattern.take n).tail (t.border n) := by
  obtain ⟨hb, hbk⟩ := ht n h0 hn
  have hlt := t.border_lt h0
  refine ⟨by omega, (take_suffix_tail_iff hlt hl).2 hb, ?_⟩
  intro k hkl hks
  have hkn : k < n := by
    have hle := hks.length_le
    rw [List.length_tail, List.length_take, List.length_take] at hle
    omega
  exact hbk k hkn ((take_suffix_tail_iff hkn hl).1 hks)

theorem border_grow_of_lt {pattern : Bytes} {t : BorderTable} {byte : UInt8} {n : Nat}
    (hn : n < t.lengths.size) : (t.grow pattern byte).border n = t.border n := by
  simp only [border, grow, Array.getElem?_push]
  rw [if_neg (by omega)]

theorem border_grow_size (pattern : Bytes) (t : BorderTable) (byte : UInt8) :
    (t.grow pattern byte).border t.lengths.size =
      t.advance pattern (t.border (t.lengths.size - 1)) byte := by
  simp [border, grow]

theorem tail_take_succ {pattern : Bytes} {n : Nat} (h0 : 0 < n) (hn : n < pattern.length) :
    (pattern.take (n + 1)).tail = (pattern.take n).tail ++ [pattern[n]] := by
  rw [List.take_succ_eq_append_getElem hn, List.tail_append_of_ne_nil]
  apply List.ne_nil_of_length_pos
  rw [List.length_take]
  omega

/-- The new entry comes from reading one byte more of the pattern without its first byte. -/
theorem overlap_grow {pattern : Bytes} {t : BorderTable} {n : Nat}
    (hsize : t.lengths.size = n + 1) (ht : t.Agrees pattern (n + 1)) (hn : n < pattern.length) :
    Overlap pattern (pattern.take (n + 1)).tail ((t.grow pattern pattern[n]).border (n + 1)) := by
  have h0 : 0 < n := by
    have h2 := t.two_le_size
    omega
  have hlt := t.border_lt h0
  have hborder := border_grow_size pattern t pattern[n]
  rw [hsize, Nat.add_sub_cancel] at hborder
  rw [tail_take_succ h0 hn, hborder]
  apply overlap_advance pattern[n] (fun m hm hml => ht m hm (by omega))
  exact ht.overlap_border h0 (Nat.lt_succ_self n) (Nat.le_of_lt hn)

theorem agrees_grow {pattern : Bytes} {t : BorderTable} {n : Nat} (hsize : t.lengths.size = n + 1)
    (ht : t.Agrees pattern (n + 1)) (hn : n < pattern.length) :
    (t.grow pattern pattern[n]).Agrees pattern (n + 2) := by
  intro k h0 hk
  by_cases hkn : k < n + 1
  · rw [border_grow_of_lt (by omega)]
    exact ht k h0 hkn
  · obtain rfl : k = n + 1 := by omega
    have ho := overlap_grow hsize ht hn
    have hlt := (t.grow pattern pattern[n]).border_lt h0
    constructor
    · exact (take_suffix_tail_iff hlt hn).1 ho.take_suffix
    · intro k hkn hks
      exact ho.le_of_suffix k (by omega) ((take_suffix_tail_iff hkn hn).2 hks)

theorem agrees_foldl_grow {pattern : Bytes} {t : BorderTable} {n : Nat} (rest : Bytes)
    (hrest : pattern.drop n = rest) (hn : n ≤ pattern.length) (hsize : t.lengths.size = n + 1)
    (ht : t.Agrees pattern (n + 1)) :
    (rest.foldl (grow pattern) t).lengths.size = pattern.length + 1 ∧
      (rest.foldl (grow pattern) t).Agrees pattern (pattern.length + 1) := by
  induction rest generalizing t n with
  | nil =>
      obtain rfl : n = pattern.length := Nat.le_antisymm hn (List.drop_eq_nil_iff.1 hrest)
      exact ⟨hsize, ht⟩
  | cons byte rest ih =>
      have hlt : n < pattern.length := by
        apply Nat.lt_of_not_le
        intro hge
        rw [List.drop_eq_nil_of_le hge] at hrest
        simp at hrest
      rw [List.drop_eq_getElem_cons hlt] at hrest
      obtain ⟨rfl, hr⟩ := List.cons.inj hrest
      exact ih hr hlt (by simp [grow, hsize]) (agrees_grow hsize ht hlt)

theorem agrees_base (pattern : Bytes) : base.Agrees pattern 2 := by
  intro n h0 hn
  obtain rfl : n = 1 := by omega
  refine ⟨by simp [base, border], ?_⟩
  intro k hk _
  omega

theorem ofPattern_agrees {pattern : Bytes} (h : pattern ≠ []) :
    (ofPattern pattern).lengths.size = pattern.length + 1 ∧
      (ofPattern pattern).Agrees pattern (pattern.length + 1) :=
  agrees_foldl_grow pattern.tail (by simp) (List.length_pos_iff.2 h) rfl (agrees_base pattern)

end BorderTable

namespace Marker

theorem borders_agrees (m : Marker) : m.borders.Agrees m.bytes (m.bytes.length + 1) := by
  rw [m.borders_eq]
  exact (BorderTable.ofPattern_agrees m.bytes_ne_nil).2

theorem overlap_feed (m : Marker) {read : Bytes} {matched : Nat} (byte : UInt8)
    (h : Overlap m.bytes read matched) :
    Overlap m.bytes (read ++ [byte]) (m.feed matched byte).2 := by
  have hl := h.le_length
  exact BorderTable.overlap_advance byte (fun n h0 hn => m.borders_agrees n h0 (by omega)) h

theorem released_append_held (m : Marker) {read : Bytes} {matched : Nat} (byte : UInt8)
    (h : Overlap m.bytes read matched) :
    (m.feed matched byte).1 ++ m.bytes.take (m.feed matched byte).2 =
      m.bytes.take matched ++ [byte] := by
  have hnext := m.overlap_feed byte h
  have hle : (m.feed matched byte).2 ≤ matched + 1 := BorderTable.advance_le _ _ _ _
  have hheld : m.bytes.take matched ++ [byte] <:+ read ++ [byte] := by
    obtain ⟨front, hf⟩ := h.take_suffix
    exact ⟨front, by rw [← List.append_assoc, hf]⟩
  have hlen : (m.bytes.take matched ++ [byte]).length = matched + 1 := by
    rw [List.length_append, List.length_take, Nat.min_eq_left h.le_length, List.length_singleton]
  have hs : m.bytes.take (m.feed matched byte).2 <:+ m.bytes.take matched ++ [byte] :=
    List.suffix_of_suffix_length_le hnext.take_suffix hheld (by
      rw [hlen, List.length_take]; omega)
  obtain ⟨released, hr⟩ := hs
  have hcount : released.length = matched + 1 - (m.feed matched byte).2 := by
    have hl := congrArg List.length hr
    rw [hlen, List.length_append, List.length_take, Nat.min_eq_left hnext.le_length] at hl
    omega
  have hreleased : (m.feed matched byte).1 = released := by
    change (m.bytes.take matched ++ [byte]).take (matched + 1 - (m.feed matched byte).2) = released
    rw [← hcount, ← hr, List.take_left]
  rw [hreleased, hr]

end Marker

end Sexpand
