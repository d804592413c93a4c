import Sexpand.Marker.Basic

namespace Sexpand

open Utf8 (Bytes)

theorem infix_of_prefix_drop_append {pattern front back : Bytes} {n : Nat}
    (h : pattern <+: (front ++ back).drop n) (hn : n + pattern.length ≤ front.length) :
    pattern <:+: front := by
  rw [List.drop_append_of_le_length (by omega)] at h
  have hf : pattern <+: front.drop n :=
    List.prefix_of_prefix_length_le h (List.prefix_append _ _) (by rw [List.length_drop]; omega)
  exact hf.isInfix.trans (List.drop_suffix n front).isInfix

namespace Marker

theorem ne_nil_of_bytes_eq (m : Marker) {text : Text} (h : m.bytes = Utf8.encode text) :
    text ≠ [] := by
  rintro rfl
  exact m.bytes_ne_nil h

/-- Where the leftmost occurrence of the marker begins. -/
def firstPlace? (m : Marker) (bytes : Bytes) : Option Nat :=
  (List.range (bytes.length + 1)).find? fun n => m.bytes <+: bytes.drop n

theorem firstPlace?_eq_some_iff {m : Marker} {bytes : Bytes} {n : Nat} :
    m.firstPlace? bytes = some n ↔
      m.bytes <+: bytes.drop n ∧ ∀ k, k < n → ¬ m.bytes <+: bytes.drop k := by
  rw [firstPlace?, List.find?_range_eq_some]
  simp only [decide_eq_true_eq, List.mem_range, Bool.not_eq_true', decide_eq_false_iff_not]
  constructor
  · rintro ⟨hn, -, hk⟩
    exact ⟨hn, hk⟩
  · rintro ⟨hn, hk⟩
    refine ⟨hn, ?_, hk⟩
    have hp := List.length_pos_iff.2 m.bytes_ne_nil
    have hl := hn.length_le
    rw [List.length_drop] at hl
    omega

theorem firstPlace?_eq_none_iff {m : Marker} {bytes : Bytes} :
    m.firstPlace? bytes = none ↔ ¬ m.bytes <:+: bytes := by
  rw [firstPlace?, List.find?_range_eq_none]
  simp only [Bool.not_eq_true', decide_eq_false_iff_not]
  constructor
  · rintro hn ⟨front, back, rfl⟩
    apply hn front.length
    · simp only [List.length_append]
      omega
    · simp
  · intro hi n _ hp
    exact hi (hp.isInfix.trans (List.drop_suffix n bytes).isInfix)

theorem length_drop_lt {m : Marker} {bytes : Bytes} {place : Nat}
    (h : m.firstPlace? bytes = some place) (n : Nat) :
    ((bytes.drop (place + m.bytes.length)).drop n).length < bytes.length := by
  have hm := List.length_pos_iff.2 m.bytes_ne_nil
  have hl := (firstPlace?_eq_some_iff.1 h).1.length_le
  simp only [List.length_drop] at hl ⊢
  omega

theorem firstPlace?_of_suffix {m : Marker} {read : Bytes} {byte : UInt8} (rest : Bytes)
    (hnone : ¬ m.bytes <:+: read) (hs : m.bytes <:+ read ++ [byte]) :
    m.firstPlace? (read ++ byte :: rest) = some (read.length + 1 - m.bytes.length) := by
  obtain ⟨front, hf⟩ := hs
  have hlen := congrArg List.length hf
  simp only [List.length_append, List.length_singleton] at hlen
  have heq : read ++ byte :: rest = front ++ (m.bytes ++ rest) := by
    rw [← List.append_assoc, hf, List.append_assoc, List.singleton_append]
  have hplace : read.length + 1 - m.bytes.length = front.length := by omega
  rw [hplace, firstPlace?_eq_some_iff]
  constructor
  · rw [heq, List.drop_left]
    exact List.prefix_append _ _
  · intro k hk hp
    exact hnone (infix_of_prefix_drop_append hp (by omega))

/-- No end of the marker is also a beginning of it. -/
def IsUnbordered (m : Marker) : Prop :=
  ∀ n, 0 < n → n < m.bytes.length → ¬ m.bytes.drop n <+: m.bytes

theorem standard_isUnbordered : standard.IsUnbordered := by
  have h : ∀ n, n < standard.bytes.length → 0 < n → ¬ standard.bytes.drop n <+: standard.bytes := by
    decide
  exact fun n h0 hn => h n hn h0

/-- Text without a marker cannot begin one together with the marker after it. -/
theorem firstPlace?_append {m : Marker} {front : Bytes} (hm : m.IsUnbordered)
    (hnone : ¬ m.bytes <:+: front) (rest : Bytes) :
    m.firstPlace? (front ++ (m.bytes ++ rest)) = some front.length := by
  rw [firstPlace?_eq_some_iff]
  constructor
  · rw [List.drop_left]
    exact List.prefix_append _ _
  · intro k hk hp
    by_cases hle : k + m.bytes.length ≤ front.length
    · exact hnone (infix_of_prefix_drop_append hp hle)
    · have hpos : 0 < front.length - k := by omega
      have hlt : front.length - k < m.bytes.length := by omega
      apply hm _ hpos hlt
      obtain ⟨back, hb⟩ := hp
      rw [List.drop_append_of_le_length (by omega)] at hb
      have hd := congrArg (List.drop (front.length - k)) hb
      rw [List.drop_append_of_le_length (by omega), List.drop_left' (by simp)] at hd
      exact List.prefix_of_prefix_length_le ⟨back, hd⟩ (List.prefix_append _ _)
        (by rw [List.length_drop]; omega)

end Marker

end Sexpand
