import Sexpand.Proofs.Expansion.Scanning
import Sexpand.Proofs.Marker.Table

namespace Sexpand

open Utf8 (Bytes)

namespace Scan

def passed (m : Marker) (s : Scan) : List Scan :=
  s :: match _h : s.step m with
    | .next t => passed m t
    | .done _ => []
termination_by s.rest.length
decreasing_by exact length_rest_lt_of_step _h

def mark? (m : Marker) (s : Scan) : Option Scan :=
  match s.rest with
  | [] => none
  | byte :: rest =>
      if (s.read m byte rest).matched < m.bytes.length then none else some (s.read m byte rest)

/-- The scans at the end of each marker that a run finds. -/
def marks (m : Marker) (s : Scan) : List Scan := (s.passed m).filterMap (mark? m)

variable {m : Marker} {s t : Scan}

theorem passed_of_next (h : s.step m = .next t) : s.passed m = s :: t.passed m := by
  rw [passed.eq_def]
  split <;> simp_all

theorem passed_of_done {script : Script Nat} (h : s.step m = .done script) : s.passed m = [s] := by
  rw [passed.eq_def]
  split <;> simp_all

theorem next_of_mark?_eq_none (hmark : s.mark? m = none) (h : s.step m = .next t) :
    ∃ byte rest, s.rest = byte :: rest ∧ t = s.read m byte rest ∧
      (s.read m byte rest).matched < m.bytes.length := by
  cases hrest : s.rest with
  | nil =>
      rw [step_nil hrest] at h
      cases h
  | cons byte rest =>
      by_cases hlt : (s.read m byte rest).matched < m.bytes.length
      · rw [step_of_lt hrest hlt] at h
        exact ⟨byte, rest, rfl, (Step.next.inj h).symm, hlt⟩
      · rw [mark?, hrest] at hmark
        dsimp only at hmark
        rw [if_neg hlt] at hmark
        cases hmark

theorem exists_of_mark? {f : Scan} (hmark : s.mark? m = some f) :
    ∃ byte rest, s.rest = byte :: rest ∧ f = s.read m byte rest ∧
      ¬ (s.read m byte rest).matched < m.bytes.length := by
  unfold mark? at hmark
  split at hmark
  · cases hmark
  · rename_i byte rest hrest
    split at hmark
    · cases hmark
    · exact ⟨byte, rest, hrest, (Option.some.inj hmark).symm, ‹_›⟩

theorem next_of_mark? {f : Scan} (hmark : s.mark? m = some f) (h : s.step m = .next t) :
    f.expand = (t, none) := by
  obtain ⟨byte, rest, hrest, rfl, hge⟩ := exists_of_mark? hmark
  obtain ⟨hnext, hdone⟩ := step_of_not_lt hrest hge
  cases he : (s.read m byte rest).expand with
  | mk u missing =>
      cases missing with
      | none =>
          rw [hnext u he] at h
          rw [Step.next.inj h]
      | some missing =>
          rw [hdone u missing he] at h
          cases h

theorem forall_passed {P : Scan → Prop} (hstep : ∀ s t, P s → s.step m = .next t → P t) (h : P s) :
    ∀ t ∈ s.passed m, P t := by
  induction hn : s.rest.length using Nat.strongRecOn generalizing s with
  | ind n ih =>
      subst hn
      cases hs : s.step m with
      | done script =>
          rw [passed_of_done hs]
          simpa using h
      | next t =>
          rw [passed_of_next hs, List.forall_mem_cons]
          exact ⟨h, ih _ (length_rest_lt_of_step hs) (hstep s t h hs) rfl⟩

/-- A scan on its way to the next marker. The search has begun at byte `resume`, and `seen` are the
bytes since. The window has not been moved past the beginning of the search. -/
structure Searching (m : Marker) (input : Bytes) (resume : Nat) (seen : Bytes) (s : Scan) :
    Prop where
  reading : s.Reading m input seen
  position_eq : s.position = resume + seen.length
  drop_eq : input.drop resume = seen ++ s.rest
  start_le : s.window.start ≤ resume
  stop_le : s.window.stop ≤ input.length

/-- A scan at the end of a marker, all of which stands behind the start of the window. -/
structure Found (m : Marker) (input : Bytes) (f : Scan) : Prop where
  rest_eq : f.rest = input.drop f.position
  position_le : f.position ≤ input.length
  isPrefix : m.bytes <+: input.drop (f.position - m.bytes.length)
  window_agrees : f.window.Agrees input
  start_le : f.window.start + m.bytes.length ≤ f.position
  stop_le : f.window.stop ≤ input.length

theorem searching_start (m : Marker) (input : Bytes) : (start input).Searching m input 0 [] where
  reading := reading_start m input
  position_eq := rfl
  drop_eq := rfl
  start_le := Nat.le_refl 0
  stop_le := Nat.zero_le _

variable {input seen rest : Bytes} {resume : Nat} {byte : UInt8}

namespace Searching

theorem matched_lt (h : s.Searching m input resume seen) : s.matched < m.bytes.length := by
  apply Nat.lt_of_le_of_ne h.reading.overlap.le_length
  intro heq
  exact h.reading.not_infix (h.reading.overlap.eq_length_iff.1 heq).isInfix

theorem drop_position (h : s.Searching m input resume seen) (hrest : s.rest = byte :: rest) :
    rest = input.drop (s.position + 1) := by
  rw [← List.drop_drop, ← h.reading.rest_eq, hrest]
  rfl

theorem read (h : s.Searching m input resume seen) (hrest : s.rest = byte :: rest)
    (hlt : (s.read m byte rest).matched < m.bytes.length) :
    (s.read m byte rest).Searching m input resume (seen ++ [byte]) where
  reading := h.reading.read (h.drop_position hrest) hlt
  position_eq := by
    rw [List.length_append, ← Nat.add_assoc, ← h.position_eq]
    rfl
  drop_eq := by
    rw [h.drop_eq, hrest, List.append_assoc]
    rfl
  start_le := h.start_le
  stop_le := h.stop_le

theorem found (h : s.Searching m input resume seen) (hrest : s.rest = byte :: rest)
    (hge : ¬ (s.read m byte rest).matched < m.bytes.length) :
    (s.read m byte rest).Found m input := by
  have hposition : (s.read m byte rest).position = s.position + 1 := rfl
  obtain ⟨-, front, hfront⟩ := h.reading.suffix_of_not_lt rest hge
  have hlength := congrArg List.length hfront
  simp only [List.length_append, List.length_singleton] at hlength
  have hdrop : input.drop resume = front ++ (m.bytes ++ rest) := by
    rw [h.drop_eq, hrest, ← List.append_assoc, hfront, List.append_assoc, List.singleton_append]
  have htotal := congrArg List.length hdrop
  simp only [List.length_drop, List.length_append] at htotal
  have hpos := List.length_pos_iff.2 m.bytes_ne_nil
  have hseen := h.position_eq
  have hstart := h.start_le
  refine ⟨h.drop_position hrest, by omega, ?_, h.reading.window_agrees, ?_, h.stop_le⟩
  · have hbegin : (s.read m byte rest).position - m.bytes.length = resume + front.length := by
      omega
    rw [hbegin, ← List.drop_drop, hdrop, List.drop_left]
    exact List.prefix_append _ _
  · change s.window.start + m.bytes.length ≤ s.position + 1
    omega

end Searching

namespace Found

variable {f : Scan}

theorem position_pos (h : f.Found m input) : 0 < f.position := by
  have hpos := List.length_pos_iff.2 m.bytes_ne_nil
  have hstart := h.start_le
  omega

theorem stop_window_expand_le (h : f.Found m input) : f.expand.1.window.stop ≤ input.length := by
  change (f.window.moveTo f.position f.rest).stop ≤ input.length
  cases ht : f.window.textAt? f.position with
  | some text =>
      rw [Window.stop_moveTo_of_some ht]
      exact h.stop_le
  | none =>
      rw [Window.moveTo_of_none ht]
      apply Nat.le_trans (Window.stop_decode_le _ _ _)
      have hle := h.position_le
      rw [h.rest_eq, List.length_drop]
      omega

theorem searching_expand (h : f.Found m input) :
    f.expand.1.Searching m input f.expand.1.position [] where
  reading := reading_expand h.rest_eq h.window_agrees h.position_pos
  position_eq := rfl
  drop_eq := by
    have hreading : f.expand.1.Reading m input [] :=
      reading_expand h.rest_eq h.window_agrees h.position_pos
    exact hreading.rest_eq.symm
  start_le := by
    change (f.window.moveTo f.position f.rest).start ≤ _
    rw [Window.start_moveTo]
    exact Nat.le_add_right _ _
  stop_le := h.stop_window_expand_le

end Found

theorem Searching.found_of_mark? {f : Scan} (h : s.Searching m input resume seen)
    (hmark : s.mark? m = some f) : f.Found m input := by
  obtain ⟨byte, rest, hrest, rfl, hge⟩ := exists_of_mark? hmark
  exact h.found hrest hge

theorem Searching.step (h : s.Searching m input resume seen) (hnext : s.step m = .next t) :
    ∃ resume seen, t.Searching m input resume seen := by
  cases hmark : s.mark? m with
  | none =>
      obtain ⟨byte, rest, hrest, rfl, hlt⟩ := next_of_mark?_eq_none hmark hnext
      exact ⟨resume, seen ++ [byte], h.read hrest hlt⟩
  | some f =>
      have hexpand := (h.found_of_mark? hmark).searching_expand
      rw [next_of_mark? hmark hnext] at hexpand
      exact ⟨t.position, [], hexpand⟩

theorem exists_searching (m : Marker) (input : Bytes) :
    ∀ s ∈ (start input).passed m, ∃ resume seen, s.Searching m input resume seen := by
  apply forall_passed
  · rintro s t ⟨resume, seen, h⟩ hnext
    exact h.step hnext
  · exact ⟨0, [], searching_start m input⟩

end Scan

/-- The table of a marker is computed with every place that is read in range, and holds the longest
borders. With it a run falls back and flushes in range, wherever the bytes make it do so. -/
theorem Marker.borders_computed_in_range (m : Marker) :
    let table := m.borders.lengths.toList
    BorderTable.table? m.bytes = some table ∧ table.length = m.bytes.length + 1 ∧
      table[0]? = some 0 ∧
      (∀ n, 0 < n → n ≤ m.bytes.length →
        ∃ border, table[n]? = some border ∧ border < n ∧
          m.bytes.take border <:+ m.bytes.take n ∧
          ∀ k, k < n → m.bytes.take k <:+ m.bytes.take n → k ≤ border) ∧
      ∀ input, ∀ s ∈ (Scan.start input).passed m,
        Utf8.slice? m.bytes s.matched = some (m.bytes.take s.matched) ∧
          ∀ byte, BorderTable.fall? m.bytes table s.matched byte =
            some (m.releases s.matched byte, (m.feed s.matched byte).2) := by
  refine ⟨?_, ?_, ?_, ?_, ?_⟩
  · rw [m.borders_eq]
    exact BorderTable.table?_eq m.bytes_ne_nil
  · rw [Array.length_toList, m.size_borders]
  · rw [m.getElem?_borders (Nat.zero_le _), m.border_zero]
  · intro n h0 hn
    obtain ⟨hsuffix, hlongest⟩ := m.borders_agrees n h0 (Nat.lt_succ_of_le hn)
    exact ⟨m.borders.border n, m.getElem?_borders hn, m.borders.border_lt h0, hsuffix, hlongest⟩
  · intro input s hs
    obtain ⟨resume, seen, hsearching⟩ := Scan.exists_searching m input s hs
    constructor
    · exact Utf8.slice?_of_le (Nat.le_of_lt hsearching.matched_lt)
    · intro byte
      exact m.fall?_borders byte hsearching.matched_lt

end Sexpand
