import Mathlib.Data.List.Induction
import Sexpand.Proofs.Expansion.Scanning
import Sexpand.Proofs.Marker.Release

namespace Sexpand.Scan

open Utf8 (Bytes)

/-- Reads one byte and tells whether it completes the marker. The next match begins anew then. -/
def feed (m : Marker) (s : Scan) (byte : UInt8) (rest : Bytes) : Scan × Bool :=
  if (s.read m byte rest).matched < m.bytes.length then (s.read m byte rest, false)
  else ({ s.read m byte rest with matched := 0 }, true)

/-- `t` is what the scan comes to by reading these bytes one at a time, as long as none of them
completes the marker. -/
inductive Feeds (m : Marker) (s : Scan) : (read : Bytes) → (t : Scan) → Prop
  | nil : Feeds m s [] s
  | concat {read rest : Bytes} {byte : UInt8} {t u : Scan} (h : Feeds m s read t)
      (hrest : t.rest = byte :: rest) (hfeed : t.feed m byte rest = (u, false)) :
      Feeds m s (read ++ [byte]) u

variable {m : Marker} {s t : Scan} {read rest : Bytes} {byte : UInt8}

theorem feed_of_lt (h : (s.read m byte rest).matched < m.bytes.length) :
    s.feed m byte rest = (s.read m byte rest, false) :=
  if_pos h

theorem feed_of_not_lt (h : ¬ (s.read m byte rest).matched < m.bytes.length) :
    s.feed m byte rest = ({ s.read m byte rest with matched := 0 }, true) :=
  if_neg h

theorem eq_read_of_feed {u : Scan} (h : s.feed m byte rest = (u, false)) :
    u = s.read m byte rest ∧ (s.read m byte rest).matched < m.bytes.length := by
  by_cases hlt : (s.read m byte rest).matched < m.bytes.length
  · rw [feed_of_lt hlt] at h
    exact ⟨(Prod.mk.inj h).1.symm, hlt⟩
  · rw [feed_of_not_lt hlt] at h
    cases h

theorem written_feed (m : Marker) (s : Scan) (byte : UInt8) (rest : Bytes) :
    (s.feed m byte rest).1.written = s.written ++ (m.feed s.matched byte).1 := by
  rw [← written_read m s byte rest]
  by_cases hlt : (s.read m byte rest).matched < m.bytes.length
  · rw [feed_of_lt hlt]
  · rw [feed_of_not_lt hlt]
    rfl

theorem step_eq_feed (h : s.rest = byte :: rest) :
    s.step m =
      match s.feed m byte rest with
      | (t, false) => .next t
      | (t, true) =>
          match t.expand with
          | (u, none) => .next u
          | (u, some missing) => .done ⟨u.actions.reverse, .error missing⟩ := by
  by_cases hlt : (s.read m byte rest).matched < m.bytes.length
  · rw [feed_of_lt hlt]
    exact step_of_lt h hlt
  · rw [feed_of_not_lt hlt]
    obtain ⟨hnext, hdone⟩ := step_of_not_lt h hlt
    -- The match that an expression is expanded after is not looked at.
    change s.step m = match (s.read m byte rest).expand with
      | (u, none) => .next u
      | (u, some missing) => .done ⟨u.actions.reverse, .error missing⟩
    cases he : (s.read m byte rest).expand with
    | mk u missing =>
        cases missing with
        | none => exact hnext u he
        | some missing => exact hdone u missing he

/-- What `t` has written since `s`, with the beginning of a marker that it holds back, are the bytes
that have been read. -/
structure Holds (m : Marker) (s : Scan) (read : Bytes) (t : Scan) : Prop where
  overlap : Overlap m.bytes read t.matched
  matched_lt : t.matched < m.bytes.length
  exists_written : ∃ written, t.written = s.written ++ written ∧
    written ++ m.bytes.take t.matched = read

theorem Holds.exists_written_feed (h : s.Holds m read t) (byte : UInt8) (rest : Bytes) :
    ∃ written, (t.feed m byte rest).1.written = s.written ++ written ∧
      written ++ m.bytes.take (m.feed t.matched byte).2 = read ++ [byte] := by
  obtain ⟨written, hwritten, hread⟩ := h.exists_written
  refine ⟨written ++ (m.feed t.matched byte).1, ?_, ?_⟩
  · rw [written_feed, hwritten, List.append_assoc]
  · rw [List.append_assoc, m.released_append_held byte h.overlap, ← List.append_assoc, hread]

theorem Holds.feed_eq_true_iff (h : s.Holds m read t) (byte : UInt8) (rest : Bytes) :
    (t.feed m byte rest).2 = true ↔ m.bytes <:+ read ++ [byte] := by
  have hnext := m.overlap_feed byte h.overlap
  rw [← hnext.eq_length_iff]
  by_cases hlt : (t.read m byte rest).matched < m.bytes.length
  · rw [feed_of_lt hlt]
    exact ⟨nofun, fun heq => absurd heq (Nat.ne_of_lt hlt)⟩
  · rw [feed_of_not_lt hlt]
    exact ⟨fun _ => Nat.le_antisymm hnext.le_length (Nat.le_of_not_lt hlt), fun _ => rfl⟩

theorem Feeds.holds (h : s.Feeds m read t) (h0 : s.matched = 0) : s.Holds m read t := by
  induction h with
  | nil =>
      refine ⟨?_, ?_, [], (List.append_nil _).symm, ?_⟩
      · rw [h0]
        exact Overlap.nil m.bytes
      · rw [h0]
        exact List.length_pos_iff.2 m.bytes_ne_nil
      · rw [h0]
        rfl
  | @concat read rest byte t u _ hrest hfeed ih =>
      have hwritten := ih.exists_written_feed byte rest
      rw [hfeed] at hwritten
      obtain ⟨rfl, hlt⟩ := eq_read_of_feed hfeed
      exact ⟨m.overlap_feed byte ih.overlap, hlt, hwritten⟩

theorem Feeds.rest_eq (h : s.Feeds m read t) : s.rest = read ++ t.rest := by
  induction h with
  | nil => rfl
  | @concat read rest byte t u _ hrest hfeed ih =>
      obtain ⟨rfl, -⟩ := eq_read_of_feed hfeed
      rw [ih, hrest, List.append_assoc]
      rfl

/-- Bytes in which there is no marker can be read to their end. -/
theorem exists_feeds (h0 : s.matched = 0) (hrest : s.rest = read ++ rest)
    (hnone : ¬ m.bytes <:+: read) : ∃ t, s.Feeds m read t ∧ t.rest = rest := by
  induction read using List.reverseRecOn generalizing rest with
  | nil => exact ⟨s, .nil, hrest⟩
  | append_singleton read byte ih =>
      rw [List.infix_concat_iff, not_or] at hnone
      rw [List.append_assoc] at hrest
      obtain ⟨t, hfeeds, ht⟩ := ih hrest hnone.2
      have hfeed : (t.feed m byte rest).2 = false := by
        rw [← Bool.not_eq_true, (hfeeds.holds h0).feed_eq_true_iff]
        exact hnone.1
      have hnext : s.Feeds m (read ++ [byte]) (t.feed m byte rest).1 :=
        .concat hfeeds ht (Prod.ext rfl hfeed)
      refine ⟨_, hnext, ?_⟩
      have heq := hnext.rest_eq
      rw [hrest, List.append_assoc] at heq
      exact (List.cons.inj (List.append_cancel_left heq)).2.symm

/-- As long as the marker is not complete, no more is held back than may still become one, and all
else is written. The byte that completes the marker is the one after which it stands at the end of
what has been read, and then what stands before it has been written. -/
theorem Feeds.written_and_matched (h : s.Feeds m read t) (h0 : s.matched = 0) :
    (∃ written, t.written = s.written ++ written ∧ written ++ m.bytes.take t.matched = read) ∧
      t.matched < m.bytes.length ∧ m.bytes.take t.matched <:+ read ∧
      (∀ k, k < m.bytes.length → m.bytes.take k <:+ read → k ≤ t.matched) ∧
      ∀ byte rest, t.rest = byte :: rest →
        let fed := t.feed m byte rest
        fed.1.written = t.written ++ (m.releases t.matched byte).flatten ∧
          (fed.2 = true ↔ m.bytes <:+ read ++ [byte]) ∧
          (fed.2 = true → fed.1.matched = 0 ∧
            ∃ written, fed.1.written = s.written ++ written ∧ written ++ m.bytes = read ++ [byte]) ∧
          t.step m =
            match fed with
            | (u, false) => .next u
            | (u, true) =>
                match u.expand with
                | (v, none) => .next v
                | (v, some missing) => .done ⟨v.actions.reverse, .error missing⟩ := by
  have hholds := h.holds h0
  refine ⟨hholds.exists_written, hholds.matched_lt, hholds.overlap.take_suffix,
    fun k hk => hholds.overlap.le_of_suffix k (Nat.le_of_lt hk), ?_⟩
  intro byte rest hrest fed
  have hiff : fed.2 = true ↔ _ := hholds.feed_eq_true_iff byte rest
  refine ⟨?_, hiff, ?_, step_eq_feed hrest⟩
  · rw [written_feed, m.flatten_releases byte hholds.overlap]
  · intro hcomplete
    have hmatched := (m.overlap_feed byte hholds.overlap).eq_length_iff.2 (hiff.1 hcomplete)
    have hwritten := hholds.exists_written_feed byte rest
    rw [hmatched, List.take_length] at hwritten
    refine ⟨?_, hwritten⟩
    have hnot : ¬ (t.read m byte rest).matched < m.bytes.length :=
      Nat.not_lt.2 (Nat.le_of_eq hmatched.symm)
    rw [show fed = _ from feed_of_not_lt hnot]

/-- The sixth byte breaks a match of five, of which two are still good for another one. -/
theorem Feeds.written_and_matched_falling_back :
    let m := Marker.ofBytes (Utf8.encode "aabaaa".toList) (by decide)
    let s := start (Utf8.encode "aabaabaaa".toList)
    let read := Utf8.encode "aabaabaa".toList
    s.matched = 0 ∧ ∃ t, s.Feeds m read t ∧ t.rest = Utf8.encode ['a'] ∧
      (∃ written, t.written = s.written ++ written ∧ written ++ m.bytes.take t.matched = read) ∧
      t.matched = 5 ∧
      (t.feed m 97 []).2 = true ∧ (t.feed m 97 []).1.matched = 0 ∧
      ∃ written, (t.feed m 97 []).1.written = s.written ++ written ∧
        written ++ m.bytes = read ++ [97] := by
  intro m s read
  have hnone : ¬ m.bytes <:+: read := Marker.firstPlace?_eq_none_iff.1 (by decide +kernel)
  have hinput : s.rest = read ++ Utf8.encode ['a'] := by decide +kernel
  obtain ⟨t, hfeeds, hrest⟩ := exists_feeds rfl hinput hnone
  obtain ⟨hwritten, hlt, hsuffix, hlongest, hnext⟩ := hfeeds.written_and_matched rfl
  obtain ⟨-, hiff, hcomplete, -⟩ := hnext 97 [] hrest
  have hfed : (t.feed m 97 []).2 = true := hiff.2 (by decide +kernel)
  have hge : 5 ≤ t.matched := hlongest 5 (by decide) (by decide +kernel)
  exact ⟨rfl, t, hfeeds, hrest, hwritten, Nat.le_antisymm (Nat.le_of_lt_succ hlt) hge, hfed,
    hcomplete hfed⟩

end Sexpand.Scan
