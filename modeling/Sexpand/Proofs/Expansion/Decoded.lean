import Sexpand.Proofs.Expansion.Marks

namespace Sexpand

open Utf8 (Bytes)

namespace Scan

def decodes (f : Scan) : Bool := (f.window.textAt? f.position).isNone

def decoded (fs : List Scan) : List Window := (fs.filter decodes).map (·.expand.1.window)

/-- The window `w` is there at the first mark, and at each other one what the mark before leaves. -/
def Linked : Window → List Scan → Prop
  | _, [] => True
  | w, f :: fs => f.window = w ∧ Linked f.expand.1.window fs

variable {m : Marker} {s t f : Scan} {w : Window} {fs : List Scan}

theorem marks_of_next (h : s.step m = .next t) : s.marks m = (s.mark? m).toList ++ t.marks m := by
  rw [marks, passed_of_next h, List.filterMap_cons]
  cases s.mark? m <;> rfl

theorem marks_of_done {script : Script Nat} (h : s.step m = .done script) :
    s.marks m = (s.mark? m).toList := by
  rw [marks, passed_of_done h, List.filterMap_cons]
  cases s.mark? m <;> rfl

theorem window_of_mark? (h : s.mark? m = some f) : f.window = s.window := by
  obtain ⟨byte, rest, -, rfl, -⟩ := exists_of_mark? h
  rfl

theorem linked_marks (m : Marker) (s : Scan) : Linked s.window (s.marks m) := by
  induction hn : s.rest.length using Nat.strongRecOn generalizing s with
  | ind n ih =>
      subst hn
      cases hs : s.step m with
      | done script =>
          rw [marks_of_done hs]
          cases hmark : s.mark? m with
          | none => trivial
          | some f => exact ⟨window_of_mark? hmark, trivial⟩
      | next t =>
          have ht := ih _ (length_rest_lt_of_step hs) t rfl
          rw [marks_of_next hs]
          cases hmark : s.mark? m with
          | none =>
              obtain ⟨byte, rest, -, rfl, -⟩ := next_of_mark?_eq_none hmark hs
              exact ht
          | some f =>
              refine ⟨window_of_mark? hmark, ?_⟩
              rwa [next_of_mark? hmark hs]

theorem found_of_mem_marks {input : Bytes} (h : f ∈ (start input).marks m) : f.Found m input := by
  obtain ⟨s, hs, hmark⟩ := List.mem_filterMap.1 h
  obtain ⟨resume, seen, hsearching⟩ := exists_searching m input s hs
  exact hsearching.found_of_mark? hmark

def decodedSize (fs : List Scan) : Nat := Text.size ((decoded fs).flatMap Window.text)

theorem decoded_append (fs gs : List Scan) : decoded (fs ++ gs) = decoded fs ++ decoded gs := by
  rw [decoded, List.filter_append, List.map_append]
  rfl

theorem decodedSize_append (fs gs : List Scan) :
    decodedSize (fs ++ gs) = decodedSize fs + decodedSize gs := by
  rw [decodedSize, decoded_append, List.flatMap_append, Text.size_append]
  rfl

theorem decoded_cons (f : Scan) (fs : List Scan) : decoded (f :: fs) = decoded [f] ++ decoded fs :=
  decoded_append [f] fs

theorem decodedSize_cons (f : Scan) (fs : List Scan) :
    decodedSize (f :: fs) = decodedSize [f] + decodedSize fs :=
  decodedSize_append [f] fs

theorem decoded_of_some {text : Text} (h : f.window.textAt? f.position = some text) :
    decoded [f] = [] := by
  simp [decoded, decodes, h]

theorem decoded_of_none (h : f.window.textAt? f.position = none) :
    decoded [f] = [f.expand.1.window] := by
  simp [decoded, decodes, h]

theorem checked_window_expand (f : Scan) :
    f.expand.1.window.checked = f.window.checked + decodedSize [f] := by
  have hwindow : f.expand.1.window = f.window.moveTo f.position f.rest := rfl
  rw [decodedSize]
  cases ht : f.window.textAt? f.position with
  | some text =>
      rw [decoded_of_some ht, hwindow, Window.moveTo_of_some ht]
      rfl
  | none =>
      rw [decoded_of_none ht, List.flatMap_singleton, hwindow, Window.moveTo_of_none ht]
      rfl

theorem checked_eq_of_linked {before after : List Scan} (h : Linked w (before ++ f :: after)) :
    f.expand.1.window.checked = w.checked + decodedSize (before ++ [f]) := by
  induction before generalizing w with
  | nil =>
      obtain ⟨rfl, -⟩ := h
      exact checked_window_expand f
  | cons g before ih =>
      obtain ⟨rfl, h⟩ := h
      rw [ih h, checked_window_expand, Nat.add_assoc, ← decodedSize_cons]
      rfl

section Encoded

variable {marker : Text} {input : Bytes} (hm : m.bytes = Utf8.encode marker)

include hm

/-- A window that reaches beyond a mark holds the whole marker, and so the text after it. -/
theorem Found.stop_le_position (h : f.Found m input)
    (hnone : f.window.textAt? f.position = none) : f.window.stop ≤ f.position := by
  have hne := m.ne_nil_of_bytes_eq hm
  rcases h.window_agrees with hempty | htext
  · rw [hempty]
    exact Nat.zero_le _
  apply Nat.le_of_not_lt
  intro hlt
  have hstart := h.start_le
  have hlength := Utf8.length_encode f.window.text
  rw [Window.stop] at hlt
  -- The marker begins `n` bytes behind the start of the window.
  obtain ⟨n, hn⟩ := Nat.exists_eq_add_of_le hstart
  have hbegin : f.position - m.bytes.length = f.window.start + n := by omega
  have hmarker := h.isPrefix
  rw [hbegin, ← List.drop_drop] at hmarker
  have hwindow : (Utf8.encode f.window.text).drop n <+: (input.drop f.window.start).drop n := by
    obtain ⟨back, hback⟩ := Utf8.encode_decodePrefix_isPrefix (input.drop f.window.start)
    rw [← htext] at hback
    rw [← hback, List.drop_append_of_le_length (by omega)]
    exact List.prefix_append _ _
  have hinside : m.bytes <+: (Utf8.encode f.window.text).drop n := by
    apply List.prefix_of_prefix_length_le hmarker hwindow
    rw [List.length_drop, hlength]
    omega
  rw [hm] at hinside
  obtain ⟨front, back, hfront, hsize⟩ := Utf8.exists_eq_of_encode_isPrefix_drop hne hinside
  have hback : f.window.textAt? f.position = some back := by
    rw [Window.textAt?_eq_some_iff]
    refine ⟨front ++ marker, by rw [hfront, List.append_assoc], ?_⟩
    rw [Text.size_append, hsize, ← Utf8.length_encode marker, ← hm]
    omega
  rw [hnone] at hback
  cases hback

theorem Found.window_cases (h : f.Found m input) :
    (f.window.textAt? f.position = some f.expand.1.window.text ∧ decoded [f] = [] ∧
        f.expand.1.window.stop = f.window.stop) ∨
      (decoded [f] = [f.expand.1.window] ∧ f.window.stop ≤ f.expand.1.window.start) := by
  have hwindow : f.expand.1.window = f.window.moveTo f.position f.rest := rfl
  cases ht : f.window.textAt? f.position with
  | some text =>
      left
      refine ⟨?_, decoded_of_some ht, ?_⟩
      · rw [hwindow, Window.moveTo_of_some ht]
      · rw [hwindow, Window.stop_moveTo_of_some ht]
  | none =>
      right
      refine ⟨decoded_of_none ht, ?_⟩
      rw [hwindow, Window.start_moveTo]
      exact h.stop_le_position hm ht

theorem stop_le_start_of_mem_decoded (hlinked : Linked w fs)
    (hfound : ∀ f ∈ fs, f.Found m input) : ∀ v ∈ decoded fs, w.stop ≤ v.start := by
  induction fs generalizing w with
  | nil => simp [decoded]
  | cons f fs ih =>
      obtain ⟨rfl, hlinked⟩ := hlinked
      obtain ⟨hf, hfs⟩ := List.forall_mem_cons.1 hfound
      have hlater := ih hlinked hfs
      rw [decoded_cons]
      rcases hf.window_cases hm with ⟨-, hnone, hstop⟩ | ⟨hone, hstop⟩
      · rw [hnone, List.nil_append, ← hstop]
        exact hlater
      · rw [hone, List.singleton_append, List.forall_mem_cons]
        refine ⟨hstop, ?_⟩
        intro v hv
        have hle : f.expand.1.window.start ≤ f.expand.1.window.stop := Nat.le_add_right _ _
        exact Nat.le_trans hstop (Nat.le_trans hle (hlater v hv))

theorem pairwise_decoded (hlinked : Linked w fs)
    (hfound : ∀ f ∈ fs, f.Found m input) :
    (decoded fs).Pairwise fun v w => v.stop ≤ w.start := by
  induction fs generalizing w with
  | nil => exact List.Pairwise.nil
  | cons f fs ih =>
      obtain ⟨rfl, hlinked⟩ := hlinked
      obtain ⟨hf, hfs⟩ := List.forall_mem_cons.1 hfound
      have hlater := ih hlinked hfs
      rw [decoded_cons]
      rcases hf.window_cases hm with ⟨-, hnone, -⟩ | ⟨hone, -⟩
      · rw [hnone]
        exact hlater
      · rw [hone, List.singleton_append, List.pairwise_cons]
        exact ⟨stop_le_start_of_mem_decoded hm hlinked hfs, hlater⟩

theorem stop_add_decodedSize_le (hlinked : Linked w fs)
    (hfound : ∀ f ∈ fs, f.Found m input) (hw : w.stop ≤ input.length) :
    w.stop + decodedSize fs ≤ input.length := by
  induction fs generalizing w with
  | nil => exact hw
  | cons f fs ih =>
      obtain ⟨rfl, hlinked⟩ := hlinked
      obtain ⟨hf, hfs⟩ := List.forall_mem_cons.1 hfound
      have hlater := ih hlinked hfs hf.stop_window_expand_le
      rw [decodedSize_cons, decodedSize]
      rcases hf.window_cases hm with ⟨-, hnone, hstop⟩ | ⟨hone, hstop⟩
      · rw [hnone, List.flatMap_nil, Text.size_nil, Nat.zero_add, ← hstop]
        exact hlater
      · rw [hone, List.flatMap_singleton]
        rw [Window.stop] at hlater
        omega

/-- The text after a mark is looked up as in the window that was decoded last, though the window
has been moved since. -/
theorem textAt?_eq_of_linked {before after : List Scan}
    {kept : Window} (hlinked : Linked w (before ++ f :: after))
    (hfound : ∀ g ∈ before ++ f :: after, g.Found m input)
    (hkept : kept.textAt? w.start = some w.text) :
    f.window.textAt? f.position =
      ((decoded before).getLast?.getD kept).textAt? f.position := by
  induction before generalizing w kept with
  | nil =>
      obtain ⟨rfl, -⟩ := hlinked
      have hstart := (hfound f (by simp)).start_le
      exact Window.textAt?_congr hkept (by omega)
  | cons g before ih =>
      obtain ⟨rfl, hlinked⟩ := hlinked
      obtain ⟨hg, hbefore⟩ := List.forall_mem_cons.1 hfound
      have hposition : g.expand.1.window.start = g.position := Window.start_moveTo _ _ _
      rw [decoded_cons]
      rcases hg.window_cases hm with ⟨htext, hnone, -⟩ | ⟨hone, -⟩
      · rw [hnone, List.nil_append]
        apply ih hlinked hbefore
        have hstart := hg.start_le
        rw [hposition, ← Window.textAt?_congr hkept (by omega)]
        exact htext
      · rw [hone, List.singleton_append, List.getLast?_cons, Option.getD_some]
        apply ih hlinked hbefore
        exact Window.textAt?_eq_some_iff.2 ⟨[], rfl, rfl⟩

end Encoded

/-- Whatever has been decoded before, the text after a mark is the longest valid one. It is looked
up in the window that was decoded last, and is decoded only if it is not there. No byte is decoded
twice. -/
theorem decoded_once {m : Marker} {marker : Text} (hm : m.bytes = Utf8.encode marker)
    (input : Bytes) :
    let marks := (start input).marks m
    (∀ f ∈ marks, f.rest = input.drop f.position ∧
      f.expand.1.window.text = Utf8.longestText f.rest f.rest.length) ∧
    (decoded marks).Pairwise (fun v w => v.stop ≤ w.start) ∧
    decodedSize marks ≤ input.length ∧
    ∀ before f after, marks = before ++ f :: after →
      f.window.textAt? f.position =
        ((decoded before).getLast?.getD .empty).textAt? f.position ∧
      f.expand.1.window.checked = decodedSize (before ++ [f]) ∧
      f.expand.1.window.checked ≤ input.length := by
  intro marks
  have hfound : ∀ f ∈ marks, f.Found m input := fun f => found_of_mem_marks
  have hlinked : Linked .empty marks := linked_marks m (start input)
  have htotal := stop_add_decodedSize_le hm hlinked hfound (Nat.zero_le _)
  refine ⟨?_, pairwise_decoded hm hlinked hfound, ?_, ?_⟩
  · intro f hf
    have hmark := hfound f hf
    refine ⟨hmark.rest_eq, ?_⟩
    rw [Utf8.longestText_eq_decodePrefix]
    exact text_moveTo hmark.rest_eq hmark.window_agrees hmark.position_pos
  · exact Nat.le_trans (Nat.le_add_left _ _) htotal
  · intro before f after hmarks
    rw [hmarks] at hlinked hfound htotal
    have hchecked := checked_eq_of_linked hlinked
    have hempty : Window.empty.checked = 0 := rfl
    rw [hempty, Nat.zero_add] at hchecked
    refine ⟨textAt?_eq_of_linked hm hlinked hfound rfl, hchecked, ?_⟩
    rw [List.append_cons, decodedSize_append] at htotal
    omega

/-- The second mark finds its text in the window of the first, and the third stands behind a byte
that is not valid. -/
theorem decoded_once_behind_invalid_byte :
    let marker := "é".toList
    let m := Marker.ofBytes (Utf8.encode marker) (by decide)
    let input := Utf8.encode "é(a)é b".toList ++ 255 :: Utf8.encode "é c".toList
    let marks := (start input).marks m
    m.bytes = Utf8.encode marker ∧
      (decoded marks).map (fun w => (w.start, w.stop)) = [(2, 9), (12, 14)] ∧
      marks.map (·.position) = [2, 7, 12] ∧
      ∀ f ∈ marks, f.expand.1.window.text = Utf8.longestText f.rest f.rest.length := by
  intro marker m input marks
  have hwindows : (decoded marks).map (fun w => (w.start, w.stop)) = [(2, 9), (12, 14)] := by
    decide +kernel
  have hpositions : marks.map (·.position) = [2, 7, 12] := by decide +kernel
  have honce := @decoded_once m marker rfl input
  exact ⟨rfl, hwindows, hpositions, fun f hf => (honce.1 f hf).2⟩

end Scan

end Sexpand
