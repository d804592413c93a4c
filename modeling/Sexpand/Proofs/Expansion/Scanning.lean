import Sexpand.Proofs.Expansion.Direct

namespace Sexpand

open Utf8 (Bytes)

namespace Scan

def written (s : Scan) : Bytes := s.actions.reverse.flatMap Action.written

def notices (s : Scan) : List Notice := s.actions.reverse.filterMap Action.notice?

def read (m : Marker) (s : Scan) (byte : UInt8) (rest : Bytes) : Scan :=
  { s with
    rest
    position := s.position + 1
    matched := (m.feed s.matched byte).2
    actions := .write .source (m.feed s.matched byte).1 :: s.actions }

theorem step_nil {m : Marker} {s : Scan} (h : s.rest = []) :
    s.step m = .done ⟨(.write .source (m.bytes.take s.matched) :: s.actions).reverse,
      .ok s.expansions⟩ := by
  rw [step, h]

theorem step_of_lt {m : Marker} {s : Scan} {byte : UInt8} {rest : Bytes}
    (h : s.rest = byte :: rest) (hlt : (s.read m byte rest).matched < m.bytes.length) :
    s.step m = .next (s.read m byte rest) := by
  rw [step, h]
  exact if_pos hlt

theorem toScript_of_next {m : Marker} {s t : Scan} (h : s.step m = .next t) :
    s.toScript m = t.toScript m := by
  rw [toScript.eq_def]
  split <;> simp_all

theorem toScript_of_done {m : Marker} {s : Scan} {script : Script Nat}
    (h : s.step m = .done script) : s.toScript m = script := by
  rw [toScript.eq_def]
  split <;> simp_all

/-- What is left to do where a marker ends. -/
def scriptFrom (m : Marker) (s : Scan) : Script Nat :=
  match s.expand.2 with
  | none => s.expand.1.toScript m
  | some missing => ⟨s.expand.1.actions.reverse, .error missing⟩

theorem step_of_not_lt {m : Marker} {s : Scan} {byte : UInt8} {rest : Bytes}
    (h : s.rest = byte :: rest) (hge : ¬ (s.read m byte rest).matched < m.bytes.length) :
    (∀ t, (s.read m byte rest).expand = (t, none) → s.step m = .next t) ∧
      ∀ t missing, (s.read m byte rest).expand = (t, some missing) →
        s.step m = .done ⟨t.actions.reverse, .error missing⟩ := by
  rw [step, h]
  simp only [read] at hge ⊢
  rw [if_neg hge]
  constructor
  · intro t ht
    rw [ht]
  · intro t missing ht
    rw [ht]

theorem toScript_of_not_lt {m : Marker} {s : Scan} {byte : UInt8} {rest : Bytes}
    (h : s.rest = byte :: rest) (hge : ¬ (s.read m byte rest).matched < m.bytes.length) :
    s.toScript m = (s.read m byte rest).scriptFrom m := by
  obtain ⟨hnext, hdone⟩ := step_of_not_lt h hge
  rw [scriptFrom]
  cases he : (s.read m byte rest).expand with
  | mk t missing =>
      cases missing with
      | none => exact toScript_of_next (hnext t he)
      | some missing => exact toScript_of_done (hdone t missing he)

theorem written_read (m : Marker) (s : Scan) (byte : UInt8) (rest : Bytes) :
    (s.read m byte rest).written = s.written ++ (m.feed s.matched byte).1 := by
  simp [written, read, Action.written]

theorem notices_read (m : Marker) (s : Scan) (byte : UInt8) (rest : Bytes) :
    (s.read m byte rest).notices = s.notices := by
  simp [notices, read, Action.notice?]

/-- `read` are the bytes since the start or the end of the last expression. -/
structure Reading (m : Marker) (input read : Bytes) (s : Scan) : Prop where
  overlap : Overlap m.bytes read s.matched
  not_infix : ¬ m.bytes <:+: read
  rest_eq : s.rest = input.drop s.position
  window_agrees : s.window.Agrees input

theorem reading_start (m : Marker) (input : Bytes) : (start input).Reading m input [] where
  overlap := Overlap.nil m.bytes
  not_infix := by simpa using m.bytes_ne_nil
  rest_eq := rfl
  window_agrees := .inl rfl

theorem Reading.read {m : Marker} {input read rest : Bytes} {s : Scan} {byte : UInt8}
    (h : s.Reading m input read)
    (hrest : (s.read m byte rest).rest = input.drop (s.read m byte rest).position)
    (hlt : (s.read m byte rest).matched < m.bytes.length) :
    (s.read m byte rest).Reading m input (read ++ [byte]) where
  overlap := m.overlap_feed byte h.overlap
  not_infix := by
    rw [List.infix_concat_iff]
    rintro (hs | hi)
    · exact Nat.ne_of_lt hlt ((m.overlap_feed byte h.overlap).eq_length_iff.2 hs)
    · exact h.not_infix hi
  rest_eq := hrest
  window_agrees := h.window_agrees

theorem written_expand (s : Scan) :
    s.expand.1.written = s.written ++
      (Expansion.ofText s.position s.rest (s.window.moveTo s.position s.rest).text).actions.flatMap
        Action.written := by
  simp [written, expand]

theorem notices_expand (s : Scan) :
    s.expand.1.notices = s.notices ++
      (Expansion.ofText s.position s.rest (s.window.moveTo s.position s.rest).text).actions.filterMap
        Action.notice? := by
  simp [notices, expand]

theorem reading_expand {m : Marker} {input : Bytes} {s : Scan} (hr : s.rest = input.drop s.position)
    (hw : s.window.Agrees input) (hpos : 0 < s.position) : s.expand.1.Reading m input [] where
  overlap := Overlap.nil m.bytes
  not_infix := by simpa using m.bytes_ne_nil
  rest_eq := by simp [expand, hr]
  window_agrees := by
    have ha := Window.agrees_moveTo hw hpos
    rwa [← hr] at ha

theorem Reading.suffix_of_not_lt {m : Marker} {input read : Bytes} {s : Scan} {byte : UInt8}
    (h : s.Reading m input read) (rest : Bytes)
    (hge : ¬ (s.read m byte rest).matched < m.bytes.length) :
    (s.read m byte rest).matched = m.bytes.length ∧ m.bytes <:+ read ++ [byte] := by
  have hoverlap := m.overlap_feed byte h.overlap
  have hmatched : (s.read m byte rest).matched = m.bytes.length :=
    Nat.le_antisymm hoverlap.le_length (Nat.le_of_not_lt hge)
  exact ⟨hmatched, hoverlap.eq_length_iff.1 hmatched⟩

/-- Whatever the window holds, an expression is read from all that can be decoded. -/
theorem text_moveTo {input : Bytes} {s : Scan} (hr : s.rest = input.drop s.position)
    (hw : s.window.Agrees input) (hpos : 0 < s.position) :
    (s.window.moveTo s.position s.rest).text = Utf8.decodePrefix s.rest := by
  have ht := Window.text_moveTo hw hpos
  rwa [← hr] at ht

theorem Reading.exists_report_eq {m : Marker} {input read rest out : Bytes} {start : Nat} {s : Scan}
    {byte : UInt8} (h : s.Reading m input read) (hstart : s.position = start + read.length)
    (hout : (s.read m byte rest).written ++ m.bytes.take (s.read m byte rest).matched =
      out ++ (read ++ [byte]))
    (hge : ¬ (s.read m byte rest).matched < m.bytes.length) :
    ∃ front, (s.read m byte rest).written = out ++ front ∧
      Direct.report m start (read ++ byte :: rest) =
        Direct.reportFrom m front (s.read m byte rest).position rest := by
  obtain ⟨hmatched, hs⟩ := h.suffix_of_not_lt rest hge
  have hplace := Marker.firstPlace?_of_suffix rest h.not_infix hs
  obtain ⟨front, hf⟩ := hs
  have hlen := congrArg List.length hf
  simp only [List.length_append, List.length_singleton] at hlen
  have hinput : read ++ byte :: rest = front ++ (m.bytes ++ rest) := by
    rw [← List.append_assoc, hf, List.append_assoc, List.singleton_append]
  refine ⟨front, ?_, ?_⟩
  · rw [hmatched, List.take_length, ← hf, ← List.append_assoc] at hout
    exact List.append_cancel_right hout
  · rw [show read.length + 1 - m.bytes.length = front.length by omega] at hplace
    have hposition : start + front.length + m.bytes.length = (s.read m byte rest).position := by
      change _ = s.position + 1
      omega
    rw [Direct.report_of_some hplace, hposition, hinput, List.take_left, ← List.drop_drop,
      List.drop_left, List.drop_left]

theorem report_scriptFrom {m : Marker} {input front out : Bytes} {s : Scan}
    (hr : s.rest = input.drop s.position) (hw : s.window.Agrees input) (hpos : 0 < s.position)
    (hwritten : s.written = out ++ front)
    (hnext : (s.expand.1.toScript m).report =
      (Direct.report m s.expand.1.position s.expand.1.rest).after s.expand.1.written
        s.expand.1.notices s.expand.1.expansions) :
    (s.scriptFrom m).report =
      (Direct.reportFrom m front s.position s.rest).after out s.notices s.expansions := by
  have hout := written_expand s
  have hnotices := notices_expand s
  rw [hwritten, List.append_assoc] at hout
  have hmissing : s.expand.2 =
      (Expansion.ofText s.position s.rest (s.window.moveTo s.position s.rest).text).missing := rfl
  rw [scriptFrom, Direct.reportFrom, ← text_moveTo hr hw hpos, ← hmissing]
  cases hm : s.expand.2 with
  | none =>
      dsimp only
      rw [hnext, Report.after_after, hout, hnotices]
      rfl
  | some missing =>
      change Report.mk s.expand.1.written s.expand.1.notices _ = _
      rw [hout, hnotices]
      rfl

theorem report_toScript_of_nil {m : Marker} {s : Scan} (h : s.rest = []) :
    (s.toScript m).report = ⟨s.written ++ m.bytes.take s.matched, s.notices, .ok s.expansions⟩ := by
  rw [toScript_of_done (step_nil h), List.reverse_cons]
  simp only [Script.report, List.flatMap_append, List.filterMap_append]
  change Report.mk (s.written ++ (m.bytes.take s.matched ++ [])) (s.notices ++ []) _ = _
  rw [List.append_nil, List.append_nil]
  rfl

/-- The search for markers and the window over the input change nothing about a run. -/
theorem report_toScript {m : Marker} {input read out : Bytes} {start : Nat} {s : Scan}
    (h : s.Reading m input read) (hstart : s.position = start + read.length)
    (hout : s.written ++ m.bytes.take s.matched = out ++ read) :
    (s.toScript m).report =
      (Direct.report m start (read ++ s.rest)).after out s.notices s.expansions := by
  -- `out` was written before the bytes of `read`, whose end may still be held back.
  induction hn : s.rest.length using Nat.strongRecOn generalizing read out start s with
  | ind n ih =>
      subst hn
      cases hr : s.rest with
      | nil =>
          rw [report_toScript_of_nil hr, hout, List.append_nil,
            Direct.report_of_none (Marker.firstPlace?_eq_none_iff.2 h.not_infix), Report.after,
            List.append_nil]
          rfl
      | cons byte rest =>
          have hwritten : (s.read m byte rest).written ++ m.bytes.take (m.feed s.matched byte).2 =
              out ++ (read ++ [byte]) := by
            rw [written_read, List.append_assoc, m.released_append_held byte h.overlap,
              ← List.append_assoc, hout, List.append_assoc]
          have hrest : (s.read m byte rest).rest = input.drop (s.read m byte rest).position := by
            have hd := congrArg List.tail (hr.symm.trans h.rest_eq)
            rwa [List.tail_cons, List.tail_drop] at hd
          by_cases hlt : (s.read m byte rest).matched < m.bytes.length
          · have hposition : (s.read m byte rest).position = start + (read ++ [byte]).length := by
              rw [List.length_append, ← Nat.add_assoc, ← hstart]
              rfl
            have hreport := ih _ (length_rest_lt_of_step (step_of_lt hr hlt)) (h.read hrest hlt)
              hposition hwritten rfl
            rw [toScript_of_next (step_of_lt hr hlt), hreport, notices_read, List.append_assoc]
            rfl
          · obtain ⟨front, hfront, hdirect⟩ := h.exists_report_eq hstart hwritten hlt
            have hpos : 0 < (s.read m byte rest).position := Nat.succ_pos _
            have hle : (s.read m byte rest).expand.1.rest.length < s.rest.length := by
              rw [hr]
              exact Nat.lt_succ_of_le (length_rest_expand_le _)
            have hnext := ih _ hle (reading_expand hrest h.window_agrees hpos) rfl rfl rfl
            rw [toScript_of_not_lt hr hlt, hdirect,
              report_scriptFrom hrest h.window_agrees hpos hfront hnext, notices_read]
            rfl

theorem report_start (m : Marker) (input : Bytes) :
    ((start input).toScript m).report = Direct.report m 0 input := by
  rw [report_toScript (reading_start m input) rfl rfl]
  exact Report.after_nil _

end Scan

/-- A run is the same as finding each leftmost marker in what is left of the input, decoding all that
follows it, and going on after the bytes that the expression took. -/
theorem expandBytes_eq_direct (m : Marker) (input : Bytes) :
    expandBytes m input none = Direct.report m 0 input := by
  rw [expandBytes_none, Scan.report_start]

end Sexpand
