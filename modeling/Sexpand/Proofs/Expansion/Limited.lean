import Sexpand.Proofs.Expansion.Scanning

namespace Sexpand

open Utf8 (Bytes)

def Action.origins : Action → List Origin
  | .write origin bytes => List.replicate bytes.length origin
  | .report _ => []

theorem Action.length_flatMap_origins (actions : List Action) :
    (actions.flatMap origins).length = (actions.flatMap written).length := by
  induction actions with
  | nil => rfl
  | cons action actions ih =>
      rw [List.flatMap_cons, List.flatMap_cons, List.length_append, List.length_append, ih]
      cases action with
      | write origin bytes => rw [origins, written, List.length_replicate]
      | report notice => rfl

/-- Bytes that do not all fit are written up to some byte of one action. -/
theorem Action.exists_write_of_lt {actions : List Action} {room : Nat}
    (h : room < (actions.flatMap written).length) :
    ∃ done origin bytes others, actions = done ++ .write origin bytes :: others ∧
      (done.flatMap written).length ≤ room ∧
      room < (done.flatMap written).length + bytes.length := by
  induction actions generalizing room with
  | nil => simp at h
  | cons action actions ih =>
      cases action with
      | report notice =>
          obtain ⟨done, origin, bytes, others, rfl, hle, hlt⟩ := ih h
          exact ⟨.report notice :: done, origin, bytes, others, rfl, hle, hlt⟩
      | write origin bytes =>
          rw [List.flatMap_cons, List.length_append, written] at h
          by_cases hfit : room < bytes.length
          · exact ⟨[], origin, bytes, actions, rfl, Nat.zero_le _, by simpa using hfit⟩
          · have hless : room - bytes.length < (actions.flatMap written).length := by omega
            obtain ⟨done, origin', bytes', others, rfl, hle, hlt⟩ := ih hless
            refine ⟨.write origin bytes :: done, origin', bytes', others, rfl, ?_, ?_⟩
            all_goals
              rw [List.flatMap_cons, List.length_append, written]
              omega

namespace Effects

theorem perform_append (fx : Effects) (front back : List Action) :
    fx.perform (front ++ back) =
      match fx.perform front with
      | (fx, none) => fx.perform back
      | (fx, some origin) => (fx, some origin) := by
  induction front generalizing fx with
  | nil => rfl
  | cons action front ih =>
      cases action with
      | report notice => exact ih _
      | write origin bytes =>
          rw [List.cons_append, perform, perform]
          obtain ⟨output, _ | _⟩ := fx.output.write bytes
          · rfl
          · exact ih _

theorem perform_of_le {fx : Effects} {room : Nat} (h : fx.output.room = some room)
    {actions : List Action} (hle : (actions.flatMap Action.written).length ≤ room) :
    fx.perform actions =
      (⟨⟨(actions.flatMap Action.written).reverse ++ fx.output.reversed,
          some (room - (actions.flatMap Action.written).length)⟩,
        (actions.filterMap Action.notice?).reverse ++ fx.notices⟩, none) := by
  induction actions generalizing fx room with
  | nil =>
      obtain ⟨⟨reversed, _⟩, notices⟩ := fx
      obtain rfl := h
      rfl
  | cons action actions ih =>
      obtain ⟨⟨reversed, _⟩, notices⟩ := fx
      obtain rfl := h
      cases action with
      | report notice =>
          rw [perform, ih rfl hle]
          simp [Action.written, Action.notice?]
      | write origin bytes =>
          rw [List.flatMap_cons, List.length_append, Action.written] at hle
          have hfit : bytes.length ≤ room := by omega
          simp only [perform, Output.write, hfit, decide_true]
          rw [ih rfl (by omega)]
          simp [List.filterMap_cons, Action.written, Action.notice?, List.take_of_length_le hfit,
            Nat.sub_sub]

/-- Where the bytes do not fit, those that do are written, and the first other one decides how the
performance fails. What comes after it is not reported. -/
theorem perform_of_lt {fx : Effects} {room : Nat} (h : fx.output.room = some room)
    {actions : List Action} (hlt : room < (actions.flatMap Action.written).length) :
    ∃ done origin, done <+: actions ∧ (actions.flatMap Action.origins)[room]? = some origin ∧
      fx.perform actions =
        (⟨⟨((actions.flatMap Action.written).take room).reverse ++ fx.output.reversed, some 0⟩,
          (done.filterMap Action.notice?).reverse ++ fx.notices⟩, some origin) := by
  obtain ⟨done, origin, bytes, others, rfl, hle, hlast⟩ := Action.exists_write_of_lt hlt
  refine ⟨done, origin, List.prefix_append _ _, ?_, ?_⟩
  · have hlen := Action.length_flatMap_origins done
    rw [List.flatMap_append, List.flatMap_cons, List.getElem?_append_right (by omega), hlen,
      Action.origins, List.getElem?_append_left (by rw [List.length_replicate]; omega),
      List.getElem?_replicate, if_pos (by omega)]
  · have hfull : ¬ bytes.length ≤ room - (done.flatMap Action.written).length := by omega
    have htake : ((done ++ .write origin bytes :: others).flatMap Action.written).take room =
        done.flatMap Action.written ++
          bytes.take (room - (done.flatMap Action.written).length) := by
      rw [List.flatMap_append, List.take_append, List.take_of_length_le hle, List.flatMap_cons,
        Action.written, List.take_append_of_le_length (by omega)]
    rw [perform_append, perform_of_le h hle]
    simp only [perform, Output.write, hfull, decide_false]
    rw [htake, List.reverseAux_eq, List.reverse_append, List.append_assoc,
      Nat.sub_eq_zero_of_le (Nat.le_of_not_le hfull)]

end Effects

namespace Direct

/-- For each byte of the output, whether it stands in the source or belongs to an expression that a
marker announces. -/
def origins (m : Marker) (input : Bytes) : List Origin :=
  match _h : m.firstPlace? input with
  | none => List.replicate input.length .source
  | some place =>
      let rest := input.drop (place + m.bytes.length)
      let invocation := Sexp.parseInvocation (Utf8.longestText rest rest.length)
      let rendering := invocation.value.head?.elim .empty (Sexp.render true)
      List.replicate place .source ++
        (List.replicate (Text.size rendering.text) .expression ++
          match rendering.missing with
          | some _ => []
          | none => origins m (rest.drop invocation.consumed))
termination_by input.length
decreasing_by exact Marker.length_drop_lt _h _

theorem origins_of_none {m : Marker} {input : Bytes} (h : m.firstPlace? input = none) :
    origins m input = List.replicate input.length .source := by
  rw [origins.eq_def]
  split
  · rfl
  · simp_all

def originsFrom (m : Marker) (position : Nat) (rest : Bytes) : List Origin :=
  let expansion := Expansion.ofText position rest (Utf8.decodePrefix rest)
  expansion.actions.flatMap Action.origins ++
    match expansion.missing with
    | some _ => []
    | none => origins m (rest.drop expansion.consumed)

end Direct

namespace Rendering

theorem origins_actions (r : Rendering) :
    r.actions.flatMap Action.origins = List.replicate (Text.size r.text) .expression := by
  obtain ⟨parts, missing⟩ := r
  simp only [actions, text]
  induction parts with
  | nil => rfl
  | cons part parts ih =>
      rw [List.map_cons, List.flatMap_cons, List.flatMap_cons, Text.size_append,
        ← List.replicate_append_replicate, ih]
      congr 1
      cases part with
      | atom text => rw [Part.action, Action.origins, Utf8.length_encode, Part.written]
      | punctuation text => rw [Part.action, Action.origins, Utf8.length_encode, Part.written]
      | notice n => rfl

end Rendering

theorem Expansion.origins_ofText (position : Nat) (rest : Bytes) (text : Text) :
    (ofText position rest text).actions.flatMap Action.origins =
      List.replicate (Text.size
        (ofInvocation position (Sexp.parseInvocation text).value).text) .expression := by
  simp only [ofText, List.flatMap_append, Rendering.origins_actions]
  split <;> simp [Action.origins]

theorem Direct.origins_of_some {m : Marker} {place : Nat} {input : Bytes}
    (h : m.firstPlace? input = some place) (position : Nat) :
    origins m input = List.replicate place .source ++
      originsFrom m position (input.drop (place + m.bytes.length)) := by
  rw [origins.eq_def]
  split
  · simp_all
  · rename_i n hn
    obtain rfl : n = place := by simpa [hn] using h
    simp only [originsFrom, Utf8.longestText_eq_decodePrefix, Expansion.missing_ofText,
      Expansion.consumed_ofText, Expansion.origins_ofText]
    cases (Sexp.parseInvocation (Utf8.decodePrefix (input.drop (n + m.bytes.length)))).value <;> rfl

namespace Scan

def origins (s : Scan) : List Origin := s.actions.reverse.flatMap Action.origins

theorem origins_read (m : Marker) (s : Scan) (byte : UInt8) (rest : Bytes) :
    (s.read m byte rest).origins =
      s.origins ++ List.replicate (m.feed s.matched byte).1.length .source := by
  simp [origins, read, Action.origins]

theorem origins_expand (s : Scan) :
    s.expand.1.origins = s.origins ++
      (Expansion.ofText s.position s.rest (s.window.moveTo s.position s.rest).text).actions.flatMap
        Action.origins := by
  simp [origins, expand]

theorem origins_toScript_of_nil {m : Marker} {s : Scan} (h : s.rest = [])
    (hle : s.matched ≤ m.bytes.length) :
    (s.toScript m).actions.flatMap Action.origins =
      s.origins ++ List.replicate s.matched .source := by
  rw [toScript_of_done (step_nil h), List.reverse_cons, List.flatMap_append]
  simp [origins, Action.origins, Nat.min_eq_left hle]

/-- The byte completes the leftmost marker of what has been read since the last expression. -/
theorem Reading.firstPlace?_eq {m : Marker} {input read : Bytes} {s : Scan} {byte : UInt8}
    (h : s.Reading m input read) (rest : Bytes)
    (hge : ¬ (s.read m byte rest).matched < m.bytes.length) :
    m.firstPlace? (read ++ byte :: rest) = some (read.length + 1 - m.bytes.length) ∧
      (s.read m byte rest).matched = m.bytes.length ∧ m.bytes.length ≤ read.length + 1 := by
  obtain ⟨hmatched, hs⟩ := h.suffix_of_not_lt rest hge
  refine ⟨Marker.firstPlace?_of_suffix rest h.not_infix hs, hmatched, ?_⟩
  simpa using hs.length_le

theorem origins_scriptFrom {m : Marker} {input : Bytes} {s : Scan}
    (hr : s.rest = input.drop s.position) (hw : s.window.Agrees input) (hpos : 0 < s.position)
    (hnext : (s.expand.1.toScript m).actions.flatMap Action.origins =
      s.expand.1.origins ++ Direct.origins m s.expand.1.rest) :
    (s.scriptFrom m).actions.flatMap Action.origins =
      s.origins ++ Direct.originsFrom m s.position s.rest := by
  have hout := origins_expand s
  have hmissing : s.expand.2 =
      (Expansion.ofText s.position s.rest (s.window.moveTo s.position s.rest).text).missing := rfl
  rw [scriptFrom, Direct.originsFrom, ← text_moveTo hr hw hpos, ← hmissing]
  cases hm : s.expand.2 with
  | none =>
      dsimp only
      rw [hnext, hout, List.append_assoc]
      rfl
  | some missing =>
      dsimp only
      rw [List.append_nil]
      exact hout

theorem origins_toScript {m : Marker} {input read : Bytes} {out : List Origin} {s : Scan}
    (h : s.Reading m input read)
    (hout : s.origins ++ List.replicate s.matched .source =
      out ++ List.replicate read.length .source) :
    (s.toScript m).actions.flatMap Action.origins = out ++ Direct.origins m (read ++ s.rest) := by
  -- What is held back comes from the source, and stands at the end of `read`.
  induction hn : s.rest.length using Nat.strongRecOn generalizing read out s with
  | ind n ih =>
      subst hn
      cases hr : s.rest with
      | nil =>
          rw [origins_toScript_of_nil hr h.overlap.le_length, hout, List.append_nil,
            Direct.origins_of_none (Marker.firstPlace?_eq_none_iff.2 h.not_infix)]
      | cons byte rest =>
          have hheld := congrArg List.length (m.released_append_held byte h.overlap)
          have hle := (m.overlap_feed byte h.overlap).le_length
          rw [List.length_append, List.length_append, List.length_take, List.length_take,
            Nat.min_eq_left hle, Nat.min_eq_left h.overlap.le_length] at hheld
          have hread : (s.read m byte rest).origins ++
              List.replicate (s.read m byte rest).matched .source =
                out ++ List.replicate (read ++ [byte]).length .source := by
            rw [origins_read, List.append_assoc, List.replicate_append_replicate]
            change s.origins ++ List.replicate (_ + (m.feed s.matched byte).2) _ = _
            rw [hheld, ← List.replicate_append_replicate, ← List.append_assoc, hout,
              List.append_assoc, List.replicate_append_replicate, List.length_append]
          have hrest : (s.read m byte rest).rest = input.drop (s.read m byte rest).position := by
            have hd := congrArg List.tail (hr.symm.trans h.rest_eq)
            rwa [List.tail_cons, List.tail_drop] at hd
          by_cases hlt : (s.read m byte rest).matched < m.bytes.length
          · rw [toScript_of_next (step_of_lt hr hlt),
              ih _ (length_rest_lt_of_step (step_of_lt hr hlt)) (h.read hrest hlt) hread rfl,
              List.append_assoc]
            rfl
          · obtain ⟨hplace, hmatched, hlen⟩ := h.firstPlace?_eq rest hlt
            have hpos : 0 < (s.read m byte rest).position := Nat.succ_pos _
            have hless : (s.read m byte rest).expand.1.rest.length < s.rest.length := by
              rw [hr]
              exact Nat.lt_succ_of_le (length_rest_expand_le _)
            have hnext := ih _ hless (reading_expand hrest h.window_agrees hpos) rfl rfl
            have hfront : (s.read m byte rest).origins =
                out ++ List.replicate (read.length + 1 - m.bytes.length) .source := by
              rw [hmatched, List.length_append, List.length_singleton,
                ← Nat.sub_add_cancel hlen, ← List.replicate_append_replicate,
                ← List.append_assoc] at hread
              exact List.append_cancel_right hread
            have hdrop : (read ++ byte :: rest).drop
                (read.length + 1 - m.bytes.length + m.bytes.length) = rest := by
              rw [Nat.sub_add_cancel hlen, ← List.singleton_append, ← List.append_assoc]
              exact List.drop_left' (List.length_append)
            rw [toScript_of_not_lt hr hlt, origins_scriptFrom hrest h.window_agrees hpos hnext,
              hfront, Direct.origins_of_some hplace (s.read m byte rest).position, hdrop,
              List.append_assoc]
            rfl

theorem origins_start (m : Marker) (input : Bytes) :
    ((start input).toScript m).actions.flatMap Action.origins = Direct.origins m input :=
  origins_toScript (reading_start m input) rfl

end Scan

theorem Direct.length_origins (m : Marker) (input : Bytes) :
    (origins m input).length = (expandBytes m input none).output.length := by
  rw [← Scan.origins_start, Action.length_flatMap_origins, expandBytes_none]
  rfl

/-- An output with too little room holds what fits, and the run fails at the first byte that does not,
with an error that tells whether this byte belongs to an expression. With enough room the run is that
without a limit. -/
theorem expandBytes_some (m : Marker) (input : Bytes) (limit : Nat) :
    let free := expandBytes m input none
    let limited := expandBytes m input (some limit)
    if free.output.length ≤ limit then limited = free
    else limited.output = free.output.take limit ∧ limited.notices <+: free.notices ∧
      ∃ origin, (Direct.origins m input)[limit]? = some origin ∧
        limited.result = .error (.outputFull origin) := by
  intro free limited
  have hfree : free = ((Scan.start input).toScript m).report := expandBytes_none m input
  have hroom : (Effects.empty (some limit)).output.room = some limit := rfl
  split
  · rename_i hle
    rw [hfree] at hle ⊢
    change expandBytes m input (some limit) = _
    rw [expandBytes, Script.run, Effects.perform_of_le hroom hle]
    simp [Script.report, Effects.empty, Output.empty, Output.bytes]
  · rename_i hgt
    rw [hfree] at hgt
    obtain ⟨done, origin, hdone, horigin, hperform⟩ :=
      Effects.perform_of_lt hroom (Nat.lt_of_not_le hgt)
    have hlimited : limited = ⟨((Scan.start input).toScript m).report.output.take limit,
        done.filterMap Action.notice?, .error (.outputFull origin)⟩ := by
      change expandBytes m input (some limit) = _
      rw [expandBytes, Script.run, hperform]
      simp [Script.report, Effects.empty, Output.empty, Output.bytes]
    rw [Scan.origins_start] at horigin
    rw [hlimited, hfree]
    exact ⟨rfl, hdone.filterMap _, origin, horigin, rfl⟩

end Sexpand
