import Sexpand.Proofs.Expansion.Scanning
import Sexpand.Proofs.Sexp.RoundTrip

namespace Sexpand

open Utf8 (Bytes)

namespace Expansion

theorem missing_ofText_congr (position position' : Nat) (rest : Bytes) (text : Text) :
    (ofText position rest text).missing = (ofText position' rest text).missing := by
  rw [missing_ofText, missing_ofText]
  cases (Sexp.parseInvocation text).value <;> rfl

theorem written_ofText_congr (position position' : Nat) (rest : Bytes) (text : Text) :
    (ofText position rest text).actions.flatMap Action.written =
      (ofText position' rest text).actions.flatMap Action.written := by
  rw [written_ofText, written_ofText]
  cases (Sexp.parseInvocation text).value <;> rfl

end Expansion

namespace Direct

/-- Only notices tell where an input starts. -/
theorem output_and_result_report (m : Marker) (position position' : Nat) (input : Bytes) :
    (report m position input).output = (report m position' input).output ∧
      (report m position input).result = (report m position' input).result := by
  induction hn : input.length using Nat.strongRecOn generalizing position position' input with
  | ind n ih =>
      subst hn
      cases h : m.firstPlace? input with
      | none =>
          rw [report_of_none h, report_of_none h]
          exact ⟨rfl, rfl⟩
      | some place =>
          rw [report_of_some h, report_of_some h, reportFrom, reportFrom,
            Expansion.missing_ofText_congr _ (position' + place + m.bytes.length),
            Expansion.written_ofText_congr _ (position' + place + m.bytes.length)]
          have hlt := Marker.length_drop_lt h
          generalize input.drop (place + m.bytes.length) = rest at hlt ⊢
          cases (Expansion.ofText (position' + place + m.bytes.length) rest _).missing with
          | none =>
              obtain ⟨houtput, hresult⟩ := ih _ (hlt _) _ _ _ rfl
              exact ⟨congrArg (_ ++ ·) houtput, congrArg (Except.map _) hresult⟩
          | some missing => exact ⟨rfl, rfl⟩

theorem exists_report_append {m : Marker} {front : Bytes} {t : Text} {e : Sexp}
    (hm : m.IsUnbordered) (hfront : ¬ m.bytes <:+: front)
    (hread : ∀ rest, Sexp.parseInvocation (t ++ rest) = ⟨[e], Text.size t⟩) (back : Bytes) :
    ∃ position notices, report m 0 (front ++ (m.bytes ++ (Utf8.encode t ++ back))) =
      match (e.render true).missing with
      | some missing =>
          ⟨front ++ Utf8.encode (e.render true).text, notices, .error (.missingArgument missing)⟩
      | none =>
          (report m position back).after (front ++ Utf8.encode (e.render true).text) notices 1 := by
  have hdrop : (front ++ (m.bytes ++ (Utf8.encode t ++ back))).drop
      (front.length + m.bytes.length) = Utf8.encode t ++ back := by
    rw [← List.drop_drop, List.drop_left, List.drop_left]
  have hback : (Utf8.encode t ++ back).drop (Text.size t) = back :=
    List.drop_left' (Utf8.length_encode t)
  have hmissing : ∀ position rest,
      (Expansion.ofText position rest (t ++ Utf8.decodePrefix back)).missing =
        (e.render true).missing := by
    intro position rest
    rw [Expansion.missing_ofText, hread]
    rfl
  have hconsumed : ∀ position rest,
      (Expansion.ofText position rest (t ++ Utf8.decodePrefix back)).consumed = Text.size t :=
    fun _ _ => congrArg Sexp.Parsed.consumed (hread _)
  rw [report_of_some (Marker.firstPlace?_append hm hfront _), hdrop, List.take_left, reportFrom,
    Utf8.decodePrefix_encode_append, Expansion.written_ofText, hmissing, hconsumed, hback, hread]
  exact ⟨_, _, rfl⟩

end Direct

/-- A list after a marker is expanded where it stands. What comes before it is copied, and what comes
after it is expanded as if it were the whole input. -/
theorem expandBytes_append {front back : Bytes} {gap p : Text} {items : List Sexp}
    (hfront : ¬ Marker.standard.bytes <:+: front) (hgap : ∀ c ∈ gap, Text.isBlank c = true)
    (hprintable : (Sexp.list items).IsPrintable) (hdepth : (Sexp.list items).depth ≤ Nest.maxDepth)
    (hp : p = (Sexp.list items).compact ∨ ∃ width, p = (Sexp.list items).pretty width) :
    let emitted := ((Sexp.list items).render true).script.run (.empty none)
    let others := expandBytes .standard back none
    let whole :=
      expandBytes .standard (front ++ Utf8.encode (Marker.keyword ++ gap ++ p) ++ back) none
    match emitted.2 with
    | .ok () =>
        whole.output = front ++ emitted.1.output.bytes ++ others.output ∧
          whole.result = others.result.map (1 + ·)
    | .error error =>
        whole.output = front ++ emitted.1.output.bytes ∧ whole.result = .error error := by
  have hspells : Spells false [.list items] (gap ++ p) := by
    apply Spells.gap_append _ hgap (by simp)
    obtain rfl | ⟨width, rfl⟩ := hp
    · exact (Sexp.list items).spells_compact
    · exact (Sexp.list items).spells_pretty width
  obtain ⟨position, notices, hreport⟩ := Direct.exists_report_append Marker.standard_isUnbordered
    hfront (hspells.parseInvocation_list hprintable hdepth) back
  have hinput : front ++ Utf8.encode (Marker.keyword ++ gap ++ p) ++ back =
      front ++ (Marker.standard.bytes ++ (Utf8.encode (gap ++ p) ++ back)) := by
    rw [List.append_assoc Marker.keyword, Utf8.encode_append, List.append_assoc, List.append_assoc]
    rfl
  obtain ⟨houtput, hresult⟩ := Direct.output_and_result_report .standard position 0 back
  obtain ⟨hbytes, houtcome⟩ := ((Sexp.list items).render true).run_script
  dsimp only
  rw [expandBytes_none, Scan.report_start, expandBytes_none, Scan.report_start, hinput, hreport,
    hbytes, houtcome, ← houtput, ← hresult]
  cases ((Sexp.list items).render true).missing with
  | none => exact ⟨rfl, rfl⟩
  | some missing => exact ⟨rfl, rfl⟩

theorem expandBytes_append_call :
    let front := Utf8.encode "a__sex".toList
    let items : List Sexp := [.atom "f".toList, .list [.atom "g".toList, .atom "(x".toList]]
    let p := (Sexp.list items).pretty 3
    let back := 255 :: Utf8.encode "__sexpr(h)".toList
    let whole :=
      expandBytes .standard (front ++ Utf8.encode (Marker.keyword ++ ['\n'] ++ p) ++ back) none
    let others := expandBytes .standard back none
    (¬ Marker.standard.bytes <:+: front ∧ (∀ c ∈ ['\n'], Text.isBlank c = true) ∧
      (Sexp.list items).IsPrintable ∧ (Sexp.list items).depth ≤ Nest.maxDepth) ∧
    whole.output = front ++ Utf8.encode "f (g ((x))".toList ++ others.output ∧
      whole.result = others.result.map (1 + ·) := by
  intro front items p back whole others
  have hfront : ¬ Marker.standard.bytes <:+: front := Marker.firstPlace?_eq_none_iff.1 (by decide)
  have hgap : ∀ c ∈ ['\n'], Text.isBlank c = true := by simp [Text.isBlank]
  have hprintable : (Sexp.list items).IsPrintable := by decide
  have hdepth : (Sexp.list items).depth ≤ Nest.maxDepth := by decide
  exact ⟨⟨hfront, hgap, hprintable, hdepth⟩,
    expandBytes_append hfront hgap hprintable hdepth (.inr ⟨3, rfl⟩)⟩

end Sexpand
