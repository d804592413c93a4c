import Sexpand.Proofs.Expansion.Unbounded
import Sexpand.Proofs.Marker.Occurrence
import Sexpand.Proofs.Marker.Overlap
import Sexpand.Proofs.Text.Window

namespace Sexpand

open Utf8 (Bytes)

/-- The report with the output and the notices of what went before. -/
def Report.after (output : Bytes) (notices : List Notice) (expansions : Nat) (r : Report) : Report :=
  ⟨output ++ r.output, notices ++ r.notices, r.result.map (expansions + ·)⟩

theorem Report.after_after (r : Report) (output output' : Bytes) (notices notices' : List Notice)
    (n n' : Nat) :
    (r.after output notices n).after output' notices' n' =
      r.after (output' ++ output) (notices' ++ notices) (n' + n) := by
  obtain ⟨_, _, _ | _⟩ := r <;> simp [Report.after, Except.map, Nat.add_assoc]

theorem Report.after_nil (r : Report) : r.after [] [] 0 = r := by
  obtain ⟨_, _, _ | _⟩ := r <;> simp [Report.after, Except.map]

namespace Direct

/-- Expands bytes that start at `position`. Each marker is looked for from where the last expression
ends, and all the bytes after it are decoded. -/
def report (m : Marker) (position : Nat) (input : Bytes) : Report :=
  match _h : m.firstPlace? input with
  | none => ⟨input, [], .ok 0⟩
  | some place =>
      let position := position + place + m.bytes.length
      let rest := input.drop (place + m.bytes.length)
      let text := Utf8.longestText rest rest.length
      let invocation := Sexp.parseInvocation text
      let isCut := invocation.consumed = Text.size text ∧ Text.size text < rest.length
      let rendering :=
        invocation.value.head?.elim (.notice (.noExpression position)) (Sexp.render true)
      let output := input.take place ++ Utf8.encode rendering.text
      let notices :=
        (if isCut then [.endsAtInvalidBytes position] else []) ++
          [.expanding position invocation.value, .shape invocation.value] ++ rendering.notices
      match rendering.missing with
      | some missing => ⟨output, notices, .error (.missingArgument missing)⟩
      | none =>
          (report m (position + invocation.consumed) (rest.drop invocation.consumed)).after
            output notices 1
termination_by input.length
decreasing_by exact Marker.length_drop_lt _h _

end Direct

namespace Expansion

theorem isCut_iff (text : Text) (rest : Bytes) (consumed : Nat) :
    (Text.dropBytes? consumed text = some [] ∧ rest.drop consumed ≠ []) ↔
      (consumed = Text.size text ∧ Text.size text < rest.length) := by
  simp only [Text.dropBytes?_eq_some_iff, List.append_nil, ne_eq, List.drop_eq_nil_iff, Nat.not_le]
  constructor
  · rintro ⟨⟨s, rfl, rfl⟩, hl⟩
    exact ⟨rfl, hl⟩
  · rintro ⟨rfl, hl⟩
    exact ⟨⟨text, rfl, rfl⟩, hl⟩

theorem ofInvocation_eq (position : Nat) (items : List Sexp) :
    ofInvocation position items =
      items.head?.elim (.notice (.noExpression position)) (Sexp.render true) := by
  cases items <;> rfl

theorem missing_ofText (position : Nat) (rest : Bytes) (text : Text) :
    (ofText position rest text).missing =
      (ofInvocation position (Sexp.parseInvocation text).value).missing := rfl

theorem consumed_ofText (position : Nat) (rest : Bytes) (text : Text) :
    (ofText position rest text).consumed = (Sexp.parseInvocation text).consumed := rfl

theorem written_ofText (position : Nat) (rest : Bytes) (text : Text) :
    (ofText position rest text).actions.flatMap Action.written =
      Utf8.encode (ofInvocation position (Sexp.parseInvocation text).value).text := by
  simp only [ofText, List.flatMap_append, Rendering.flatMap_written_actions]
  split <;> simp [Action.written]

theorem notices_ofText (position : Nat) (rest : Bytes) (text : Text) :
    (ofText position rest text).actions.filterMap Action.notice? =
      (if (Sexp.parseInvocation text).consumed = Text.size text ∧ Text.size text < rest.length then
          [.endsAtInvalidBytes position] else []) ++
        [.expanding position (Sexp.parseInvocation text).value,
          .shape (Sexp.parseInvocation text).value] ++
        (ofInvocation position (Sexp.parseInvocation text).value).notices := by
  simp only [ofText, isCut_iff, List.filterMap_append]
  split <;> rfl

end Expansion

namespace Direct

theorem report_of_none {m : Marker} {position : Nat} {input : Bytes}
    (h : m.firstPlace? input = none) : report m position input = ⟨input, [], .ok 0⟩ := by
  rw [report.eq_def]
  split
  · rfl
  · simp_all

/-- The report of an input whose first marker ends at `position`. -/
def reportFrom (m : Marker) (output : Bytes) (position : Nat) (rest : Bytes) : Report :=
  let expansion := Expansion.ofText position rest (Utf8.decodePrefix rest)
  let output := output ++ expansion.actions.flatMap Action.written
  let notices := expansion.actions.filterMap Action.notice?
  match expansion.missing with
  | some missing => ⟨output, notices, .error (.missingArgument missing)⟩
  | none =>
      (report m (position + expansion.consumed) (rest.drop expansion.consumed)).after
        output notices 1

theorem report_of_some {m : Marker} {position place : Nat} {input : Bytes}
    (h : m.firstPlace? input = some place) :
    report m position input = reportFrom m (input.take place)
      (position + place + m.bytes.length) (input.drop (place + m.bytes.length)) := by
  rw [report.eq_def]
  split
  · simp_all
  · rename_i n hn
    obtain rfl : n = place := by simpa [hn] using h
    simp only [reportFrom, Utf8.longestText_eq_decodePrefix, Expansion.missing_ofText,
      Expansion.consumed_ofText, Expansion.written_ofText, Expansion.notices_ofText,
      Expansion.ofInvocation_eq]

end Direct

end Sexpand
