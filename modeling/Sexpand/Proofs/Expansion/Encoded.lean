import Sexpand.Proofs.Expansion.Scanning
import Sexpand.Proofs.Sexp.Resumption

namespace Sexpand

open Utf8 (Bytes)

/-- What an expression takes of a source ends between two characters. -/
theorem Sexp.exists_eq_append_of_consumed (source : Text) :
    ∃ front back, source = front ++ back ∧ (parseInvocation source).consumed = Text.size front := by
  obtain ⟨-, read, comments, unread, hstands⟩ :=
    (Reader.Stands.start source).exists_fill (.start (some 1))
  exact ⟨_, _, hstands.read_splits.source_eq, hstands.consumed_eq⟩

theorem Direct.exists_output_reportFrom {m : Marker} (front : Text) (position : Nat) (back : Text)
    (h : ∀ position unread, unread.length ≤ back.length →
      ∃ t, (report m position (Utf8.encode unread)).output = Utf8.encode t) :
    ∃ t, (reportFrom m (Utf8.encode front) position (Utf8.encode back)).output = Utf8.encode t := by
  obtain ⟨read, unread, hback, hconsumed⟩ := Sexp.exists_eq_append_of_consumed back
  have hdrop : (Utf8.encode back).drop (Sexp.parseInvocation back).consumed =
      Utf8.encode unread := by
    rw [hconsumed, hback, Utf8.encode_append]
    exact List.drop_left' (Utf8.length_encode read)
  rw [reportFrom, Utf8.decodePrefix_encode, Expansion.missing_ofText, Expansion.consumed_ofText,
    Expansion.written_ofText, hdrop]
  generalize Expansion.ofInvocation position (Sexp.parseInvocation back).value = rendering
  cases rendering.missing with
  | some missing => exact ⟨front ++ rendering.text, (Utf8.encode_append _ _).symm⟩
  | none =>
      have hle : unread.length ≤ back.length := by
        rw [hback, List.length_append]
        exact Nat.le_add_left _ _
      obtain ⟨t, ht⟩ := h (position + (Sexp.parseInvocation back).consumed) unread hle
      refine ⟨front ++ rendering.text ++ t, ?_⟩
      rw [Utf8.encode_append, Utf8.encode_append]
      exact congrArg (_ ++ ·) ht

/-- A marker is found in a text where its characters are, so the report goes on with a text. -/
theorem Direct.exists_report_eq_reportFrom {m : Marker} {marker source : Text} {place : Nat}
    (hm : m.bytes = Utf8.encode marker) (hne : marker ≠ [])
    (hplace : m.firstPlace? (Utf8.encode source) = some place) (position : Nat) :
    ∃ front back, source = front ++ (marker ++ back) ∧
      report m position (Utf8.encode source) =
        reportFrom m (Utf8.encode front) (position + place + m.bytes.length)
          (Utf8.encode back) := by
  have hfound := (Marker.firstPlace?_eq_some_iff.1 hplace).1
  rw [hm] at hfound
  obtain ⟨front, back, rfl, rfl⟩ := Utf8.exists_eq_of_encode_isPrefix_drop hne hfound
  refine ⟨front, back, rfl, ?_⟩
  have htake : (Utf8.encode (front ++ (marker ++ back))).take (Text.size front) =
      Utf8.encode front := by
    rw [Utf8.encode_append]
    exact List.take_left' (Utf8.length_encode front)
  have hdrop : (Utf8.encode (front ++ (marker ++ back))).drop
      (Text.size front + m.bytes.length) = Utf8.encode back := by
    rw [← List.drop_drop, Utf8.encode_append, List.drop_left' (Utf8.length_encode front),
      Utf8.encode_append, hm, List.drop_left]
  rw [report_of_some hplace, htake, hdrop]

theorem Direct.exists_output_report {m : Marker} {marker : Text} (hm : m.bytes = Utf8.encode marker)
    (position : Nat) (source : Text) :
    ∃ t, (report m position (Utf8.encode source)).output = Utf8.encode t := by
  have hne := m.ne_nil_of_bytes_eq hm
  -- The search starts anew between two characters, since an expression takes whole ones.
  induction hn : source.length using Nat.strongRecOn generalizing position source with
  | ind n ih =>
      subst hn
      cases hplace : m.firstPlace? (Utf8.encode source) with
      | none => exact ⟨source, by rw [report_of_none hplace]⟩
      | some place =>
          obtain ⟨front, back, hsource, hreport⟩ :=
            exists_report_eq_reportFrom hm hne hplace position
          rw [hreport]
          apply exists_output_reportFrom
          intro position unread hle
          refine ih _ ?_ position unread rfl
          have hpos := List.length_pos_iff.2 hne
          rw [hsource, List.length_append, List.length_append]
          omega

/-- Whatever text the marker is, what is written for a text is a text, also where an argument is
missing. So a text is expanded as its bytes are, and none of them is replaced. -/
theorem expandBytes_encode (source : Text) :
    (∀ (m : Marker) (marker : Text), m.bytes = Utf8.encode marker →
      ∃ t, (expandBytes m (Utf8.encode source) none).output = Utf8.encode t) ∧
    let report := expandBytes .standard (Utf8.encode source) none
    ∃ t, report.output = Utf8.encode t ∧ expandText source = report.result.map fun _ => t := by
  have htext : ∀ (m : Marker) (marker : Text), m.bytes = Utf8.encode marker →
      ∃ t, (expandBytes m (Utf8.encode source) none).output = Utf8.encode t := by
    intro m marker hm
    rw [expandBytes_none, Scan.report_start]
    exact Direct.exists_output_report hm 0 source
  obtain ⟨t, ht⟩ := htext .standard Marker.keyword rfl
  refine ⟨htext, t, ht, ?_⟩
  rw [expandText, ht, Utf8.decodeLossy_encode]

theorem expandBytes_encode_accents :
    let marker := "éè".toList
    let source := "êéé(ê)éè(var é)".toList
    let m := Marker.ofBytes (Utf8.encode marker) (by decide)
    let report := expandBytes m (Utf8.encode source) none
    m.bytes = Utf8.encode marker ∧ report.result.toOption = none ∧
      ∃ t, report.output = Utf8.encode t := by
  intro marker source m report
  have hresult : report.result.toOption = none := by decide +kernel
  exact ⟨rfl, hresult, (expandBytes_encode source).1 m marker rfl⟩

end Sexpand
