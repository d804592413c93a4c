import Sexpand.Proofs.Expansion.InPlace
import Sexpand.Proofs.Sexp.Resumption

namespace Sexpand

open Utf8 (Bytes)
open Lexeme (Splits slices)

/-- The source ends before a first expression in it ends or begins. -/
def Sexp.IsUnfinished (source : Text) : Prop :=
  (Reader.fill (.start (some 1)) (.ofText source)).stop = none

instance (source : Text) : Decidable (Sexp.IsUnfinished source) :=
  inferInstanceAs (Decidable (_ = none))

def Text.EndsInComment (source : Text) : Prop :=
  ∃ lexeme ∈ (Lexeme.ofText source).getLast?, lexeme.token? = none

theorem Reader.rest_fill_eq_nil {n : Nest} {r : Reader} (h : (fill n r).stop = none) :
    (fill n r).reader.rest = [] := by
  fun_induction fill n r with
  | case1 n r hnext => exact Lexeme.eq_nil_of_next?_eq_none hnext
  | case2 n r lexeme rest hnext stop hcomment ih => exact ih h
  | case3 n r lexeme rest hnext stop token htoken next hstep ih => exact ih h
  | case4 => simp at h
  | case5 => simp at h

namespace Sexp.IsUnfinished

/-- All of the source is read, but what is counted ends with its last token. -/
theorem exists_splits {source : Text} (h : IsUnfinished source) :
    ∃ read comments, Splits source read (slices comments) ∧ Splits (slices comments) comments [] ∧
      (∀ lexeme ∈ comments, lexeme.token? = none) ∧
      (∀ lexeme ∈ read.getLast?, lexeme.token? ≠ none) ∧
      (parseInvocation source).consumed = Text.size (slices read) := by
  obtain ⟨-, read, comments, unread, hstands⟩ :=
    (Reader.Stands.start source).exists_fill (.start (some 1))
  have hrest := Reader.rest_fill_eq_nil h
  have hcomments := hstands.comments_splits
  rw [hrest] at hcomments
  obtain rfl : unread = slices comments := hcomments.source_eq.trans (List.append_nil _)
  have hstop : (decide ((Reader.fill (.start (some 1)) (.ofText source)).stop =
      some Token.openList)) = false := by
    rw [h]
    rfl
  rw [hstop] at hstands
  exact ⟨read, comments, hstands.read_splits, hcomments, hstands.isComment, hstands.isToken rfl,
    hstands.consumed_eq⟩

theorem slices_eq_nil_iff {source : Text} {read comments : List Lexeme}
    (h : Splits source (read ++ comments) [])
    (hcomments : ∀ lexeme ∈ comments, lexeme.token? = none)
    (hread : ∀ lexeme ∈ read.getLast?, lexeme.token? ≠ none) :
    slices comments = [] ↔ ¬ Text.EndsInComment source := by
  rw [Lexeme.slices_eq_nil_iff, Text.EndsInComment, h.ofText_eq]
  constructor
  · rintro rfl ⟨lexeme, hlast, htoken⟩
    rw [List.append_nil] at hlast
    exact hread lexeme hlast htoken
  · intro hlast
    rcases List.eq_nil_or_concat comments with rfl | ⟨others, lexeme, rfl⟩
    · rfl
    · exact absurd ⟨lexeme, by simp, hcomments lexeme (by simp)⟩ hlast

end Sexp.IsUnfinished

def Sexp.rendered (invocation : List Sexp) : Rendering := invocation.head?.elim .empty (render true)

/-- Notices apart, the report is that of copying `front`, writing the rendering of one expression, and
going on as `others` if no argument is missing in it. -/
def Report.IsComposed (whole : Report) (front : Bytes) (rendering : Rendering) (others : Report) :
    Prop :=
  match rendering.missing with
  | none =>
      whole.output = front ++ Utf8.encode rendering.text ++ others.output ∧
        whole.result = others.result.map (1 + ·)
  | some missing =>
      whole.output = front ++ Utf8.encode rendering.text ∧
        whole.result = .error (.missingArgument missing)

theorem Expansion.text_and_missing_ofInvocation (position : Nat) (items : List Sexp) :
    (ofInvocation position items).text = (Sexp.rendered items).text ∧
      (ofInvocation position items).missing = (Sexp.rendered items).missing := by
  cases items <;> exact ⟨rfl, rfl⟩

theorem Direct.isComposed_reportFrom (m : Marker) (front : Bytes) (position : Nat) (rest : Bytes) :
    let invocation := Sexp.parseInvocation (Utf8.decodePrefix rest)
    (reportFrom m front position rest).IsComposed front (Sexp.rendered invocation.value)
      (report m 0 (rest.drop invocation.consumed)) := by
  intro invocation
  obtain ⟨htext, hmissing⟩ := Expansion.text_and_missing_ofInvocation position invocation.value
  obtain ⟨houtput, hresult⟩ := output_and_result_report m (position + invocation.consumed) 0
    (rest.drop invocation.consumed)
  rw [reportFrom, Expansion.missing_ofText, Expansion.consumed_ofText, Expansion.written_ofText,
    htext, hmissing, Report.IsComposed]
  cases (Sexp.rendered invocation.value).missing with
  | none => exact ⟨congrArg (_ ++ ·) houtput, congrArg (Except.map _) hresult⟩
  | some missing => exact ⟨rfl, rfl⟩

theorem isComposed_expandBytes {m : Marker} {before after : Bytes} {source : Text}
    (h : m.firstPlace? (before ++ (m.bytes ++ (Utf8.encode source ++ after))) = some before.length)
    (hafter : Utf8.decodeChar? after = none) :
    let invocation := Sexp.parseInvocation source
    (expandBytes m (before ++ (m.bytes ++ (Utf8.encode source ++ after))) none).IsComposed before
      (Sexp.rendered invocation.value)
      (expandBytes m ((Utf8.encode source ++ after).drop invocation.consumed) none) := by
  have hdecode : Utf8.decodePrefix (Utf8.encode source ++ after) = source := by
    rw [Utf8.decodePrefix_encode_append, Utf8.decodePrefix_of_none hafter, List.append_nil]
  have hfrom := Direct.isComposed_reportFrom m before (0 + before.length + m.bytes.length)
    (Utf8.encode source ++ after)
  rw [hdecode] at hfrom
  dsimp only
  rw [expandBytes_none, Scan.report_start, expandBytes_none, Scan.report_start,
    Direct.report_of_some h, List.take_left, ← List.drop_drop, List.drop_left, List.drop_left]
  exact hfrom

/-- Of a source that ends too early, only comments at its end are not counted. A run copies these,
and looks for markers in them, and in no other part of the source. -/
theorem Sexp.IsUnfinished.exists_comments {source : Text} (h : IsUnfinished source) :
    ∃ front comments, source = front ++ comments ∧
      (parseInvocation source).consumed = Text.size front ∧
      (∀ lexeme ∈ Lexeme.ofText comments, lexeme.token? = none) ∧
      (comments = [] ↔ ¬ Text.EndsInComment source) ∧
      ∀ (m : Marker) (before after : Bytes), Utf8.decodeChar? after = none →
        m.firstPlace? (before ++ (m.bytes ++ (Utf8.encode source ++ after))) =
          some before.length →
        (expandBytes m (before ++ (m.bytes ++ (Utf8.encode source ++ after))) none).IsComposed
          before (rendered (parseInvocation source).value)
          (expandBytes m (Utf8.encode comments ++ after) none) := by
  obtain ⟨read, comments, hread, hcomments, hnone, hsome, hconsumed⟩ := h.exists_splits
  have hsource : source = slices read ++ slices comments := hread.source_eq
  refine ⟨slices read, slices comments, hsource, hconsumed, ?_,
    slices_eq_nil_iff (hread.trans hcomments) hnone hsome, ?_⟩
  · rwa [hcomments.ofText_eq]
  · intro m before after hafter hplace
    have hdrop : (Utf8.encode source ++ after).drop (parseInvocation source).consumed =
        Utf8.encode (slices comments) ++ after := by
      rw [hconsumed, hsource, Utf8.encode_append, List.append_assoc]
      exact List.drop_left' (Utf8.length_encode _)
    have hrun := isComposed_expandBytes hplace hafter
    dsimp only at hrun
    rwa [hdrop] at hrun

theorem Sexp.exists_comments_open_call :
    let source := "(a #open (".toList
    IsUnfinished source ∧ Text.EndsInComment source ∧ Utf8.decodeChar? [] = none ∧
      Marker.standard.firstPlace? (Marker.standard.bytes ++ (Utf8.encode source ++ [])) = some 0 ∧
      ∃ front comments, source = front ++ comments ∧ comments ≠ [] ∧
        (parseInvocation source).consumed = Text.size front ∧ Text.size front = 3 ∧
        (expandBytes .standard (Marker.standard.bytes ++ (Utf8.encode source ++ [])) none).IsComposed
          [] (rendered (parseInvocation source).value)
          (expandBytes .standard (Utf8.encode comments ++ []) none) := by
  intro source
  have hunfinished : IsUnfinished source := by decide +kernel
  have hends : Text.EndsInComment source :=
    ⟨.comment "open (".toList false, by decide +kernel, rfl⟩
  have hplace : Marker.standard.firstPlace? (Marker.standard.bytes ++ (Utf8.encode source ++ [])) =
      some 0 := by decide +kernel
  obtain ⟨front, comments, hsource, hconsumed, -, hnil, hrun⟩ := hunfinished.exists_comments
  exact ⟨hunfinished, hends, rfl, hplace, front, comments, hsource, fun h => hnil.1 h hends,
    hconsumed, hconsumed.symm.trans (by decide +kernel), hrun .standard [] [] rfl hplace⟩

end Sexpand
