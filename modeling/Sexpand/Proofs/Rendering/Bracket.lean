import Mathlib.Data.List.TakeWhile
import Sexpand.Proofs.Rendering.Course
import Sexpand.Proofs.Sexp.Printable
import Sexpand.Proofs.Text.Bracket

namespace Sexpand

open Site (Piece)

namespace Sexp

def HasBalancedTexts (e : Sexp) : Prop := ∀ t ∈ e.texts, t.IsBalanced

instance (e : Sexp) : Decidable e.HasBalancedTexts :=
  inferInstanceAs (Decidable (∀ t ∈ e.texts, _))

theorem HasBalancedTexts.of_mem {items : List Sexp} (h : (list items).HasBalancedTexts) {e : Sexp}
    (he : e ∈ items) : e.HasBalancedTexts :=
  fun t ht => h t (mem_textsItems.2 ⟨e, he, ht⟩)

theorem mem_texts_of_text? {e : Sexp} {t : Text} (h : e.text? = some t) : t ∈ e.texts := by
  revert h
  fun_cases text? e with
  | case1 text | case2 text =>
      intro h
      obtain rfl : text = t := Option.some.inj h
      simp [texts, textsItems]
  | case3 =>
      intro h
      cases h

end Sexp

namespace Site

/-- All that stands in the place of the piece if no argument is missing in it. -/
def Piece.whole (p : Piece) : Text := p.course.flatMap Piece.written

@[simp]
theorem Piece.whole_part (p : Rendering.Part) : (part p).whole = p.written :=
  List.append_nil _

@[simp]
theorem Piece.whole_punctuation (text : Text) : (punctuation text).whole = text :=
  List.append_nil _

theorem whole_site (s : Site) : (Piece.site s).whole = s.layout.flatMap Piece.whole := by
  rw [Piece.whole, Piece.course, course_eq, List.flatMap_cons, List.flatMap_assoc]
  rfl

end Site

namespace Form

theorem isBalanced_signature {signature body : Sexp} (hs : signature.HasBalancedTexts)
    (hbelow : ∀ s ∈ (if signature.isLoneAtom then [] else [⟨false, signature⟩]) ++ [⟨false, body⟩],
      (Piece.site s).whole.IsBalanced) :
    (Piece.signature signature).whole.IsBalanced ∧ (Piece.site ⟨false, body⟩).whole.IsBalanced := by
  obtain ⟨hsignature, hbody⟩ := List.forall_mem_append.1 hbelow
  refine ⟨?_, hbody _ (by simp)⟩
  rw [Piece.signature_eq]
  cases ht : signature.text? with
  | none => exact hsignature _ (by simp [Sexp.text?_eq_none_iff.1 ht])
  | some t =>
      rw [Option.elim_some, Piece.whole_part]
      exact hs t (Sexp.mem_texts_of_text? ht)

theorem isBalanced_layout (form : Form) {args : List Sexp}
    (hargs : ∀ arg ∈ args, arg.HasBalancedTexts)
    (hbelow : ∀ s ∈ form.below args, (Piece.site s).whole.IsBalanced) :
    Text.IsBalanced ((form.layout args).flatMap Piece.whole) := by
  fun_cases layout form args with
  | case1 signature init args =>
      obtain ⟨hsignature, hinit⟩ := isBalanced_signature (hargs _ (by simp)) hbelow
      have hrest : Text.IsBalanced ([' ', '('] ++ ((Piece.site ⟨false, init⟩).whole ++ [')', ';'])) :=
        .enclosed rfl hinit rfl
      simpa using hsignature.append hrest
  | case2 signature body args =>
      obtain ⟨hsignature, hbody⟩ := isBalanced_signature (hargs _ (by simp)) hbelow
      have hrest : Text.IsBalanced (['{'] ++ ((Piece.site ⟨false, body⟩).whole ++ [';', '}'])) :=
        .enclosed rfl hbody rfl
      simpa using hsignature.append hrest
  | case3 e args =>
      have he := hbelow ⟨false, e⟩ (by simp [below])
      have hsemicolon : Text.IsBalanced [';'] := rfl
      simpa using he.append hsemicolon
  | case4 e args => simpa using hbelow ⟨true, e⟩ (by simp [below])
  | case5 => exact .nil

end Form

namespace Site

theorem isBalanced_callLayout {head : Text} {args : List Sexp} (hhead : head.IsBalanced)
    (hargs : ∀ arg ∈ args, (Piece.site ⟨false, arg⟩).whole.IsBalanced) :
    Text.IsBalanced ((callLayout head args).flatMap Piece.whole) := by
  cases args with
  | nil => simpa [callLayout, Rendering.Part.written] using hhead
  | cons arg args =>
      obtain ⟨harg, hargs⟩ := List.forall_mem_cons.1 hargs
      have hothers : Text.IsBalanced
          (args.flatMap fun arg => [',', ' '] ++ (Piece.site ⟨false, arg⟩).whole) := by
        apply Text.IsBalanced.flatMap
        intro arg harg
        have hcomma : Text.IsBalanced [',', ' '] := rfl
        exact hcomma.append (hargs arg harg)
      have hinside : Text.IsBalanced ([' ', '('] ++ (((Piece.site ⟨false, arg⟩).whole ++
          args.flatMap fun arg => [',', ' '] ++ (Piece.site ⟨false, arg⟩).whole) ++ [')'])) :=
        .enclosed rfl (harg.append hothers) rfl
      simpa [callLayout, List.flatMap_assoc, Rendering.Part.written] using hhead.append hinside

theorem isBalanced_whole {s : Site} (h : s.expr.HasBalancedTexts) :
    (Piece.site s).whole.IsBalanced := by
  induction s using Site.induction with
  | step s ih =>
      rw [whole_site]
      rcases s with ⟨special, text | (_ | ⟨head | items, args⟩)⟩
      · have htext : text.IsBalanced := h text (by simp [Sexp.texts])
        simpa [layout, Rendering.Part.written] using htext
      · exact .nil
      · have hargs : ∀ arg ∈ args, arg.HasBalancedTexts :=
          fun arg harg => h.of_mem (List.mem_cons_of_mem _ harg)
        have hhead : head.IsBalanced := h head (by simp [Sexp.texts, Sexp.textsItems])
        rw [layout]
        rw [below] at ih
        cases hform : Form.ofHead? special head with
        | none =>
            rw [hform] at ih
            apply isBalanced_callLayout hhead
            intro arg harg
            exact ih _ (List.mem_map_of_mem harg) (hargs arg harg)
        | some form =>
            rw [hform] at ih
            apply form.isBalanced_layout hargs
            intro t ht
            exact ih t ht (hargs _ (Form.mem_of_mem_below ht))
      · exact .nil

/-- What is written up to a missing argument is the beginning of what would be written in full. -/
theorem text_render_isPrefix (s : Site) : s.render.text <+: (Piece.site s).whole := by
  rw [render_eq_ofCourse, text_ofCourse]
  obtain ⟨back, hback⟩ := List.takeWhile_prefix (l := s.course) fun p => p.missing?.isNone
  refine ⟨back.flatMap Piece.written, ?_⟩
  rw [← List.flatMap_append, hback]
  rfl

theorem text_render_eq_whole {s : Site} (h : s.render.missing = none) :
    s.render.text = (Piece.site s).whole := by
  rw [render_eq_ofCourse] at h
  have hall : s.course.takeWhile (fun p => p.missing?.isNone) = s.course := by
    rw [List.takeWhile_eq_self_iff]
    intro p hp
    rw [List.findSome?_eq_none_iff.1 h p hp]
    rfl
  rw [render_eq_ofCourse, text_ofCourse, hall]
  rfl

end Site

/-- If brackets match in each atom, then they match in what is written. Where an argument is missing,
some may be left open, but none is closed that has not been opened. -/
theorem Sexp.run_script_render_isBalanced {e : Sexp} (he : e.HasBalancedTexts) (special : Bool) :
    let emitted := (e.render special).script.run (.empty none)
    ∃ text, emitted.1.output.bytes = Utf8.encode text ∧
      match emitted.2 with
      | .ok () => text.IsBalanced
      | .error error =>
          (∃ missing, error = .missingArgument missing) ∧
            ∀ front, front <+: text → Text.awaited? front ≠ none := by
  intro emitted
  let s : Site := ⟨special, e⟩
  have hwhole : (Piece.site s).whole.IsBalanced := Site.isBalanced_whole he
  obtain ⟨hbytes, hresult⟩ := (e.render special).run_script
  refine ⟨(e.render special).text, hbytes, ?_⟩
  change emitted.2 = _ at hresult
  rw [hresult]
  cases hmissing : (e.render special).missing with
  | none =>
      have htext : (e.render special).text = _ := s.text_render_eq_whole hmissing
      rw [htext]
      exact hwhole
  | some missing =>
      refine ⟨⟨missing, rfl⟩, ?_⟩
      intro front hfront
      apply Text.awaited?_ne_none_of_isPrefix (hfront.trans s.text_render_isPrefix)
      rw [hwhole]
      exact nofun

/-- A statement within a body is written, and then a call whose second argument lacks an item. -/
theorem Sexp.run_script_render_isBalanced_func :
    let init : Sexp := .list [.atom Form.var.keyword,
      .list [.atom ['g'], .atom "\x7b(x)\x7d".toList], .atom ['1']]
    let whole : Sexp :=
      .list [.atom Form.func.keyword, .atom "f ()".toList, .list [.atom Form.marker.keyword, init]]
    let short : Sexp := .list [.atom ['h'], whole, .list [.atom Form.marker.keyword]]
    (whole.HasBalancedTexts ∧ short.HasBalancedTexts) ∧
      (∃ text, ((whole.render true).script.run (.empty none)).1.output.bytes = Utf8.encode text ∧
        text.IsBalanced) ∧
      (∃ text, ((short.render true).script.run (.empty none)).1.output.bytes = Utf8.encode text ∧
        ∀ front, front <+: text → Text.awaited? front ≠ none) ∧
      (whole.render true).text = "f ()\x7bg (\x7b(x)\x7d) (1);;\x7d".toList ∧
      (short.render true).text = "h (func (f (), g (\x7b(x)\x7d) (1);), ".toList := by
  intro init whole short
  have hwhole : whole.HasBalancedTexts := by decide
  have hshort : short.HasBalancedTexts := by decide
  obtain ⟨text, hbytes, -, hopen⟩ := run_script_render_isBalanced hshort true
  exact ⟨⟨hwhole, hshort⟩, run_script_render_isBalanced hwhole true, ⟨text, hbytes, hopen⟩,
    by decide, by decide⟩

end Sexpand
