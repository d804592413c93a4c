import Sexpand.Proofs.Expansion.Unbounded
import Sexpand.Proofs.Rendering.Site

namespace Sexpand

namespace Rendering

def Part.isWritten : Part → Bool
  | .notice _ => false
  | _ => true

/-- The rendering without its notices. -/
def quiet (r : Rendering) : Rendering := ⟨r.parts.filter Part.isWritten, r.missing⟩

theorem quiet_append (r s : Rendering) : (r ++ s).quiet = r.quiet ++ s.quiet := by
  rcases r with ⟨_, _ | _⟩ <;> simp [append_def, append, quiet]

theorem quiet_join (rs : List Rendering) : (join rs).quiet = join (rs.map quiet) := by
  induction rs with
  | nil => rfl
  | cons r rs ih => rw [join_cons, quiet_append, ih, List.map_cons, join_cons]

theorem text_quiet (r : Rendering) : r.quiet.text = r.text := by
  obtain ⟨parts, missing⟩ := r
  simp only [quiet, text]
  induction parts with
  | nil => rfl
  | cons part parts ih => cases part <;> simp [List.filter_cons, Part.isWritten, Part.written, ih]

theorem missing_quiet (r : Rendering) : r.quiet.missing = r.missing :=
  rfl

end Rendering

namespace Sexp

/-- What others see of an expression: its text as a signature, and what it is written as. -/
def effect (e : Sexp) : Option Text × (Bool → Rendering) :=
  (e.text?, fun special => (e.render special).quiet)

end Sexp

namespace Site

def quiet (p : Piece) : Rendering := p.rendering.quiet

theorem quiet_signature (e : Sexp) :
    quiet (.signature e) = e.effect.1.elim (e.effect.2 false) fun text => .atom text := by
  rw [quiet, Piece.rendering_signature, Sexp.effect]
  cases e.text? <;> rfl

theorem quiet_site (special : Bool) (e : Sexp) : quiet (.site ⟨special, e⟩) = e.effect.2 special :=
  rfl

theorem quiet_join (ps : List Piece) :
    (Rendering.join (ps.map Piece.rendering)).quiet = .join (ps.map quiet) := by
  rw [Rendering.quiet_join, List.map_map]
  rfl

end Site

open Site (quiet quiet_signature quiet_site)

theorem Form.map_quiet_layout_congr (form : Form) {args args' : List Sexp}
    (h : args.map Sexp.effect = args'.map Sexp.effect) :
    (form.layout args).map quiet = (form.layout args').map quiet := by
  rcases args with _ | ⟨first, args⟩ <;> rcases args' with _ | ⟨first', args'⟩
  · rfl
  · simp at h
  · simp at h
  · obtain ⟨hfirst, h⟩ := List.cons.inj h
    rcases args with _ | ⟨second, args⟩ <;> rcases args' with _ | ⟨second', args'⟩
    · cases form <;> simp [layout, quiet_site, hfirst]
    · simp at h
    · simp at h
    · obtain ⟨hsecond, h⟩ := List.cons.inj h
      cases form <;> simp [layout, quiet_site, quiet_signature, hfirst, hsecond]

theorem Site.map_quiet_callLayout_congr (head : Text) {args args' : List Sexp}
    (h : args.map Sexp.effect = args'.map Sexp.effect) :
    (callLayout head args).map quiet = (callLayout head args').map quiet := by
  have hothers : ∀ args : List Sexp,
      (args.flatMap fun arg => [.punctuation [',', ' '], .site ⟨false, arg⟩]).map quiet =
        (args.map Sexp.effect).flatMap fun effect =>
          [quiet (.punctuation [',', ' ']), effect.2 false] := by
    intro args
    rw [List.map_flatMap, List.flatMap_map]
    rfl
  rcases args with _ | ⟨arg, args⟩ <;> rcases args' with _ | ⟨arg', args'⟩
  · rfl
  · simp at h
  · simp at h
  · obtain ⟨harg, h⟩ := List.cons.inj h
    simp [callLayout, hothers, quiet_site, harg, h]

namespace Sexp

theorem effect_call_congr (head : Text) {args args' : List Sexp}
    (h : args.map effect = args'.map effect) :
    (list (.atom head :: args)).effect = (list (.atom head :: args')).effect := by
  have hlength : args.length = args'.length := by simpa using congrArg List.length h
  have htext : (list (.atom head :: args)).text? = (list (.atom head :: args')).text? := by
    cases args <;> cases args' <;> simp [text?] at hlength ⊢
  have hrender : ∀ special, (Site.render ⟨special, list (.atom head :: args)⟩).quiet =
      (Site.render ⟨special, list (.atom head :: args')⟩).quiet := by
    intro special
    rw [Site.render_eq, Site.render_eq, Site.missing?, Site.missing?, Site.layout, Site.layout,
      hlength]
    cases Form.ofHead? special head with
    | none =>
        dsimp only [Option.bind_none, Option.elim_none]
        rw [Site.quiet_join, Site.quiet_join, Site.map_quiet_callLayout_congr head h]
    | some form =>
        dsimp only [Option.bind_some]
        split
        · dsimp only [Option.elim_none]
          rw [Site.quiet_join, Site.quiet_join, form.map_quiet_layout_congr h]
        · rfl
  rw [effect, effect, htext]
  congr 1
  funext special
  exact hrender special

theorem effect_list_atom {t : Text} (ht : ∀ form : Form, t ≠ form.keyword) :
    (list [.atom t]).effect = (atom t).effect := by
  have hrender : ∀ special, Site.render ⟨special, list [.atom t]⟩ = .atom t := by
    intro special
    rw [Site.render_eq, Site.missing?, Site.layout, Form.ofHead?_eq_none special ht]
    rfl
  rw [effect, effect]
  congr 1
  funext special
  exact congrArg Rendering.quiet (hrender special)

/-- The second items are the first ones with some lists of one atom replaced by the atom, at any
depth. The head of a list is not replaced, and the first item is one if `atHead` is true. -/
inductive Unwraps : (atHead : Bool) → List Sexp → List Sexp → Prop
  | nil (atHead : Bool) : Unwraps atHead [] []
  | atom {atHead : Bool} {items items' : List Sexp} (t : Text) (h : Unwraps false items items') :
      Unwraps atHead (.atom t :: items) (.atom t :: items')
  | list {atHead : Bool} {inner inner' items items' : List Sexp} (hinner : Unwraps true inner inner')
      (h : Unwraps false items items') : Unwraps atHead (.list inner :: items) (.list inner' :: items')
  | unwrap {t : Text} {items items' : List Sexp} (ht : ∀ form : Form, t ≠ form.keyword)
      (h : Unwraps false items items') : Unwraps false (.list [.atom t] :: items) (.atom t :: items')

theorem Unwraps.map_effect_eq {atHead : Bool} {items items' : List Sexp}
    (h : Unwraps atHead items items') : items.map effect = items'.map effect := by
  induction h with
  | nil => rfl
  | atom t h ih => rw [List.map_cons, ih, List.map_cons]
  | @list _ inner inner' _ _ hinner h ihinner ih =>
      have hlist : (Sexp.list inner).effect = (Sexp.list inner').effect := by
        cases hinner with
        | nil => rfl
        | atom head h => exact effect_call_congr head (List.cons.inj ihinner).2
        | list hinner h => rfl
      rw [List.map_cons, hlist, ih, List.map_cons]
  | unwrap ht h ih => rw [List.map_cons, effect_list_atom ht, ih, List.map_cons]

/-- A list of one atom that is no keyword can stand for its atom anywhere but at the head of a list. -/
theorem run_script_render_of_unwraps {e e' : Sexp} (h : Unwraps false [e] [e']) (special : Bool) :
    let emitted := (e.render special).script.run (.empty none)
    let emitted' := (e'.render special).script.run (.empty none)
    emitted'.1.output.bytes = emitted.1.output.bytes ∧ emitted'.2 = emitted.2 := by
  intro emitted emitted'
  have heffect : e.effect = e'.effect := (List.cons.inj h.map_effect_eq).1
  have hquiet : (e.render special).quiet = (e'.render special).quiet :=
    congrFun (congrArg Prod.snd heffect) special
  have htext : (e.render special).text = (e'.render special).text := by
    rw [← Rendering.text_quiet, hquiet, Rendering.text_quiet]
  have hmissing : (e.render special).missing = (e'.render special).missing := by
    rw [← Rendering.missing_quiet, hquiet, Rendering.missing_quiet]
  constructor
  · rw [(e'.render special).run_script.1, (e.render special).run_script.1, htext]
  · rw [(e'.render special).run_script.2, (e.render special).run_script.2, hmissing]

theorem run_script_render_of_unwraps_var :
    let e : Sexp := .list [.atom Form.var.keyword, .list [.atom ['x']],
      .list [.atom ['f'], .list [.atom ['y']], .list [.list [.atom ['z']], .list [.atom ['w']]]]]
    let e' : Sexp := .list [.atom Form.var.keyword, .atom ['x'],
      .list [.atom ['f'], .atom ['y'], .list [.list [.atom ['z']], .atom ['w']]]]
    let emitted := (e.render true).script.run (.empty none)
    let emitted' := (e'.render true).script.run (.empty none)
    Unwraps false [e] [e'] ∧
      emitted'.1.output.bytes = emitted.1.output.bytes ∧ emitted'.2 = emitted.2 ∧
      emitted.1.output.bytes = Utf8.encode "x (f (y, ));".toList := by
  intro e e' emitted emitted'
  have hletter : ∀ c : Char, ∀ form : Form, [c] ≠ form.keyword := by
    intro c form
    cases form <;> simp [Form.keyword, Marker.keyword]
  have hunwraps : Unwraps false [e] [e'] :=
    .list (.atom _ (.unwrap (hletter 'x') (.list (.atom _ (.unwrap (hletter 'y')
      (.list (.list (.atom _ (.nil _)) (.unwrap (hletter 'w') (.nil _))) (.nil _)))) (.nil _))))
      (.nil _)
  obtain ⟨hbytes, hresult⟩ := run_script_render_of_unwraps hunwraps true
  exact ⟨hunwraps, hbytes, hresult, by decide⟩

-- At the head of a list, or with a keyword in it, such a list is not its atom.
example : (render false (.list [.list [.atom ['f']], .atom ['x']])).text ≠
    (render false (.list [.atom ['f'], .atom ['x']])).text := by decide

example : (render true (.list [.atom Form.var.keyword])).missing ≠
    (render true (.atom Form.var.keyword)).missing := by decide

end Sexp

end Sexpand
