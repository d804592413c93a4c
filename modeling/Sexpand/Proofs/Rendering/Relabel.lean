import Sexpand.Proofs.Expansion.Unbounded
import Sexpand.Proofs.Rendering.Site

namespace Sexpand

namespace Sexp

mutual

/-- The expression with other texts in the places of its atoms. -/
def relabel (f : Text → Text) : Sexp → Sexp
  | .atom text => .atom (f text)
  | .list items => .list (relabelItems f items)

def relabelItems (f : Text → Text) : List Sexp → List Sexp
  | [] => []
  | item :: items => relabel f item :: relabelItems f items

end

mutual

/-- The atoms at the heads of lists. -/
def heads : Sexp → List Text
  | .atom _ => []
  | .list items => (list items).head?.toList ++ headsItems items

def headsItems : List Sexp → List Text
  | [] => []
  | item :: items => heads item ++ headsItems items

end

theorem relabelItems_eq_map (f : Text → Text) (items : List Sexp) :
    relabelItems f items = items.map (relabel f) := by
  induction items with
  | nil => rfl
  | cons item items ih => rw [relabelItems, ih, List.map_cons]

theorem head?_list_relabelItems (f : Text → Text) (items : List Sexp) :
    (list (relabelItems f items)).head? = (list items).head?.map f := by
  rcases items with _ | ⟨_ | _, _⟩ <;> rfl

mutual

theorem heads_relabel (f : Text → Text) : (e : Sexp) → (e.relabel f).heads = e.heads.map f
  | .atom _ => rfl
  | .list items => by
      rw [relabel, heads, heads, head?_list_relabelItems, headsItems_relabelItems f items,
        List.map_append]
      cases (list items).head? <;> rfl

theorem headsItems_relabelItems (f : Text → Text) :
    (items : List Sexp) → headsItems (relabelItems f items) = (headsItems items).map f
  | [] => rfl
  | item :: items => by
      rw [relabelItems, headsItems, headsItems, heads_relabel f item,
        headsItems_relabelItems f items, List.map_append]

end

theorem mem_headsItems {t : Text} {items : List Sexp} :
    t ∈ headsItems items ↔ ∃ item ∈ items, t ∈ item.heads := by
  induction items with
  | nil => simp [headsItems]
  | cons item items ih => simp [headsItems, ih]

end Sexp

namespace Rendering

def Part.relabel (f : Text → Text) : Part → Part
  | .atom text => .atom (f text)
  | .notice (.headedByList items) => .notice (.headedByList (Sexp.relabelItems f items))
  | part => part

def relabel (f : Text → Text) (r : Rendering) : Rendering :=
  ⟨r.parts.map (Part.relabel f), r.missing⟩

theorem actions_relabel (f : Text → Text) (r : Rendering) :
    (r.relabel f).actions = r.parts.map fun part => (part.relabel f).action := by
  rw [actions, relabel, List.map_map]
  rfl

theorem text_relabel (f : Text → Text) (r : Rendering) :
    (r.relabel f).text = r.parts.flatMap fun part => (part.relabel f).written := by
  rw [text, relabel, List.flatMap_map]

theorem relabel_append (f : Text → Text) (r s : Rendering) :
    (r ++ s).relabel f = r.relabel f ++ s.relabel f := by
  rcases r with ⟨_, _ | _⟩ <;> simp [append_def, append, relabel]

theorem relabel_join (f : Text → Text) (rs : List Rendering) :
    (join rs).relabel f = join (rs.map (relabel f)) := by
  induction rs with
  | nil => rfl
  | cons r rs ih => rw [join_cons, relabel_append, ih, List.map_cons, join_cons]

theorem missing_join {rs : List Rendering} (h : ∀ r ∈ rs, r.missing = none) :
    (join rs).missing = none := by
  induction rs with
  | nil => rfl
  | cons r rs ih =>
      obtain ⟨hr, hrs⟩ := List.forall_mem_cons.1 h
      rw [join_cons, append_def, append, hr]
      exact ih hrs

end Rendering

namespace Site

def relabel (f : Text → Text) (s : Site) : Site := ⟨s.special, s.expr.relabel f⟩

def Piece.relabel (f : Text → Text) : Piece → Piece
  | .part p => .part (p.relabel f)
  | .site s => .site (s.relabel f)

/-- Lists are calls here and below, whatever they are headed by. -/
structure IsPlain (s : Site) : Prop where
  not_special : s.special = false
  not_mem_heads : Marker.keyword ∉ s.expr.heads

namespace IsPlain

variable {s : Site} {special : Bool} {head : Text} {args : List Sexp}

theorem ofHead?_eq_none (h : IsPlain ⟨special, .list (.atom head :: args)⟩) :
    Form.ofHead? special head = none := by
  obtain rfl : special = false := h.not_special
  have hne : head ≠ Form.marker.keyword := by
    rintro rfl
    exact h.not_mem_heads (by simp [Sexp.heads, Sexp.head?, Form.keyword])
  simp [Form.ofHead?, hne]

theorem missing?_eq_none (h : s.IsPlain) : s.missing? = none := by
  rcases s with ⟨special, text | (_ | ⟨head | items, args⟩)⟩
  · rfl
  · rfl
  · rw [missing?, h.ofHead?_eq_none]
    rfl
  · rfl

theorem of_mem_below (h : s.IsPlain) {t : Site} (ht : t ∈ s.below) : t.IsPlain := by
  rcases s with ⟨special, text | (_ | ⟨head | items, args⟩)⟩
  · simp [below] at ht
  · simp [below] at ht
  · rw [below, h.ofHead?_eq_none] at ht
    obtain ⟨arg, harg, rfl⟩ := List.mem_map.1 ht
    refine ⟨rfl, fun hmem => h.not_mem_heads ?_⟩
    rw [Sexp.heads, List.mem_append, Sexp.mem_headsItems]
    exact .inr ⟨arg, by simp [harg], hmem⟩
  · simp [below] at ht

theorem relabel (h : s.IsPlain) {f : Text → Text} (hf : ∀ t, f t ≠ Marker.keyword) :
    (s.relabel f).IsPlain where
  not_special := h.not_special
  not_mem_heads := by
    rw [Site.relabel, Sexp.heads_relabel]
    intro hmem
    obtain ⟨t, -, ht⟩ := List.mem_map.1 hmem
    exact hf t ht

end IsPlain

theorem callLayout_relabel (f : Text → Text) (head : Text) (args : List Sexp) :
    callLayout (f head) (Sexp.relabelItems f args) =
      (callLayout head args).map (Piece.relabel f) := by
  rw [Sexp.relabelItems_eq_map]
  cases args with
  | nil => rfl
  | cons arg args =>
      simp [callLayout, List.map_flatMap, List.flatMap_map, Piece.relabel, Piece.punctuation,
        Rendering.Part.relabel, Site.relabel]

theorem layout_relabel {s : Site} (h : s.IsPlain) {f : Text → Text}
    (hf : ∀ t, f t ≠ Marker.keyword) :
    (s.relabel f).layout = s.layout.map (Piece.relabel f) := by
  have hf := h.relabel hf
  rcases s with ⟨special, text | (_ | ⟨head | items, args⟩)⟩
  · rfl
  · rfl
  · have hlist : (Sexp.list (.atom head :: args)).relabel f =
        .list (.atom (f head) :: Sexp.relabelItems f args) := rfl
    rw [relabel, hlist] at hf ⊢
    rw [layout, layout, h.ofHead?_eq_none, hf.ofHead?_eq_none]
    exact callLayout_relabel f head args
  · rfl

theorem render_relabel {s : Site} (h : s.IsPlain) {f : Text → Text}
    (hf : ∀ t, f t ≠ Marker.keyword) :
    s.render.missing = none ∧ (s.relabel f).render = s.render.relabel f := by
  induction s using Site.induction with
  | step s ih =>
      have hpieces : ∀ p ∈ s.layout, p.rendering.missing = none ∧
          (p.relabel f).rendering = p.rendering.relabel f := by
        intro p hp
        cases p with
        | part p => exact ⟨rfl, rfl⟩
        | site t =>
            have ht := mem_below_of_mem_layout hp
            exact ih t ht (h.of_mem_below ht)
      rw [render_eq, render_eq, h.missing?_eq_none, (h.relabel hf).missing?_eq_none,
        layout_relabel h hf]
      constructor
      · apply Rendering.missing_join
        intro r hr
        obtain ⟨p, hp, rfl⟩ := List.mem_map.1 hr
        exact (hpieces p hp).1
      · rw [List.map_map]
        change Rendering.join _ = (Rendering.join _).relabel f
        rw [Rendering.relabel_join, List.map_map]
        exact congrArg _ (List.map_congr_left fun p hp => (hpieces p hp).2)

end Site

/-- Where forms are not special, an expression without the marker at a head is written in full, and
what its atoms are changes nothing but these atoms. -/
theorem Sexp.run_script_render_relabel {e : Sexp} (he : Marker.keyword ∉ e.heads)
    {f : Text → Text} (hf : ∀ t, f t ≠ Marker.keyword) :
    let written := e.render false
    let relabeled := (e.relabel f).render false
    (written.script.run (.empty none)).2 = .ok () ∧
      (relabeled.script.run (.empty none)).2 = .ok () ∧
      relabeled.parts = written.parts.map (Rendering.Part.relabel f) ∧
      written.script.actions = written.parts.map Rendering.Part.action ∧
      relabeled.script.actions = written.parts.map (fun part => (part.relabel f).action) ∧
      (written.script.run (.empty none)).1.output.bytes =
        Utf8.encode (written.parts.flatMap Rendering.Part.written) ∧
      (relabeled.script.run (.empty none)).1.output.bytes =
        Utf8.encode (written.parts.flatMap fun part => (part.relabel f).written) := by
  intro written relabeled
  have hplain : Site.IsPlain ⟨false, e⟩ := ⟨rfl, he⟩
  obtain ⟨hmissing, hrender⟩ : written.missing = none ∧ relabeled = written.relabel f :=
    Site.render_relabel hplain hf
  have hmissing' : relabeled.missing = none := by
    rw [hrender]
    exact hmissing
  refine ⟨?_, ?_, congrArg Rendering.parts hrender, rfl, ?_, written.run_script.1, ?_⟩
  · rw [written.run_script.2, hmissing]
    rfl
  · rw [relabeled.run_script.2, hmissing']
    rfl
  · rw [hrender]
    exact written.actions_relabel f
  · rw [relabeled.run_script.1, hrender, written.text_relabel f]

/-- The head becomes a keyword, and a keyword another head. The marker stands among the arguments. -/
theorem Sexp.run_script_render_relabel_var :
    let e : Sexp := .list [.atom ['f'], .list [.atom Form.code.keyword], .atom Marker.keyword]
    let f : Text → Text := fun t => if t = ['f'] then Form.var.keyword else 'k' :: t
    let written := e.render false
    let relabeled := (e.relabel f).render false
    (Marker.keyword ∉ e.heads ∧ ∀ t, f t ≠ Marker.keyword) ∧
      (written.script.run (.empty none)).2 = .ok () ∧
      (relabeled.script.run (.empty none)).2 = .ok () ∧
      relabeled.parts = written.parts.map (Rendering.Part.relabel f) ∧
      written.script.actions = written.parts.map Rendering.Part.action ∧
      relabeled.script.actions = written.parts.map (fun part => (part.relabel f).action) ∧
      (written.script.run (.empty none)).1.output.bytes =
        Utf8.encode (written.parts.flatMap Rendering.Part.written) ∧
      (relabeled.script.run (.empty none)).1.output.bytes =
        Utf8.encode (written.parts.flatMap fun part => (part.relabel f).written) ∧
      written.text = "f (code, __sexpr)".toList ∧
      relabeled.text = "var (kcode, k__sexpr)".toList := by
  intro e f written relabeled
  have he : Marker.keyword ∉ e.heads := by decide
  have hf : ∀ t, f t ≠ Marker.keyword := by
    intro t
    by_cases ht : t = ['f']
    · simp [f, ht, Form.keyword, Marker.keyword]
    · simp [f, ht, Marker.keyword]
  obtain ⟨hwritten, hrelabeled, hparts, hactions, hactions', hbytes, hbytes'⟩ :=
    run_script_render_relabel he hf
  exact ⟨⟨he, hf⟩, hwritten, hrelabeled, hparts, hactions, hactions', hbytes, hbytes', by decide,
    by decide⟩

end Sexpand
