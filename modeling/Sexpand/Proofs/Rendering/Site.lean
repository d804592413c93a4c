import Sexpand.Rendering

namespace Sexpand

namespace Rendering

@[simp]
theorem append_empty (r : Rendering) : r ++ empty = r := by
  rcases r with ⟨parts, _ | _⟩ <;> simp [append_def, append, empty]

def join (rs : List Rendering) : Rendering := rs.foldr (· ++ ·) empty

@[simp]
theorem join_nil : join [] = empty := rfl

@[simp]
theorem join_cons (r : Rendering) (rs : List Rendering) : join (r :: rs) = r ++ join rs := rfl

@[simp]
theorem join_append (rs ss : List Rendering) : join (rs ++ ss) = join rs ++ join ss := by
  induction rs with
  | nil => rfl
  | cons r rs ih => rw [List.cons_append, join_cons, ih, join_cons, append_assoc]

end Rendering

namespace Sexp

/-- An atom, by itself or alone in a list. -/
def isLoneAtom : Sexp → Bool
  | .atom _ | .list [.atom _] => true
  | _ => false

theorem text?_eq_none_iff {e : Sexp} : e.text? = none ↔ e.isLoneAtom = false := by
  rcases e with text | (_ | ⟨head | items, _ | ⟨next, others⟩⟩) <;> simp [text?, isLoneAtom]

end Sexp

/-- An expression where it is written, and whether forms are special there. -/
structure Site where
  special : Bool
  expr : Sexp

namespace Site

def render (s : Site) : Rendering := s.expr.render s.special

/-- What stands in the text of a site: a part of its own, or all that another site is written as. -/
inductive Piece
  | part (part : Rendering.Part)
  | site (site : Site)

namespace Piece

def punctuation (text : Text) : Piece := .part (.punctuation text)

def signature : Sexp → Piece
  | .atom text | .list [.atom text] => .part (.atom text)
  | e => .site ⟨false, e⟩

def site? : Piece → Option Site
  | .part _ => none
  | .site s => some s

def rendering : Piece → Rendering
  | .part p => ⟨[p], none⟩
  | .site s => s.render

@[simp]
theorem site?_part (p : Rendering.Part) : (part p).site? = none := rfl

@[simp]
theorem site?_punctuation (text : Text) : (punctuation text).site? = none := rfl

@[simp]
theorem site?_site (s : Site) : (site s).site? = some s := rfl

theorem signature_eq (e : Sexp) :
    signature e = e.text?.elim (.site ⟨false, e⟩) fun text => .part (.atom text) := by
  rcases e with text | (_ | ⟨head | items, _ | ⟨next, others⟩⟩) <;> rfl

@[simp]
theorem site?_signature (e : Sexp) :
    (signature e).site? = if e.isLoneAtom then none else some ⟨false, e⟩ := by
  rcases e with text | (_ | ⟨head | items, _ | ⟨next, others⟩⟩) <;> rfl

@[simp]
theorem rendering_part (p : Rendering.Part) : (part p).rendering = ⟨[p], none⟩ := rfl

@[simp]
theorem rendering_punctuation (text : Text) :
    (punctuation text).rendering = .punctuation text := rfl

@[simp]
theorem rendering_site (s : Site) : (site s).rendering = s.expr.render s.special := rfl

@[simp]
theorem rendering_signature (e : Sexp) :
    (signature e).rendering = e.text?.elim (e.render false) .atom := by
  rw [signature_eq]
  cases e.text? <;> rfl

end Piece

end Site

open Site (Piece)
open Site.Piece (punctuation)

namespace Form

/-- The form of a list by its head: the marker everywhere, and the others where forms are special. -/
def ofHead? (special : Bool) (head : Text) : Option Form :=
  if head = marker.keyword then some marker
  else if special then [var, func, code].find? fun form => head = form.keyword
  else none

theorem ofHead?_eq_none (special : Bool) {head : Text} (h : ∀ form : Form, head ≠ form.keyword) :
    ofHead? special head = none := by
  simp [ofHead?, h]

theorem active?_eq_ofHead? (special : Bool) (head : Text) :
    active? special head = ofHead? special head := by
  cases h : ofKeyword? head with
  | none =>
      have hne : ∀ form : Form, head ≠ form.keyword := by
        rintro form rfl
        rw [ofKeyword?_eq_some_iff.2 rfl] at h
        cases h
      rw [ofHead?_eq_none special hne, active?, h]
      rfl
  | some form =>
      obtain rfl := ofKeyword?_eq_some_iff.1 h
      cases special <;> cases form <;> decide

def minLength : Form → Nat
  | .var | .func => 3
  | .code | .marker => 2

/-- What follows the keyword of a form is written at these sites, in order. A signature that is a
lone atom has none, and neither have the items that the form has no place for. -/
def below : Form → List Sexp → List Site
  | .var, signature :: body :: _ | .func, signature :: body :: _ =>
      (if signature.isLoneAtom then [] else [⟨false, signature⟩]) ++ [⟨false, body⟩]
  | .code, e :: _ => [⟨false, e⟩]
  | .marker, e :: _ => [⟨true, e⟩]
  | _, _ => []

/-- The text of a form around what follows its keyword. -/
def layout : Form → List Sexp → List Piece
  | .var, signature :: init :: _ =>
      [.signature signature, punctuation [' ', '('], .site ⟨false, init⟩, punctuation [')', ';']]
  | .func, signature :: body :: _ =>
      [.signature signature, punctuation ['{'], .site ⟨false, body⟩, punctuation [';', '}']]
  | .code, e :: _ => [.site ⟨false, e⟩, punctuation [';']]
  | .marker, e :: _ => [.site ⟨true, e⟩]
  | _, _ => []

theorem filterMap_site?_layout (form : Form) (args : List Sexp) :
    (form.layout args).filterMap Piece.site? = form.below args := by
  cases form <;> rcases args with _ | ⟨first, _ | ⟨second, args⟩⟩ <;>
    simp [layout, below, List.filterMap_cons]
  all_goals cases first.isLoneAtom <;> simp

theorem mem_of_mem_below {form : Form} {args : List Sexp} {s : Site} (h : s ∈ form.below args) :
    s.expr ∈ args := by
  have hsignature : ∀ signature : Sexp,
      s ∈ (if signature.isLoneAtom then [] else [⟨false, signature⟩] : List Site) →
        s.expr = signature := by
    intro signature hs
    split at hs
    · simp at hs
    · rw [List.mem_singleton.1 hs]
  revert h
  fun_cases below form args with
  | case1 signature body args | case2 signature body args =>
      intro h
      rcases List.mem_append.1 h with hs | hs
      · simp [hsignature _ hs]
      · simp [List.mem_singleton.1 hs]
  | case3 e args | case4 e args =>
      intro h
      simp [List.mem_singleton.1 h]
  | case5 => exact nofun

end Form

namespace Site

/-- A call has its head in front of its arguments, or alone if there are none. -/
def callLayout (head : Text) : List Sexp → List Piece
  | [] => [.part (.atom head)]
  | arg :: args =>
      [.part (.atom head), punctuation [' ', '('], .site ⟨false, arg⟩] ++
        args.flatMap (fun arg => [punctuation [',', ' '], .site ⟨false, arg⟩]) ++
        [punctuation [')']]

/-- The sites of the expressions that are written, in order, for that of this site. -/
def below : Site → List Site
  | ⟨special, .list (.atom head :: args)⟩ =>
      match Form.ofHead? special head with
      | some form => form.below args
      | none => args.map (⟨false, ·⟩)
  | _ => []

/-- What the expression of a site lacks if it is a list of a form and too short. The index is the
number of its items. -/
def missing? : Site → Option MissingArgument
  | ⟨special, .list (.atom head :: args)⟩ =>
      (Form.ofHead? special head).bind fun form =>
        if form.minLength ≤ args.length + 1 then none else some ⟨form, args.length + 1⟩
  | _ => none

/-- The text of a site around the sites below it. -/
def layout : Site → List Piece
  | ⟨_, .atom text⟩ => [.part (.atom text)]
  | ⟨_, .list []⟩ => [.part (.notice .emptyList)]
  | ⟨_, .list (.list items :: args)⟩ => [.part (.notice (.headedByList (.list items :: args)))]
  | ⟨special, .list (.atom head :: args)⟩ =>
      match Form.ofHead? special head with
      | some form => form.layout args
      | none => callLayout head args

theorem renderOthers_eq (args : List Sexp) :
    Sexp.renderOthers args =
      .join ((args.flatMap fun arg => [punctuation [',', ' '], .site ⟨false, arg⟩]).map
        Piece.rendering) := by
  induction args with
  | nil => rfl
  | cons arg args ih => simp [Sexp.renderOthers, ih, Rendering.append_assoc]

/-- What a site is written as: nothing if an argument is missing, or else its text with what the
sites below it are written as. -/
theorem render_eq (s : Site) :
    s.render = s.missing?.elim (.join (s.layout.map Piece.rendering)) fun missing =>
      ⟨[], some missing⟩ := by
  rcases s with ⟨special, text | (_ | ⟨head | items, args⟩)⟩
  · rfl
  · rfl
  · have hactive := Form.active?_eq_ofHead? special head
    cases hform : Form.ofHead? special head with
    | none =>
        rcases args with _ | ⟨arg, args⟩ <;>
          simp [render, Sexp.render, missing?, layout, callLayout, hactive, hform, renderOthers_eq,
            Rendering.append_assoc, Rendering.atom]
    | some form =>
        cases form <;> rcases args with _ | ⟨first, _ | ⟨second, args⟩⟩ <;>
          simp [render, Sexp.render, missing?, layout, hactive, hform, Form.layout, Form.minLength,
            Rendering.append_assoc, Rendering.missingArgument]
  · rfl

theorem filterMap_site?_callLayout (head : Text) (args : List Sexp) :
    (callLayout head args).filterMap Piece.site? = args.map (⟨false, ·⟩) := by
  have hothers : ∀ args : List Sexp,
      (args.flatMap fun arg => [punctuation [',', ' '], .site ⟨false, arg⟩]).filterMap
        Piece.site? = args.map (⟨false, ·⟩) := by
    intro args
    rw [List.filterMap_flatMap]
    exact List.map_eq_flatMap.symm
  cases args with
  | nil => rfl
  | cons arg args => simp [callLayout, List.filterMap_cons, hothers]

theorem filterMap_site?_layout (s : Site) : s.layout.filterMap Piece.site? = s.below := by
  rcases s with ⟨special, text | (_ | ⟨head | items, args⟩)⟩
  · rfl
  · rfl
  · rw [layout, below]
    cases Form.ofHead? special head with
    | none => exact filterMap_site?_callLayout head args
    | some form => exact form.filterMap_site?_layout args
  · rfl

theorem mem_below_of_mem_layout {s t : Site} (h : .site t ∈ s.layout) : t ∈ s.below := by
  rw [← filterMap_site?_layout]
  exact List.mem_filterMap.2 ⟨.site t, h, rfl⟩

theorem sizeOf_lt_of_mem_below {s t : Site} (h : t ∈ s.below) : sizeOf t.expr < sizeOf s.expr := by
  rcases s with ⟨special, text | (_ | ⟨head | items, args⟩)⟩
  · simp [below] at h
  · simp [below] at h
  · have hmem : t.expr ∈ args := by
      rw [below] at h
      cases hform : Form.ofHead? special head with
      | none =>
          rw [hform] at h
          obtain ⟨arg, harg, rfl⟩ := List.mem_map.1 h
          exact harg
      | some form =>
          rw [hform] at h
          exact Form.mem_of_mem_below h
    have hlt := List.sizeOf_lt_of_mem hmem
    simp only [Sexp.list.sizeOf_spec, List.cons.sizeOf_spec]
    omega
  · simp [below] at h

theorem induction {motive : Site → Prop} (step : ∀ s, (∀ t ∈ s.below, motive t) → motive s)
    (s : Site) : motive s :=
  step s fun t _h => induction step t
termination_by sizeOf s.expr
decreasing_by exact sizeOf_lt_of_mem_below _h

end Site

end Sexpand
