import Sexpand.Proofs.Expansion.Unbounded
import Sexpand.Proofs.Rendering.Site

namespace Sexpand.Site

/-- The sites of the expressions that are written, in order: this one, and then those that are
visited from the sites below it. -/
def visited (s : Site) : List Site := s :: s.below.attach.flatMap fun t => visited t.1
termination_by sizeOf s.expr
decreasing_by exact sizeOf_lt_of_mem_below t.2

theorem visited_eq (s : Site) : s.visited = s :: s.below.flatMap visited := by
  rw [visited]
  simp

/-- The parts that are written and the sites that are reached, in order, as if no argument were
missing. -/
def course (s : Site) : List Piece :=
  .site s :: s.layout.attach.flatMap fun
    | ⟨.part p, _⟩ => [.part p]
    | ⟨.site t, _⟩ => course t
termination_by sizeOf s.expr
decreasing_by exact sizeOf_lt_of_mem_below (mem_below_of_mem_layout ‹_›)

namespace Piece

def course : Piece → List Piece
  | .part p => [.part p]
  | .site s => s.course

def part? : Piece → Option Rendering.Part
  | .part p => some p
  | .site _ => none

def missing? (p : Piece) : Option MissingArgument := p.site?.bind Site.missing?

def written : Piece → Text
  | .part p => p.written
  | .site _ => []

end Piece

theorem course_eq (s : Site) : s.course = .site s :: s.layout.flatMap Piece.course := by
  have hlayout : s.layout.flatMap Piece.course =
      s.layout.attach.flatMap fun p => p.1.course := by simp
  rw [course, hlayout]
  congr 2
  funext ⟨p, hp⟩
  cases p <;> rfl

theorem filterMap_site?_flatMap_course {ps : List Piece}
    (h : ∀ t, .site t ∈ ps → t.course.filterMap Piece.site? = t.visited) :
    (ps.flatMap Piece.course).filterMap Piece.site? =
      (ps.filterMap Piece.site?).flatMap visited := by
  induction ps with
  | nil => rfl
  | cons p ps ih =>
      rw [List.flatMap_cons, List.filterMap_append, ih fun t ht => h t (by simp [ht])]
      cases p with
      | part p => rfl
      | site t =>
          rw [Piece.course, h t (by simp), List.filterMap_cons]
          rfl

theorem filterMap_site?_course (s : Site) : s.course.filterMap Piece.site? = s.visited := by
  induction s using Site.induction with
  | step s ih =>
      have hbelow : ∀ t, .site t ∈ s.layout → t.course.filterMap Piece.site? = t.visited :=
        fun t ht => ih t (mem_below_of_mem_layout ht)
      rw [course_eq, visited_eq, List.filterMap_cons, filterMap_site?_flatMap_course hbelow,
        filterMap_site?_layout]
      rfl

/-- The rendering of a course, which ends where the first site with a missing argument is reached. -/
def ofCourse (course : List Piece) : Rendering :=
  ⟨(course.takeWhile fun p => p.missing?.isNone).filterMap Piece.part?,
    course.findSome? Piece.missing?⟩

theorem ofCourse_part (p : Rendering.Part) (course : List Piece) :
    ofCourse (.part p :: course) = ⟨[p], none⟩ ++ ofCourse course := rfl

theorem ofCourse_site (s : Site) (course : List Piece) :
    ofCourse (.site s :: course) =
      s.missing?.elim (ofCourse course) fun missing => ⟨[], some missing⟩ := by
  have hmissing : Piece.missing? (.site s) = s.missing? := rfl
  rw [ofCourse, List.takeWhile_cons, List.findSome?_cons, hmissing]
  cases s.missing? <;> rfl

theorem ofCourse_append (front back : List Piece) :
    ofCourse (front ++ back) = ofCourse front ++ ofCourse back := by
  induction front with
  | nil => rfl
  | cons p front ih =>
      cases p with
      | part p => rw [List.cons_append, ofCourse_part, ih, ofCourse_part, Rendering.append_assoc]
      | site s =>
          rw [List.cons_append, ofCourse_site, ofCourse_site]
          cases s.missing? with
          | none => exact ih
          | some missing => rfl

theorem join_eq_ofCourse {ps : List Piece} (h : ∀ t, .site t ∈ ps → t.render = ofCourse t.course) :
    .join (ps.map Piece.rendering) = ofCourse (ps.flatMap Piece.course) := by
  induction ps with
  | nil => rfl
  | cons p ps ih =>
      rw [List.map_cons, Rendering.join_cons, List.flatMap_cons, ofCourse_append,
        ih fun t ht => h t (by simp [ht])]
      cases p with
      | part p => rfl
      | site t => rw [Piece.rendering, h t (by simp), Piece.course]

theorem render_eq_ofCourse (s : Site) : s.render = ofCourse s.course := by
  induction s using Site.induction with
  | step s ih =>
      have hbelow : ∀ t, .site t ∈ s.layout → t.render = ofCourse t.course :=
        fun t ht => ih t (mem_below_of_mem_layout ht)
      rw [render_eq, course_eq, ofCourse_site, join_eq_ofCourse hbelow]

theorem findSome?_missing?_course (course : List Piece) :
    course.findSome? Piece.missing? = (course.filterMap Piece.site?).findSome? missing? := by
  induction course with
  | nil => rfl
  | cons p course ih =>
      cases p with
      | part p => exact ih
      | site s =>
          rw [List.findSome?_cons, ih, List.filterMap_cons, Piece.site?_site, List.findSome?_cons]
          rfl

theorem text_ofCourse (course : List Piece) :
    (ofCourse course).text =
      (course.takeWhile fun p => p.missing?.isNone).flatMap Piece.written := by
  rw [ofCourse, Rendering.text]
  generalize course.takeWhile (fun p => p.missing?.isNone) = before
  induction before with
  | nil => rfl
  | cons p before ih =>
      cases p with
      | part p => rw [List.filterMap_cons, List.flatMap_cons, ← ih]; rfl
      | site s => exact ih

/-- Writing an expression fails where the first list of a form that is too short is visited, and has
then written what stands before it. If it visits none, then it writes all. -/
theorem run_script_render (special : Bool) (e : Sexp) :
    let s : Site := ⟨special, e⟩
    let emitted := (e.render special).script.run (.empty none)
    emitted.2 = (s.visited.findSome? missing?).elim (.ok ())
        (fun missing => .error (.missingArgument missing)) ∧
      emitted.1.output.bytes =
        Utf8.encode ((s.course.takeWhile fun p => p.missing?.isNone).flatMap Piece.written) ∧
      s.course.filterMap Piece.site? = s.visited := by
  intro s emitted
  have hrender : e.render special = ofCourse s.course := s.render_eq_ofCourse
  obtain ⟨hbytes, hresult⟩ := (e.render special).run_script
  refine ⟨?_, ?_, s.filterMap_site?_course⟩
  · change emitted.2 = _ at hresult
    rw [hresult, hrender, ofCourse, findSome?_missing?_course, filterMap_site?_course]
  · change emitted.1.output.bytes = _ at hbytes
    rw [hbytes, hrender, text_ofCourse]

end Sexpand.Site
