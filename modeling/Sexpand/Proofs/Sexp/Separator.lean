import Sexpand.Proofs.Layout.Laid

namespace Sexpand

inductive Stroke
  | openList
  | closeList
  | atom (text : Text)
  deriving DecidableEq

namespace Stroke

def chars : Stroke → Text
  | .openList => ['(']
  | .closeList => [')']
  | .atom text => Atom.written text

def beginsItem : Stroke → Bool
  | .openList | .atom _ => true
  | .closeList => false

def endsItem : Stroke → Bool
  | .closeList | .atom _ => true
  | .openList => false

def gap (s next : Stroke) : Text := if s.endsItem && next.beginsItem then [' '] else []

/-- The strokes on one line. The gaps are those of neighbours, whatever list they are in. -/
def line : List Stroke → Text
  | [] => []
  | [s] => s.chars
  | s :: next :: strokes => s.chars ++ (gap s next ++ line (next :: strokes))

end Stroke

namespace Sexp

mutual

def strokes : Sexp → List Stroke
  | .atom text => [.atom text]
  | .list items => .openList :: (strokesAll items ++ [.closeList])

def strokesAll : List Sexp → List Stroke
  | [] => []
  | item :: items => strokes item ++ strokesAll items

end

end Sexp

namespace Line

/-- What the next stroke is put behind. -/
def upTo (line : Line) (s : Stroke) : Text := if s.beginsItem then line.spaced else line.chars

def put (line : Line) (s : Stroke) : Line := ⟨s.chars.reverse ++ line.upTo s, s.endsItem⟩

theorem upTo_put (line : Line) (s next : Stroke) :
    (line.put s).upTo next = (s.chars ++ Stroke.gap s next).reverse ++ line.upTo s := by
  have hput : line.put s = ⟨s.chars.reverse ++ line.upTo s, s.endsItem⟩ := rfl
  rw [hput, upTo, spaced, Stroke.gap]
  cases next.beginsItem <;> cases s.endsItem <;> simp

/-- The flag of a line carries to the next stroke what is needed of the last one. -/
theorem chars_foldl_put (line : Line) (s : Stroke) (strokes : List Stroke) :
    ((s :: strokes).foldl put line).chars =
      (Stroke.line (s :: strokes)).reverse ++ line.upTo s := by
  induction strokes generalizing line s with
  | nil => rfl
  | cons next strokes ih =>
      have hline : Stroke.line (s :: next :: strokes) =
          (s.chars ++ Stroke.gap s next) ++ Stroke.line (next :: strokes) :=
        (List.append_assoc _ _ _).symm
      rw [List.foldl_cons, ih, hline, List.reverse_append, upTo_put, List.append_assoc]

mutual

/-- However deep the lists nest, the strokes are put on the line one after another. -/
theorem add_eq_foldl (line : Line) : (e : Sexp) → line.add e = e.strokes.foldl put line
  | .atom text => by
      rw [add, List.reverseAux_eq]
      rfl
  | .list items => by
      have hitems := addAll_eq_foldl (line.put .openList) items
      rw [Sexp.strokes, List.foldl_cons, List.foldl_append, ← hitems]
      rfl

theorem addAll_eq_foldl (line : Line) :
    (items : List Sexp) → line.addAll items = (Sexp.strokesAll items).foldl put line
  | [] => rfl
  | item :: items => by
      have hitem := add_eq_foldl line item
      have hitems := addAll_eq_foldl (line.add item) items
      rw [addAll, hitems, hitem, Sexp.strokesAll, List.foldl_append]

end

theorem needsSpace_add (line : Line) (e : Sexp) : (line.add e).needsSpace = true := by
  cases e <;> rfl

theorem needsSpace_addAll (line : Line) (item : Sexp) (items : List Sexp) :
    (line.addAll (item :: items)).needsSpace = true := by
  induction items generalizing line item with
  | nil => exact needsSpace_add line item
  | cons next items ih => exact ih (line.add item) next

end Line

namespace Sexp

theorem compact_list (items : List Sexp) :
    compact (.list items) = '(' :: (compactAll items ++ [')']) := by
  rw [compact_eq, compactAll_eq, oneLine, Layout.chars_cons, Layout.chars_append]
  rfl

theorem compactAll_cons_cons (item next : Sexp) (items : List Sexp) :
    compactAll (item :: next :: items) = item.compact ++ ([' '] ++ compactAll (next :: items)) := by
  rw [compactAll_eq, compactAll_eq, compact_eq, oneLineAll, Layout.chars_append, Layout.chars_cons]
  rfl

theorem compactAll_eq_intercalate (items : List Sexp) :
    compactAll items = [' '].intercalate (items.map compact) := by
  induction items with
  | nil => rfl
  | cons item items ih =>
      cases items with
      | nil => exact (List.intercalate_singleton).symm
      | cons next items =>
          rw [compactAll_cons_cons, ih, List.map_cons, List.map_cons, List.map_cons,
            List.intercalate_cons_cons, List.append_assoc]

theorem compactAll_eq_line (items : List Sexp) :
    compactAll items = Stroke.line (strokesAll items) := by
  rw [compactAll, Line.addAll_eq_foldl]
  cases strokesAll items with
  | nil => rfl
  | cons s strokes =>
      have hempty : Line.empty.upTo s = [] := by
        cases s <;> rfl
      rw [Line.chars_foldl_put, hempty, List.append_nil, List.reverse_reverse]

theorem addAll_eq (line : Line) (items : List Sexp) :
    line.addAll items =
      if items = [] then line else ⟨(compactAll items).reverse ++ line.spaced, true⟩ := by
  cases items with
  | nil => rfl
  | cons item items =>
      have hchars := Line.chars_addAll line (item :: items)
      have hspace := Line.needsSpace_addAll line item items
      rw [if_neg (List.cons_ne_nil _ _)] at hchars ⊢
      rw [compactAll_eq, ← hchars, ← hspace]

/-- On one line, one space stands between an item and the next, and there is no other space but
those in atoms. What is on the line already adds a space in front of the first item or nothing. -/
theorem compact_eq_intercalate :
    (∀ text : Text, compact (.atom text) = Atom.written text) ∧
    (∀ items : List Sexp,
      compact (.list items) = '(' :: ([' '].intercalate (items.map compact) ++ [')']) ∧
      compactAll items = [' '].intercalate (items.map compact)) ∧
    ∀ items : List Sexp, compactAll items = Stroke.line (strokesAll items) ∧
      ∀ line : Line, line.addAll items =
        if items = [] then line else ⟨(compactAll items).reverse ++ line.spaced, true⟩ := by
  refine ⟨?_, ?_, ?_⟩
  · intro text
    rw [compact_eq, oneLine, Layout.chars_cons]
    exact List.append_nil _
  · intro items
    rw [← compactAll_eq_intercalate]
    exact ⟨compact_list items, rfl⟩
  · intro items
    exact ⟨compactAll_eq_line items, fun line => addAll_eq line items⟩

-- Empty lists and empty atoms are items like any other.
example : compactAll [.list [.list [], .atom []], .list [], .list [.list [.list []]]] =
    "(() {}) () ((()))".toList := by
  decide

end Sexp

end Sexpand
