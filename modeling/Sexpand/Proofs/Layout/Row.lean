import Sexpand.Proofs.Layout.Plan

namespace Sexpand

open Layout (Piece chars columns)

namespace Layout

/-- Cuts the pieces in front of each line break that the layout made. The first row begins with
`row`. -/
def rowsFrom (row : List Piece) : List Piece → List (List Piece)
  | [] => [row]
  | .newline indent :: ps => row :: rowsFrom [.newline indent] ps
  | .text content :: ps => rowsFrom (row ++ [.text content]) ps
  | .space :: ps => rowsFrom (row ++ [.space]) ps

def rows (ps : List Piece) : List (List Piece) := rowsFrom [] ps

theorem flatten_rowsFrom (row ps : List Piece) : (rowsFrom row ps).flatten = row ++ ps := by
  fun_induction rowsFrom row ps with
  | case1 => simp
  | case2 row indent ps ih => rw [List.flatten_cons, ih, List.singleton_append]
  | case3 row content ps ih => rw [ih, List.append_assoc, List.singleton_append]
  | case4 row ps ih => rw [ih, List.append_assoc, List.singleton_append]

theorem flatten_rows (ps : List Piece) : (rows ps).flatten = ps := flatten_rowsFrom [] ps

theorem rowsFrom_append {row ps : List Piece} (h : ∀ indent, .newline indent ∉ ps)
    (qs : List Piece) : rowsFrom row (ps ++ qs) = rowsFrom (row ++ ps) qs := by
  induction ps generalizing row with
  | nil => rw [List.append_nil, List.nil_append]
  | cons p ps ih =>
      have hps := fun indent => mt (List.mem_cons_of_mem p) (h indent)
      cases p with
      | newline indent => exact absurd List.mem_cons_self (h indent)
      | text content =>
          rw [List.cons_append, rowsFrom, ih hps, List.append_assoc, List.singleton_append]
      | space => rw [List.cons_append, rowsFrom, ih hps, List.append_assoc, List.singleton_append]

theorem rowsFrom_eq_singleton {row ps : List Piece} (h : ∀ indent, .newline indent ∉ ps) :
    rowsFrom row ps = [row ++ ps] := by
  have happend := @rowsFrom_append row ps h []
  rwa [List.append_nil] at happend

theorem rowsFrom_newline (row ps : List Piece) (indent : Nat) (qs : List Piece) :
    rowsFrom row (ps ++ .newline indent :: qs) =
      rowsFrom row ps ++ rowsFrom [.newline indent] qs := by
  fun_induction rowsFrom row ps with
  | case1 => rfl
  | case2 row indent' ps ih => rw [List.cons_append, rowsFrom, ih, List.cons_append]
  | case3 row content ps ih => rw [List.cons_append, rowsFrom, ih]
  | case4 row ps ih => rw [List.cons_append, rowsFrom, ih]

def openLists (n : Nat) : List Piece := List.replicate n (.text ['('])

def closeLists (n : Nat) : List Piece := List.replicate n (.text [')'])

/-- Nothing but opened lists stands in the row. Only the first row has no margin. -/
def IsOpening (row : List Piece) : Prop :=
  ∃ (margin : Option Nat) (opened : Nat), row = margin.toList.map .newline ++ openLists opened

/-- There is no place to break the row: lists are opened, then there is one atom or none, and then
lists are closed. -/
def IsUnbreakable (row : List Piece) : Prop :=
  ∃ (margin : Option Nat) (opened : Nat) (atom : Option Text) (closed : Nat),
    row = margin.toList.map .newline ++ openLists opened ++
      atom.toList.map (fun text => .text (Atom.written text)) ++ closeLists closed

theorem isOpening_newline (indent : Nat) : IsOpening [.newline indent] := ⟨some indent, 0, rfl⟩

theorem IsOpening.openList {row : List Piece} (h : IsOpening row) :
    IsOpening (row ++ [.text ['(']]) := by
  obtain ⟨margin, opened, rfl⟩ := h
  refine ⟨margin, opened + 1, ?_⟩
  rw [List.append_assoc, openLists, openLists, List.replicate_succ']

theorem IsOpening.isUnbreakable {row : List Piece} (h : IsOpening row) (atom : Option Text)
    (closed : Nat) : IsUnbreakable
      (row ++ atom.toList.map (fun text => .text (Atom.written text)) ++ closeLists closed) := by
  obtain ⟨margin, opened, rfl⟩ := h
  exact ⟨margin, opened, atom, closed, rfl⟩

theorem IsUnbreakable.space_not_mem {row : List Piece} (h : IsUnbreakable row) : .space ∉ row := by
  obtain ⟨margin, opened, atom, closed, rfl⟩ := h
  simp [openLists, closeLists]

theorem newline_not_mem_closeLists (n indent : Nat) : .newline indent ∉ closeLists n := by
  simp [closeLists]

theorem columns_closeLists (n : Nat) : columns (closeLists n) = n := by
  induction n with
  | zero => rfl
  | succ n ih =>
      rw [closeLists, List.replicate_succ, columns_cons, ← closeLists, ih, Piece.columns,
        width_closeList, Nat.add_comm]

def IsTidy (width : Nat) (row : List Piece) : Prop := columns row ≤ width ∨ IsUnbreakable row

theorem newline_not_mem_oneLine (e : Sexp) (indent : Nat) : .newline indent ∉ e.oneLine := by
  rw [← Laid.sexp_whole e, ← Laid.map_joined_pieces 0]
  intro h
  obtain ⟨p, -, hp⟩ := List.mem_map.1 h
  cases p <;> cases hp

mutual

/-- The closing parentheses behind the expression are those that its plan leaves room for. -/
theorem isTidy_of_mem_plan (width level ahead : Nat) (row : List Piece) (hrow : IsOpening row) :
    (e : Sexp) → ∀ r ∈ rowsFrom row
      ((Laid.plan width (columns row) level ahead e).pieces level ++ closeLists ahead), IsTidy width r
  | .atom text => by
      intro r hr
      rw [Laid.plan, Laid.pieces, List.singleton_append, rowsFrom,
        rowsFrom_eq_singleton (newline_not_mem_closeLists ahead)] at hr
      obtain rfl := List.mem_singleton.1 hr
      exact .inr (hrow.isUnbreakable (some text) ahead)
  | .list items => by
      intro r hr
      by_cases hfits : columns row + columns (Sexp.oneLine (.list items)) + ahead ≤ width
      · have hnone : ∀ indent, .newline indent ∉ Sexp.oneLine (.list items) ++ closeLists ahead :=
          fun indent => List.not_mem_append (newline_not_mem_oneLine _ indent)
            (newline_not_mem_closeLists ahead indent)
        rw [Laid.plan, if_pos hfits, Laid.pieces_whole, rowsFrom_eq_singleton hnone] at hr
        obtain rfl := List.mem_singleton.1 hr
        left
        rw [columns_append, columns_append, columns_closeLists, ← Nat.add_assoc]
        exact hfits
      · have hcolumns : columns (row ++ [.text ['(']]) = columns row + 1 := columns_append row _
        have hitems := isTidy_of_mem_planAll width (level + 1) (ahead + 1) _ hrow.openList items
        rw [hcolumns] at hitems
        rw [Laid.plan, if_neg hfits, Laid.pieces, List.cons_append, rowsFrom, List.append_assoc] at hr
        exact hitems r hr

theorem isTidy_of_mem_planAll (width level ahead : Nat) (row : List Piece) (hrow : IsOpening row) :
    (items : List Sexp) → ∀ r ∈ rowsFrom row
      (Laid.piecesAll (.newline (2 * level)) level
        (Laid.planAll width (columns row) level ahead items) ++ closeLists ahead), IsTidy width r
  | [] => by
      intro r hr
      rw [Laid.planAll, Laid.piecesAll, List.nil_append,
        rowsFrom_eq_singleton (newline_not_mem_closeLists ahead)] at hr
      obtain rfl := List.mem_singleton.1 hr
      exact .inr (by simpa using hrow.isUnbreakable none ahead)
  | [item] => isTidy_of_mem_plan width level ahead row hrow item
  | item :: next :: items => by
      intro r hr
      have hitem := isTidy_of_mem_plan width level 0 row hrow item
      have hothers := isTidy_of_mem_planAll width level ahead [.newline (2 * level)]
        (isOpening_newline _) (next :: items)
      rw [Laid.planAll, Laid.piecesAll_cons _ _ _ (Laid.planAll_ne_nil _ _ _ _ _ _),
        List.append_assoc, List.cons_append, rowsFrom_newline] at hr
      rcases List.mem_append.1 hr with hr | hr
      · exact hitem r (by rwa [closeLists, List.replicate_zero, List.append_nil])
      · exact hothers r hr

end

theorem IsTidy.isUnbreakable {width : Nat} {row : List Piece} (h : IsTidy width row)
    (hwidth : width < columns row) : .space ∉ row ∧ IsUnbreakable row := by
  rcases h with hle | hunbreakable
  · omega
  · exact ⟨hunbreakable.space_not_mem, hunbreakable⟩

end Layout

namespace Sexp

open Layout (rows IsUnbreakable)

/-- Only rows without a place to break them are wider than asked for. -/
theorem isUnbreakable_of_mem_rows (width : Nat) :
    (∀ e : Sexp, chars (rows (e.doc.layout width)).flatten = e.pretty width ∧
      ∀ row ∈ rows (e.doc.layout width), width < columns row → .space ∉ row ∧ IsUnbreakable row) ∧
    ∀ items : List Sexp,
      chars (rows ((Doc.join .line (docs items)).layout width)).flatten = prettyAll width items ∧
      ∀ row ∈ rows ((Doc.join .line (docs items)).layout width), width < columns row →
        .space ∉ row ∧ IsUnbreakable row := by
  have hopening : Layout.IsOpening [] := ⟨none, 0, rfl⟩
  constructor
  · intro e
    rw [Layout.flatten_rows]
    refine ⟨rfl, fun row hrow => ?_⟩
    apply Layout.IsTidy.isUnbreakable
    apply Layout.isTidy_of_mem_plan width 0 0 [] hopening e
    rwa [layout_doc, rows, ← List.append_nil (Laid.pieces _ _)] at hrow
  · intro items
    rw [Layout.flatten_rows]
    refine ⟨rfl, fun row hrow => ?_⟩
    apply Layout.IsTidy.isUnbreakable
    apply Layout.isTidy_of_mem_planAll width 0 0 [] hopening items
    rwa [layout_docs, rows, ← List.append_nil (Laid.piecesAll _ _ _)] at hrow

end Sexp

end Sexpand
