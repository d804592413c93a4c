import Sexpand.Proofs.Layout.Laid

namespace Sexpand

open Layout (Frame Piece chars columns reach)

namespace Laid

mutual

/-- The layout, from a column on, of an expression with `level` lists around it and `ahead` columns
behind it on its last line. A list is whole where its line can be. -/
def plan (width column level ahead : Nat) : Sexp → Laid
  | .atom text => .atom text
  | .list items =>
      if column + columns (Sexp.oneLine (.list items)) + ahead ≤ width then whole (.list items)
      else .list true (planAll width (column + 1) (level + 1) (ahead + 1) items)

/-- The items stand one on a line, so only the last has something behind it. -/
def planAll (width column level ahead : Nat) : List Sexp → List Laid
  | [] => []
  | [item] => [plan width column level ahead item]
  | item :: next :: items =>
      plan width column level 0 item :: planAll width (2 * level) level ahead (next :: items)

end

mutual

theorem sexp_plan (width column level ahead : Nat) :
    (e : Sexp) → (plan width column level ahead e).sexp = e
  | .atom _ => rfl
  | .list items => by
      have hitems := sexps_planAll width (column + 1) (level + 1) (ahead + 1) items
      rw [plan]
      split
      · exact sexp_whole (.list items)
      · rw [sexp, hitems]

theorem sexps_planAll (width column level ahead : Nat) :
    (items : List Sexp) → sexps (planAll width column level ahead items) = items
  | [] => rfl
  | [item] => by
      have hitem := sexp_plan width column level ahead item
      rw [planAll, sexps, hitem]
      rfl
  | item :: next :: items => by
      have hitem := sexp_plan width column level 0 item
      have hitems := sexps_planAll width (2 * level) level ahead (next :: items)
      rw [planAll, sexps, hitem, hitems]

end

theorem planAll_ne_nil (width column level ahead : Nat) (item : Sexp) (items : List Sexp) :
    planAll width column level ahead (item :: items) ≠ [] := by
  intro h
  have hitems := sexps_planAll width column level ahead (item :: items)
  rw [h] at hitems
  cases hitems

mutual

theorem isOrderly_plan (width column level ahead : Nat) :
    (e : Sexp) → (plan width column level ahead e).isOrderly = true
  | .atom _ => rfl
  | .list items => by
      have hitems := areOrderly_planAll width (column + 1) (level + 1) (ahead + 1) items
      rw [plan]
      split
      · exact isOrderly_of_isWhole _ (isWhole_whole (.list items))
      · rw [isOrderly, hitems]
        rfl

theorem areOrderly_planAll (width column level ahead : Nat) :
    (items : List Sexp) → areOrderly (planAll width column level ahead items) = true
  | [] => rfl
  | [item] => by
      have hitem := isOrderly_plan width column level ahead item
      rw [planAll, areOrderly, hitem]
      rfl
  | item :: next :: items => by
      have hitem := isOrderly_plan width column level 0 item
      have hitems := areOrderly_planAll width (2 * level) level ahead (next :: items)
      rw [planAll, areOrderly, hitem, hitems, Bool.and_self]

end

end Laid

namespace Layout

theorem width_openList : Text.width ['('] = 1 := rfl

theorem width_closeList : Text.width [')'] = 1 := rfl

theorem columns_oneLine_list (items : List Sexp) :
    columns (Sexp.oneLine (.list items)) = columns (Sexp.oneLineAll items) + 2 := by
  rw [Sexp.oneLine, columns_cons, columns_append, columns_cons, columns_nil, Piece.columns,
    Piece.columns, width_openList, width_closeList]
  omega

theorem reach_closeList (indent : Nat) (flat : Bool) (frames : List Frame) :
    reach (⟨indent, flat, .text [')']⟩ :: frames) = reach frames + 1 :=
  (congrArg (· + reach frames) width_closeList).trans (Nat.add_comm 1 (reach frames))

mutual

/-- Of the frames below an expression, all that matters for its layout is how far they reach. -/
theorem exists_pieces_doc (width column level : Nat) (frames : List Frame) :
    (e : Sexp) → ∃ column', pieces width column (⟨2 * level, false, e.doc⟩ :: frames) =
      (Laid.plan width column level (reach frames) e).pieces level ++ pieces width column' frames
  | .atom text => ⟨_, pieces_text width column (2 * level) false frames (Atom.written text)⟩
  | .list items => by
      have hreach := reach_closeList (2 * level) false frames
      have hcolumns := columns_oneLine_list items
      rw [Sexp.doc, pieces_append, pieces_text, width_openList, pieces_append,
        pieces_group_nest _ _ _ _ _ _ (by omega), Sexp.whole_docs, hreach]
      by_cases hfits : column + columns (Sexp.oneLine (.list items)) + reach frames ≤ width
      · rw [if_pos (by omega), Laid.plan, if_pos hfits, Laid.pieces_whole, Sexp.oneLine, pieces_text]
        refine ⟨column + 1 + columns (Sexp.oneLineAll items) + Text.width [')'], ?_⟩
        simp only [List.cons_append, List.append_assoc, List.nil_append]
      · obtain ⟨column', hitems⟩ := exists_pieces_docs width (column + 1) (level + 1)
          (⟨2 * level, false, .text [')']⟩ :: frames) items
        rw [hreach, pieces_text] at hitems
        rw [if_neg (by omega), Laid.plan, if_neg hfits, Laid.pieces]
        refine ⟨column' + Text.width [')'], (congrArg (Piece.text ['('] :: ·) hitems).trans ?_⟩
        simp only [List.cons_append, List.append_assoc, List.nil_append, Laid.separator, if_true]

theorem exists_pieces_docs (width column level : Nat) (frames : List Frame) :
    (items : List Sexp) → ∃ column',
      pieces width column (⟨2 * level, false, .join .line (Sexp.docs items)⟩ :: frames) =
        Laid.piecesAll (.newline (2 * level)) level
          (Laid.planAll width column level (reach frames) items) ++ pieces width column' frames
  | [] => ⟨column, by rw [Sexp.docs, Doc.join, pieces]; rfl⟩
  | [item] => exists_pieces_doc width column level frames item
  | item :: next :: items => by
      obtain ⟨column', hitem⟩ := exists_pieces_doc width column level
        (⟨2 * level, false, .append .line (.join .line (Sexp.docs (next :: items)))⟩ :: frames) item
      obtain ⟨column'', hothers⟩ := exists_pieces_docs width (2 * level) level frames (next :: items)
      -- A broken line follows.
      have hreach : reach (⟨2 * level, false,
        .append .line (.join .line (Sexp.docs (next :: items)))⟩ :: frames) = 0 := rfl
      rw [hreach, pieces_append, pieces_line, hothers] at hitem
      refine ⟨column'', ?_⟩
      rw [Laid.planAll, Laid.piecesAll_cons _ _ _ (Laid.planAll_ne_nil _ _ _ _ _ _),
        List.append_assoc, List.cons_append, ← hitem, ← pieces_append]
      rfl

end

end Layout

namespace Sexp

theorem layout_doc (width : Nat) (e : Sexp) :
    e.doc.layout width = (Laid.plan width 0 0 0 e).pieces 0 := by
  obtain ⟨column, h⟩ := Layout.exists_pieces_doc width 0 0 [] e
  rwa [Layout.pieces, List.append_nil] at h

theorem layout_docs (width : Nat) (items : List Sexp) :
    (Doc.join .line (docs items)).layout width =
      Laid.piecesAll (.newline 0) 0 (Laid.planAll width 0 0 0 items) := by
  obtain ⟨column, h⟩ := Layout.exists_pieces_docs width 0 0 [] items
  rwa [Layout.pieces, List.append_nil] at h

theorem pretty_eq (width : Nat) (e : Sexp) :
    e.pretty width = chars ((Laid.plan width 0 0 0 e).pieces 0) :=
  congrArg chars (layout_doc width e)

theorem prettyAll_eq (width : Nat) (items : List Sexp) :
    prettyAll width items =
      chars (Laid.piecesAll (.newline 0) 0 (Laid.planAll width 0 0 0 items)) :=
  congrArg chars (layout_docs width items)

/-- To a width, expressions are written as on one line but for some of the spaces between items. In
their place the line is broken, for all items of a list or for none, and nowhere in a list of two
items or more that is whole. Expressions without parentheses around them always stand on lines of
their own. -/
theorem exists_laid (width : Nat) :
    (∀ e : Sexp, ∃ l : Laid, l.sexp = e ∧ l.isOrderly = true ∧
      e.pretty width = chars (l.pieces 0) ∧
      e.compact = chars ((l.pieces 0).map Piece.joined)) ∧
    ∀ items : List Sexp, ∃ ls : List Laid, Laid.sexps ls = items ∧ Laid.areOrderly ls = true ∧
      prettyAll width items = chars (Laid.piecesAll (.newline 0) 0 ls) ∧
      compactAll items = chars ((Laid.piecesAll (.newline 0) 0 ls).map Piece.joined) := by
  constructor
  · intro e
    have hsexp := Laid.sexp_plan width 0 0 0 e
    refine ⟨_, hsexp, Laid.isOrderly_plan width 0 0 0 e, pretty_eq width e, ?_⟩
    rw [Laid.map_joined_pieces, hsexp, compact_eq]
  · intro items
    have hsexps := Laid.sexps_planAll width 0 0 0 items
    refine ⟨_, hsexps, Laid.areOrderly_planAll width 0 0 0 items, prettyAll_eq width items, ?_⟩
    rw [Laid.map_joined_piecesAll (.newline 0) rfl, hsexps, compactAll_eq]

end Sexp

end Sexpand
