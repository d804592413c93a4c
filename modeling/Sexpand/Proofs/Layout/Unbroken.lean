import Sexpand.Proofs.Layout.Plan

namespace Sexpand

open Layout (Piece chars columns)

namespace Sexp

mutual

/-- The items of each list in the expression, those of the outermost first. -/
def lists : Sexp → List (List Sexp)
  | .atom _ => []
  | .list items => items :: listsItems items

def listsItems : List Sexp → List (List Sexp)
  | [] => []
  | item :: items => lists item ++ listsItems items

end

end Sexp

namespace Layout

/-- A line feed stands where one line has a blank. -/
theorem chars_ne_of_newline_mem {ps : List Piece} {indent : Nat} (h : .newline indent ∈ ps) :
    chars ps ≠ chars (ps.map Piece.joined) := by
  induction ps with
  | nil => cases h
  | cons p ps ih =>
      rw [List.map_cons, chars_cons, chars_cons]
      cases p with
      | newline _ => simp [Piece.chars, Piece.joined]
      | text content =>
          have hps : .newline indent ∈ ps := by simpa using h
          simpa [Piece.joined] using ih hps
      | space =>
          have hps : .newline indent ∈ ps := by simpa using h
          simpa [Piece.joined] using ih hps

end Layout

namespace Laid

theorem pieces_of_lists (level : Nat) : (l : Laid) → (∀ items ∈ l.sexp.lists, items.length < 2) →
    l.pieces level = l.sexp.oneLine
  | .atom _, _ => rfl
  | .list _ [], _ => rfl
  | .list broken [item], h => by
      have hitem := pieces_of_lists (level + 1) item fun items hitems =>
        h items (List.mem_cons_of_mem _ (List.mem_append_left _ hitems))
      rw [pieces, piecesAll, hitem]
      rfl
  | .list _ (item :: next :: items), h => by
      have hlength := h _ List.mem_cons_self
      simp only [sexps, List.length_cons] at hlength
      omega

/-- Lists of one item are opened as long as the line is too wide, down to a list of more items. -/
theorem exists_newline_mem_plan (width column level ahead : Nat) : (e : Sexp) →
    width < column + columns e.oneLine + ahead → (∃ items ∈ e.lists, 2 ≤ items.length) →
    ∃ indent, .newline indent ∈ (plan width column level ahead e).pieces level
  | .atom _, _, h => by
      obtain ⟨items, hitems, -⟩ := h
      cases hitems
  | .list [], _, h => by
      obtain ⟨items, hitems, hlength⟩ := h
      obtain rfl := List.mem_singleton.1 hitems
      cases hlength
  | .list [item], hwidth, h => by
      have hcolumns : columns (Sexp.oneLine (.list [item])) = columns item.oneLine + 2 :=
        Layout.columns_oneLine_list [item]
      obtain ⟨items, hitems, hlength⟩ := h
      have hinner : items ∈ item.lists := by
        rcases List.mem_cons.1 hitems with rfl | hitems
        · simp at hlength
        · simpa [Sexp.listsItems] using hitems
      obtain ⟨indent, hmem⟩ := exists_newline_mem_plan width (column + 1) (level + 1) (ahead + 1)
        item (by omega) ⟨items, hinner, hlength⟩
      refine ⟨indent, ?_⟩
      rw [plan, if_neg (by omega), pieces]
      exact List.mem_cons_of_mem _ (List.mem_append_left _ hmem)
  | .list (item :: next :: items), hwidth, _ => by
      refine ⟨2 * (level + 1), ?_⟩
      rw [plan, if_neg (by omega), pieces, planAll, piecesAll_cons _ _ _ (planAll_ne_nil _ _ _ _ _ _)]
      apply List.mem_cons_of_mem
      apply List.mem_append_left
      exact List.mem_append_right _ List.mem_cons_self

end Laid

namespace Sexp

theorem plan_of_columns_le {width : Nat} {e : Sexp} (h : columns e.oneLine ≤ width) :
    Laid.plan width 0 0 0 e = Laid.whole e := by
  cases e with
  | atom text => rfl
  | list items => rw [Laid.plan, if_pos (by omega)]

/-- An expression is laid out on one line exactly if that line ends within the width or there is no
place to break it. -/
theorem pretty_eq_compact_iff (e : Sexp) (width : Nat) :
    e.compact = chars e.oneLine ∧
      (e.pretty width = e.compact ↔
        columns e.oneLine ≤ width ∨ ∀ items ∈ e.lists, items.length < 2) := by
  have hsexp := Laid.sexp_plan width 0 0 0 e
  refine ⟨compact_eq e, ?_⟩
  rw [pretty_eq, compact_eq]
  constructor
  · intro heq
    by_cases hwidth : columns e.oneLine ≤ width
    · exact .inl hwidth
    · refine .inr fun items hitems => Nat.lt_of_not_le fun hlength => ?_
      obtain ⟨indent, hmem⟩ := Laid.exists_newline_mem_plan width 0 0 0 e (by omega)
        ⟨items, hitems, hlength⟩
      apply Layout.chars_ne_of_newline_mem hmem
      rw [Laid.map_joined_pieces, hsexp, heq]
  · rintro (hwidth | hlists)
    · rw [plan_of_columns_le hwidth, Laid.pieces_whole]
    · rw [Laid.pieces_of_lists 0 _ (by rwa [hsexp]), hsexp]

-- The line of `((a b))` takes seven columns. With six there is one place to break it.
example : let e : Sexp := .list [.list [.atom ['a'], .atom ['b']]]
    columns e.oneLine = 7 ∧ (Laid.plan 7 0 0 0 e).pieces 0 = e.oneLine ∧
      (Laid.plan 6 0 0 0 e).pieces 0 =
        [.text ['('], .text ['('], .text ['a'], .newline 4, .text ['b'], .text [')'],
          .text [')']] := by
  decide

end Sexp

end Sexpand
