import Sexpand.Proofs.Lexeme.Extent

namespace Sexpand

namespace Text

variable {stop : Char} {t : Text}

theorem forall_ne_of_not_mem (h : stop ∉ t) : ∀ c ∈ t, (c ≠ stop : Bool) = true := by
  intro c hc
  simpa using fun he : c = stop => h (he ▸ hc)

theorem cutAt_of_not_mem (h : stop ∉ t) : cutAt stop t = (t, none) := by
  have hd : (t ++ []).dropWhile (· ≠ stop) = [] :=
    List.dropWhile_append_of_pos (forall_ne_of_not_mem h)
  rw [List.append_nil] at hd
  rw [cutAt, hd]

theorem isPrefix_fst_cutAt (h : stop ∉ t) (u : Text) : t <+: (cutAt stop (t ++ u)).1 := by
  rw [fst_cutAt, List.takeWhile_append_of_pos (forall_ne_of_not_mem h)]
  exact List.prefix_append t _

end Text

namespace Lexeme

/-- The source text of the lexeme is one that the pattern of its kind allows. -/
def IsMatch : Lexeme → Prop
  | .openList => True
  | .closeList => True
  | .blank c => Text.isBlank c = true
  | .comment body _ => '\n' ∉ body
  | .bare first others => ∀ c ∈ first :: others, isBare c = true
  | .quoted body _ => '"' ∉ body
  | .block interior closed =>
      (∀ front, front <+: interior → front.count '}' ≤ front.count '{') ∧
        (closed = true → interior.count '}' = interior.count '{')

/-- No pattern allows more of the source, and none but that of the lexeme as much. -/
structure IsLongest (source : Text) (lexeme : Lexeme) : Prop where
  isMatch : lexeme.IsMatch
  isPrefix : lexeme.slice <+: source
  eq_or_lt : ∀ other : Lexeme, other.IsMatch → other.slice <+: source →
    other = lexeme ∨ other.slice.length < lexeme.slice.length

theorem isMatch_of_next? {source rest : Text} {lexeme : Lexeme}
    (h : next? source = some (lexeme, rest)) : lexeme.IsMatch := by
  have hread := isRead_of_next? h
  cases lexeme with
  | openList | closeList | blank => exact hread
  | comment | bare | quoted => exact hread.1
  | block interior closed => exact counts_of_next? h

/-- The kind of a lexeme, and whether it has its end, show in its text. -/
theorem next?_slice {lexeme : Lexeme} (h : lexeme.IsMatch) :
    next? lexeme.slice = some (lexeme, []) := by
  cases lexeme with
  | openList => rfl
  | closeList => rfl
  | blank c => exact next?_blank h []
  | comment body ended =>
      cases ended with
      | true => exact next?_comment h []
      | false =>
          have hcut := Text.cutAt_of_not_mem h
          rw [slice, if_neg Bool.false_ne_true, List.append_nil, next?, hcut]
  | bare first others =>
      obtain ⟨hf, ho⟩ := List.forall_mem_cons.1 h
      have hnext := next?_bare hf ho [] (by simp)
      rwa [List.append_nil] at hnext
  | quoted body closed =>
      cases closed with
      | true => exact next?_quoted h []
      | false =>
          have hcut := Text.cutAt_of_not_mem h
          rw [slice, if_neg Bool.false_ne_true, List.append_nil, next?, hcut]
  | block interior closed =>
      cases closed with
      | true => exact next?_block ⟨h.1, h.2 rfl⟩ []
      | false =>
          have hcut := cutBlock_append [] 0 interior [] (by simpa using h.1)
          rw [List.append_nil, List.append_nil, cutBlock, List.reverse_reverse] at hcut
          rw [slice, if_neg Bool.false_ne_true, List.append_nil, next?, hcut]

theorem isPrefix_fst_cutBlock {t : Text}
    (h : ∀ front, front <+: t → front.count '}' ≤ front.count '{') (u : Text) :
    t <+: (cutBlock [] 0 (t ++ u)).1 := by
  rw [cutBlock_append [] 0 t u (by simpa using h), List.append_nil]
  obtain ⟨front, hfront, -⟩ := exists_front_of_cutBlock
    (rfl : cutBlock t.reverse (0 + t.count '{' - t.count '}') u = (_, _))
  rw [hfront, List.reverse_reverse]
  exact List.prefix_append t front

/-- A lexeme that lacks its end can only grow by what follows it, and one that has it stays. -/
theorem exists_next?_slice_append {lexeme : Lexeme} (h : lexeme.IsMatch) (u : Text) :
    ∃ first rest, next? (lexeme.slice ++ u) = some (first, rest) ∧
      lexeme.slice <+: first.slice := by
  have hgrow : ∀ (c : Char) {body taken : Text} (last : Text), body <+: taken →
      c :: body <+: c :: taken ++ last := fun c _ _ last hbody =>
    ((List.prefix_cons_inj c).2 hbody).trans (List.prefix_append _ last)
  cases lexeme with
  | openList => exact ⟨_, _, rfl, List.prefix_rfl⟩
  | closeList => exact ⟨_, _, rfl, List.prefix_rfl⟩
  | blank c => exact ⟨_, _, next?_blank h u, List.prefix_rfl⟩
  | comment body ended =>
      cases ended with
      | true => exact ⟨_, _, by simpa [slice] using next?_comment h u, List.prefix_rfl⟩
      | false =>
          have hbody := Text.isPrefix_fst_cutAt h u
          rw [slice, if_neg Bool.false_ne_true, List.append_nil, List.cons_append, next?]
          split <;> rename_i hcut <;> rw [hcut] at hbody
          · exact ⟨_, _, rfl, hgrow _ _ hbody⟩
          · exact ⟨_, _, rfl, hgrow _ _ hbody⟩
  | bare first others =>
      obtain ⟨hf, ho⟩ := List.forall_mem_cons.1 h
      have hletters : ∀ c ∈ (others ++ u).takeWhile isBare, isBare c = true :=
        List.all_eq_true.1 List.all_takeWhile
      have hrest : ∀ c, ((others ++ u).dropWhile isBare).head? = some c → isBare c = false := by
        intro c hc
        have hn := List.head?_dropWhile_not isBare (others ++ u)
        rw [hc] at hn
        simpa using hn
      have hnext := next?_bare hf hletters _ hrest
      rw [List.cons_append, List.takeWhile_append_dropWhile] at hnext
      refine ⟨_, _, hnext, (List.prefix_cons_inj _).2 ?_⟩
      rw [List.takeWhile_append_of_pos ho]
      exact List.prefix_append others _
  | quoted body closed =>
      cases closed with
      | true => exact ⟨_, _, by simpa [slice] using next?_quoted h u, List.prefix_rfl⟩
      | false =>
          have hbody := Text.isPrefix_fst_cutAt h u
          rw [slice, if_neg Bool.false_ne_true, List.append_nil, List.cons_append, next?]
          split <;> rename_i hcut <;> rw [hcut] at hbody
          · exact ⟨_, _, rfl, hgrow _ _ hbody⟩
          · exact ⟨_, _, rfl, hgrow _ _ hbody⟩
  | block interior closed =>
      cases closed with
      | true => exact ⟨_, _, by simpa [slice] using next?_block ⟨h.1, h.2 rfl⟩ u, List.prefix_rfl⟩
      | false =>
          have hinterior := isPrefix_fst_cutBlock h.1 u
          rw [slice, if_neg Bool.false_ne_true, List.append_nil, List.cons_append, next?]
          split <;> rename_i hcut <;> rw [hcut] at hinterior
          · exact ⟨_, _, rfl, hgrow _ _ hinterior⟩
          · exact ⟨_, _, rfl, hgrow _ _ hinterior⟩

theorem isLongest_of_next? {source rest : Text} {lexeme : Lexeme}
    (h : next? source = some (lexeme, rest)) : lexeme.IsLongest source where
  isMatch := isMatch_of_next? h
  isPrefix := by
    rw [← slice_append_of_next? h]
    exact List.prefix_append lexeme.slice rest
  eq_or_lt := by
    rintro other hother ⟨u, rfl⟩
    obtain ⟨first, rest', hnext, hprefix⟩ := exists_next?_slice_append hother u
    obtain ⟨rfl, -⟩ := Prod.mk.inj (Option.some.inj (hnext.symm.trans h))
    by_cases hlength : other.slice.length < first.slice.length
    · exact .inr hlength
    · have heq := hprefix.eq_of_length_le (Nat.le_of_not_lt hlength)
      have hsame := next?_slice hother
      rw [heq, next?_slice (isMatch_of_next? h)] at hsame
      exact .inl (Prod.mk.inj (Option.some.inj hsame)).1.symm

end Lexeme

end Sexpand
