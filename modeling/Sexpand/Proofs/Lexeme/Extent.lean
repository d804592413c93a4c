import Sexpand.Proofs.Lexeme.Splits
import Sexpand.Proofs.Sexp.Printable

namespace Sexpand.Lexeme

/-- No part of what is cut off, from its start on, closes more braces than it opens and `depth`
more. All of it closes as many as that if the cut is at a brace. -/
theorem exists_front_of_cutBlock {taken interior t : Text} {rest : Option Text} {depth : Nat}
    (h : cutBlock taken depth t = (interior, rest)) :
    ∃ front, interior = taken.reverse ++ front ∧
      (∀ u, u <+: front → u.count '}' ≤ depth + u.count '{') ∧
      (rest.isSome = true → front.count '}' = depth + front.count '{') := by
  induction t generalizing taken depth with
  | nil =>
      rw [cutBlock] at h
      obtain ⟨rfl, rfl⟩ := Prod.mk.inj h
      exact ⟨[], (List.append_nil _).symm, by simp, by simp⟩
  | cons c t ih =>
      have hcount : ∀ (u : Text) (b : Char), (c :: u).count b = [c].count b + u.count b :=
        fun u _ => @List.count_append _ _ _ [c] u
      by_cases hc : [c].count '}' ≤ depth + [c].count '{'
      · rw [cutBlock_cons taken t hc] at h
        obtain ⟨front, hinterior, hfronts, hfront⟩ := ih h
        refine ⟨c :: front, by simpa using hinterior, ?_, ?_⟩
        · intro u hu
          cases u with
          | nil => exact Nat.zero_le _
          | cons d u =>
              obtain ⟨rfl, hu'⟩ := List.cons_prefix_cons.1 hu
              have hle := hfronts u hu'
              rw [hcount u, hcount u]
              omega
        · intro hrest
          have hall := hfront hrest
          rw [hcount front, hcount front]
          omega
      · -- Only a brace that closes more than is open stops the search.
        have hclose : c = '}' := by
          apply Decidable.byContradiction
          intro hne
          rw [List.count_singleton, if_neg (by simpa using hne)] at hc
          exact hc (Nat.zero_le _)
        subst hclose
        obtain rfl : depth = 0 := by
          rw [List.count_singleton_self] at hc
          omega
        rw [cutBlock] at h
        obtain ⟨rfl, -⟩ := Prod.mk.inj h
        exact ⟨[], (List.append_nil _).symm, by simp, fun _ => rfl⟩

theorem counts_of_next? {source interior rest : Text} {closed : Bool}
    (h : next? source = some (.block interior closed, rest)) :
    (∀ front, front <+: interior → front.count '}' ≤ front.count '{') ∧
      (closed = true → interior.count '}' = interior.count '{') := by
  have hsource : '{' :: (interior ++ ((if closed then ['}'] else []) ++ rest)) = source := by
    rw [← slice_append_of_next? h, slice, List.cons_append, List.cons_append, List.append_assoc]
  rw [← hsource, next?] at h
  split at h
  · rename_i interior' rest' hcut
    obtain ⟨hlexeme, -⟩ := Prod.mk.inj (Option.some.inj h)
    obtain ⟨rfl, rfl⟩ := block.inj hlexeme
    obtain ⟨front, rfl, hfronts, hcount⟩ := exists_front_of_cutBlock hcut
    simp only [Nat.zero_add] at hfronts hcount
    exact ⟨hfronts, fun _ => hcount rfl⟩
  · rename_i interior' hcut
    obtain ⟨hlexeme, -⟩ := Prod.mk.inj (Option.some.inj h)
    obtain ⟨rfl, rfl⟩ := block.inj hlexeme
    obtain ⟨front, rfl, hfronts, -⟩ := exists_front_of_cutBlock hcut
    simp only [Nat.zero_add] at hfronts
    exact ⟨hfronts, by simp⟩

theorem isNested_of_next? {source interior rest : Text}
    (h : next? source = some (.block interior true, rest)) : interior.IsNested :=
  ⟨(counts_of_next? h).1, (counts_of_next? h).2 rfl⟩

/-- A lexeme is read in front of any text that it could not have gone on into. -/
theorem next?_slice_append {source rest rest' : Text} {lexeme : Lexeme}
    (h : next? source = some (lexeme, rest)) (hrest' : lexeme.IsRead rest') :
    next? (lexeme.slice ++ rest') = some (lexeme, rest') := by
  have hread := isRead_of_next? h
  have hsource := slice_append_of_next? h
  -- What lacks its end is followed by nothing, before and after.
  have hunended : rest = [] → rest' = [] → next? (lexeme.slice ++ rest') = some (lexeme, rest') := by
    rintro rfl rfl
    rw [hsource, h]
  cases lexeme with
  | openList => rfl
  | closeList => rfl
  | blank c => exact next?_blank hrest' rest'
  | comment body ended =>
      cases ended with
      | false => exact hunended (hread.2 rfl) (hrest'.2 rfl)
      | true => simpa [slice] using next?_comment hrest'.1 rest'
  | bare first others =>
      obtain ⟨hf, ho⟩ := List.forall_mem_cons.1 hrest'.1
      exact next?_bare hf ho rest' hrest'.2
  | quoted body closed =>
      cases closed with
      | false => exact hunended (hread.2 rfl) (hrest'.2 rfl)
      | true => simpa [slice] using next?_quoted hrest'.1 rest'
  | block interior closed =>
      cases closed with
      | false => exact hunended (hread rfl) (hrest' rfl)
      | true => simpa [slice] using next?_block (isNested_of_next? h) rest'

/-- Only the next character tells a lexeme where to end, and only one that has its end. -/
theorem IsRead.of_head?_eq {rest rest' : Text} {lexeme : Lexeme} (h : lexeme.IsRead rest)
    (hne : rest ≠ []) (hhead : rest'.head? = rest.head?) : lexeme.IsRead rest' := by
  cases lexeme with
  | openList | closeList | blank => exact h
  | comment body ended | quoted body closed => exact ⟨h.1, fun hend => absurd (h.2 hend) hne⟩
  | bare first others => exact ⟨h.1, by rw [hhead]; exact h.2⟩
  | block interior closed => exact fun hend => absurd (h hend) hne

theorem IsRead.of_token? {rest : Text} {lexeme : Lexeme} {token : Token} (h : lexeme.IsRead rest)
    (htoken : lexeme.token? = some token) (hsingle : token = .closeList ∨ token = .blank)
    (rest' : Text) : lexeme.IsRead rest' := by
  cases lexeme with
  | openList | closeList | blank => exact h
  | comment => cases htoken
  | bare | quoted | block =>
      obtain rfl := Option.some.inj htoken
      simp at hsingle

namespace Splits

theorem isRead_getLast {source rest : Text} {lexemes : List Lexeme} (h : Splits source lexemes rest) :
    ∀ lexeme ∈ lexemes.getLast?, lexeme.IsRead rest := by
  induction h with
  | nil => simp
  | @cons source middle rest lexeme lexemes hnext h ih =>
      cases lexemes with
      | nil =>
          cases h
          simpa using isRead_of_next? hnext
      | cons next lexemes => simpa using ih

/-- Lexemes one after another tell each other where to end, so only the last of them depends on the
text that follows. -/
theorem replace_rest {source rest rest' : Text} {lexemes : List Lexeme}
    (h : Splits source lexemes rest) (hlast : ∀ lexeme ∈ lexemes.getLast?, lexeme.IsRead rest') :
    Splits (slices lexemes ++ rest') lexemes rest' := by
  induction h with
  | nil => exact .nil rest'
  | @cons source middle rest lexeme lexemes hnext h ih =>
      rw [slices_cons, List.append_assoc]
      cases lexemes with
      | nil =>
          have hread : lexeme.IsRead rest' := by simpa using hlast
          exact .single (next?_slice_append hnext hread)
      | cons next lexemes =>
          refine .cons (next?_slice_append hnext ?_) (ih (by simpa using hlast))
          obtain ⟨c, t, hslice⟩ := List.exists_cons_of_ne_nil next.slice_ne_nil
          have hmiddle := h.source_eq
          rw [slices_cons, hslice] at hmiddle ⊢
          apply (isRead_of_next? hnext).of_head?_eq
          · rw [hmiddle]
            simp
          · rw [hmiddle]
            rfl

end Splits

end Sexpand.Lexeme
