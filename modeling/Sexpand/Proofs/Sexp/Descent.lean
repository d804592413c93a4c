import Sexpand.Proofs.Sexp.TokenRun

namespace Sexpand

open Grammar (Tokens Reading atoms less group read)

namespace Draft

/-- How many items the list still has room for, if there is a bound. -/
def left (d : Draft) : Option Nat := less d.limit d.items.length

theorem isFull_iff (d : Draft) : d.isFull = true ↔ d.left = some 0 := by
  rcases d with ⟨items, word, _ | limit⟩
  · simp [isFull, left, less]
  · simp [isFull, left, less, Nat.sub_eq_zero_iff_le]

theorem endWord_eq (d : Draft) :
    d.endWord = { d with items := (atoms d.word.reverse).reverse ++ d.items, word := [] } := by
  rcases d with ⟨items, _ | ⟨c, word⟩, limit⟩
  · rfl
  · simp [endWord, atoms]

theorem left_endWord (d : Draft) :
    d.endWord.left = less d.left (atoms d.word.reverse).length := by
  rw [endWord_eq]
  rcases d with ⟨items, word, _ | limit⟩
  · rfl
  · simp [left, less, Nat.sub_sub, Nat.add_comm]

theorem left_addItem (d : Draft) (item : Sexp) : (d.addItem item).left = less d.left 1 := by
  rcases d with ⟨items, word, _ | limit⟩
  · rfl
  · simp [left, less, addItem, Nat.sub_sub]

theorem word_endWord (d : Draft) : d.endWord.word = [] := by
  rw [endWord_eq]

theorem reverse_word_addText (d : Draft) (text : Text) :
    (d.addText text).word.reverse = d.word.reverse ++ text := by
  simp [addText]

theorem addText_addText (d : Draft) (text more : Text) :
    (d.addText text).addText more = d.addText (text ++ more) := by
  simp [addText, List.reverseAux_eq]

theorem finish_of_not_full {d : Draft} (h : d.left ≠ some 0) :
    d.finish = d.items.reverse ++ atoms d.word.reverse := by
  rw [finish, if_neg (mt d.isFull_iff.1 h), endWord_eq]
  simp

theorem reverse_items_endWord (d : Draft) :
    d.endWord.items.reverse = d.items.reverse ++ atoms d.word.reverse := by
  simp [endWord_eq]

theorem finish_of_word_eq_nil {d : Draft} (h : d.word = []) : d.finish = d.items.reverse := by
  rw [finish, endWord_eq, h]
  simp [atoms]

theorem reverse_items_addItem (d : Draft) (item : Sexp) :
    (d.addItem item).items.reverse = d.items.reverse ++ [item] := by
  simp [addItem]

theorem limit_endWord (d : Draft) : d.endWord.limit = d.limit := by
  rw [endWord_eq]

end Draft

namespace Nest

/-- The outcome of going on after an item has been read. -/
def outcomeUnlessFull (n : Nest) (stop : Nat) (tokens : Tokens) : List Sexp × Nat :=
  if n.current.isFull then (n.finish, stop) else n.outcome stop tokens

/-- The outcome once the innermost list has been read, where `parents` are the lists around it. -/
def leave (parents : List Draft) (r : Reading) : List Sexp × Nat :=
  match parents with
  | [] => (r.items, r.stop)
  | parent :: parents => outcomeUnlessFull ⟨parent.addItem (.list r.items), parents, 0⟩ r.stop r.rest

theorem leave_finish (d : Draft) (parents : List Draft) (stop : Nat) :
    leave parents ⟨d.finish, stop, []⟩ = (finish ⟨d, parents, 0⟩, stop) := by
  cases parents with
  | nil => rfl
  | cons parent parents =>
      change outcomeUnlessFull _ _ _ = _
      rw [outcomeUnlessFull]
      split <;> rfl

theorem eq_nil_of_left {d : Draft} {parents : List Draft} (hlimit : parents ≠ [] → d.limit = none)
    (hfull : d.left = some 0) : parents = [] := by
  cases parents with
  | nil => rfl
  | cons parent parents =>
      rw [Draft.left, hlimit (List.cons_ne_nil _ _)] at hfull
      simp [less] at hfull

theorem outcome_nil (n : Nest) (stop : Nat) : n.outcome stop [] = (n.finish, stop) := rfl

theorem outcome_of_more {n next : Nest} {token : Token} {p : Placed} (stop : Nat) (tokens : Tokens)
    (h : n.step token p.lexeme.slice = .more next) :
    n.outcome stop ((token, p) :: tokens) = next.outcome p.stop tokens := by
  rw [outcome, run, h]
  rfl

theorem outcome_of_last {n next : Nest} {token : Token} {p : Placed} (stop : Nat) (tokens : Tokens)
    (h : n.step token p.lexeme.slice = .last next) :
    n.outcome stop ((token, p) :: tokens) = (next.finish, p.stop) := by
  rw [outcome, run, h]

theorem outcome_of_before {n next : Nest} {token : Token} {p : Placed} (stop : Nat)
    (tokens : Tokens) (h : n.step token p.lexeme.slice = .before next) :
    n.outcome stop ((token, p) :: tokens) = (next.finish, p.start) := by
  rw [outcome, run, h]

theorem outcome_of_unlessFull {n next : Nest} {token : Token} {p : Placed} (stop : Nat)
    (tokens : Tokens) (h : n.step token p.lexeme.slice = next.unlessFull) :
    n.outcome stop ((token, p) :: tokens) = next.outcomeUnlessFull p.stop tokens := by
  rw [outcomeUnlessFull]
  unfold unlessFull at h
  split at h
  · rw [outcome_of_last stop tokens h, if_pos ‹_›]
  · rw [outcome_of_more stop tokens h, if_neg ‹_›]

theorem outcomeUnlessFull_of_left {n : Nest} (stop : Nat) (tokens : Tokens)
    (h : n.current.left ≠ some 0) : n.outcomeUnlessFull stop tokens = n.outcome stop tokens := by
  rw [outcomeUnlessFull, if_neg (mt n.current.isFull_iff.1 h)]

theorem group_cons (depth stop : Nat) (token : Token) (p : Placed) (tokens : Tokens) :
    group depth stop ((token, p) :: tokens) =
      if rawDepthAfter depth token = 0 then ⟨p.lexeme.slice, p.stop, tokens⟩
      else { group (rawDepthAfter depth token) p.stop tokens with
        text := p.lexeme.slice ++ (group (rawDepthAfter depth token) p.stop tokens).text } := by
  rw [Grammar.group.eq_def]
  cases token <;> rfl

/-- The letters of a parenthesis that is too deep, and of all that it encloses, go to one atom. -/
theorem outcome_group (d : Draft) (parents : List Draft) (depth stop : Nat) (tokens : Tokens)
    (hd : 0 < depth) :
    outcome ⟨d, parents, depth⟩ stop tokens =
      outcome ⟨d.addText (group depth stop tokens).text, parents, 0⟩
        (group depth stop tokens).stop (group depth stop tokens).rest := by
  induction tokens generalizing d depth stop with
  | nil => rfl
  | cons entry tokens ih =>
      obtain ⟨token, p⟩ := entry
      have hstep : step ⟨d, parents, depth⟩ token p.lexeme.slice =
          .more ⟨d.addText p.lexeme.slice, parents, rawDepthAfter depth token⟩ := by
        rw [step.eq_def, if_pos hd]
        rfl
      rw [outcome_of_more stop tokens hstep, group_cons]
      by_cases hz : rawDepthAfter depth token = 0
      · rw [if_pos hz, hz]
      · rw [if_neg hz, ih _ _ _ (Nat.pos_of_ne_zero hz), Draft.addText_addText]

/-- Reading the tokens with lists suspended around the one at hand is reading that one by recursion
and then going on in the list around it. -/
def Descends (tokens : Tokens) : Prop :=
  ∀ (d : Draft) (parents : List Draft) (stop : Nat), d.left ≠ some 0 →
    (parents ≠ [] → d.limit = none) → parents.length ≤ maxDepth →
      outcome ⟨d, parents, 0⟩ stop tokens =
        leave parents
          ((read (maxDepth - parents.length) d.left d.word.reverse stop tokens).after
            d.items.reverse)

theorem finish_of_word_eq_nil {d : Draft} (h : d.word = []) (stop : Nat) (tokens : Tokens) :
    (finish ⟨d, [], 0⟩, stop) = leave [] ⟨d.items.reverse, stop, tokens⟩ := by
  change (d.finish, stop) = _
  rw [Draft.finish_of_word_eq_nil h]
  rfl

/-- Between two items a list ends if it is full, and else goes on. -/
theorem Descends.outcomeUnlessFull_eq {tokens : Tokens} (h : Descends tokens) {d : Draft}
    {parents : List Draft} (hword : d.word = []) (hlimit : parents ≠ [] → d.limit = none)
    (hdepth : parents.length ≤ maxDepth) (stop : Nat) :
    outcomeUnlessFull ⟨d, parents, 0⟩ stop tokens =
      leave parents (if d.left = some 0 then ⟨d.items.reverse, stop, tokens⟩
        else (read (maxDepth - parents.length) d.left [] stop tokens).after d.items.reverse) := by
  by_cases hfull : d.left = some 0
  · obtain rfl := eq_nil_of_left hlimit hfull
    rw [if_pos hfull, outcomeUnlessFull, if_pos (d.isFull_iff.2 hfull)]
    exact finish_of_word_eq_nil hword stop tokens
  · rw [if_neg hfull, outcomeUnlessFull_of_left _ _ hfull, h _ _ _ hfull hlimit hdepth, hword]
    rfl

theorem descends_nil : Descends [] := by
  intro d parents stop hleft hlimit hdepth
  rw [Grammar.read_nil, outcome_nil, ← leave_finish, Draft.finish_of_not_full hleft]
  rfl

theorem Descends.fragment {tokens : Tokens} (h : Descends tokens) (text : Text) (p : Placed) :
    Descends ((.fragment text, p) :: tokens) := by
  intro d parents stop hleft hlimit hdepth
  have hstep : step ⟨d, parents, 0⟩ (.fragment text) p.lexeme.slice =
      unlessFull ⟨d.addText text, parents, 0⟩ := rfl
  rw [outcome_of_unlessFull stop tokens hstep, outcomeUnlessFull_of_left _ _ hleft,
    h (d.addText text) parents p.stop hleft hlimit hdepth, Grammar.read_fragment,
    Draft.reverse_word_addText]
  rfl

theorem Descends.blank {tokens : Tokens} (h : Descends tokens) (p : Placed) :
    Descends ((.blank, p) :: tokens) := by
  intro d parents stop hleft hlimit hdepth
  have hstep : step ⟨d, parents, 0⟩ .blank p.lexeme.slice = unlessFull ⟨d.endWord, parents, 0⟩ := rfl
  have hend : parents ≠ [] → d.endWord.limit = none := fun hp => d.limit_endWord.trans (hlimit hp)
  rw [outcome_of_unlessFull stop tokens hstep, h.outcomeUnlessFull_eq d.word_endWord hend hdepth,
    Grammar.read_blank, ← Draft.left_endWord, d.reverse_items_endWord]
  by_cases hfull : d.endWord.left = some 0
  · rw [if_pos hfull, if_pos hfull]
    rfl
  · rw [if_neg hfull, if_neg hfull, Grammar.after_after]

theorem descends_closeList (p : Placed) (tokens : Tokens) :
    Descends ((.closeList, p) :: tokens) := by
  intro d parents stop hleft hlimit hdepth
  rw [Grammar.read_closeList]
  cases parents with
  | nil =>
      have hstep : step ⟨d, [], 0⟩ .closeList p.lexeme.slice = .last ⟨d.endWord, [], 0⟩ := rfl
      rw [outcome_of_last stop tokens hstep, finish_of_word_eq_nil d.word_endWord,
        d.reverse_items_endWord]
      rfl
  | cons parent parents =>
      have hstep : step ⟨d, parent :: parents, 0⟩ .closeList p.lexeme.slice =
          unlessFull ⟨parent.addItem (.list d.finish), parents, 0⟩ := rfl
      rw [outcome_of_unlessFull stop tokens hstep, Draft.finish_of_not_full hleft]
      rfl

theorem outcome_openList {d : Draft} {parents : List Draft} {p : Placed} {stop : Nat}
    {tokens : Tokens} (h : Descends tokens) (hfull : d.endWord.left ≠ some 0)
    (hroom : parents.length < maxDepth) :
    outcome ⟨d, parents, 0⟩ stop ((.openList, p) :: tokens) =
      leave (d.endWord :: parents) (read (maxDepth - parents.length - 1) none [] p.stop tokens) := by
  have hstep : step ⟨d, parents, 0⟩ .openList p.lexeme.slice =
      unlessFull ⟨.empty none, d.endWord :: parents, 0⟩ := by
    rw [step.eq_def, if_neg (Nat.lt_irrefl 0)]
    exact (if_neg (mt d.endWord.isFull_iff.1 hfull)).trans (if_pos hroom)
  have hnone : (Draft.empty none).left ≠ some 0 := by simp [Draft.left, Draft.empty, less]
  rw [outcome_of_unlessFull stop tokens hstep, outcomeUnlessFull_of_left _ _ hnone,
    h _ (d.endWord :: parents) _ hnone (fun _ => rfl) hroom, List.length_cons, Nat.sub_add_eq]
  rfl

theorem outcome_openGroup {d : Draft} {parents : List Draft} {p : Placed} {stop : Nat}
    {tokens : Tokens} (hfull : d.endWord.left ≠ some 0) (hroom : ¬ parents.length < maxDepth) :
    outcome ⟨d, parents, 0⟩ stop ((.openList, p) :: tokens) =
      outcome ⟨d.endWord.addText (p.lexeme.slice ++ (group 1 p.stop tokens).text), parents, 0⟩
        (group 1 p.stop tokens).stop (group 1 p.stop tokens).rest := by
  have hstep : step ⟨d, parents, 0⟩ .openList p.lexeme.slice =
      unlessFull ⟨d.endWord.addText p.lexeme.slice, parents, 1⟩ := by
    rw [step.eq_def, if_neg (Nat.lt_irrefl 0)]
    exact (if_neg (mt d.endWord.isFull_iff.1 hfull)).trans (if_neg hroom)
  rw [outcome_of_unlessFull stop tokens hstep, outcomeUnlessFull_of_left _ _ hfull,
    outcome_group _ _ _ _ _ Nat.one_pos, Draft.addText_addText]

theorem descends_openList {p : Placed} {tokens : Tokens}
    (h : ∀ others : Tokens, others.length ≤ tokens.length → Descends others) :
    Descends ((.openList, p) :: tokens) := by
  intro d parents stop hleft hlimit hdepth
  have hend : parents ≠ [] → d.endWord.limit = none := fun hp => d.limit_endWord.trans (hlimit hp)
  rw [Grammar.read_openList, ← Draft.left_endWord]
  by_cases hfull : d.endWord.left = some 0
  · obtain rfl := eq_nil_of_left hend hfull
    have hstep : step ⟨d, [], 0⟩ .openList p.lexeme.slice = .before ⟨d.endWord, [], 0⟩ := by
      rw [step.eq_def, if_neg (Nat.lt_irrefl 0)]
      exact if_pos (d.endWord.isFull_iff.2 hfull)
    rw [if_pos hfull, outcome_of_before stop tokens hstep, finish_of_word_eq_nil d.word_endWord,
      d.reverse_items_endWord]
    rfl
  · rw [if_neg hfull]
    by_cases hroom : parents.length < maxDepth
    · have hrest := Grammar.length_rest_read_le (maxDepth - parents.length - 1) none [] p.stop tokens
      have hzero : maxDepth - parents.length ≠ 0 := by omega
      rw [outcome_openList (h tokens (Nat.le_refl _)) hfull hroom, if_neg hzero]
      generalize read (maxDepth - parents.length - 1) none [] p.stop tokens = inner at hrest
      have hitem : (d.endWord.addItem (.list inner.items)).word = [] := d.word_endWord
      change outcomeUnlessFull ⟨d.endWord.addItem (.list inner.items), parents, 0⟩ _ _ = _
      rw [(h _ hrest).outcomeUnlessFull_eq hitem hend hdepth, Draft.left_addItem,
        Draft.reverse_items_addItem, d.reverse_items_endWord, List.append_assoc]
      by_cases hlast : less d.endWord.left 1 = some 0
      · rw [if_pos hlast, if_pos hlast]
        rfl
      · rw [if_neg hlast, if_neg hlast, Grammar.after_after]
    · have hzero : maxDepth - parents.length = 0 := by omega
      have hrest := h _ (Grammar.length_rest_group_le 1 p.stop tokens)
        (d.endWord.addText (p.lexeme.slice ++ (group 1 p.stop tokens).text)) parents
        (group 1 p.stop tokens).stop hfull hend hdepth
      rw [Draft.reverse_word_addText, d.word_endWord] at hrest
      rw [outcome_openGroup hfull hroom, if_pos hzero, hrest, Grammar.after_after,
        ← d.reverse_items_endWord]
      rfl

theorem descends (tokens : Tokens) : Descends tokens := by
  -- A list in the middle leaves some of the tokens, so the induction is on their number.
  induction hn : tokens.length using Nat.strongRecOn generalizing tokens with
  | ind n ih =>
      subst hn
      cases tokens with
      | nil => exact descends_nil
      | cons entry tokens =>
          have h := ih _ (Nat.lt_succ_self _) tokens rfl
          obtain ⟨token, p⟩ := entry
          cases token with
          | fragment text => exact h.fragment text p
          | blank => exact h.blank p
          | closeList => exact descends_closeList p tokens
          | openList =>
              exact descends_openList fun others ho => ih _ (Nat.lt_succ_of_le ho) others rfl

end Nest

namespace Reader

theorem readList_eq_read {limit : Option Nat} (h : limit ≠ some 0) (r : Reader) :
    ((r.readList limit).1, (r.readList limit).2.consumed) =
      let reading := read Nest.maxDepth limit [] r.consumed (Token.ofTextAt r.position r.rest)
      (reading.items, reading.stop) := by
  have hleft : (Draft.empty limit).left = limit := by cases limit <;> rfl
  have hd := Nest.descends (Token.ofTextAt r.position r.rest) (.empty limit) [] r.consumed
    (by rwa [hleft]) (fun hp => absurd rfl hp) (Nat.zero_le _)
  rw [hleft] at hd
  rw [readList_eq_outcome, Nest.start, hd]
  rfl

/-- The reader, which keeps the lists under way on a stack, reads what the grammar reads by
recursion from the tokens of the source. -/
theorem readList_ofText_eq_read (source : Text) {limit : Option Nat} (h : limit ≠ some 0) :
    (((ofText source).readList limit).1, ((ofText source).readList limit).2.consumed) =
      let reading := read Nest.maxDepth limit [] 0 (Token.ofText source)
      (reading.items, reading.stop) :=
  readList_eq_read h (ofText source)

theorem readList_ofText_eq_read_some_two :
    some 2 ≠ some 0 ∧
      let r := (ofText "f{ ( }#)\ng (h\"i".toList).readList (some 2)
      let reading := read Nest.maxDepth (some 2) [] 0 (Token.ofText "f{ ( }#)\ng (h\"i".toList)
      (r.1, r.2.consumed) = (reading.items, reading.stop) :=
  ⟨by decide, readList_ofText_eq_read _ (by decide)⟩

end Reader

end Sexpand
