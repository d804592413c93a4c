import Mathlib.Data.List.Induction
import Sexpand.Proofs.Sexp.Gathered
import Sexpand.Proofs.Sexp.Nesting

namespace Sexpand

open Grammar (Tokens)

namespace Draft.Nested

variable {limit : Option Nat} {d : Draft} {parents : List Draft}

theorem length_le (h : Nested limit d parents) : parents.length ≤ Nest.maxDepth := by
  cases h with
  | outermost h hlimit => exact Nat.zero_le _
  | inner h hlimit hdepth hfull hparent => exact hdepth

theorem isFull_eq_false (h : Nested limit d parents) :
    ∀ parent ∈ parents, parent.isFull = false := by
  induction h with
  | outermost h hlimit => simp
  | inner h hlimit hdepth hfull hparent ih => exact List.forall_mem_cons.2 ⟨hfull, ih⟩

theorem map_limit (h : Nested limit d parents) :
    (d :: parents).map Draft.limit = List.replicate parents.length none ++ [limit] := by
  induction h with
  | outermost h hlimit => rw [List.map_singleton, hlimit]; rfl
  | inner h hlimit hdepth hfull hparent ih => rw [List.map_cons, ih, hlimit]; rfl

end Draft.Nested

namespace Nest

def Step.next? : Step → Option Nest
  | .more n => some n
  | .last _ | .before _ => none

/-- The nest after all of the tokens, if more may follow. -/
def through? (n : Nest) (tokens : Tokens) : Option Nest :=
  tokens.foldlM (fun n entry => (n.step entry.1 entry.2.lexeme.slice).next?) n

/-- The tokens that are read before the outermost list ends. -/
def taken (n : Nest) : Tokens → Tokens
  | [] => []
  | (token, p) :: tokens =>
      match n.step token p.lexeme.slice with
      | .more next => (token, p) :: taken next tokens
      | .last _ => [(token, p)]
      | .before _ => []

def opened (tokens : Tokens) : Nat := tokens.countP fun entry => entry.1 = .openList

def closed (tokens : Tokens) : Nat := tokens.countP fun entry => entry.1 = .closeList

/-- The last tokens are a parenthesis that is too deep for a list, and what follows it. It has not
been closed since, and `depth` are open from it on. -/
def InGroup (limit : Option Nat) (read : Tokens) (depth : Nat) : Prop :=
  ∃ outside group n, read = outside ++ group ∧ (start limit).through? outside = some n ∧
    n.rawDepth = 0 ∧ opened group = closed group + depth ∧
    ∀ front, front ≠ [] → front <+: group → closed front < opened front

/-- What holds of the lists under way after the tokens that have been read. -/
structure Holds (limit : Option Nat) (read : Tokens) (n : Nest) : Prop where
  length_parents_le : n.parents.length ≤ maxDepth
  waiting : ∀ d ∈ n.parents, d.word = [] ∧ d.isFull = false
  limits : (n.current :: n.parents).map Draft.limit =
    List.replicate n.parents.length none ++ [limit]
  depth_eq : depthAfter 0 read = n.parents.length + n.rawDepth
  raw : 0 < n.rawDepth →
    n.parents.length = maxDepth ∧ n.current.word ≠ [] ∧ InGroup limit read n.rawDepth
  gathered : Gathered (pieces 0 read) n.texts

def Step.Holds (limit : Option Nat) (read : Tokens) (entry : Token × Placed) : Step → Prop
  | .more n | .last n => n.Holds limit (read ++ [entry])
  | .before n => n.Holds limit read

variable {limit : Option Nat} {read : Tokens} {n : Nest}

theorem through?_concat (n : Nest) (tokens : Tokens) (entry : Token × Placed) :
    n.through? (tokens ++ [entry]) =
      (n.through? tokens).bind fun next => (next.step entry.1 entry.2.lexeme.slice).next? := by
  simp only [through?, List.foldlM_append, List.foldlM_cons, List.foldlM_nil, bind_pure]
  rfl

theorem holds_start (limit : Option Nat) : (start limit).Holds limit [] where
  length_parents_le := Nat.zero_le _
  waiting := by simp [start]
  limits := rfl
  depth_eq := rfl
  raw h := absurd h (Nat.lt_irrefl 0)
  gathered := ⟨[], rfl, rfl⟩

theorem Holds.of_nested (hnested : n.current.Nested limit n.parents)
    (hwords : ∀ d ∈ n.parents, d.word = [])
    (hdepth : depthAfter 0 read = n.parents.length + n.rawDepth)
    (hraw : 0 < n.rawDepth →
      n.parents.length = maxDepth ∧ n.current.word ≠ [] ∧ InGroup limit read n.rawDepth)
    (hgathered : Gathered (pieces 0 read) n.texts) : n.Holds limit read where
  length_parents_le := hnested.length_le
  waiting d hd := ⟨hwords d hd, hnested.isFull_eq_false d hd⟩
  limits := hnested.map_limit
  depth_eq := hdepth
  raw := hraw
  gathered := hgathered

theorem nested_of_fits_unlessFull (h : n.unlessFull.Fits limit) :
    n.current.Nested limit n.parents := by
  unfold unlessFull at h
  split at h
  · exact h
  · exact h.nested

theorem holds_unlessFull {entry : Token × Placed} (h : n.Holds limit (read ++ [entry])) :
    n.unlessFull.Holds limit read entry := by
  unfold unlessFull
  split <;> exact h

theorem rawDepthAfter_add {rawDepth : Nat} (h : 0 < rawDepth) (depth : Nat) (token : Token) :
    rawDepthAfter (depth + rawDepth) token = depth + rawDepthAfter rawDepth token := by
  cases token with
  | openList => rfl
  | closeList => exact Nat.add_sub_assoc h depth
  | blank | fragment text => rfl

theorem opened_concat (tokens : Tokens) (token : Token) (p : Placed) :
    opened (tokens ++ [(token, p)]) = opened tokens + if token = .openList then 1 else 0 := by
  simp [opened, List.countP_append, List.countP_cons]

theorem closed_concat (tokens : Tokens) (token : Token) (p : Placed) :
    closed (tokens ++ [(token, p)]) = closed tokens + if token = .closeList then 1 else 0 := by
  simp [closed, List.countP_append, List.countP_cons]

theorem InGroup.concat {depth : Nat} {token : Token} {p : Placed} (h : InGroup limit read depth)
    (hpos : 0 < rawDepthAfter depth token) :
    InGroup limit (read ++ [(token, p)]) (rawDepthAfter depth token) := by
  obtain ⟨outside, group, n, rfl, hn, hraw, hcount, hfronts⟩ := h
  have hmore : opened (group ++ [(token, p)]) =
      closed (group ++ [(token, p)]) + rawDepthAfter depth token := by
    rw [opened_concat, closed_concat, hcount]
    cases token <;> simp [rawDepthAfter] at hpos ⊢ <;> omega
  refine ⟨outside, group ++ [(token, p)], n, List.append_assoc _ _ _, hn, hraw, hmore, ?_⟩
  intro front hne hfront
  rcases List.prefix_concat_iff.1 hfront with rfl | hfront
  · omega
  · exact hfronts front hne hfront

theorem inGroup_openList (hn : (start limit).through? read = some n) (hraw : n.rawDepth = 0)
    (p : Placed) : InGroup limit (read ++ [(.openList, p)]) 1 := by
  refine ⟨read, [(.openList, p)], n, rfl, hn, hraw, rfl, ?_⟩
  intro front hne hfront
  have hlength := hfront.length_le
  rw [List.length_singleton] at hlength
  obtain rfl := hfront.eq_of_length_le (Nat.le_trans (by simp) (List.length_pos_iff.2 hne))
  exact Nat.one_pos

theorem Holds.concat {next : Nest} {token : Token} {p : Placed} (h : n.Holds limit read)
    (hnested : next.current.Nested limit next.parents) (hwords : ∀ d ∈ next.parents, d.word = [])
    (hdepth : rawDepthAfter (n.parents.length + n.rawDepth) token =
      next.parents.length + next.rawDepth)
    (hraw : 0 < next.rawDepth → next.parents.length = maxDepth ∧ next.current.word ≠ [] ∧
      InGroup limit (read ++ [(token, p)]) next.rawDepth)
    (hgathered : Gathered
      (pieces 0 read ++
        Text.piece (letters (n.parents.length + n.rawDepth) token p.lexeme.slice)) next.texts) :
    next.Holds limit (read ++ [(token, p)]) := by
  apply Holds.of_nested hnested hwords _ hraw
  · rwa [pieces_concat, h.depth_eq]
  · rwa [depthAfter_concat, h.depth_eq]

theorem Holds.concat_of_texts_eq {next : Nest} {token : Token} {p : Placed} (h : n.Holds limit read)
    (hnested : next.current.Nested limit next.parents) (hwords : ∀ d ∈ next.parents, d.word = [])
    (hdepth : rawDepthAfter (n.parents.length + n.rawDepth) token =
      next.parents.length + next.rawDepth)
    (hraw : ¬ 0 < next.rawDepth)
    (hletters : letters (n.parents.length + n.rawDepth) token p.lexeme.slice = [])
    (htexts : next.texts = n.texts) : next.Holds limit (read ++ [(token, p)]) := by
  apply h.concat hnested hwords hdepth fun hpos => absurd hpos hraw
  rw [hletters, htexts]
  exact (List.append_nil (pieces 0 read)).symm ▸ h.gathered

theorem word_addText_ne_nil {d : Draft} {text : Text} (h : text ≠ []) :
    (d.addText text).word ≠ [] := by
  intro hword
  have hreverse := d.reverse_word_addText text
  rw [hword, List.reverse_nil] at hreverse
  exact h (List.append_eq_nil_iff.1 hreverse.symm).2

theorem Holds.holds_step (h : n.Holds limit read) (hreading : n.IsReading limit)
    (hn : (start limit).through? read = some n) (token : Token) (p : Placed) :
    (n.step token p.lexeme.slice).Holds limit read (token, p) := by
  have hslice := p.lexeme.slice_ne_nil
  have hwords : ∀ d ∈ n.parents, d.word = [] := fun d hd => (h.waiting d hd).1
  have hroom := h.length_parents_le
  -- What `fits_step` tells of the lists is split in the same cases as the step.
  have hfits := hreading.fits_step token p.lexeme.slice
  revert hfits
  fun_cases step n token p.lexeme.slice with
  | case1 _ hraw =>
      intro hfits
      obtain ⟨hfull, hword, hgroup⟩ := h.raw hraw
      have hletters : letters (n.parents.length + n.rawDepth) token p.lexeme.slice =
          p.lexeme.slice := if_pos (by omega)
      apply h.concat hfits.nested hwords (rawDepthAfter_add hraw _ token)
      · intro hpos
        exact ⟨hfull, word_addText_ne_nil hslice, hgroup.concat hpos⟩
      · rw [hletters]
        exact gathered_addText h.gathered p.lexeme.slice
  | case2 hraw text =>
      intro hfits
      have hletters : letters (n.parents.length + n.rawDepth) (.fragment text) p.lexeme.slice =
          text := if_neg (by simp only [rawDepthAfter]; omega)
      apply holds_unlessFull
      apply h.concat (nested_of_fits_unlessFull hfits) hwords rfl
      · exact fun hpos => absurd hpos hraw
      · rw [hletters]
        exact gathered_addText h.gathered text
  | case3 hraw =>
      intro hfits
      have hletters : letters (n.parents.length + n.rawDepth) .blank p.lexeme.slice = [] :=
        if_neg (by simp only [rawDepthAfter]; omega)
      apply holds_unlessFull
      exact h.concat_of_texts_eq (nested_of_fits_unlessFull hfits) hwords rfl hraw hletters
        (texts_endWord n)
  | case4 hraw hfull =>
      intro hfits
      apply Holds.of_nested hfits hwords h.depth_eq
      · exact fun hpos => absurd hpos hraw
      · rw [texts_endWord]
        exact h.gathered
  | case5 hraw hfull hdepth =>
      intro hfits
      have hletters : letters (n.parents.length + n.rawDepth) .openList p.lexeme.slice = [] :=
        if_neg (by simp only [rawDepthAfter]; omega)
      have hparents : ∀ d ∈ n.endWord.openList.parents, d.word = [] :=
        List.forall_mem_cons.2 ⟨n.current.word_endWord, hwords⟩
      apply holds_unlessFull
      apply h.concat_of_texts_eq (nested_of_fits_unlessFull hfits) hparents _ hraw hletters
      · rw [texts_openList, texts_endWord]
      · simp only [rawDepthAfter, openList, endWord, List.length_cons]
        omega
  | case6 hraw hfull hdepth =>
      intro hfits
      have hletters : letters (n.parents.length + n.rawDepth) .openList p.lexeme.slice =
          p.lexeme.slice := if_pos (by simp only [rawDepthAfter]; omega)
      have hend : Gathered (pieces 0 read) n.endWord.texts := by
        rw [texts_endWord]
        exact h.gathered
      apply holds_unlessFull
      apply h.concat (nested_of_fits_unlessFull hfits) hwords
      · simp only [rawDepthAfter, addText, endWord]
        omega
      · intro hpos
        have hmax : n.parents.length = maxDepth := by omega
        exact ⟨hmax, word_addText_ne_nil hslice, inGroup_openList hn (by omega) p⟩
      · rw [hletters]
        exact gathered_addText hend p.lexeme.slice
  | case7 hraw hparents =>
      intro hfits
      have hletters : letters (n.parents.length + n.rawDepth) .closeList p.lexeme.slice = [] :=
        if_neg (by simp only [rawDepthAfter]; omega)
      apply h.concat_of_texts_eq hfits hwords _ hraw hletters (texts_endWord n)
      simp only [rawDepthAfter, endWord, hparents, List.length_nil]
      omega
  | case8 hraw parent parents hparents =>
      intro hfits
      have hletters : letters (n.parents.length + n.rawDepth) .closeList p.lexeme.slice = [] :=
        if_neg (by simp only [rawDepthAfter]; omega)
      have hfull : n.current.isFull = true → n.current.word = [] := fun h => (hreading.of_full h).1
      obtain ⟨d, waiting, rawDepth⟩ := n
      subst hparents
      obtain ⟨hparent, hothers⟩ := List.forall_mem_cons.1 hwords
      apply holds_unlessFull
      apply h.concat_of_texts_eq (nested_of_fits_unlessFull hfits) hothers _ hraw hletters
      · exact texts_closeList hparent hfull rawDepth
      · simp only [rawDepthAfter, List.length_cons]
        omega

theorem exists_of_through?_concat {entry : Token × Placed}
    (h : (start limit).through? (read ++ [entry]) = some n) :
    ∃ before, (start limit).through? read = some before ∧
      before.step entry.1 entry.2.lexeme.slice = .more n := by
  rw [through?_concat] at h
  obtain ⟨before, hbefore, hstep⟩ := Option.bind_eq_some_iff.1 h
  refine ⟨before, hbefore, ?_⟩
  cases hs : before.step entry.1 entry.2.lexeme.slice with
  | more next =>
      rw [hs] at hstep
      rw [Option.some.inj hstep]
  | last next | before next =>
      rw [hs] at hstep
      cases hstep

/-- What holds whenever a token is about to be read. -/
theorem holds_of_through? (hn : (start limit).through? read = some n) :
    n.IsReading limit ∧ n.Holds limit read := by
  induction read using List.reverseRecOn generalizing n with
  | nil =>
      obtain rfl := Option.some.inj hn
      exact ⟨isReading_start limit, holds_start limit⟩
  | append_singleton read entry ih =>
      obtain ⟨before, hbefore, hstep⟩ := exists_of_through?_concat hn
      obtain ⟨hreading, hholds⟩ := ih hbefore
      have hfits := hreading.fits_step entry.1 entry.2.lexeme.slice
      have hnext := hholds.holds_step hreading hbefore entry.1 entry.2
      rw [hstep] at hfits hnext
      exact ⟨hfits, hnext⟩

theorem isFull_of_through? (hlimit : limit ≠ some 0) (hn : (start limit).through? read = some n) :
    n.current.isFull = false := by
  induction read using List.reverseRecOn generalizing n with
  | nil =>
      obtain rfl := Option.some.inj hn
      cases limit with
      | none => rfl
      | some k => exact decide_eq_false fun hk => hlimit (congrArg some (Nat.le_zero.1 hk))
  | append_singleton read entry ih =>
      obtain ⟨before, hbefore, hstep⟩ := exists_of_through?_concat hn
      exact isFull_of_more (ih hbefore) hstep

/-- What is read after some of the tokens does not depend on the way there. -/
theorem exists_run_eq {next : Nest} (h : n.through? read = some next) (stop : Nat)
    (unread : Tokens) : ∃ stop', n.run stop (read ++ unread) = next.run stop' unread := by
  induction read generalizing n stop with
  | nil =>
      obtain rfl := Option.some.inj h
      exact ⟨stop, rfl⟩
  | cons entry read ih =>
      obtain ⟨token, p⟩ := entry
      rw [through?, List.foldlM_cons] at h
      obtain ⟨middle, hmiddle, hnext⟩ := Option.bind_eq_some_iff.1 h
      rw [List.cons_append, run]
      cases hstep : n.step token p.lexeme.slice with
      | more _ =>
          rw [hstep] at hmiddle
          obtain rfl := Option.some.inj hmiddle
          exact ih hnext p.stop
      | last _ | before _ =>
          rw [hstep] at hmiddle
          cases hmiddle

theorem eq_of_unlessFull_last {next : Nest} (h : n.unlessFull = .last next) :
    next = n ∧ n.current.isFull = true := by
  by_cases hfull : n.current.isFull = true
  · rw [unlessFull, if_pos hfull] at h
    exact ⟨(Step.last.inj h).symm, hfull⟩
  · rw [unlessFull_of_not_full hfull] at h
    cases h

/-- No atom is under way where the outermost list ends, unless it is full from the start. -/
theorem word_of_last {next : Nest} {token : Token} {slice : Text}
    (hfull : n.current.isFull = false) (hwords : ∀ d ∈ n.parents, d.word = [])
    (h : n.step token slice = .last next) : next.current.word = [] := by
  revert h
  fun_cases step n token slice with
  | case1 | case4 =>
      intro h
      cases h
  | case2 hraw text =>
      intro h
      obtain ⟨-, hnow⟩ := eq_of_unlessFull_last h
      exact absurd (hfull.symm.trans hnow) Bool.false_ne_true
  | case3 =>
      intro h
      obtain ⟨rfl, -⟩ := eq_of_unlessFull_last h
      exact n.current.word_endWord
  | case5 =>
      intro h
      obtain ⟨rfl, -⟩ := eq_of_unlessFull_last h
      rfl
  | case6 hraw hend =>
      intro h
      obtain ⟨-, hnow⟩ := eq_of_unlessFull_last h
      exact absurd hnow hend
  | case7 =>
      intro h
      obtain rfl := Step.last.inj h
      exact n.current.word_endWord
  | case8 hraw parent parents hparents =>
      intro h
      obtain ⟨rfl, -⟩ := eq_of_unlessFull_last h
      exact hwords parent (hparents ▸ List.mem_cons_self)

theorem word_of_before {next : Nest} {token : Token} {slice : Text}
    (h : n.step token slice = .before next) : next.current.word = [] := by
  revert h
  fun_cases step n token slice with
  | case4 =>
      intro h
      obtain rfl := Step.before.inj h
      exact n.current.word_endWord
  | case1 | case7 =>
      intro h
      cases h
  | case2 | case3 | case5 | case6 | case8 => exact fun h => absurd h (unlessFull_ne_before _ _)

theorem holds_run (hn : (start limit).through? read = some n) (stop : Nat) (unread : Tokens) :
    (n.run stop unread).1.Holds limit (read ++ n.taken unread) ∧
      (limit ≠ some 0 → (n.run stop unread).1.current.isFull = true →
        (n.run stop unread).1.current.word = []) := by
  obtain ⟨hreading, hholds⟩ := holds_of_through? hn
  induction unread generalizing read n stop with
  | nil =>
      rw [run, taken, List.append_nil]
      refine ⟨hholds, ?_⟩
      intro hlimit hfull
      exact absurd ((isFull_of_through? hlimit hn).symm.trans hfull) Bool.false_ne_true
  | cons entry unread ih =>
      obtain ⟨token, p⟩ := entry
      have hstep := hholds.holds_step hreading hn token p
      rw [run, taken]
      cases hs : n.step token p.lexeme.slice with
      | more next =>
          have hnext : (start limit).through? (read ++ [(token, p)]) = some next := by
            rw [through?_concat, hn, Option.bind_some, hs]
            rfl
          obtain ⟨hreading, hholds⟩ := holds_of_through? hnext
          have hrest := ih hnext p.stop hreading hholds
          rwa [List.append_assoc] at hrest
      | last next =>
          rw [hs] at hstep
          refine ⟨hstep, ?_⟩
          intro hlimit _
          exact word_of_last (isFull_of_through? hlimit hn) (fun d hd => (hholds.waiting d hd).1) hs
      | before next =>
          rw [hs] at hstep
          rw [List.append_nil]
          exact ⟨hstep, fun _ _ => word_of_before hs⟩

end Nest

/-- What holds of the lists under way whenever a token is about to be read, and at the end. All
atoms under way go to the items that are read, unless these may be none. -/
theorem Reader.holds_throughout (limit : Option Nat) (r : Reader) :
    let tokens := Token.ofTextAt r.position r.rest
    let filled := fill (.start limit) r
    (∀ read unread n, tokens = read ++ unread → (Nest.start limit).through? read = some n →
      n.Holds limit read ∧
        ∃ stop, (filled.nest, filled.reader.consumed) = n.run stop unread) ∧
    filled.nest.Holds limit ((Nest.start limit).taken tokens) ∧
    (limit ≠ some 0 → Sexp.textsItems filled.nest.finish = filled.nest.texts) := by
  intro tokens filled
  have hrun : (filled.nest, filled.reader.consumed) = (Nest.start limit).run r.consumed tokens :=
    Nest.fill_eq_run (.start limit) r
  have hnest : filled.nest = ((Nest.start limit).run r.consumed tokens).1 :=
    congrArg Prod.fst hrun
  have hstart : (Nest.start limit).through? [] = some (.start limit) := rfl
  obtain ⟨hholds, hword⟩ := Nest.holds_run hstart r.consumed tokens
  rw [← hnest] at hholds hword
  refine ⟨?_, hholds, ?_⟩
  · intro read unread n htokens hn
    obtain ⟨stop, hstop⟩ := Nest.exists_run_eq hn r.consumed unread
    rw [htokens] at hrun
    exact ⟨(Nest.holds_of_through? hn).2, stop, hrun.trans hstop⟩
  · intro hlimit
    exact Nest.textsItems_finish (fun d hd => (hholds.waiting d hd).1) (hword hlimit)

-- The last list that there is room for, with an atom of what is too deep in it.
example :
    let source := List.replicate Nest.maxDepth '(' ++ "a(b (c)".toList
    let n := (Reader.fill (.start none) (.ofText source)).nest
    n.parents.length = Nest.maxDepth ∧ n.rawDepth = 1 ∧ n.texts = ["a".toList, "(b (c)".toList] := by
  decide +kernel

end Sexpand
