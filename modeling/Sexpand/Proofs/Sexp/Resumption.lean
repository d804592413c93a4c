import Sexpand.Proofs.Lexeme.Splits

namespace Sexpand

open Grammar (Tokens)
open Lexeme (Splits slices)

def Placed.shift (k : Nat) (p : Placed) : Placed := ⟨p.lexeme, k + p.start⟩

theorem Placed.lexemes_shift (k start : Nat) (source : Text) :
    lexemes (k + start) source = (lexemes start source).map (shift k) := by
  induction source using Lexeme.sourceInduction generalizing start with
  | nil =>
      rw [lexemes_of_none rfl, lexemes_of_none rfl]
      rfl
  | cons source lexeme rest hnext ih =>
      rw [lexemes_of_next? hnext, lexemes_of_next? hnext, Nat.add_assoc, ih]
      rfl

def Token.shiftAll (k : Nat) (tokens : Tokens) : Tokens := tokens.map (Prod.map id (Placed.shift k))

theorem Token.ofTextAt_shift (k start : Nat) (source : Text) :
    ofTextAt (k + start) source = shiftAll k (ofTextAt start source) := by
  rw [ofTextAt, ofTextAt, Placed.lexemes_shift, List.filterMap_map, shiftAll, List.map_filterMap]
  congr 1
  funext p
  simp only [Function.comp_apply, Placed.shift]
  cases p.lexeme.token? <;> rfl

namespace Nest

/-- Where a reading stops moves with its tokens, and nothing else depends on where these are. -/
theorem run_shiftAll (n : Nest) (k stop : Nat) (tokens : Tokens) :
    n.run (k + stop) (Token.shiftAll k tokens) = ((n.run stop tokens).1, k + (n.run stop tokens).2) := by
  induction tokens generalizing n stop with
  | nil => rfl
  | cons entry tokens ih =>
      obtain ⟨token, p⟩ := entry
      have hcons : Token.shiftAll k ((token, p) :: tokens) =
          (token, p.shift k) :: Token.shiftAll k tokens := rfl
      have hslice : (p.shift k).lexeme.slice = p.lexeme.slice := rfl
      have hstop : (p.shift k).stop = k + p.stop := Nat.add_assoc _ _ _
      rw [hcons, run, run, hslice, hstop]
      cases n.step token p.lexeme.slice with
      | more next => exact ih next p.stop
      | last next => rfl
      | before next => rfl

theorem run_congr {tokens : Tokens} (h : tokens ≠ []) (n : Nest) (stop stop' : Nat) :
    n.run stop tokens = n.run stop' tokens := by
  cases tokens with
  | nil => exact absurd rfl h
  | cons entry tokens => rfl

theorem unlessFull_ne_before (n next : Nest) : n.unlessFull ≠ .before next := by
  rw [unlessFull]
  split <;> exact nofun

theorem unlessFull_of_not_full {n : Nest} (h : ¬ n.current.isFull = true) : n.unlessFull = .more n :=
  if_neg h

theorem isFull_of_unlessFull {n next : Nest} (h : n.unlessFull = .more next) :
    next.current.isFull = false := by
  by_cases hfull : n.current.isFull = true
  · rw [unlessFull, if_pos hfull] at h
    cases h
  · rw [unlessFull_of_not_full hfull] at h
    obtain rfl := Step.more.inj h
    exact eq_false_of_ne_true hfull

theorem isFull_of_more {n next : Nest} {token : Token} {slice : Text}
    (hfull : n.current.isFull = false) (h : n.step token slice = .more next) :
    next.current.isFull = false := by
  revert h
  fun_cases step n token slice with
  | case1 =>
      intro h
      obtain rfl := Step.more.inj h
      exact hfull
  | case4 | case7 =>
      intro h
      cases h
  | case2 | case3 | case5 | case6 | case8 => exact isFull_of_unlessFull

theorem ne_openList_of_last {n next : Nest} {token : Token} {slice : Text}
    (h : n.step token slice = .last next) : token ≠ .openList := by
  revert h
  fun_cases step n token slice with
  | case1 | case4 => exact nofun
  | case2 | case3 | case7 | case8 => exact fun _ => nofun
  | case5 => exact fun h => nomatch h.symm.trans (unlessFull_of_not_full Bool.false_ne_true)
  | case6 hraw hfull => exact fun h => nomatch h.symm.trans (unlessFull_of_not_full hfull)

theorem eq_openList_of_before {n next : Nest} {token : Token} {slice : Text}
    (h : n.step token slice = .before next) : token = .openList := by
  revert h
  fun_cases step n token slice with
  | case1 | case7 => exact nofun
  | case2 | case3 | case8 => exact fun h => absurd h (unlessFull_ne_before _ _)
  | case4 | case5 | case6 => exact fun _ => rfl

end Nest

namespace Reader

/-- The reader after a list has been read with each of the limits. -/
def after (r : Reader) (limits : List (Option Nat)) : Reader :=
  limits.foldl (fun r limit => (r.readList limit).2) r

/-- Whether the lists read with these limits lose a parenthesis. One that a list ends before is taken
from the rest although the offset stays in front of it. `taken` tells whether this has happened
before, and it is made good only by reading a further token. -/
def losesOpen (taken : Bool) (r : Reader) : List (Option Nat) → Bool
  | [] => taken
  | limit :: limits =>
      let filled := fill (.start limit) r
      losesOpen
        (filled.stop = some .openList || taken && filled.reader.consumed = r.consumed)
        filled.reader limits

/-- The parenthesis that a reader may have taken without counting it. -/
def uncounted (taken : Bool) : List Lexeme := if taken then [.openList] else []

/-- Where a reader is in its source: `read` ends at its offset, and `unread` is what it has not
counted, of which it has passed the comments. -/
structure Stands (source : Text) (taken : Bool) (read comments : List Lexeme) (unread : Text)
    (r : Reader) : Prop where
  read_splits : Splits source read (slices (uncounted taken) ++ unread)
  comments_splits : Splits unread comments r.rest
  isComment : ∀ lexeme ∈ comments, lexeme.token? = none
  isToken : taken = false → ∀ lexeme ∈ read.getLast?, lexeme.token? ≠ none
  consumed_eq : r.consumed = Text.size (slices read)
  position_eq : r.position = Text.size (slices (read ++ uncounted taken ++ comments))

namespace Stands

variable {source unread : Text} {taken : Bool} {read comments : List Lexeme} {r : Reader}

theorem start (source : Text) : (ofText source).Stands source false [] [] source where
  read_splits := .nil source
  comments_splits := .nil source
  isComment := by simp
  isToken := by simp
  consumed_eq := rfl
  position_eq := rfl

theorem splits_uncounted (taken : Bool) (unread : Text) :
    Splits (slices (uncounted taken) ++ unread) (uncounted taken) unread := by
  cases taken with
  | false => exact .nil unread
  | true => exact .single rfl

theorem splits (h : r.Stands source taken read comments unread) :
    Splits source (read ++ uncounted taken ++ comments) r.rest :=
  (h.read_splits.trans (splits_uncounted taken unread)).trans h.comments_splits

theorem consumed_le_position (h : r.Stands source taken read comments unread) :
    r.consumed ≤ r.position := by
  rw [h.consumed_eq, h.position_eq, List.append_assoc, Lexeme.slices_append, Text.size_append]
  exact Nat.le_add_right _ _

theorem consumed_lt (h : r.Stands source taken read comments unread) (lexeme : Lexeme) :
    r.consumed < r.position + Text.size lexeme.slice := by
  have hle := h.consumed_le_position
  have hpos := Text.size_pos lexeme.slice_ne_nil
  omega

theorem splits_next {lexeme : Lexeme} {rest : Text} (h : r.Stands source taken read comments unread)
    (hnext : Lexeme.next? r.rest = some (lexeme, rest)) :
    Splits source (read ++ uncounted taken ++ comments ++ [lexeme]) rest ∧
      Text.size (slices (read ++ uncounted taken ++ comments ++ [lexeme])) =
        r.position + Text.size lexeme.slice := by
  refine ⟨h.splits.trans (.single hnext), ?_⟩
  rw [Lexeme.size_slices_concat, h.position_eq]

theorem pass_comment {lexeme : Lexeme} {rest : Text} (h : r.Stands source taken read comments unread)
    (hnext : Lexeme.next? r.rest = some (lexeme, rest)) (hcomment : lexeme.token? = none) :
    Stands source taken read (comments ++ [lexeme]) unread
      ⟨rest, r.position + Text.size lexeme.slice, r.consumed⟩ where
  read_splits := h.read_splits
  comments_splits := h.comments_splits.trans (.single hnext)
  isComment := List.forall_mem_append.2 ⟨h.isComment, by simpa using hcomment⟩
  isToken := h.isToken
  consumed_eq := h.consumed_eq
  position_eq := by
    rw [← List.append_assoc]
    exact (h.splits_next hnext).2.symm

theorem read_token {lexeme : Lexeme} {rest : Text} (h : r.Stands source taken read comments unread)
    (hnext : Lexeme.next? r.rest = some (lexeme, rest)) (htoken : lexeme.token? ≠ none) :
    Stands source false (read ++ uncounted taken ++ comments ++ [lexeme]) [] rest
      ⟨rest, r.position + Text.size lexeme.slice, r.position + Text.size lexeme.slice⟩ where
  read_splits := (h.splits_next hnext).1
  comments_splits := .nil rest
  isComment := by simp
  isToken := by simpa using htoken
  consumed_eq := (h.splits_next hnext).2.symm
  position_eq := by
    rw [List.append_nil, show uncounted false = [] from rfl, List.append_nil]
    exact (h.splits_next hnext).2.symm

theorem take_open {lexeme : Lexeme} {rest : Text} (h : r.Stands source taken read comments unread)
    (hnext : Lexeme.next? r.rest = some (lexeme, rest)) (hopen : lexeme = .openList) :
    Stands source true (read ++ uncounted taken ++ comments) [] rest
      ⟨rest, r.position + Text.size lexeme.slice, r.position⟩ where
  read_splits := by
    have hsplits := h.splits
    rw [← Lexeme.slice_append_of_next? hnext, hopen] at hsplits
    exact hsplits
  comments_splits := .nil rest
  isComment := by simp
  isToken := nofun
  consumed_eq := h.position_eq
  position_eq := by
    subst hopen
    rw [List.append_nil]
    exact (h.splits_next hnext).2.symm

theorem exists_fill (h : r.Stands source taken read comments unread) (n : Nest) :
    r.consumed ≤ (fill n r).reader.consumed ∧
      ∃ read comments unread, (fill n r).reader.Stands source
        ((fill n r).stop = some .openList || taken && (fill n r).reader.consumed = r.consumed)
        read comments unread := by
  -- A comment or a token leaves the reader at a place of its source again, and never further back. A
  -- parenthesis taken before is no longer missing once a token has been counted.
  fun_induction fill n r generalizing taken read comments unread with
  | case1 n r hnext =>
      refine ⟨Nat.le_refl _, read, comments, unread, ?_⟩
      simpa using h
  | case2 n r lexeme rest hnext stop hcomment =>
      rename_i ih
      exact ih (h.pass_comment hnext hcomment)
  | case3 n r lexeme rest hnext stop token htoken next hstep =>
      rename_i ih
      obtain ⟨hle, read', comments', unread', hstands⟩ :=
        ih (h.read_token hnext (by simp [htoken]))
      have hlt := h.consumed_lt lexeme
      dsimp only at hle
      have hne : (fill next ⟨rest, stop, stop⟩).reader.consumed ≠ r.consumed := by omega
      refine ⟨by omega, read', comments', unread', ?_⟩
      simpa [hne] using hstands
  | case4 n r lexeme rest hnext stop token htoken next =>
      rename_i hstep
      have hlt := h.consumed_lt lexeme
      have hne : stop ≠ r.consumed := by omega
      have hopen := Nest.ne_openList_of_last hstep
      refine ⟨Nat.le_of_lt hlt, read ++ uncounted taken ++ comments ++ [lexeme], [], rest, ?_⟩
      have hstands := h.read_token hnext (by simp [htoken])
      simpa [hne, hopen] using hstands
  | case5 n r lexeme rest hnext stop token htoken next =>
      rename_i hstep
      obtain rfl := Nest.eq_openList_of_before hstep
      have hopen : lexeme = .openList := by
        cases lexeme <;> simp [Lexeme.token?] at htoken
        rfl
      refine ⟨h.consumed_le_position, read ++ uncounted taken ++ comments, [], rest, ?_⟩
      simpa using h.take_open hnext hopen

theorem exists_after (h : r.Stands source taken read comments unread)
    (limits : List (Option Nat)) :
    ∃ read comments unread,
      (r.after limits).Stands source (losesOpen taken r limits) read comments unread := by
  induction limits generalizing r taken read comments unread with
  | nil => exact ⟨read, comments, unread, h⟩
  | cons limit limits ih =>
      obtain ⟨-, read', comments', unread', hstands⟩ := h.exists_fill (.start limit)
      exact ih hstands

theorem ofTextAt_eq (h : r.Stands source taken read comments unread) :
    Token.ofTextAt r.position r.rest =
      Token.shiftAll (r.consumed + Text.size (slices (uncounted taken))) (Token.ofText unread) := by
  have hposition := h.position_eq
  rw [Lexeme.slices_append, Lexeme.slices_append, Text.size_append, Text.size_append,
    ← h.consumed_eq] at hposition
  rw [hposition, Token.ofTextAt_shift]
  congr 1
  have hskip := h.comments_splits.ofTextAt_eq h.isComment 0
  rw [Nat.zero_add] at hskip
  exact hskip.symm

/-- The next list is read as from a source of its own. -/
theorem readList_eq (h : r.Stands source taken read comments unread) (limit : Option Nat) :
    (r.readList limit).1 = ((ofText unread).readList limit).1 ∧
      (r.readList limit).2.consumed =
        r.consumed + if Token.ofText unread = [] then 0
          else Text.size (slices (uncounted taken)) +
            ((ofText unread).readList limit).2.consumed := by
  have hnext := readList_eq_outcome limit r
  have hfresh : _ = (Nest.start limit).outcome 0 (Token.ofText unread) :=
    readList_eq_outcome limit (ofText unread)
  rw [h.ofTextAt_eq] at hnext
  obtain ⟨hitems, hconsumed⟩ := Prod.mk.inj hnext
  obtain ⟨hitems', hconsumed'⟩ := Prod.mk.inj hfresh
  rw [hitems, hconsumed, hitems', hconsumed']
  by_cases hnone : Token.ofText unread = []
  · rw [if_pos hnone, hnone]
    exact ⟨rfl, rfl⟩
  · have hne : Token.shiftAll (r.consumed + Text.size (slices (uncounted taken)))
        (Token.ofText unread) ≠ [] := by simpa [Token.shiftAll] using hnone
    rw [if_neg hnone, Nest.run_congr hne _ _
      (r.consumed + Text.size (slices (uncounted taken)) + 0), Nest.run_shiftAll, Nat.add_assoc]
    exact ⟨rfl, rfl⟩

theorem dropBytes?_eq (h : r.Stands source taken read comments unread) :
    Text.dropBytes? r.consumed source = some (slices (uncounted taken) ++ unread) :=
  Text.dropBytes?_eq_some_iff.2 ⟨slices read, h.read_splits.source_eq, h.consumed_eq.symm⟩

end Stands

theorem consumed_readList_of_ofText_eq_nil {source : Text} (h : Token.ofText source = [])
    (limit : Option Nat) : ((ofText source).readList limit).2.consumed = 0 := by
  have hread : _ = (Nest.start limit).outcome 0 (Token.ofText source) :=
    readList_eq_outcome limit (ofText source)
  rw [h] at hread
  exact (Prod.mk.inj hread).2

/-- However many lists have been read, the next one is what the source after the offset reads as, and
the offset moves on by as much. If a parenthesis has been lost, then the source after that. -/
theorem readList_after (source : Text) (history : List (Option Nat)) (limit : Option Nat) :
    let r := (ofText source).after history
    let next := r.readList limit
    ∃ t, Text.dropBytes? r.consumed source = some t ∧
      match losesOpen false (ofText source) history with
      | false =>
          next.1 = ((ofText t).readList limit).1 ∧
            next.2.consumed = r.consumed + ((ofText t).readList limit).2.consumed
      | true =>
          ∃ u, t = '(' :: u ∧ next.1 = ((ofText u).readList limit).1 ∧
            next.2.consumed = r.consumed +
              if Token.ofText u = [] then 0 else 1 + ((ofText u).readList limit).2.consumed := by
  intro r next
  obtain ⟨read, comments, unread, h⟩ := (Stands.start source).exists_after history
  obtain ⟨hitems, hconsumed⟩ := h.readList_eq limit
  refine ⟨_, h.dropBytes?_eq, ?_⟩
  cases hlost : losesOpen false (ofText source) history with
  | false =>
      refine ⟨hitems, ?_⟩
      rw [hconsumed, hlost]
      change _ + ite _ 0 (0 + _) = r.consumed + ((ofText unread).readList limit).2.consumed
      split
      · rename_i hnone
        rw [consumed_readList_of_ofText_eq_nil hnone]
      · rw [Nat.zero_add]
  | true =>
      rw [hlost] at hconsumed
      exact ⟨unread, rfl, hitems, hconsumed⟩

theorem readList_after_lost_open :
    let r := (ofText "name(rest)".toList).after [some 1]
    r.consumed = 4 ∧ (r.readList (some 1)).1 = [.atom "rest".toList] ∧
      ((ofText "(rest)".toList).readList (some 1)).1 = [.list [.atom "rest".toList]] := by
  decide +kernel

end Reader

end Sexpand
