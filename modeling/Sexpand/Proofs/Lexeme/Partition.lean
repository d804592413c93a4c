import Mathlib.Data.List.Chain
import Sexpand.Proofs.Lexeme.Comment
import Sexpand.Proofs.Lexeme.Longest

namespace Sexpand

open Lexeme (Splits slices next?)
open Grammar (Tokens)

namespace Lexeme

def isWord : Lexeme → Bool
  | .bare _ _ => true
  | _ => false

theorem slices_ofText (source : Text) : slices (ofText source) = source := by
  induction source using sourceInduction with
  | nil =>
      rw [ofText_nil]
      rfl
  | cons source lexeme rest hnext ih =>
      rw [ofText_of_next? hnext, slices_cons, ih, slice_append_of_next? hnext]

theorem exists_next?_isLongest {t : Text} (h : t ≠ []) :
    ∃ lexeme rest, next? t = some (lexeme, rest) ∧ lexeme.IsLongest t := by
  cases hnext : next? t with
  | none => exact absurd (eq_nil_of_next?_eq_none hnext) h
  | some next => exact ⟨next.1, next.2, rfl, isLongest_of_next? hnext⟩

end Lexeme

namespace Placed

/-- The lexemes stand one after another from byte `start` to byte `stop`. -/
def Cover : (start : Nat) → List Placed → (stop : Nat) → Prop
  | start, [], stop => start = stop
  | start, p :: ps, stop => p.start = start ∧ Cover p.stop ps stop

/-- What the source holds before and after the lexeme. -/
structure StandsBetween (source front rest : Text) (p : Placed) : Prop where
  source_eq : source = front ++ (p.lexeme.slice ++ rest)
  start_eq : p.start = Text.size front
  isLongest : p.lexeme.IsLongest (p.lexeme.slice ++ rest)
  isRead : p.lexeme.IsRead rest

theorem start_lt_stop (p : Placed) : p.start < p.stop :=
  Nat.lt_add_of_pos_right (Text.size_pos p.lexeme.slice_ne_nil)

theorem cover_lexemes (start : Nat) (source : Text) :
    Cover start (lexemes start source) (start + Text.size source) := by
  induction source using Lexeme.sourceInduction generalizing start with
  | nil =>
      rw [lexemes_of_none rfl]
      rfl
  | cons source lexeme rest hnext ih =>
      have hrest := ih (start + Text.size lexeme.slice)
      rw [lexemes_of_next? hnext, ← Lexeme.slice_append_of_next? hnext, Text.size_append,
        ← Nat.add_assoc]
      exact ⟨rfl, hrest⟩

theorem exists_next?_of_mem_lexemes {start : Nat} {source : Text} {p : Placed}
    (h : p ∈ lexemes start source) :
    ∃ front rest, source = front ++ (p.lexeme.slice ++ rest) ∧
      p.start = start + Text.size front ∧ next? (p.lexeme.slice ++ rest) = some (p.lexeme, rest) := by
  induction source using Lexeme.sourceInduction generalizing start with
  | nil =>
      rw [lexemes_of_none rfl] at h
      cases h
  | cons source lexeme rest hnext ih =>
      have hsource := Lexeme.slice_append_of_next? hnext
      rw [lexemes_of_next? hnext] at h
      rcases List.mem_cons.1 h with rfl | h
      · exact ⟨[], rest, hsource.symm, rfl, by rwa [hsource]⟩
      · obtain ⟨front, rest', hrest, hstart, hnext'⟩ := ih h
        refine ⟨lexeme.slice ++ front, rest', ?_, ?_, hnext'⟩
        · rw [List.append_assoc, ← hrest, hsource]
        · rw [hstart, Text.size_append, Nat.add_assoc]

theorem exists_standsBetween {source : Text} {p : Placed} (h : p ∈ lexemes 0 source) :
    ∃ front rest, p.StandsBetween source front rest := by
  obtain ⟨front, rest, hsource, hstart, hnext⟩ := exists_next?_of_mem_lexemes h
  exact ⟨front, rest, hsource, by rw [hstart, Nat.zero_add], Lexeme.isLongest_of_next? hnext,
    Lexeme.isRead_of_next? hnext⟩

/-- What follows a word cannot begin with a letter of a word. -/
theorem isWord_head?_lexemes {source rest : Text} {lexeme : Lexeme}
    (h : next? source = some (lexeme, rest)) (hword : lexeme.isWord = true) (start : Nat) :
    ∀ q ∈ (lexemes start rest).head?, q.lexeme.isWord = false := by
  intro q hq
  cases hnext : next? rest with
  | none =>
      rw [lexemes_of_none hnext] at hq
      cases hq
  | some next =>
      obtain ⟨following, rest'⟩ := next
      rw [lexemes_of_next? hnext] at hq
      obtain rfl := Option.some.inj hq
      cases lexeme with
      | bare first others =>
          cases following with
          | bare c letters =>
              have hend := (Lexeme.isRead_of_next? h).2
              rw [← Lexeme.slice_append_of_next? hnext] at hend
              have hletter := (Lexeme.isRead_of_next? hnext).1 c List.mem_cons_self
              rw [hend c rfl] at hletter
              cases hletter
          | _ => rfl
      | _ => cases hword

theorem isChain_lexemes (start : Nat) (source : Text) :
    (lexemes start source).IsChain fun p q =>
      p.lexeme.isWord = true → q.lexeme.isWord = false := by
  induction source using Lexeme.sourceInduction generalizing start with
  | nil =>
      rw [lexemes_of_none rfl]
      exact .nil
  | cons source lexeme rest hnext ih =>
      rw [lexemes_of_next? hnext, List.isChain_cons]
      exact ⟨fun q hq hword => isWord_head?_lexemes hnext hword _ q hq, ih _⟩

end Placed

namespace Token

theorem map_snd_ofText (source : Text) :
    (ofText source).map Prod.snd =
      (Placed.lexemes 0 source).filter fun p => !p.lexeme.isComment := by
  rw [ofText]
  induction Placed.lexemes 0 source with
  | nil => rfl
  | cons p ps ih =>
      cases htoken : p.lexeme.token? with
      | none =>
          have hcomment := Lexeme.token?_eq_none_iff.1 htoken
          rw [List.filterMap_cons, htoken, List.filter_cons, hcomment]
          exact ih
      | some token =>
          have hcomment : p.lexeme.isComment = false := by
            rw [← Bool.not_eq_true, ← Lexeme.token?_eq_none_iff, htoken]
            exact nofun
          rw [List.filterMap_cons, htoken, List.filter_cons, hcomment]
          exact congrArg (p :: ·) ih

def lastStop : (start : Nat) → Tokens → Nat
  | start, [] => start
  | _, (_, p) :: tokens => lastStop p.stop tokens

theorem exists_comments_of_ofTextAt_cons {start : Nat} {source : Text} {token : Token} {p : Placed}
    {after : Tokens} (h : ofTextAt start source = (token, p) :: after) :
    ∃ comments rest, Splits source comments (p.lexeme.slice ++ rest) ∧
      (∀ lexeme ∈ comments, lexeme.isComment = true) ∧
      p.start = start + Text.size (slices comments) ∧ p.lexeme.token? = some token ∧
      after = ofTextAt p.stop rest := by
  induction source using Lexeme.sourceInduction generalizing start with
  | nil =>
      rw [ofTextAt_nil] at h
      cases h
  | cons source lexeme rest hnext ih =>
      cases htoken : lexeme.token? with
      | none =>
          rw [ofTextAt_of_comment hnext htoken] at h
          obtain ⟨comments, rest', hsplits, hcomments, hstart, hp, hafter⟩ := ih h
          refine ⟨lexeme :: comments, rest', .cons hnext hsplits, ?_, ?_, hp, hafter⟩
          · exact List.forall_mem_cons.2 ⟨Lexeme.token?_eq_none_iff.1 htoken, hcomments⟩
          · rw [hstart, Lexeme.slices_cons, Text.size_append, Nat.add_assoc]
      | some token' =>
          rw [ofTextAt_of_token hnext htoken] at h
          obtain ⟨hfirst, rfl⟩ := List.cons.inj h
          obtain ⟨rfl, rfl⟩ := Prod.mk.inj hfirst
          refine ⟨[], rest, ?_, nofun, rfl, htoken, rfl⟩
          rw [Lexeme.slice_append_of_next? hnext]
          exact .nil source

theorem exists_comments_of_ofTextAt {before : Tokens} {start : Nat} {source : Text} {token : Token}
    {p : Placed} {after : Tokens} (h : ofTextAt start source = before ++ (token, p) :: after) :
    ∃ front comments rest,
      source = front ++ (slices comments ++ (p.lexeme.slice ++ rest)) ∧
      start + Text.size front = lastStop start before ∧
      lastStop start before + Text.size (slices comments) = p.start ∧
      Splits (slices comments ++ (p.lexeme.slice ++ rest)) comments (p.lexeme.slice ++ rest) ∧
      (∀ lexeme ∈ comments, lexeme.isComment = true) ∧ p.lexeme.token? = some token := by
  induction before generalizing start source with
  | nil =>
      obtain ⟨comments, rest, hsplits, hcomments, hstart, htoken, -⟩ :=
        exists_comments_of_ofTextAt_cons h
      have hsource := hsplits.source_eq
      exact ⟨[], comments, rest, hsource, rfl, hstart.symm, hsource ▸ hsplits, hcomments, htoken⟩
  | cons first before ih =>
      obtain ⟨token', q⟩ := first
      obtain ⟨skipped, middle, hsplits, -, hstart, -, hafter⟩ := exists_comments_of_ofTextAt_cons h
      obtain ⟨front, comments, rest, hmiddle, hfront, hrest⟩ := ih hafter.symm
      refine ⟨slices skipped ++ (q.lexeme.slice ++ front), comments, rest, ?_, ?_, hrest⟩
      · rw [hsplits.source_eq, hmiddle, List.append_assoc, List.append_assoc]
      · rw [lastStop, ← hfront, Placed.stop, hstart]
        simp only [Text.size_append, Nat.add_assoc]

end Token

/-- A source falls into lexemes with nothing between them or left over, each the longest that could
stand there. Its tokens are those that are no comments. -/
theorem Placed.lexemes_partition (source : Text) :
    (∀ t : Text, t ≠ [] → ∃ lexeme rest, next? t = some (lexeme, rest) ∧ lexeme.IsLongest t) ∧
      slices (Lexeme.ofText source) = source ∧
      Cover 0 (lexemes 0 source) (Text.size source) ∧
      (∀ p ∈ lexemes 0 source, p.start < p.stop ∧ ∃ front rest, p.StandsBetween source front rest) ∧
      ((lexemes 0 source).IsChain fun p q =>
        p.lexeme.isWord = true → q.lexeme.isWord = false) ∧
      (Token.ofText source).map Prod.snd =
        (lexemes 0 source).filter (fun p => !p.lexeme.isComment) ∧
      ∀ before token p after, Token.ofText source = before ++ (token, p) :: after →
        p.lexeme.token? = some token ∧ p.start < p.stop ∧ Token.lastStop 0 before ≤ p.start ∧
        ∃ front comments rest,
          source = front ++ (slices comments ++ (p.lexeme.slice ++ rest)) ∧
          Text.size front = Token.lastStop 0 before ∧
          Text.size (front ++ slices comments) = p.start ∧
          Splits (slices comments ++ (p.lexeme.slice ++ rest)) comments (p.lexeme.slice ++ rest) ∧
          ∀ lexeme ∈ comments, lexeme.isComment = true := by
  refine ⟨fun t => Lexeme.exists_next?_isLongest, Lexeme.slices_ofText source, ?_, ?_,
    isChain_lexemes 0 source, Token.map_snd_ofText source, ?_⟩
  · have hcover := cover_lexemes 0 source
    rwa [Nat.zero_add] at hcover
  · intro p hp
    exact ⟨p.start_lt_stop, exists_standsBetween hp⟩
  · intro before token p after h
    obtain ⟨front, comments, rest, hsource, hfront, hstart, hsplits, hcomments, htoken⟩ :=
      Token.exists_comments_of_ofTextAt h
    rw [Nat.zero_add] at hfront
    refine ⟨htoken, p.start_lt_stop, ?_, front, comments, rest, hsource, hfront, ?_, hsplits,
      hcomments⟩
    · rw [← hstart]
      exact Nat.le_add_right _ _
    · rw [Text.size_append, hfront, hstart]

end Sexpand
