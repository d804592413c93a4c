import Sexpand.Proofs.Sexp.Grammar
import Sexpand.Sexp.Reader

namespace Sexpand

open Grammar (Tokens)

/-- The tokens of a text that starts at byte `start`. -/
def Token.ofTextAt (start : Nat) (source : Text) : Tokens :=
  (Placed.lexemes start source).filterMap fun p => p.lexeme.token?.map fun token => (token, p)

namespace Placed

theorem lexemes_of_none {start : Nat} {source : Text} (h : Lexeme.next? source = none) :
    lexemes start source = [] := by
  rw [lexemes.eq_def]
  split
  · rfl
  · simp_all

theorem lexemes_of_next? {start : Nat} {source rest : Text} {lexeme : Lexeme}
    (h : Lexeme.next? source = some (lexeme, rest)) :
    lexemes start source = ⟨lexeme, start⟩ :: lexemes (start + Text.size lexeme.slice) rest := by
  rw [lexemes.eq_def]
  split
  · simp_all
  · rename_i lexeme' rest' h'
    obtain ⟨rfl, rfl⟩ : lexeme' = lexeme ∧ rest' = rest := by simpa [h] using h'.symm
    rfl

end Placed

namespace Token

theorem ofTextAt_of_none {start : Nat} {source : Text} (h : Lexeme.next? source = none) :
    ofTextAt start source = [] := by
  rw [ofTextAt, Placed.lexemes_of_none h]
  rfl

theorem ofTextAt_nil (start : Nat) : ofTextAt start [] = [] := ofTextAt_of_none rfl

variable {source rest : Text} {lexeme : Lexeme}

theorem ofTextAt_of_comment (h : Lexeme.next? source = some (lexeme, rest))
    (hcomment : lexeme.token? = none) (start : Nat) :
    ofTextAt start source = ofTextAt (start + Text.size lexeme.slice) rest := by
  rw [ofTextAt, Placed.lexemes_of_next? h, List.filterMap_cons, hcomment]
  rfl

theorem ofTextAt_of_token {token : Token} (h : Lexeme.next? source = some (lexeme, rest))
    (htoken : lexeme.token? = some token) (start : Nat) :
    ofTextAt start source =
      (token, ⟨lexeme, start⟩) :: ofTextAt (start + Text.size lexeme.slice) rest := by
  rw [ofTextAt, Placed.lexemes_of_next? h, List.filterMap_cons, htoken]
  rfl

end Token

namespace Nest

/-- What becomes of a nest by tokens, up to the one that ends the outermost list, and the byte where
the reading stops. -/
def run (n : Nest) (stop : Nat) : Tokens → Nest × Nat
  | [] => (n, stop)
  | (token, p) :: tokens =>
      match n.step token p.lexeme.slice with
      | .more next => run next p.stop tokens
      | .last next => (next, p.stop)
      | .before next => (next, p.start)

theorem fill_eq_run (n : Nest) (r : Reader) :
    ((Reader.fill n r).nest, (Reader.fill n r).reader.consumed) =
      n.run r.consumed (Token.ofTextAt r.position r.rest) := by
  fun_induction Reader.fill n r with
  | case1 n r h =>
      rw [Token.ofTextAt_of_none h]
      rfl
  | case2 n r lexeme rest h stop ht ih =>
      rw [ih, Token.ofTextAt_of_comment h ht]
  | case3 n r lexeme rest h stop token ht next hs ih =>
      rw [ih, Token.ofTextAt_of_token h ht]
      simp [run, hs, Placed.stop, stop]
  | case4 n r lexeme rest h stop token ht next hs =>
      rw [Token.ofTextAt_of_token h ht]
      simp [run, hs, Placed.stop, stop]
  | case5 n r lexeme rest h stop token ht next hs =>
      rw [Token.ofTextAt_of_token h ht]
      simp [run, hs]

def outcome (n : Nest) (stop : Nat) (tokens : Tokens) : List Sexp × Nat :=
  ((n.run stop tokens).1.finish, (n.run stop tokens).2)

end Nest

theorem Reader.readList_eq_outcome (limit : Option Nat) (r : Reader) :
    ((r.readList limit).1, (r.readList limit).2.consumed) =
      (Nest.start limit).outcome r.consumed (Token.ofTextAt r.position r.rest) := by
  rw [Nest.outcome, ← Nest.fill_eq_run]
  rfl

end Sexpand
