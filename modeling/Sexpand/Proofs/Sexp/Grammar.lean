import Sexpand.Lexeme.Token
import Sexpand.Sexp.Basic

namespace Sexpand.Grammar

abbrev Tokens := List (Token × Placed)

/-- What a text takes part in as an atom. Without letters there is none. -/
def atoms (word : Text) : List Sexp := if word = [] then [] else [.atom word]

def less (left : Option Nat) (n : Nat) : Option Nat := left.map (· - n)

structure Reading where
  items : List Sexp
  stop : Nat
  rest : Tokens

def Reading.after (items : List Sexp) (r : Reading) : Reading := { r with items := items ++ r.items }

theorem after_after (items more : List Sexp) (r : Reading) :
    (r.after items).after more = r.after (more ++ items) := by
  simp [Reading.after]

structure Group where
  text : Text
  stop : Nat
  rest : Tokens

/-- The source text up to the parenthesis that closes the last of `depth` open ones, or up to the
end. -/
def group (depth stop : Nat) : Tokens → Group
  | [] => ⟨[], stop, []⟩
  | (token, p) :: tokens =>
      let open' := match token with
        | .openList => depth + 1
        | .closeList => depth - 1
        | _ => depth
      if open' = 0 then ⟨p.lexeme.slice, p.stop, tokens⟩
      else
        let others := group open' p.stop tokens
        { others with text := p.lexeme.slice ++ others.text }

theorem length_rest_group_le (depth stop : Nat) (tokens : Tokens) :
    (group depth stop tokens).rest.length ≤ tokens.length := by
  fun_induction group depth stop tokens with
  | case1 => exact Nat.le_refl _
  | case2 => exact Nat.le_succ _
  | case3 depth stop token p tokens open' h others ih => exact Nat.le_succ_of_le ih

/-- The reading of `read`, which leaves no more tokens than it is given. -/
def bounded (room : Nat) (left : Option Nat) (word : Text) (stop : Nat) :
    (tokens : Tokens) → { r : Reading // r.rest.length ≤ tokens.length }
  | [] => ⟨⟨atoms word, stop, []⟩, Nat.le_refl _⟩
  | (.fragment text, p) :: tokens =>
      let ⟨r, hr⟩ := bounded room left (word ++ text) p.stop tokens
      ⟨r, Nat.le_succ_of_le hr⟩
  | (.closeList, p) :: tokens => ⟨⟨atoms word, p.stop, tokens⟩, Nat.le_succ _⟩
  | (.blank, p) :: tokens =>
      let left := less left (atoms word).length
      if left = some 0 then ⟨⟨atoms word, p.stop, tokens⟩, Nat.le_succ _⟩
      else
        let ⟨r, hr⟩ := bounded room left [] p.stop tokens
        ⟨r.after (atoms word), Nat.le_succ_of_le hr⟩
  | (.openList, p) :: tokens =>
      let left := less left (atoms word).length
      if left = some 0 then ⟨⟨atoms word, p.start, (.openList, p) :: tokens⟩, Nat.le_refl _⟩
      else if room = 0 then
        let g := group 1 p.stop tokens
        have hg := length_rest_group_le 1 p.stop tokens
        let ⟨r, hr⟩ := bounded room left (p.lexeme.slice ++ g.text) g.stop g.rest
        ⟨r.after (atoms word), Nat.le_succ_of_le (Nat.le_trans hr hg)⟩
      else
        let ⟨inner, hi⟩ := bounded (room - 1) none [] p.stop tokens
        let items := atoms word ++ [.list inner.items]
        if less left 1 = some 0 then ⟨⟨items, inner.stop, inner.rest⟩, Nat.le_succ_of_le hi⟩
        else
          let ⟨r, hr⟩ := bounded room (less left 1) [] inner.stop inner.rest
          ⟨r.after items, Nat.le_succ_of_le (Nat.le_trans hr hi)⟩
termination_by tokens => tokens.length
decreasing_by all_goals simp only [List.length_cons]; omega

/-- Reads the items of a list by recursion on the lists in it, up to its closing parenthesis, the
end, or the item that leaves no room. `word` is what has been read of the atom at hand, and lists may
nest `room` deep. Where they may not, a parenthesis and what it encloses begin an atom. -/
def read (room : Nat) (left : Option Nat) (word : Text) (stop : Nat) (tokens : Tokens) : Reading :=
  (bounded room left word stop tokens).1

theorem length_rest_read_le (room : Nat) (left : Option Nat) (word : Text) (stop : Nat)
    (tokens : Tokens) : (read room left word stop tokens).rest.length ≤ tokens.length :=
  (bounded room left word stop tokens).2

section Equations

variable (room : Nat) (left : Option Nat) (word : Text) (stop : Nat) (p : Placed) (tokens : Tokens)

theorem read_nil : read room left word stop [] = ⟨atoms word, stop, []⟩ := by
  rw [read, bounded]

theorem read_fragment (text : Text) :
    read room left word stop ((.fragment text, p) :: tokens) =
      read room left (word ++ text) p.stop tokens := by
  rw [read, bounded]
  rfl

theorem read_closeList :
    read room left word stop ((.closeList, p) :: tokens) = ⟨atoms word, p.stop, tokens⟩ := by
  rw [read, bounded]

theorem read_blank :
    read room left word stop ((.blank, p) :: tokens) =
      if less left (atoms word).length = some 0 then ⟨atoms word, p.stop, tokens⟩
      else (read room (less left (atoms word).length) [] p.stop tokens).after (atoms word) := by
  rw [read, bounded]
  dsimp only
  split <;> rfl

theorem read_openList :
    read room left word stop ((.openList, p) :: tokens) =
      if less left (atoms word).length = some 0 then
        ⟨atoms word, p.start, (.openList, p) :: tokens⟩
      else if room = 0 then
        (read room (less left (atoms word).length)
          (p.lexeme.slice ++ (group 1 p.stop tokens).text) (group 1 p.stop tokens).stop
          (group 1 p.stop tokens).rest).after (atoms word)
      else
        let inner := read (room - 1) none [] p.stop tokens
        let items := atoms word ++ [.list inner.items]
        if less (less left (atoms word).length) 1 = some 0 then ⟨items, inner.stop, inner.rest⟩
        else (read room (less (less left (atoms word).length) 1) [] inner.stop inner.rest).after
          items := by
  rw [read, bounded]
  dsimp only
  split
  · rfl
  · split
    · rfl
    · split <;> rfl

end Equations

end Sexpand.Grammar
