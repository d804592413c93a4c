import Sexpand.Text.Basic

namespace Sexpand

/-- An atom holds a bare symbol, a quoted string with its quotes, or the inside of a brace block. -/
inductive Sexp
  | atom (text : Text)
  | list (items : List Sexp)
  deriving Inhabited

namespace Sexp

mutual

def decEq : (a b : Sexp) → Decidable (a = b)
  | .atom s, .atom t => if h : s = t then isTrue (by rw [h]) else isFalse (by simpa using h)
  | .atom _, .list _ => isFalse (by simp)
  | .list _, .atom _ => isFalse (by simp)
  | .list xs, .list ys =>
      match decEqItems xs ys with
      | isTrue h => isTrue (by rw [h])
      | isFalse h => isFalse (by simpa using h)

def decEqItems : (xs ys : List Sexp) → Decidable (xs = ys)
  | [], [] => isTrue rfl
  | [], _ :: _ => isFalse (by simp)
  | _ :: _, [] => isFalse (by simp)
  | x :: xs, y :: ys =>
      match decEq x y with
      | isTrue h =>
          match decEqItems xs ys with
          | isTrue hs => isTrue (by rw [h, hs])
          | isFalse hs => isFalse (by simp [hs])
      | isFalse h => isFalse (by simp [h])

end

instance : DecidableEq Sexp := decEq

def asAtom? : Sexp → Option Text
  | .atom text => some text
  | .list _ => none

def asList? : Sexp → Option (List Sexp)
  | .atom _ => none
  | .list items => some items

def head? : Sexp → Option Text
  | .list (.atom text :: _) => some text
  | _ => none

def text? : Sexp → Option Text
  | .atom text => some text
  | .list [.atom text] => some text
  | _ => none

mutual

def depth : Sexp → Nat
  | .atom _ => 0
  | .list items => depthItems items + 1

def depthItems : List Sexp → Nat
  | [] => 0
  | x :: xs => max (depth x) (depthItems xs)

end

theorem head?_eq (e : Sexp) : e.head? = e.asList?.bind fun items => items.head?.bind asAtom? := by
  rcases e with t | (_ | ⟨_ | _, _⟩) <;> rfl

end Sexp

end Sexpand
