import Sexpand.Text.Basic

namespace Sexpand.Text

/-- The free place of `b` that a letter at place `i` of another text takes, the first one that holds
the same letter and is at most `reach` away. -/
def partner? (reach : Nat) (b : Text) (taken : List Nat) (i : Nat) (c : Char) : Option Nat :=
  (List.range b.length).find? fun j =>
    b[j]? = some c && (i ≤ j + reach && j ≤ i + reach) && !taken.contains j

def partners (reach : Nat) (b : Text) : Nat → List Nat → Text → List (Char × Nat)
  | _, _, [] => []
  | i, taken, c :: a =>
      match partner? reach b taken i c with
      | none => partners reach b (i + 1) taken a
      | some j => (c, j) :: partners reach b (i + 1) (j :: taken) a

structure Similarity where
  lengths : Nat × Nat
  common : Nat
  swapped : Nat
  deriving DecidableEq

namespace Similarity

def between (a b : Text) : Similarity :=
  let pairs := partners (max a.length b.length / 2 - 1) b 0 [] a
  let places := (List.range b.length).filter (pairs.map (·.2)).contains
  let moved := (pairs.zip places).countP fun (pair, j) => b[j]? ≠ some pair.1
  ⟨(a.length, b.length), pairs.length, moved / 2⟩

/-- The sum of the common share of each text and the share of the common letters that are in order,
as a fraction. The similarity is a third of it. -/
def shares (s : Similarity) : Nat × Nat :=
  let (a, b) := s.lengths
  (s.common * s.common * (a + b) + (s.common - s.swapped) * a * b, s.common * a * b)

def isAlike (s : Similarity) : Bool :=
  s.common ≠ 0 && 21 * s.shares.2 ≤ 10 * s.shares.1

def isBelow (s other : Similarity) : Bool :=
  let (p, q) := s.shares
  let (r, t) := other.shares
  p * t < r * q || p * t = r * q && other.swapped < s.swapped

end Similarity

def mostAlike? (a : Text) : List Text → Option Text
  | [] => none
  | b :: candidates =>
      let s := Similarity.between a b
      match mostAlike? a candidates with
      | none => if s.isAlike then some b else none
      | some best =>
          if s.isAlike && (Similarity.between a best).isBelow s then some b else some best

end Sexpand.Text
