import Sexpand.Lexeme.Token
import Sexpand.Sexp.Basic

namespace Sexpand

/-- A list whose end has not been read. Its items, and the letters of the atom at its end, stand
with the newest first. -/
structure Draft where
  items : List Sexp
  word : Text
  limit : Option Nat
  deriving DecidableEq

namespace Draft

def empty (limit : Option Nat) : Draft := ⟨[], [], limit⟩

def addText (d : Draft) (text : Text) : Draft := { d with word := text.reverseAux d.word }

def addItem (d : Draft) (item : Sexp) : Draft := { d with items := item :: d.items }

def endWord (d : Draft) : Draft :=
  match d.word with
  | [] => d
  | c :: word => { d with items := .atom (c :: word).reverse :: d.items, word := [] }

def isFull (d : Draft) : Bool :=
  match d.limit with
  | none => false
  | some n => n ≤ d.items.length

/-- An atom that the list has no room for is lost. -/
def finish (d : Draft) : List Sexp :=
  if d.isFull then d.items.reverse else d.endWord.items.reverse

end Draft

/-- The list under way and the lists around it, the innermost first. Parentheses nested too deep
for a list are letters of an atom, and `rawDepth` counts those that are open. -/
structure Nest where
  current : Draft
  parents : List Draft
  rawDepth : Nat
  deriving DecidableEq

namespace Nest

def maxDepth : Nat := 256

def start (limit : Option Nat) : Nest := ⟨.empty limit, [], 0⟩

def addText (n : Nest) (text : Text) : Nest := { n with current := n.current.addText text }

def endWord (n : Nest) : Nest := { n with current := n.current.endWord }

def openList (n : Nest) : Nest := ⟨.empty none, n.current :: n.parents, n.rawDepth⟩

def rawDepthAfter (depth : Nat) : Token → Nat
  | .openList => depth + 1
  | .closeList => depth - 1
  | _ => depth

/-- The outermost list ends with the last token that is read, or before a token that is not. -/
inductive Step
  | more (nest : Nest)
  | last (nest : Nest)
  | before (nest : Nest)
  deriving DecidableEq

def unlessFull (n : Nest) : Step := if n.current.isFull then .last n else .more n

def step (n : Nest) (token : Token) (slice : Text) : Step :=
  if 0 < n.rawDepth then
    .more { n.addText slice with rawDepth := rawDepthAfter n.rawDepth token }
  else
    match token with
    | .fragment text => (n.addText text).unlessFull
    | .blank => n.endWord.unlessFull
    | .openList =>
        if n.endWord.current.isFull then .before n.endWord
        else if n.parents.length < maxDepth then n.endWord.openList.unlessFull
        else { n.endWord.addText slice with rawDepth := 1 }.unlessFull
    | .closeList =>
        match n.parents with
        | [] => .last n.endWord
        | parent :: parents =>
            { n with current := parent.addItem (.list n.current.finish), parents }.unlessFull

def finish (n : Nest) : List Sexp :=
  (n.parents.foldl (fun inner parent => parent.addItem (.list inner.finish)) n.current).finish

end Nest

end Sexpand
