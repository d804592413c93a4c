import Sexpand.Sexp.Nest

namespace Sexpand

/-- A place in a source. `rest` starts at byte `position`. The expressions read so far end at byte
`consumed`, which comments after them do not move. -/
structure Reader where
  rest : Text
  position : Nat
  consumed : Nat
  deriving DecidableEq

namespace Reader

def ofText (source : Text) : Reader := ⟨source, 0, 0⟩

structure Filled where
  nest : Nest
  reader : Reader
  stop : Option Token
  deriving DecidableEq

/-- Reads on until the outermost list ends. A parenthesis that it ends before is not counted as
consumed, but it is taken from the rest. -/
def fill (nest : Nest) (r : Reader) : Filled :=
  match _h : Lexeme.next? r.rest with
  | none => ⟨nest, r, none⟩
  | some (lexeme, rest) =>
      let stop := r.position + Text.size lexeme.slice
      match lexeme.token? with
      | none => fill nest ⟨rest, stop, r.consumed⟩
      | some token =>
          match nest.step token lexeme.slice with
          | .more nest => fill nest ⟨rest, stop, stop⟩
          | .last nest => ⟨nest, ⟨rest, stop, stop⟩, some token⟩
          | .before nest => ⟨nest, ⟨rest, stop, r.position⟩, some token⟩
termination_by r.rest.length
decreasing_by all_goals exact Lexeme.length_lt_of_next? _h

def readList (limit : Option Nat) (r : Reader) : List Sexp × Reader :=
  let filled := fill (.start limit) r
  (filled.nest.finish, filled.reader)

end Reader

namespace Sexp

structure Parsed (α : Type) where
  value : α
  consumed : Nat
  deriving DecidableEq

def parseInvocation (source : Text) : Parsed (List Sexp) :=
  let (items, r) := (Reader.ofText source).readList (some 1)
  ⟨items, r.consumed⟩

def parse (source : Text) : Parsed Sexp :=
  let ⟨items, consumed⟩ := parseInvocation source
  ⟨items.headD (.list []), consumed⟩

end Sexp

end Sexpand
