import Sexpand.Lexeme.Basic

namespace Sexpand

/-- What a lexeme is to a reader of expressions. Fragments that touch belong to the same atom. -/
inductive Token
  | openList
  | closeList
  | blank
  | fragment (text : Text)
  deriving DecidableEq

def Lexeme.token? : Lexeme → Option Token
  | .openList => some .openList
  | .closeList => some .closeList
  | .blank _ => some .blank
  | .comment _ _ => none
  | .bare first others => some (.fragment (first :: others))
  | .quoted body closed => some (.fragment (quoted body closed).slice)
  | .block interior _ => some (.fragment (Text.trim interior))

structure Placed where
  lexeme : Lexeme
  start : Nat
  deriving DecidableEq

namespace Placed

def stop (p : Placed) : Nat := p.start + Text.size p.lexeme.slice

def lexemes (start : Nat) (source : Text) : List Placed :=
  match _h : Lexeme.next? source with
  | none => []
  | some (lexeme, rest) => ⟨lexeme, start⟩ :: lexemes (start + Text.size lexeme.slice) rest
termination_by source.length
decreasing_by exact Lexeme.length_lt_of_next? _h

end Placed

namespace Token

def ofText (source : Text) : List (Token × Placed) :=
  (Placed.lexemes 0 source).filterMap fun p => p.lexeme.token?.map fun token => (token, p)

end Token

end Sexpand
