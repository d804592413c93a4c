import Sexpand.Sexp.Compact
import Sexpand.Sexp.Pretty

namespace Sexpand

inductive Level
  | error
  | warn
  | info
  | debug
  | trace
  deriving DecidableEq

namespace Level

def name : Level → Text
  | .error => "ERROR".toList
  | .warn => "WARN".toList
  | .info => "INFO".toList
  | .debug => "DEBUG".toList
  | .trace => "TRACE".toList

def ofName? (name : Text) : Option Level :=
  [error, warn, info, debug, trace].find? fun level => level.name = name.map Char.toUpper

def rank : Level → Nat
  | .error => 0
  | .warn => 1
  | .info => 2
  | .debug => 3
  | .trace => 4

def isShown (most : Option Level) (level : Level) : Bool :=
  most.any fun most => level.rank ≤ most.rank

end Level

/-- What a run reports about an expansion. A position is the byte after a marker. -/
inductive Notice
  | endsAtInvalidBytes (position : Nat)
  | expanding (position : Nat) (invocation : List Sexp)
  | shape (invocation : List Sexp)
  | noExpression (position : Nat)
  | emptyList
  | headedByList (items : List Sexp)
  deriving DecidableEq

namespace Notice

def level : Notice → Level
  | .expanding _ _ => .debug
  | .shape _ => .trace
  | _ => .warn

def isAboutWriting : Notice → Bool
  | .emptyList => true
  | .headedByList _ => true
  | _ => false

def shapeWidth : Nat := 100

def message : Notice → Text
  | .endsAtInvalidBytes position =>
      "expression at byte ".toList ++ Nat.toDigits 10 position ++ " ends at invalid UTF-8".toList
  | .expanding position invocation =>
      "expanding expression at byte ".toList ++ Nat.toDigits 10 position ++ ": ".toList ++
        (Sexp.list invocation).compact
  | .shape invocation => (Sexp.list invocation).pretty shapeWidth
  | .noExpression position =>
      "marker at byte ".toList ++ Nat.toDigits 10 position ++
        " is not followed by an expression".toList
  | .emptyList => "empty list produces no output".toList
  | .headedByList items =>
      "list headed by a list produces no output: ".toList ++ (Sexp.list items).compact

end Notice

end Sexpand
