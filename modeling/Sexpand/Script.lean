import Sexpand.Output
import Sexpand.Rendering

namespace Sexpand

inductive Origin
  | source
  | expression
  deriving DecidableEq

inductive Action
  | write (origin : Origin) (bytes : Utf8.Bytes)
  | report (notice : Notice)
  deriving DecidableEq

structure Script (α : Type) where
  actions : List Action
  outcome : Except MissingArgument α

inductive Error
  | missingArgument (missing : MissingArgument)
  | outputFull (origin : Origin)
  deriving DecidableEq

def Error.message : Error → Text
  | .missingArgument missing => missing.message
  | .outputFull .source => "failed to write output".toList
  | .outputFull .expression => "failed to write rewritten expression".toList

/-- The output and the notices of what has been done, the newest notice first. -/
structure Effects where
  output : Output
  notices : List Notice
  deriving DecidableEq

namespace Effects

def empty (room : Option Nat) : Effects := ⟨.empty room, []⟩

/-- Does the actions in order, up to a write that fails. Gives the origin of its bytes. -/
def perform (fx : Effects) : List Action → Effects × Option Origin
  | [] => (fx, none)
  | .report notice :: actions => perform { fx with notices := notice :: fx.notices } actions
  | .write origin bytes :: actions =>
      match fx.output.write bytes with
      | (output, true) => perform { fx with output } actions
      | (output, false) => ({ fx with output }, some origin)

end Effects

namespace Script

def run {α : Type} (s : Script α) (fx : Effects) : Effects × Except Error α :=
  match fx.perform s.actions with
  | (fx, some origin) => (fx, .error (.outputFull origin))
  | (fx, none) => (fx, s.outcome.mapError .missingArgument)

end Script

namespace Rendering

def Part.action : Part → Action
  | .atom text => .write .expression (Utf8.encode text)
  | .punctuation text => .write .expression (Utf8.encode text)
  | .notice n => .report n

def actions (r : Rendering) : List Action := r.parts.map Part.action

def script (r : Rendering) : Script Unit :=
  ⟨r.actions, r.missing.elim (.ok ()) .error⟩

end Rendering

end Sexpand
