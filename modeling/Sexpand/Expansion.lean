import Sexpand.Script
import Sexpand.Sexp.Reader
import Sexpand.Text.Lossy
import Sexpand.Text.Window

namespace Sexpand

structure Expansion where
  actions : List Action
  missing : Option MissingArgument
  consumed : Nat
  deriving DecidableEq

namespace Expansion

def ofInvocation (position : Nat) : List Sexp → Rendering
  | [] => .notice (.noExpression position)
  | e :: _ => e.render true

/-- Expands a marker that ends at `position`. `text` is the valid part of the bytes after it. An
expression that takes all of the text is cut if there are more bytes. -/
def ofText (position : Nat) (rest : Utf8.Bytes) (text : Text) : Expansion :=
  let invocation := Sexp.parseInvocation text
  let isCut :=
    Text.dropBytes? invocation.consumed text = some [] ∧ rest.drop invocation.consumed ≠ []
  let rendering := ofInvocation position invocation.value
  { actions :=
      (if isCut then [.report (.endsAtInvalidBytes position)] else []) ++
        [.report (.expanding position invocation.value), .report (.shape invocation.value)] ++
        rendering.actions
    missing := rendering.missing
    consumed := invocation.consumed }

end Expansion

/-- A place in the input. `rest` starts at byte `position`, and the bytes before it end with the
first `matched` bytes of the marker, which are not written. The actions stand with the newest
first. -/
structure Scan where
  rest : Utf8.Bytes
  position : Nat
  matched : Nat
  window : Window
  expansions : Nat
  actions : List Action
  deriving DecidableEq

namespace Scan

def start (input : Utf8.Bytes) : Scan := ⟨input, 0, 0, .empty, 0, []⟩

def expand (s : Scan) : Scan × Option MissingArgument :=
  let window := s.window.moveTo s.position s.rest
  let expansion := Expansion.ofText s.position s.rest window.text
  ({ rest := s.rest.drop expansion.consumed
     position := s.position + expansion.consumed
     matched := 0
     window
     expansions := s.expansions + 1
     actions := expansion.actions.reverseAux s.actions }, expansion.missing)

inductive Step
  | next (scan : Scan)
  | done (script : Script Nat)

/-- Copies one byte or holds it back, and expands the marker that it completes. What is held back
at the end of the input is copied. -/
def step (m : Marker) (s : Scan) : Step :=
  match s.rest with
  | [] => .done ⟨(.write .source (m.bytes.take s.matched) :: s.actions).reverse, .ok s.expansions⟩
  | byte :: rest =>
      let (released, matched) := m.feed s.matched byte
      let s : Scan := { s with
        rest, position := s.position + 1, matched, actions := .write .source released :: s.actions }
      if matched < m.bytes.length then .next s
      else
        match s.expand with
        | (s, none) => .next s
        | (s, some missing) => .done ⟨s.actions.reverse, .error missing⟩

theorem length_rest_expand_le (s : Scan) : s.expand.1.rest.length ≤ s.rest.length := by
  simp only [expand, List.length_drop]
  omega

theorem length_rest_lt_of_step {m : Marker} {s t : Scan} (h : s.step m = .next t) :
    t.rest.length < s.rest.length := by
  unfold step at h
  split at h
  · simp at h
  · rename_i byte rest hr
    simp only at h
    split at h
    · obtain rfl := Step.next.inj h
      simp [hr]
    · split at h
      · rename_i u hu
        obtain rfl := Step.next.inj h
        have hl := length_rest_expand_le { s with
          rest, position := s.position + 1, matched := (m.feed s.matched byte).2,
          actions := .write .source (m.feed s.matched byte).1 :: s.actions }
        rw [hu] at hl
        dsimp only at hl
        simp only [hr, List.length_cons]
        omega
      · simp at h

def toScript (m : Marker) (s : Scan) : Script Nat :=
  match _h : s.step m with
  | .next s => toScript m s
  | .done script => script
termination_by s.rest.length
decreasing_by exact length_rest_lt_of_step _h

end Scan

structure Report where
  output : Utf8.Bytes
  notices : List Notice
  result : Except Error Nat

def expandBytes (m : Marker) (input : Utf8.Bytes) (limit : Option Nat) : Report :=
  let (fx, result) := ((Scan.start input).toScript m).run (.empty limit)
  ⟨fx.output.bytes, fx.notices.reverse, result⟩

def expandText (source : Text) : Except Error Text :=
  let report := expandBytes .standard (Utf8.encode source) none
  report.result.map fun _ => Utf8.decodeLossy report.output

end Sexpand
