import Sexpand.Text.Utf8

namespace Sexpand

/-- The decoded text of the input from `start` on. It is kept while the input is read, so that no
stretch is decoded twice. -/
structure Window where
  start : Nat
  text : Text
  checked : Nat
  deriving DecidableEq

namespace Window

def empty : Window := ⟨0, [], 0⟩

/-- What the window holds from `position` on, if that is a place between two of its characters or
at one of its ends. -/
def textAt? (w : Window) (position : Nat) : Option Text :=
  if w.start ≤ position then Text.dropBytes? (position - w.start) w.text else none

def decode (checked position : Nat) (rest : Utf8.Bytes) : Window :=
  ⟨position, Utf8.decodePrefix rest, checked + Text.size (Utf8.decodePrefix rest)⟩

def moveTo (w : Window) (position : Nat) (rest : Utf8.Bytes) : Window :=
  match w.textAt? position with
  | some text => ⟨position, text, w.checked⟩
  | none => decode w.checked position rest

@[simp]
theorem start_moveTo (w : Window) (position : Nat) (rest : Utf8.Bytes) :
    (w.moveTo position rest).start = position := by
  unfold moveTo decode
  split <;> rfl

theorem textAt?_empty {position : Nat} (h : 0 < position) : empty.textAt? position = none := by
  cases position with
  | zero => omega
  | succ n => rfl

end Window

end Sexpand
