import Sexpand.Text.Utf8

namespace Sexpand

/-- A stream of bytes, the newest first. Where `room` is given, it takes only that many more. -/
structure Output where
  reversed : Utf8.Bytes
  room : Option Nat
  deriving DecidableEq

namespace Output

def empty (room : Option Nat) : Output := ⟨[], room⟩

def bytes (o : Output) : Utf8.Bytes := o.reversed.reverse

def fullMessage : Text := "limit reached".toList

def write (o : Output) (bytes : Utf8.Bytes) : Output × Bool :=
  match o.room with
  | none => (⟨bytes.reverseAux o.reversed, none⟩, true)
  | some room =>
      (⟨(bytes.take room).reverseAux o.reversed, some (room - bytes.length)⟩, bytes.length ≤ room)

theorem bytes_write (o : Output) (bytes : Utf8.Bytes) :
    (o.write bytes).1.bytes = o.bytes ++ (match o.room with
      | none => bytes
      | some room => bytes.take room) := by
  cases h : o.room <;> simp [write, Output.bytes, h]

theorem write_nil (o : Output) : o.write [] = (o, true) := by
  rcases o with ⟨reversed, _ | room⟩ <;> simp [write]

end Output

end Sexpand
