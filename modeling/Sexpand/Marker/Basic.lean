import Sexpand.Marker.Border

namespace Sexpand

structure Marker where
  bytes : Utf8.Bytes
  bytes_ne_nil : bytes ≠ []
  borders : BorderTable
  borders_eq : borders = BorderTable.ofPattern bytes

namespace Marker

def ofBytes (bytes : Utf8.Bytes) (h : bytes ≠ []) : Marker := ⟨bytes, h, .ofPattern bytes, rfl⟩

def ofText? (text : Text) : Option Marker :=
  if h : Utf8.encode text = [] then none else some (ofBytes (Utf8.encode text) h)

def keyword : Text := ['_', '_', 's', 'e', 'x', 'p', 'r']

def standard : Marker := ofBytes (Utf8.encode keyword) (by decide)

/-- Reads one byte when the first `matched` bytes of the marker have been seen last. Gives the bytes
that no marker can contain any more, and the new length of the match. -/
def feed (m : Marker) (matched : Nat) (byte : UInt8) : Utf8.Bytes × Nat :=
  let next := m.borders.advance m.bytes matched byte
  ((m.bytes.take matched ++ [byte]).take (matched + 1 - next), next)

end Marker

end Sexpand
