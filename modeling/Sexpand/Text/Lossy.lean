import Sexpand.Text.Utf8

namespace Sexpand.Utf8

def replacement : Char := '\uFFFD'

/-- Whether the bytes begin a character that takes `more` bytes after them. If they do, then one of
the two extreme bytes that a character may hold after its first one completes it. -/
def isCharFront (bytes : Bytes) (more : Nat) : Bool :=
  [0x80, 0xBF].any fun byte =>
    (decodeChar? (bytes ++ List.replicate more byte)).any fun c =>
      c.utf8Size = bytes.length + more

/-- How many bytes one replacement stands for, where no character starts: as many as begin a
character together, or else the first one. -/
def brokenLength (bytes : Bytes) : Nat :=
  ([3, 2].find? fun n =>
    n ≤ bytes.length && [1, 2].any (isCharFront (bytes.take n))).getD 1

theorem brokenLength_pos (bytes : Bytes) : 0 < brokenLength bytes := by
  unfold brokenLength
  cases h : [3, 2].find? _ with
  | none => decide
  | some n =>
      have hn := List.mem_of_find?_eq_some h
      simp only [List.mem_cons, List.not_mem_nil, or_false] at hn
      rcases hn with rfl | rfl <;> decide

def decodeLossy (bytes : Bytes) : Text :=
  match _h : bytes.drop (Text.size (decodePrefix bytes)) with
  | [] => decodePrefix bytes
  | byte :: rest =>
      decodePrefix bytes ++
        replacement :: decodeLossy ((byte :: rest).drop (brokenLength (byte :: rest)))
termination_by bytes.length
decreasing_by
  have hl := congrArg List.length _h
  have hb := brokenLength_pos (byte :: rest)
  simp only [List.length_drop, List.length_cons] at hl ⊢
  omega

theorem decodeLossy_encode (t : Text) : decodeLossy (encode t) = t := by
  rw [decodeLossy.eq_def, decodePrefix_encode]
  split
  · rfl
  · rename_i h
    rw [List.drop_eq_nil_of_le (Nat.le_of_eq (length_encode t))] at h
    simp at h

end Sexpand.Utf8
