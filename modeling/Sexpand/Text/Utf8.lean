import Sexpand.Text.Basic

namespace Sexpand.Utf8

abbrev Bytes := List UInt8

def encode (t : Text) : Bytes := t.flatMap String.utf8EncodeChar

@[simp]
theorem encode_nil : encode [] = [] := rfl

@[simp]
theorem encode_cons (c : Char) (t : Text) :
    encode (c :: t) = String.utf8EncodeChar c ++ encode t := rfl

@[simp]
theorem encode_append (s t : Text) : encode (s ++ t) = encode s ++ encode t := by
  simp [encode]

@[simp]
theorem length_encode (t : Text) : (encode t).length = Text.size t := by
  induction t with
  | nil => rfl
  | cons c t ih => simp [ih]

/-- The character that the bytes start with. No character takes more than four. -/
def decodeChar? (bytes : Bytes) : Option Char :=
  (bytes.take 4).toByteArray.utf8DecodeChar? 0

theorem decodeChar?_encode_append (c : Char) (rest : Bytes) :
    decodeChar? (String.utf8EncodeChar c ++ rest) = some c := by
  have hc : (String.utf8EncodeChar c).length ≤ 4 := by
    simpa using Char.utf8Size_le_four c
  rw [decodeChar?, List.take_append, List.take_of_length_le hc, List.toByteArray_append]
  exact ByteArray.utf8DecodeChar?_utf8EncodeChar_append

theorem take_of_decodeChar? {bytes : Bytes} {c : Char} (h : decodeChar? bytes = some c) :
    bytes.take c.utf8Size = String.utf8EncodeChar c := by
  have h0 : (bytes.take 4).toByteArray.utf8DecodeChar? 0 = some c := h
  have hs : ((bytes.take 4).toByteArray.utf8DecodeChar? 0).isSome := by rw [h0]; rfl
  have hc : (bytes.take 4).toByteArray.utf8DecodeChar 0 hs = c := by
    simp [ByteArray.utf8DecodeChar, h0]
  have he := @ByteArray.utf8EncodeChar_utf8DecodeChar (bytes.take 4).toByteArray 0 hs
  rw [hc] at he
  have hd := congrArg (fun b => b.data.toList) he
  have h4 := Char.utf8Size_le_four c
  simp only [List.data_toByteArray, ByteArray.data_extract, List.extract_toArray,
    List.extract_eq_take_drop, List.drop_zero, Nat.zero_add, Nat.sub_zero] at hd
  rw [hd, List.take_take, Nat.min_eq_left h4]

theorem eq_append_of_decodeChar? {bytes : Bytes} {c : Char} (h : decodeChar? bytes = some c) :
    bytes = String.utf8EncodeChar c ++ bytes.drop c.utf8Size := by
  rw [← take_of_decodeChar? h, List.take_append_drop]

theorem drop_lt_of_decodeChar? {bytes : Bytes} {c : Char} (h : decodeChar? bytes = some c) :
    (bytes.drop c.utf8Size).length < bytes.length := by
  have hl := congrArg List.length (eq_append_of_decodeChar? h)
  have hc := Char.utf8Size_pos c
  rw [List.length_append, String.length_utf8EncodeChar] at hl
  omega

/-- `read` holds the characters already decoded, the newest first. -/
def decodeOnto (read : Text) (bytes : Bytes) : Text :=
  match _h : decodeChar? bytes with
  | none => read.reverse
  | some c => decodeOnto (c :: read) (bytes.drop c.utf8Size)
termination_by bytes.length
decreasing_by exact drop_lt_of_decodeChar? _h

def decodePrefix (bytes : Bytes) : Text := decodeOnto [] bytes

theorem decodeOnto_eq (read : Text) (bytes : Bytes) :
    decodeOnto read bytes = read.reverse ++ decodePrefix bytes := by
  unfold decodePrefix
  induction hn : bytes.length using Nat.strongRecOn generalizing read bytes with
  | ind n ih =>
      subst hn
      rw [decodeOnto.eq_def read, decodeOnto.eq_def []]
      split
      · simp
      · rename_i c hc
        have hl := drop_lt_of_decodeChar? hc
        rw [ih _ hl (c :: read) _ rfl, ih _ hl [c] _ rfl]
        simp

theorem decodePrefix_of_none {bytes : Bytes} (h : decodeChar? bytes = none) :
    decodePrefix bytes = [] := by
  rw [decodePrefix, decodeOnto.eq_def]
  split
  · rfl
  · simp_all

theorem decodePrefix_of_some {bytes : Bytes} {c : Char} (h : decodeChar? bytes = some c) :
    decodePrefix bytes = c :: decodePrefix (bytes.drop c.utf8Size) := by
  rw [decodePrefix, decodeOnto.eq_def]
  split
  · simp_all
  · rename_i d hd
    obtain rfl : d = c := by simpa [hd] using h
    rw [decodeOnto_eq]
    rfl

theorem decodePrefix_encode_append (t : Text) (rest : Bytes) :
    decodePrefix (encode t ++ rest) = t ++ decodePrefix rest := by
  induction t with
  | nil => rfl
  | cons c t ih =>
      rw [encode_cons, List.append_assoc, decodePrefix_of_some (decodeChar?_encode_append c _),
        List.drop_left' (String.length_utf8EncodeChar c), ih]
      rfl

theorem decodePrefix_encode (t : Text) : decodePrefix (encode t) = t := by
  have h := decodePrefix_encode_append t []
  rwa [@decodePrefix_of_none [] rfl, List.append_nil, List.append_nil] at h

theorem encode_decodePrefix (bytes : Bytes) :
    ∃ rest, bytes = encode (decodePrefix bytes) ++ rest ∧ decodeChar? rest = none := by
  induction hn : bytes.length using Nat.strongRecOn generalizing bytes with
  | ind n ih =>
      subst hn
      cases h : decodeChar? bytes with
      | none => exact ⟨bytes, by simp [decodePrefix_of_none h], h⟩
      | some c =>
          obtain ⟨rest, hr, hd⟩ := ih _ (drop_lt_of_decodeChar? h) _ rfl
          refine ⟨rest, ?_, hd⟩
          rw [decodePrefix_of_some h, encode_cons, List.append_assoc, ← hr]
          exact eq_append_of_decodeChar? h

end Sexpand.Utf8
