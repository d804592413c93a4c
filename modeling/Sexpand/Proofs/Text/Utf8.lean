import Sexpand.Text.Utf8

namespace Sexpand.Utf8

theorem decodePrefix_drop {bytes : Bytes} {front back : Text}
    (h : decodePrefix bytes = front ++ back) :
    decodePrefix (bytes.drop (Text.size front)) = back := by
  obtain ⟨rest, hr, hd⟩ := encode_decodePrefix bytes
  rw [h, encode_append, List.append_assoc] at hr
  rw [hr, List.drop_left' (length_encode front), decodePrefix_encode_append,
    decodePrefix_of_none hd, List.append_nil]

theorem prefix_decodePrefix_iff {t : Text} {bytes : Bytes} :
    t <+: decodePrefix bytes ↔ encode t <+: bytes := by
  constructor
  · rintro ⟨back, hb⟩
    obtain ⟨rest, hr, -⟩ := encode_decodePrefix bytes
    rw [← hb, encode_append, List.append_assoc] at hr
    exact ⟨_, hr.symm⟩
  · rintro ⟨rest, rfl⟩
    rw [decodePrefix_encode_append]
    exact List.prefix_append _ _

theorem encode_decodePrefix_isPrefix (bytes : Bytes) : encode (decodePrefix bytes) <+: bytes :=
  prefix_decodePrefix_iff.1 (List.prefix_refl _)

theorem encode_isPrefix_iff {t u : Text} : encode t <+: encode u ↔ t <+: u := by
  rw [← prefix_decodePrefix_iff, decodePrefix_encode]

/-- No character starts in the middle of another. -/
theorem not_encode_isPrefix_drop {c d : Char} {t : Text} {n : Nat} (h0 : 0 < n)
    (hn : n < d.utf8Size) (rest : Bytes) :
    ¬ encode (c :: t) <+: (String.utf8EncodeChar d ++ rest).drop n := by
  rintro ⟨back, h⟩
  have hc : 0 < (String.utf8EncodeChar c).length := by simp [Char.utf8Size_pos]
  have hd : n < (String.utf8EncodeChar d).length := by simpa using hn
  have hfirst := congrArg (·[0]?) h
  simp only [encode_cons, List.append_assoc, List.getElem?_drop, Nat.add_zero] at hfirst
  rw [List.getElem?_append_left hc, List.getElem?_append_left hd, List.getElem?_eq_getElem hc,
    List.getElem?_eq_getElem hd] at hfirst
  have hbyte : (String.utf8EncodeChar d)[n].IsUTF8FirstByte := by
    rw [← Option.some.inj hfirst]
    exact UInt8.isUTF8FirstByte_getElem_zero_utf8EncodeChar
  have hzero := UInt8.isUTF8FirstByte_getElem_utf8EncodeChar.1 hbyte
  omega

/-- Wherever the bytes of a text occur among those of another, its characters do. -/
theorem exists_eq_of_encode_isPrefix_drop {s t : Text} {n : Nat} (ht : t ≠ [])
    (h : encode t <+: (encode s).drop n) :
    ∃ front back, s = front ++ (t ++ back) ∧ Text.size front = n := by
  obtain ⟨c, t, rfl⟩ := List.exists_cons_of_ne_nil ht
  induction s generalizing n with
  | nil =>
      have hl := h.length_le
      have hs := Text.size_pos ht
      rw [length_encode, encode_nil, List.drop_nil, List.length_nil] at hl
      omega
  | cons d s ih =>
      rcases Nat.eq_zero_or_pos n with rfl | h0
      · rw [List.drop_zero, encode_isPrefix_iff] at h
        obtain ⟨back, hb⟩ := h
        exact ⟨[], back, hb.symm, rfl⟩
      · by_cases hle : d.utf8Size ≤ n
        · rw [encode_cons d, List.drop_append, List.drop_eq_nil_of_le (by simpa using hle),
            List.nil_append, String.length_utf8EncodeChar] at h
          obtain ⟨front, back, rfl, hs⟩ := ih h
          refine ⟨d :: front, back, rfl, ?_⟩
          rw [Text.size_cons, hs]
          omega
        · exact absurd h (not_encode_isPrefix_drop h0 (Nat.lt_of_not_le hle) _)

def text? (bytes : Bytes) : Option Text := (String.fromUTF8? bytes.toByteArray).map String.toList

theorem text?_eq_some_iff {bytes : Bytes} {t : Text} : text? bytes = some t ↔ encode t = bytes := by
  have hencode : (String.ofList t).toByteArray = (encode t).toByteArray := by
    rw [String.toByteArray_ofList]
    rfl
  rw [text?, String.fromUTF8?]
  constructor
  · intro h
    split at h
    · rename_i hv
      obtain rfl := Option.some.inj h
      rw [String.ofList_toList] at hencode
      exact (List.toByteArray_inj.1 hencode).symm
    · simp at h
  · rintro rfl
    have hv : (encode t).toByteArray.IsValidUTF8 := hencode ▸ (String.ofList t).isValidUTF8
    have hs : String.fromUTF8 (encode t).toByteArray hv = String.ofList t :=
      String.toByteArray_inj.1 hencode.symm
    rw [dif_pos hv, hs, Option.map_some, String.toList_ofList]

/-- The text of the longest valid prefix of at most `n` bytes. Every length is tried, the longest
first. -/
def longestText (bytes : Bytes) : Nat → Text
  | 0 => []
  | n + 1 => (text? (bytes.take (n + 1))).getD (longestText bytes n)

theorem longestText_eq_of_le {bytes : Bytes} {n : Nat} (hs : Text.size (decodePrefix bytes) ≤ n)
    (hn : n ≤ bytes.length) : longestText bytes n = decodePrefix bytes := by
  induction n with
  | zero =>
      have hl := Text.length_le_size (decodePrefix bytes)
      exact (List.eq_nil_of_length_eq_zero (by omega)).symm
  | succ n ih =>
      rw [longestText]
      cases ht : text? (bytes.take (n + 1)) with
      | none =>
          refine ih (Nat.lt_succ_iff.1 (Nat.lt_of_le_of_ne hs fun he => ?_)) (by omega)
          have hp := List.prefix_iff_eq_take.1 (encode_decodePrefix_isPrefix bytes)
          rw [length_encode, he] at hp
          simp [text?_eq_some_iff.2 hp] at ht
      | some t =>
          have he := text?_eq_some_iff.1 ht
          have hp : t <+: decodePrefix bytes := prefix_decodePrefix_iff.2 (he ▸ List.take_prefix _ _)
          have hsize : Text.size t = n + 1 := by
            rw [← length_encode, he, List.length_take, Nat.min_eq_left hn]
          obtain ⟨back, hb⟩ := hp
          have hback := congrArg Text.size hb
          rw [Text.size_append] at hback
          have hl := Text.length_le_size back
          obtain rfl : back = [] := List.eq_nil_of_length_eq_zero (by omega)
          rw [Option.getD_some, ← hb, List.append_nil]

theorem longestText_eq_decodePrefix (bytes : Bytes) :
    longestText bytes bytes.length = decodePrefix bytes := by
  apply longestText_eq_of_le _ (Nat.le_refl _)
  have h := (encode_decodePrefix_isPrefix bytes).length_le
  rwa [length_encode] at h

end Sexpand.Utf8
