import Sexpand.Proofs.Marker.Overlap

namespace Sexpand.Marker

open Utf8 (Bytes)

variable (m : Marker)

theorem take_sub_append_take_border {matched : Nat} (h0 : 0 < matched)
    (hle : matched ≤ m.bytes.length) :
    m.bytes.take (matched - m.borders.border matched) ++ m.bytes.take (m.borders.border matched) =
      m.bytes.take matched := by
  -- The border stands at the end of the match, and `lost` is what stands before it.
  obtain ⟨⟨lost, hlost⟩, -⟩ := m.borders_agrees matched h0 (Nat.lt_succ_of_le hle)
  have hlt := m.borders.border_lt h0
  have hlength := congrArg List.length hlost
  rw [List.length_append, List.length_take, List.length_take, Nat.min_eq_left hle,
    Nat.min_eq_left (by omega)] at hlength
  have hlost' : (m.bytes.take matched).take lost.length = lost := by rw [← hlost, List.take_left]
  rw [List.take_take, Nat.min_eq_left (by omega)] at hlost'
  rw [show matched - m.borders.border matched = lost.length by omega, hlost', hlost]

/-- What is written piece by piece for one byte. Each border that the match falls back to leaves some
bytes of it behind, and a byte that goes on with none of the borders is written itself. -/
def releases (matched : Nat) (byte : UInt8) : List Bytes :=
  if m.bytes[matched]? = some byte then []
  else if _h : 0 < matched then
    m.bytes.take (matched - m.borders.border matched) ::
      releases (m.borders.border matched) byte
  else [[byte]]
termination_by matched
decreasing_by exact m.borders.border_lt _h

theorem flatten_releases_append_held {matched : Nat} (byte : UInt8)
    (hle : matched ≤ m.bytes.length) :
    (m.releases matched byte).flatten ++ m.bytes.take (m.feed matched byte).2 =
      m.bytes.take matched ++ [byte] := by
  change _ ++ m.bytes.take (m.borders.advance m.bytes matched byte) = _
  fun_induction releases m matched byte with
  | case1 matched hbyte =>
      rw [BorderTable.advance, if_pos hbyte, List.take_add_one, hbyte]
      rfl
  | case2 matched hbyte hpos ih =>
      have hlt := m.borders.border_lt hpos
      rw [BorderTable.advance, if_neg hbyte, dif_pos hpos, List.flatten_cons, List.append_assoc,
        ih (by omega), ← List.append_assoc, m.take_sub_append_take_border hpos hle]
  | case3 matched hbyte hpos =>
      obtain rfl : matched = 0 := by omega
      rw [BorderTable.advance, if_neg hbyte, dif_neg hpos]
      rfl

theorem flatten_releases {read : Bytes} {matched : Nat} (byte : UInt8)
    (h : Overlap m.bytes read matched) :
    (m.releases matched byte).flatten = (m.feed matched byte).1 := by
  apply List.append_cancel_right
  rw [m.flatten_releases_append_held byte h.le_length, m.released_append_held byte h]

end Sexpand.Marker
