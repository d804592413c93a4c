import Sexpand.Text.Utf8

namespace Sexpand

/-- For each prefix of a pattern, by its length, the length of a border: a shorter prefix that it
ends with. -/
structure BorderTable where
  lengths : Array Nat
  two_le_size : 2 ≤ lengths.size
  getD_lt : ∀ n, 0 < n → lengths[n]?.getD 0 < n

namespace BorderTable

def border (t : BorderTable) (n : Nat) : Nat := t.lengths[n]?.getD 0

theorem border_lt (t : BorderTable) {n : Nat} (h : 0 < n) : t.border n < n := t.getD_lt n h

/-- Extends a match of `matched` bytes by one byte. Where the pattern goes on differently, the match
falls back to its border. -/
def advance (pattern : Utf8.Bytes) (t : BorderTable) (matched : Nat) (byte : UInt8) : Nat :=
  if pattern[matched]? = some byte then matched + 1
  else if _h : 0 < matched then advance pattern t (t.border matched) byte
  else 0
termination_by matched
decreasing_by exact t.border_lt _h

theorem advance_le (pattern : Utf8.Bytes) (t : BorderTable) (matched : Nat) (byte : UInt8) :
    advance pattern t matched byte ≤ matched + 1 := by
  fun_induction advance pattern t matched byte with
  | case1 => omega
  | case2 matched _ h ih =>
      have hb := t.border_lt h
      omega
  | case3 => omega

def base : BorderTable := ⟨#[0, 0], by decide, by rintro (_ | _ | n) h <;> simp_all⟩

theorem border_size_sub_one_lt (t : BorderTable) :
    t.border (t.lengths.size - 1) + 1 < t.lengths.size := by
  have h2 := t.two_le_size
  have hb := t.border_lt (n := t.lengths.size - 1) (by omega)
  omega

def grow (pattern : Utf8.Bytes) (t : BorderTable) (byte : UInt8) : BorderTable where
  lengths := t.lengths.push (advance pattern t (t.border (t.lengths.size - 1)) byte)
  two_le_size := by
    have h2 := t.two_le_size
    rw [Array.size_push]
    omega
  getD_lt := by
    intro n hn
    rw [Array.getElem?_push]
    split
    · rename_i h
      have ha := advance_le pattern t (t.border (t.lengths.size - 1)) byte
      have hb := t.border_size_sub_one_lt
      simp only [Option.getD_some]
      omega
    · exact t.getD_lt n hn

def ofPattern (pattern : Utf8.Bytes) : BorderTable := pattern.tail.foldl (grow pattern) base

end BorderTable

end Sexpand
