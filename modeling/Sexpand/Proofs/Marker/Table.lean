import Sexpand.Proofs.Marker.Release

namespace Sexpand

open Utf8 (Bytes)

/-- The first `n` bytes, if there are as many. -/
def Utf8.slice? (bytes : Bytes) (n : Nat) : Option Bytes :=
  if n ≤ bytes.length then some (bytes.take n) else none

theorem Utf8.slice?_of_le {bytes : Bytes} {n : Nat} (h : n ≤ bytes.length) :
    slice? bytes n = some (bytes.take n) :=
  if_pos h

namespace BorderTable

/-- Falls back from a match to its borders until `byte` extends one of them. Gives what each fall
leaves behind and the match in the end. There is no result where a place outside the pattern or the
table is read, nor where a fall does not make the match shorter. -/
def fall? (pattern : Bytes) (table : List Nat) (matched : Nat) (byte : UInt8) :
    Option (List Bytes × Nat) := do
  let next ← pattern[matched]?
  if next = byte then some ([], matched + 1)
  else if matched = 0 then some ([[byte]], 0)
  else
    let shorter ← table[matched]?
    if _h : shorter < matched then
      let left ← Utf8.slice? pattern (matched - shorter)
      let (others, matched) ← fall? pattern table shorter byte
      some (left :: others, matched)
    else none
termination_by matched
decreasing_by exact _h

/-- Sets the entries of the prefixes of `length` bytes and more, where `border` is the entry before
them. -/
def fill? (pattern : Bytes) (table : List Nat) (border length : Nat) : Option (List Nat) :=
  if length ≤ pattern.length then do
    let byte ← pattern[length - 1]?
    let (_, border) ← fall? pattern table border byte
    if length < table.length then fill? pattern (table.set length border) border (length + 1)
    else none
  else some table
termination_by pattern.length + 1 - length

def table? (pattern : Bytes) : Option (List Nat) :=
  fill? pattern (List.replicate (pattern.length + 1) 0) 0 2

section Fall

variable {pattern : Bytes} {table : List Nat} {matched : Nat} {byte : UInt8}

theorem fall?_of_eq (h : pattern[matched]? = some byte) :
    fall? pattern table matched byte = some ([], matched + 1) := by
  rw [fall?, h]
  exact if_pos rfl

theorem fall?_zero {next : UInt8} (h : pattern[0]? = some next) (hne : next ≠ byte) :
    fall? pattern table 0 byte = some ([[byte]], 0) := by
  rw [fall?, h]
  exact (if_neg hne).trans (if_pos rfl)

theorem fall?_of_ne {next : UInt8} {shorter : Nat} (h : pattern[matched]? = some next)
    (hne : next ≠ byte) (h0 : 0 < matched) (hshorter : table[matched]? = some shorter)
    (hlt : shorter < matched) (hslice : matched - shorter ≤ pattern.length) :
    fall? pattern table matched byte =
      (fall? pattern table shorter byte).map fun fallen =>
        (pattern.take (matched - shorter) :: fallen.1, fallen.2) := by
  rw [fall?, h, Option.bind_eq_bind, Option.bind_some, if_neg hne, if_neg (Nat.ne_of_gt h0),
    hshorter, Option.bind_eq_bind, Option.bind_some, dif_pos hlt, Utf8.slice?_of_le hslice]
  cases fall? pattern table shorter byte <;> rfl

end Fall

theorem getElem?_toList_lengths {t : BorderTable} {n : Nat} (h : n < t.lengths.size) :
    t.lengths.toList[n]? = some (t.border n) := by
  rw [border, Array.getElem?_toList, Array.getElem?_eq_getElem h]
  rfl

/-- The falls from a match inside the pattern end and read nothing outside, if the entries up to it
are borders. -/
theorem exists_fall?_eq {pattern : Bytes} {t : BorderTable} {table : List Nat} {matched : Nat}
    (byte : UInt8) (hlt : matched < pattern.length)
    (htable : ∀ n, 0 < n → n ≤ matched → table[n]? = some (t.border n)) :
    ∃ left, fall? pattern table matched byte = some (left, t.advance pattern matched byte) ∧
      ∀ m : Marker, m.bytes = pattern → m.borders = t → left = m.releases matched byte := by
  induction matched using Nat.strongRecOn with
  | ind matched ih =>
      have hnext := List.getElem?_eq_getElem hlt
      by_cases hbyte : pattern[matched] = byte
      · rw [hbyte] at hnext
        rw [fall?_of_eq hnext, advance, if_pos hnext]
        refine ⟨[], rfl, ?_⟩
        rintro m rfl rfl
        rw [Marker.releases, if_pos hnext]
      · have hne : pattern[matched]? ≠ some byte := by
          rw [hnext]
          exact fun h => hbyte (Option.some.inj h)
        rcases Nat.eq_zero_or_pos matched with rfl | h0
        · rw [fall?_zero hnext hbyte, advance, if_neg hne]
          refine ⟨[[byte]], rfl, ?_⟩
          rintro m rfl rfl
          rw [Marker.releases, if_neg hne]
          rfl
        · have hborder := t.border_lt h0
          obtain ⟨left, hleft, hreleases⟩ := ih (t.border matched) hborder (by omega)
            fun n hn hle => htable n hn (by omega)
          have hadvance : t.advance pattern matched byte =
              t.advance pattern (t.border matched) byte := by
            rw [advance, if_neg hne, dif_pos h0]
          refine ⟨pattern.take (matched - t.border matched) :: left, ?_, ?_⟩
          · rw [fall?_of_ne hnext hbyte h0 (htable matched h0 (Nat.le_refl _)) hborder (by omega),
              hleft, hadvance]
            rfl
          · rintro m rfl rfl
            rw [Marker.releases, if_neg hne, dif_pos h0, ← hreleases m rfl rfl]

theorem fill?_of_fall? {pattern : Bytes} {table : List Nat} {border next n : Nat}
    {left : List Bytes} (hlt : n < pattern.length)
    (hfall : fall? pattern table border pattern[n] = some (left, next))
    (hlength : n + 1 < table.length) :
    fill? pattern table border (n + 1) = fill? pattern (table.set (n + 1) next) next (n + 2) := by
  have hbyte : pattern[n + 1 - 1]? = some pattern[n] := List.getElem?_eq_getElem hlt
  rw [fill?, if_pos (Nat.succ_le_of_lt hlt), hbyte, Option.bind_eq_bind, Option.bind_some, hfall,
    Option.bind_eq_bind, Option.bind_some]
  exact if_pos hlength

/-- A table under way has the entries that are known, and zeros after them. -/
def pad (pattern : Bytes) (t : BorderTable) : List Nat :=
  t.lengths.toList ++ List.replicate (pattern.length + 1 - t.lengths.size) 0

variable {pattern : Bytes} {t : BorderTable} {n : Nat}

theorem getElem?_pad (h : n < t.lengths.size) : (t.pad pattern)[n]? = some (t.border n) := by
  rw [pad, List.getElem?_append_left (by simpa using h)]
  exact getElem?_toList_lengths h

theorem length_pad (h : t.lengths.size ≤ pattern.length) :
    (t.pad pattern).length = pattern.length + 1 := by
  rw [pad, List.length_append, List.length_replicate, Array.length_toList]
  omega

theorem pad_grow (h : t.lengths.size ≤ pattern.length) (byte : UInt8) :
    (t.grow pattern byte).pad pattern =
      (t.pad pattern).set t.lengths.size ((t.grow pattern byte).border t.lengths.size) := by
  obtain ⟨k, hk⟩ := Nat.exists_eq_add_of_le h
  have hzeros : pattern.length + 1 - t.lengths.size = k + 1 := by omega
  have hfewer : pattern.length + 1 - (t.lengths.size + 1) = k := by omega
  rw [border_grow_size, pad, pad, hzeros, List.set_append_right _ _ (by simp)]
  simp [grow, hfewer, List.replicate_succ]

theorem fill?_pad (rest : Bytes) (hrest : pattern.drop n = rest) (hn : n ≤ pattern.length)
    (hsize : t.lengths.size = n + 1) :
    fill? pattern (t.pad pattern) (t.border n) (n + 1) =
      some (rest.foldl (grow pattern) t).lengths.toList := by
  induction rest generalizing t n with
  | nil =>
      have hge := List.drop_eq_nil_iff.1 hrest
      rw [fill?, if_neg (by omega), pad, Nat.sub_eq_zero_of_le (by omega), List.replicate_zero,
        List.append_nil]
      rfl
  | cons byte rest ih =>
      have hlt : n < pattern.length := by
        apply Nat.lt_of_not_le
        intro hge
        rw [List.drop_eq_nil_of_le hge] at hrest
        cases hrest
      rw [List.drop_eq_getElem_cons hlt] at hrest
      obtain ⟨rfl, hr⟩ := List.cons.inj hrest
      have hborder : t.border n < n := by
        apply t.border_lt
        have h2 := t.two_le_size
        omega
      have hknown : ∀ k, 0 < k → k ≤ t.border n → (t.pad pattern)[k]? = some (t.border k) := by
        intro k _ hk
        apply getElem?_pad
        omega
      obtain ⟨left, hfall, -⟩ :=
        exists_fall?_eq pattern[n] (Nat.lt_trans hborder hlt) hknown
      have hroom : t.lengths.size ≤ pattern.length := by omega
      have hlength : n + 1 < (t.pad pattern).length := by
        rw [length_pad hroom]
        omega
      have hentry := border_grow_size pattern t pattern[n]
      have hpad := pad_grow hroom pattern[n]
      rw [hsize, Nat.add_sub_cancel] at hentry
      rw [hsize] at hpad
      rw [fill?_of_fall? hlt hfall hlength, ← hentry, ← hpad]
      exact ih hr hlt (by simp [grow, hsize])

theorem table?_eq (h : pattern ≠ []) :
    table? pattern = some (ofPattern pattern).lengths.toList := by
  have hlength := List.length_pos_iff.2 h
  have hpad : base.pad pattern = List.replicate (pattern.length + 1) 0 := by
    obtain ⟨n, hn⟩ := Nat.exists_eq_add_of_lt hlength
    simp [pad, base, hn, List.replicate_succ]
  have hfill := fill?_pad (t := base) (n := 1) pattern.tail (by simp) hlength rfl
  rw [hpad] at hfill
  exact hfill

-- The border of the sixth prefix comes from falling back once.
example : table? (Utf8.encode "aabaaab".toList) = some [0, 0, 1, 0, 1, 2, 2, 3] := by
  decide +kernel

theorem border_foldl_grow_of_lt (rest : Bytes) (h : n < t.lengths.size) :
    (rest.foldl (grow pattern) t).border n = t.border n := by
  induction rest generalizing t with
  | nil => rfl
  | cons byte rest ih =>
      rw [List.foldl_cons, ih (by simp only [grow, Array.size_push]; omega), border_grow_of_lt h]

end BorderTable

namespace Marker

theorem size_borders (m : Marker) : m.borders.lengths.size = m.bytes.length + 1 := by
  rw [m.borders_eq]
  exact (BorderTable.ofPattern_agrees m.bytes_ne_nil).1

theorem border_zero (m : Marker) : m.borders.border 0 = 0 := by
  rw [m.borders_eq]
  exact BorderTable.border_foldl_grow_of_lt m.bytes.tail (by decide)

theorem getElem?_borders (m : Marker) {n : Nat} (h : n ≤ m.bytes.length) :
    m.borders.lengths.toList[n]? = some (m.borders.border n) := by
  apply BorderTable.getElem?_toList_lengths
  rw [m.size_borders]
  exact Nat.lt_succ_of_le h

theorem fall?_borders (m : Marker) {matched : Nat} (byte : UInt8) (h : matched < m.bytes.length) :
    BorderTable.fall? m.bytes m.borders.lengths.toList matched byte =
      some (m.releases matched byte, (m.feed matched byte).2) := by
  obtain ⟨left, hfall, hleft⟩ := BorderTable.exists_fall?_eq byte h (t := m.borders)
    fun n _ hle => m.getElem?_borders (by omega)
  rw [hfall, hleft m rfl rfl]
  rfl

end Marker

end Sexpand
