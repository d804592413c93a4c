import Sexpand.Proofs.Lexeme.Extent
import Sexpand.Proofs.Text.Utf8

namespace Sexpand

open Utf8 (Bytes)

/-- A character that takes one byte stands wherever that byte does. -/
theorem Utf8.mem_of_mem_encode {c : Char} {byte : UInt8} (hc : encode [c] = [byte]) {t : Text}
    (h : byte ∈ encode t) : c ∈ t := by
  obtain ⟨front, back, ht⟩ := List.append_of_mem h
  have hprefix : encode [c] <+: (encode t).drop front.length := by
    rw [ht, List.drop_left, hc]
    exact List.prefix_append [byte] back
  obtain ⟨before, after, rfl, -⟩ :=
    exists_eq_of_encode_isPrefix_drop (List.cons_ne_nil c []) hprefix
  simp

namespace Text

theorem size_reverse (t : Text) : size t.reverse = size t := by
  induction t with
  | nil => rfl
  | cons c t ih =>
      rw [List.reverse_cons, size_append, ih, size_cons, size_cons, size_nil]
      omega

def blanks : Text := [' ', '\t', '\n', '\r', '\x0B', '\x0C']

theorem isBlank_iff_mem_blanks (c : Char) : isBlank c = true ↔ c ∈ blanks := by
  simp [isBlank, blanks, or_assoc]

theorem exists_trimLeft (t : Text) :
    ∃ left, t = left ++ trimLeft t ∧ (∀ c ∈ left, isBlank c = true) ∧
      (trimLeft t).head?.any isBlank = false := by
  refine ⟨t.takeWhile isBlank, List.takeWhile_append_dropWhile.symm,
    List.all_eq_true.1 List.all_takeWhile, ?_⟩
  have hhead := List.head?_dropWhile_not isBlank t
  rw [trimLeft]
  cases hd : (t.dropWhile isBlank).head? with
  | none => rfl
  | some c =>
      rw [hd] at hhead
      simpa using hhead

theorem exists_trimRight (t : Text) :
    ∃ right, t = trimRight t ++ right ∧ (∀ c ∈ right, isBlank c = true) ∧
      (trimRight t).getLast?.any isBlank = false := by
  obtain ⟨left, ht, hblank, hhead⟩ := exists_trimLeft t.reverse
  refine ⟨left.reverse, ?_, by simpa using hblank, by simpa [trimRight] using hhead⟩
  rw [trimRight, ← List.reverse_append, ← ht, List.reverse_reverse]

theorem exists_trim (t : Text) :
    ∃ left right, t = left ++ (trim t ++ right) ∧ (∀ c ∈ left ++ right, isBlank c = true) ∧
      (trim t).IsTrimmed := by
  obtain ⟨left, ht, hleft, hhead⟩ := exists_trimLeft t
  obtain ⟨right, hmiddle, hright, hlast⟩ := exists_trimRight (trimLeft t)
  refine ⟨left, right, ?_, List.forall_mem_append.2 ⟨hleft, hright⟩, ?_, hlast⟩
  · rw [trim, ← hmiddle]
    exact ht
  · rw [trim]
    cases htrim : trimRight (trimLeft t) with
    | nil => rfl
    | cons c u =>
        rw [hmiddle, htrim] at hhead
        exact hhead

end Text

namespace Lexeme

/-- Counts the open braces byte by byte, and gives the place of the byte after which none is open.
There is no result where a brace would close none. -/
def closingPlace? (depth place : Nat) : Bytes → Option (Option Nat)
  | [] => some none
  | byte :: bytes =>
      if byte = 0x7B then closingPlace? (depth + 1) (place + 1) bytes
      else if byte = 0x7D then
        if depth = 0 then none
        else if depth - 1 = 0 then some (some place)
        else closingPlace? (depth - 1) (place + 1) bytes
      else closingPlace? depth (place + 1) bytes

theorem closingPlace?_append {bytes : Bytes} (hopen : 0x7B ∉ bytes) (hclose : 0x7D ∉ bytes)
    (depth place : Nat) (rest : Bytes) :
    closingPlace? depth place (bytes ++ rest) =
      closingPlace? depth (place + bytes.length) rest := by
  induction bytes generalizing place with
  | nil => rfl
  | cons byte bytes ih =>
      rw [List.mem_cons, not_or] at hopen hclose
      rw [List.cons_append, closingPlace?, if_neg (Ne.symm hopen.1), if_neg (Ne.symm hclose.1),
        ih hopen.2 hclose.2, List.length_cons, Nat.add_assoc, Nat.add_comm 1]

theorem closingPlace?_encode_cons {c : Char} (hopen : c ≠ '{') (hclose : c ≠ '}')
    (depth place : Nat) (t : Text) :
    closingPlace? depth place (Utf8.encode (c :: t)) =
      closingPlace? depth (c.utf8Size + place) (Utf8.encode t) := by
  have hnone : ∀ (brace : Char) (byte : UInt8), Utf8.encode [brace] = [byte] → c ≠ brace →
      byte ∉ String.utf8EncodeChar c := by
    intro brace byte hbyte hne hmem
    have hc : brace ∈ [c] := Utf8.mem_of_mem_encode hbyte (by simpa using hmem)
    exact hne (List.mem_singleton.1 hc).symm
  rw [Utf8.encode_cons, closingPlace?_append (hnone '{' _ rfl hopen) (hnone '}' _ rfl hclose),
    String.length_utf8EncodeChar, Nat.add_comm]

/-- The bytes of other characters look like no brace, so the search may go by characters. -/
theorem closingPlace?_encode (taken : Text) (depth : Nat) (t : Text) :
    closingPlace? (depth + 1) (Text.size taken) (Utf8.encode t) =
      some ((cutBlock taken depth t).2.map fun _ => Text.size (cutBlock taken depth t).1) := by
  fun_induction cutBlock taken depth t with
  | case1 taken depth => rfl
  | case2 taken depth t ih =>
      rw [← ih, Text.size_cons, Nat.add_comm ('{').utf8Size]
      rfl
  | case3 taken t =>
      rw [Text.size_reverse]
      rfl
  | case4 taken depth t ih =>
      rw [← ih, Text.size_cons, Nat.add_comm ('}').utf8Size]
      rfl
  | case5 taken depth c t hopen hclose hclose' ih =>
      rw [← ih, Text.size_cons]
      apply closingPlace?_encode_cons
      · exact hopen
      · intro hc
        cases depth with
        | zero => exact hclose rfl hc
        | succ depth => exact hclose' depth rfl hc

theorem exists_next?_block (r : Text) :
    ∃ interior closed rest, next? ('{' :: r) = some (.block interior closed, rest) ∧
      closingPlace? 1 0 (Utf8.encode r) =
        some (if closed then some (Text.size interior) else none) := by
  have hplace := closingPlace?_encode [] 0 r
  cases hcut : cutBlock [] 0 r with
  | mk interior rest =>
      rw [hcut] at hplace
      cases rest with
      | none => exact ⟨interior, false, [], by rw [next?, hcut], hplace⟩
      | some rest => exact ⟨interior, true, rest, by rw [next?, hcut], hplace⟩

theorem ofText_block {t : Text} (h : t.IsNested) (u : Text) :
    Token.ofText ('{' :: t ++ '}' :: u) =
      (.fragment (Text.trim t), ⟨.block t true, 0⟩) ::
        Token.ofTextAt (Placed.stop ⟨.block t true, 0⟩) u := by
  have hstop : Placed.stop ⟨.block t true, 0⟩ = 0 + Text.size (block t true).slice := rfl
  rw [hstop]
  exact Token.ofTextAt_of_token (next?_block h u) rfl 0

/-- A block ends at the first brace that closes more than are open, and without one it takes all that
is left. Its token is what it holds, trimmed. So a nested text in braces is one token, whatever
follows it. -/
theorem block_ends_where_balanced (r : Text) :
    (∃ interior closed rest, next? ('{' :: r) = some (.block interior closed, rest) ∧
      closingPlace? 1 0 (Utf8.encode r) =
        some (if closed then some (Text.size interior) else none) ∧
      (∀ front, front <+: interior → front.count '}' ≤ front.count '{') ∧
      (closed = true → r = interior ++ '}' :: rest ∧ interior.IsNested ∧
        (interior ++ ['}']).count '{' < (interior ++ ['}']).count '}') ∧
      (closed = false → r = interior ∧ rest = [])) ∧
    (∀ interior closed, (block interior closed).token? = some (.fragment (Text.trim interior)) ∧
      ∃ left right, interior = left ++ (Text.trim interior ++ right) ∧
        (∀ c ∈ left ++ right, Text.isBlank c = true) ∧ (Text.trim interior).IsTrimmed) ∧
    (∀ c, Text.isBlank c = true ↔ c ∈ Text.blanks) ∧
    ∀ t u : Text, t.IsNested → ∃ p after,
      Token.ofText ('{' :: t ++ '}' :: u) = (.fragment (Text.trim t), p) :: after ∧
        p.start = 0 ∧ p.stop = Text.size t + 2 := by
  refine ⟨?_, ?_, Text.isBlank_iff_mem_blanks, ?_⟩
  · obtain ⟨interior, closed, rest, hnext, hplace⟩ := exists_next?_block r
    obtain ⟨hfronts, hcounts⟩ := counts_of_next? hnext
    have hslice := slice_append_of_next? hnext
    have hread := isRead_of_next? hnext
    refine ⟨interior, closed, rest, hnext, hplace, hfronts, ?_, ?_⟩
    · rintro rfl
      have hcount := hcounts rfl
      refine ⟨by simpa [slice] using hslice.symm, ⟨hfronts, hcount⟩, ?_⟩
      rw [List.count_append, List.count_append, hcount]
      exact Nat.lt_succ_self _
    · rintro rfl
      obtain rfl : rest = [] := hread rfl
      exact ⟨by simpa [slice] using hslice.symm, rfl⟩
  · intro interior closed
    exact ⟨rfl, Text.exists_trim interior⟩
  · intro t u ht
    refine ⟨⟨.block t true, 0⟩, _, ofText_block ht u, rfl, ?_⟩
    have hbraces : ('{').utf8Size = 1 ∧ ('}').utf8Size = 1 := ⟨rfl, rfl⟩
    simp only [Placed.stop, slice, if_true, List.cons_append, Text.size_cons, Text.size_append,
      Text.size_nil, hbraces]
    omega

end Lexeme

end Sexpand
