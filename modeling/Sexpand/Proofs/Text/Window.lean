import Sexpand.Proofs.Text.Utf8
import Sexpand.Text.Window

namespace Sexpand

namespace Window

/-- The window holds what a decoding from its start on gives, unless nothing has been decoded. -/
def Agrees (input : Utf8.Bytes) (w : Window) : Prop :=
  w = empty ∨ w.text = Utf8.decodePrefix (input.drop w.start)

theorem text_moveTo {input : Utf8.Bytes} {w : Window} {position : Nat} (h : w.Agrees input)
    (hpos : 0 < position) :
    (w.moveTo position (input.drop position)).text =
      Utf8.decodePrefix (input.drop position) := by
  unfold moveTo
  split
  · rename_i text ht
    rcases h with rfl | h
    · simp [textAt?_empty hpos] at ht
    · unfold textAt? at ht
      split at ht
      · rename_i hle
        obtain ⟨front, hf, hs⟩ := Text.dropBytes?_eq_some_iff.1 ht
        have hd := Utf8.decodePrefix_drop (h.symm.trans hf)
        rw [List.drop_drop, hs, Nat.add_sub_cancel' hle] at hd
        exact hd.symm
      · simp at ht
  · rfl

theorem agrees_moveTo {input : Utf8.Bytes} {w : Window} {position : Nat} (h : w.Agrees input)
    (hpos : 0 < position) : (w.moveTo position (input.drop position)).Agrees input := by
  right
  rw [text_moveTo h hpos, start_moveTo]

def stop (w : Window) : Nat := w.start + Text.size w.text

theorem textAt?_eq_some_iff {w : Window} {position : Nat} {text : Text} :
    w.textAt? position = some text ↔
      ∃ front, w.text = front ++ text ∧ w.start + Text.size front = position := by
  rw [textAt?]
  split
  · rename_i hle
    rw [Text.dropBytes?_eq_some_iff]
    refine exists_congr fun front => and_congr_right fun _ => ?_
    omega
  · rename_i hlt
    simp only [reduceCtorEq, false_iff]
    rintro ⟨front, -, hsize⟩
    omega

/-- A later place is looked up alike in a window and in what it holds from an earlier place on. -/
theorem textAt?_congr {w kept : Window} (h : kept.textAt? w.start = some w.text) {position : Nat}
    (hle : w.start ≤ position) : w.textAt? position = kept.textAt? position := by
  obtain ⟨before, hkept, hstart⟩ := textAt?_eq_some_iff.1 h
  apply Option.ext
  intro text
  rw [textAt?_eq_some_iff, textAt?_eq_some_iff, hkept]
  constructor
  · rintro ⟨front, htext, hposition⟩
    refine ⟨before ++ front, by rw [htext, List.append_assoc], ?_⟩
    rw [Text.size_append]
    omega
  · rintro ⟨front, htext, hposition⟩
    obtain ⟨back, rfl, hback⟩ | ⟨back, rfl, hback⟩ := List.append_eq_append_iff.1 htext
    · rw [Text.size_append] at hposition
      exact ⟨back, hback, by omega⟩
    · rw [Text.size_append] at hstart
      have hnil : Text.size back = 0 := by omega
      obtain rfl : back = [] := Classical.not_not.1 fun hne => Nat.ne_of_gt (Text.size_pos hne) hnil
      exact ⟨[], by simpa using hback.symm, by simp at hposition ⊢; omega⟩

theorem moveTo_of_some {w : Window} {position : Nat} {rest : Utf8.Bytes} {text : Text}
    (h : w.textAt? position = some text) :
    w.moveTo position rest = ⟨position, text, w.checked⟩ := by
  rw [moveTo, h]

theorem moveTo_of_none {w : Window} {position : Nat} {rest : Utf8.Bytes}
    (h : w.textAt? position = none) : w.moveTo position rest = decode w.checked position rest := by
  rw [moveTo, h]

/-- A window that holds the text is moved without its end. -/
theorem stop_moveTo_of_some {w : Window} {position : Nat} {rest : Utf8.Bytes} {text : Text}
    (h : w.textAt? position = some text) : (w.moveTo position rest).stop = w.stop := by
  obtain ⟨front, htext, hposition⟩ := textAt?_eq_some_iff.1 h
  rw [moveTo_of_some h, stop, stop, htext, Text.size_append]
  dsimp only
  omega

theorem stop_decode_le (checked position : Nat) (rest : Utf8.Bytes) :
    (decode checked position rest).stop ≤ position + rest.length := by
  have hle := (Utf8.encode_decodePrefix_isPrefix rest).length_le
  rw [Utf8.length_encode] at hle
  exact Nat.add_le_add_left hle position

end Window

end Sexpand
