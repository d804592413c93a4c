import Sexpand.Proofs.Sexp.Descent
import Sexpand.Proofs.Sexp.Printable
import Sexpand.Proofs.Sexp.Resumption

namespace Sexpand

namespace Sexp

theorem depthItems_le_iff {items : List Sexp} {n : Nat} :
    depthItems items ≤ n ↔ ∀ item ∈ items, item.depth ≤ n := by
  induction items with
  | nil => simp [depthItems]
  | cons item items ih => rw [depthItems, Nat.max_le, ih, List.forall_mem_cons]

/-- No atom is empty, and lists nest at most `room` deep. -/
def Fits (room : Nat) (e : Sexp) : Prop := (∀ t ∈ e.texts, t ≠ []) ∧ e.depth ≤ room

theorem fits_atom {t : Text} (h : t ≠ []) (room : Nat) : (atom t).Fits room :=
  ⟨by simpa [texts] using h, Nat.zero_le room⟩

theorem fits_list {items : List Sexp} {room : Nat} (h : ∀ item ∈ items, item.Fits room) :
    (list items).Fits (room + 1) := by
  refine ⟨fun t ht => ?_, Nat.succ_le_succ (depthItems_le_iff.2 fun item hitem => (h item hitem).2)⟩
  obtain ⟨item, hitem, ht⟩ := mem_textsItems.1 ht
  exact (h item hitem).1 t ht

end Sexp

namespace Draft

structure Fits (room : Nat) (d : Draft) : Prop where
  items : ∀ item ∈ d.items, item.Fits room
  length_le : ∀ k ∈ d.limit, d.items.length ≤ k

theorem length_lt_of_not_full {d : Draft} (h : d.isFull = false) :
    ∀ k ∈ d.limit, d.items.length < k := by
  rcases d with ⟨items, word, _ | limit⟩
  · simp
  · simpa [isFull] using h

namespace Fits

variable {room : Nat} {d : Draft}

theorem addItem (h : d.Fits room) {item : Sexp} (hitem : item.Fits room) (hfull : d.isFull = false) :
    (d.addItem item).Fits room where
  items := List.forall_mem_cons.2 ⟨hitem, h.items⟩
  length_le := length_lt_of_not_full hfull

theorem endWord (h : d.Fits room) (hword : d.isFull = true → d.word = []) : d.endWord.Fits room := by
  obtain ⟨items, _ | ⟨c, word⟩, limit⟩ := d
  · exact h
  · have hfull : isFull ⟨items, c :: word, limit⟩ = false :=
      eq_false_of_ne_true fun hfull => List.cons_ne_nil c word (hword hfull)
    have hatom : (Sexp.atom (c :: word).reverse).Fits room := Sexp.fits_atom (by simp) room
    exact ⟨(h.addItem hatom hfull).items, (h.addItem hatom hfull).length_le⟩

theorem finish (h : d.Fits room) :
    (∀ item ∈ d.finish, item.Fits room) ∧ ∀ k ∈ d.limit, d.finish.length ≤ k := by
  by_cases hfull : d.isFull = true
  · rw [Draft.finish, if_pos hfull]
    simpa using And.intro h.items h.length_le
  · have hend := h.endWord fun h => absurd h hfull
    rw [Draft.finish, if_neg hfull, ← d.limit_endWord]
    simpa using And.intro hend.items hend.length_le

end Fits

/-- The list `d` is under way within others, the innermost of them first. Only the outermost has a
limit, and all that wait for a list in them to end have a place for it. -/
inductive Nested (limit : Option Nat) : (d : Draft) → List Draft → Prop
  | outermost {d : Draft} (h : d.Fits Nest.maxDepth) (hlimit : d.limit = limit) : Nested limit d []
  | inner {d parent : Draft} {parents : List Draft}
      (h : d.Fits (Nest.maxDepth - (parents.length + 1))) (hlimit : d.limit = none)
      (hdepth : parents.length < Nest.maxDepth) (hfull : parent.isFull = false)
      (hparent : Nested limit parent parents) : Nested limit d (parent :: parents)

namespace Nested

variable {limit : Option Nat} {d parent : Draft} {parents : List Draft}

theorem fits (h : Nested limit d parents) : d.Fits (Nest.maxDepth - parents.length) := by
  cases h with
  | outermost h hlimit => exact h
  | inner h hlimit hdepth hfull hparent => exact h

theorem replace (h : Nested limit d parents) {d' : Draft}
    (hfits : d'.Fits (Nest.maxDepth - parents.length)) (hlimit : d'.limit = d.limit) :
    Nested limit d' parents := by
  cases h with
  | outermost _ hd => exact .outermost hfits (hlimit.trans hd)
  | inner _ hd hdepth hfull hparent => exact .inner hfits (hlimit.trans hd) hdepth hfull hparent

theorem addText (h : Nested limit d parents) (text : Text) : Nested limit (d.addText text) parents :=
  h.replace ⟨h.fits.items, h.fits.length_le⟩ rfl

theorem endWord (h : Nested limit d parents) (hword : d.isFull = true → d.word = []) :
    Nested limit d.endWord parents :=
  h.replace (h.fits.endWord hword) d.limit_endWord

theorem openList (h : Nested limit d parents) (hfull : d.isFull = false)
    (hdepth : parents.length < Nest.maxDepth) : Nested limit (.empty none) (d :: parents) :=
  .inner ⟨by simp [empty], by simp [empty]⟩ rfl hdepth hfull h

theorem closeList (h : Nested limit d (parent :: parents)) :
    Nested limit (parent.addItem (.list d.finish)) parents := by
  cases h with
  | inner h hlimit hdepth hfull hparent =>
      have hlist := Sexp.fits_list h.finish.1
      have hroom : Nest.maxDepth - (parents.length + 1) + 1 = Nest.maxDepth - parents.length := by
        omega
      rw [hroom] at hlist
      exact hparent.replace (hparent.fits.addItem hlist hfull) rfl

/-- Lists that the source leaves open are closed as by parentheses. -/
theorem finish (h : Nested limit d parents) (rawDepth : Nat) :
    let items := Nest.finish ⟨d, parents, rawDepth⟩
    (∀ item ∈ items, item.Fits Nest.maxDepth) ∧ ∀ k ∈ limit, items.length ≤ k := by
  induction parents generalizing d with
  | nil =>
      cases h with
      | outermost h hlimit =>
          subst hlimit
          exact h.finish
  | cons parent parents ih => exact ih h.closeList

end Nested

end Draft

namespace Nest

/-- What holds whenever a token is read. A list with the limit 0 is full from the start. -/
structure IsReading (limit : Option Nat) (n : Nest) : Prop where
  nested : n.current.Nested limit n.parents
  of_full : n.current.isFull = true → n.current.word = [] ∧ n.rawDepth = 0

theorem isReading_start (limit : Option Nat) : (start limit).IsReading limit where
  nested := .outermost ⟨by simp [start, Draft.empty], by simp [start, Draft.empty]⟩ rfl
  of_full := fun _ => ⟨rfl, rfl⟩

def Step.Fits (limit : Option Nat) : Step → Prop
  | .more n => n.IsReading limit
  | .last n | .before n => n.current.Nested limit n.parents

theorem fits_unlessFull {limit : Option Nat} {n : Nest} (h : n.current.Nested limit n.parents) :
    n.unlessFull.Fits limit := by
  by_cases hfull : n.current.isFull = true
  · rw [unlessFull, if_pos hfull]
    exact h
  · rw [unlessFull_of_not_full hfull]
    exact ⟨h, fun h => absurd h hfull⟩

theorem IsReading.fits_step {limit : Option Nat} {n : Nest} (h : n.IsReading limit) (token : Token)
    (slice : Text) : (n.step token slice).Fits limit := by
  have hend := h.nested.endWord fun hfull => (h.of_full hfull).1
  fun_cases step n token slice with
  | case1 token hraw =>
      exact ⟨h.nested.addText slice,
        fun hfull => absurd (h.of_full hfull).2 (Nat.ne_of_gt hraw)⟩
  | case2 hraw text => exact fits_unlessFull (h.nested.addText text)
  | case3 hraw => exact fits_unlessFull hend
  | case4 hraw hfull => exact hend
  | case5 hraw hfull hdepth =>
      exact fits_unlessFull (hend.openList (eq_false_of_ne_true hfull) hdepth)
  | case6 hraw hfull hdepth => exact fits_unlessFull (hend.addText slice)
  | case7 hraw hparents => exact hend
  | case8 hraw parent parents hparents =>
      have hnested := h.nested
      rw [hparents] at hnested
      exact fits_unlessFull hnested.closeList

end Nest

namespace Reader

theorem nested_fill {limit : Option Nat} {n : Nest} (h : n.IsReading limit) (r : Reader) :
    (fill n r).nest.current.Nested limit (fill n r).nest.parents := by
  fun_induction fill n r with
  | case1 n r hnext => exact h.nested
  | case2 n r lexeme rest hnext stop hcomment ih => exact ih h
  | case3 n r lexeme rest hnext stop token htoken next hstep ih =>
      have hfits := h.fits_step token lexeme.slice
      rw [hstep] at hfits
      exact ih hfits
  | case4 n r lexeme rest hnext stop token htoken next hstep =>
      have hfits := h.fits_step token lexeme.slice
      rwa [hstep] at hfits
  | case5 n r lexeme rest hnext stop token htoken next hstep =>
      have hfits := h.fits_step token lexeme.slice
      rwa [hstep] at hfits

/-- However many lists have been read and with whatever limits, the next one holds no empty atom, is
not nested too deep and not too long, and leaves the offset at a character of the source, not before
the one where it was. -/
theorem readList_fits (source : Text) (history : List (Option Nat)) (limit : Option Nat) :
    let r := (ofText source).after history
    let next := r.readList limit
    (∀ e ∈ next.1, (∀ t ∈ e.texts, t ≠ []) ∧ e.depth ≤ Nest.maxDepth) ∧
      (∀ k ∈ limit, next.1.length ≤ k) ∧
      r.consumed ≤ next.2.consumed ∧ next.2.consumed ≤ Text.size source ∧
      ∃ front rest, source = front ++ rest ∧ Text.size front = next.2.consumed := by
  intro r next
  obtain ⟨hitems, hlength⟩ := (nested_fill (Nest.isReading_start limit) r).finish
    (fill (.start limit) r).nest.rawDepth
  obtain ⟨read, comments, unread, hstands⟩ := (Stands.start source).exists_after history
  obtain ⟨hle, read', comments', unread', hnext⟩ := hstands.exists_fill (.start limit)
  have hsize : next.2.consumed ≤ Text.size source := by
    rw [hnext.read_splits.size_eq]
    exact Nat.le_trans (Nat.le_of_eq hnext.consumed_eq) (Nat.le_add_right _ _)
  exact ⟨hitems, hlength, hle, hsize, _, _, hnext.read_splits.source_eq, hnext.consumed_eq.symm⟩

end Reader

end Sexpand
