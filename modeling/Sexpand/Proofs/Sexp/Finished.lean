import Sexpand.Proofs.Lexeme.Extent
import Sexpand.Proofs.Sexp.Resumption

namespace Sexpand

open Lexeme (Splits slices slices_cons slices_singleton)

namespace Reader

variable {n : Nest} {r : Reader} {lexeme : Lexeme} {token : Token} {rest : Text}

theorem fill_of_comment (hnext : Lexeme.next? r.rest = some (lexeme, rest))
    (hcomment : lexeme.token? = none) :
    fill n r = fill n ⟨rest, r.position + Text.size lexeme.slice, r.consumed⟩ := by
  rw [fill.eq_def]
  split
  · simp_all
  · rename_i lexeme' rest' hnext'
    obtain ⟨rfl, rfl⟩ : lexeme' = lexeme ∧ rest' = rest := by simpa [hnext] using hnext'.symm
    rw [hcomment]

theorem fill_of_token (hnext : Lexeme.next? r.rest = some (lexeme, rest))
    (htoken : lexeme.token? = some token) :
    fill n r =
      let stop := r.position + Text.size lexeme.slice
      match n.step token lexeme.slice with
      | .more next => fill next ⟨rest, stop, stop⟩
      | .last next => ⟨next, ⟨rest, stop, stop⟩, some token⟩
      | .before next => ⟨next, ⟨rest, stop, r.position⟩, some token⟩ := by
  rw [fill.eq_def]
  split
  · simp_all
  · rename_i lexeme' rest' hnext'
    obtain ⟨rfl, rfl⟩ : lexeme' = lexeme ∧ rest' = rest := by simpa [hnext] using hnext'.symm
    rewrite [htoken]
    rfl

/-- Reading comes to `filled` after these lexemes, and does so in any source that begins with them. -/
structure ReadsTo (n : Nest) (r : Reader) (lexemes : List Lexeme) (filled : Filled) : Prop where
  splits : Splits r.rest lexemes filled.reader.rest
  position_eq : filled.reader.position = r.position + Text.size (slices lexemes)
  fill_eq : ∀ source rest, Splits source lexemes rest →
    fill n { r with rest := source } = { filled with reader := { filled.reader with rest } }

theorem ReadsTo.cons {next : Nest} {consumed : Nat} {lexemes : List Lexeme} {filled : Filled}
    (h : ReadsTo next ⟨rest, r.position + Text.size lexeme.slice, consumed⟩ lexemes filled)
    (hnext : Lexeme.next? r.rest = some (lexeme, rest))
    (hfill : ∀ source rest, Lexeme.next? source = some (lexeme, rest) →
      fill n { r with rest := source } =
        fill next ⟨rest, r.position + Text.size lexeme.slice, consumed⟩) :
    ReadsTo n r (lexeme :: lexemes) filled where
  splits := .cons hnext h.splits
  position_eq := by rw [h.position_eq, slices_cons, Text.size_append, Nat.add_assoc]
  fill_eq := by
    rintro source rest (_ | ⟨hnext', hsplits⟩)
    rw [hfill _ _ hnext']
    exact h.fill_eq _ _ hsplits

theorem ReadsTo.single {filled : Filled} (hnext : Lexeme.next? r.rest = some (lexeme, rest))
    (hrest : filled.reader.rest = rest)
    (hposition : filled.reader.position = r.position + Text.size lexeme.slice)
    (hfill : ∀ source rest, Lexeme.next? source = some (lexeme, rest) →
      fill n { r with rest := source } = { filled with reader := { filled.reader with rest } }) :
    ReadsTo n r [lexeme] filled where
  splits := hrest ▸ .single hnext
  position_eq := by rw [hposition, slices_singleton]
  fill_eq := by
    rintro source rest (_ | ⟨hnext', _ | _⟩)
    exact hfill _ _ hnext'

/-- The lexemes up to the token that ends the outermost list tell all that is read. -/
theorem exists_readsTo (h : (fill n r).stop = some token) :
    ∃ lexemes last, last.token? = some token ∧ ReadsTo n r (lexemes ++ [last]) (fill n r) := by
  fun_induction fill n r with
  | case1 => cases h
  | case2 n r lexeme rest hnext stop hcomment ih =>
      obtain ⟨lexemes, last, hlast, hreads⟩ := ih h
      exact ⟨lexeme :: lexemes, last, hlast,
        hreads.cons hnext fun source rest hnext' => fill_of_comment hnext' hcomment⟩
  | case3 n r lexeme rest hnext stop token' htoken next hstep ih =>
      obtain ⟨lexemes, last, hlast, hreads⟩ := ih h
      refine ⟨lexeme :: lexemes, last, hlast, hreads.cons hnext ?_⟩
      intro source rest hnext'
      rw [fill_of_token hnext' htoken, hstep]
  | case4 n r lexeme rest hnext stop token' htoken next hstep
  | case5 n r lexeme rest hnext stop token' htoken next hstep =>
      obtain rfl := Option.some.inj h
      refine ⟨[], lexeme, htoken, .single hnext rfl rfl ?_⟩
      intro source rest hnext'
      rw [fill_of_token hnext' htoken, hstep]

theorem consumed_eq_position (h : (fill n r).stop = some token) (hopen : token ≠ .openList) :
    (fill n r).reader.consumed = (fill n r).reader.position := by
  fun_induction fill n r with
  | case1 => cases h
  | case2 n r lexeme rest hnext stop hcomment ih => exact ih h
  | case3 n r lexeme rest hnext stop token htoken next hstep ih => exact ih h
  | case4 => rfl
  | case5 n r lexeme rest hnext stop token htoken next hstep =>
      obtain rfl := Option.some.inj h
      exact absurd (Nest.eq_openList_of_before hstep) hopen

end Reader

namespace Sexp

/-- The first expression in the source, or the search for it, ends at a closing parenthesis or a
blank. -/
def IsFinished (source : Text) : Prop :=
  let filled := Reader.fill (.start (some 1)) (.ofText source)
  filled.stop = some .closeList ∨ filled.stop = some .blank

instance (source : Text) : Decidable (IsFinished source) :=
  inferInstanceAs (Decidable (_ ∨ _))

theorem parseInvocation_eq (source : Text) :
    parseInvocation source =
      ⟨(Reader.fill (.start (some 1)) (.ofText source)).nest.finish,
        (Reader.fill (.start (some 1)) (.ofText source)).reader.consumed⟩ :=
  rfl

/-- What has been read to its end stays the same whatever else follows it. -/
theorem IsFinished.parseInvocation_append {source : Text} (h : IsFinished source) :
    ∃ front rest, source = front ++ rest ∧ Text.size front = (parseInvocation source).consumed ∧
      ∀ t, parseInvocation (front ++ t) = parseInvocation source := by
  obtain ⟨token, hstop, htoken⟩ : ∃ token,
      (Reader.fill (.start (some 1)) (.ofText source)).stop = some token ∧
        (token = .closeList ∨ token = .blank) := by
    rcases h with h | h
    · exact ⟨_, h, .inl rfl⟩
    · exact ⟨_, h, .inr rfl⟩
  have hopen : token ≠ .openList := by
    rintro rfl
    simp at htoken
  obtain ⟨lexemes, last, hlast, hreads⟩ := Reader.exists_readsTo hstop
  refine ⟨slices (lexemes ++ [last]), _, hreads.splits.source_eq, ?_, ?_⟩
  · have hposition := hreads.position_eq
    rw [← Reader.consumed_eq_position hstop hopen] at hposition
    exact (Nat.zero_add _).symm.trans hposition.symm
  · intro t
    have hread := hreads.splits.isRead_getLast last (by simp)
    have hsplits : Splits (slices (lexemes ++ [last]) ++ t) (lexemes ++ [last]) t := by
      apply hreads.splits.replace_rest
      simpa using hread.of_token? hlast htoken t
    have hfill : Reader.fill (.start (some 1)) (.ofText (slices (lexemes ++ [last]) ++ t)) = _ :=
      hreads.fill_eq _ _ hsplits
    rw [parseInvocation_eq, hfill]
    rfl

/-- Two lists deep, with a comment, a quote and a block in them that hold parentheses. The text after
the expression looks like more of it. -/
theorem IsFinished.parseInvocation_append_list :
    let source := "(a# )\n\"b(\" (\x7b)\x7d)) c".toList
    IsFinished source ∧ ∃ front rest, source = front ++ rest ∧ Text.size front = 17 ∧
      parseInvocation (front ++ "\"x".toList) = parseInvocation source := by
  intro source
  have h : IsFinished source := by decide +kernel
  obtain ⟨front, rest, hsource, hsize, hread⟩ := h.parseInvocation_append
  exact ⟨h, front, rest, hsource, hsize.trans (by decide +kernel), hread _⟩

end Sexp

end Sexpand
