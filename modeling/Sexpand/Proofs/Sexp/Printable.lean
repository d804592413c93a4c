import Sexpand.Lexeme.Token
import Sexpand.Sexp.Atom
import Sexpand.Sexp.Basic

namespace Sexpand

namespace Text

/-- No part of the text from its start on closes more braces than it opens, and all that are opened
are closed. -/
def IsNested (t : Text) : Prop :=
  (∀ front, front <+: t → front.count '}' ≤ front.count '{') ∧ t.count '}' = t.count '{'

instance (t : Text) : Decidable t.IsNested :=
  decidable_of_iff ((∀ n < t.length + 1, (t.take n).count '}' ≤ (t.take n).count '{') ∧
      t.count '}' = t.count '{') <| by
    refine and_congr_left fun _ => ⟨fun h front hf => ?_, fun h n _ => h _ (List.take_prefix n t)⟩
    rw [List.prefix_iff_eq_take.1 hf]
    exact h _ (Nat.lt_succ_of_le hf.length_le)

/-- No blank stands at either end. -/
def IsTrimmed (t : Text) : Prop :=
  t.head?.any isBlank = false ∧ t.getLast?.any isBlank = false

instance (t : Text) : Decidable t.IsTrimmed :=
  inferInstanceAs (Decidable (_ ∧ _))

theorem trim_of_isTrimmed {t : Text} (h : t.IsTrimmed) : trim t = t := by
  have hleft : ∀ u : Text, u.head?.any isBlank = false → trimLeft u = u := by
    intro u hu
    cases u with
    | nil => rfl
    | cons c u => exact List.dropWhile_cons_of_neg (by simpa using hu)
  rw [trim, hleft t h.1, trimRight, hleft t.reverse (by simpa using h.2), List.reverse_reverse]

theorem cutAt_append {stop : Char} {body : Text} (h : stop ∉ body) (rest : Text) :
    cutAt stop (body ++ stop :: rest) = (body, some rest) := by
  have hb : ∀ c ∈ body, (c ≠ stop : Bool) = true := by
    intro c hc
    simpa using fun he : c = stop => h (he ▸ hc)
  have hd : (body ++ stop :: rest).dropWhile (· ≠ stop) = stop :: rest := by
    rw [List.dropWhile_append_of_pos hb]
    simp
  have ht : (body ++ stop :: rest).takeWhile (· ≠ stop) = body := by
    rw [List.takeWhile_append_of_pos hb]
    simp
  rw [cutAt, hd, ht]

theorem not_mem_fst_cutAt (stop : Char) (t : Text) : stop ∉ (cutAt stop t).1 := by
  rw [fst_cutAt]
  intro hm
  simpa using List.all_eq_true.1 List.all_takeWhile stop hm

end Text

namespace Lexeme

theorem cutBlock_cons (taken : Text) {depth : Nat} {c : Char} (t : Text)
    (h : [c].count '}' ≤ depth + [c].count '{') :
    cutBlock taken depth (c :: t) =
      cutBlock (c :: taken) (depth + [c].count '{' - [c].count '}') t := by
  by_cases hopen : c = '{'
  · subst c
    rfl
  · by_cases hclose : c = '}'
    · subst c
      cases depth with
      | zero => simp at h
      | succ depth => rfl
    · rw [cutBlock, List.count_singleton, List.count_singleton, if_neg (by simpa using hopen),
        if_neg (by simpa using hclose)]
      · rfl
      · exact hopen
      · exact fun _ => hclose
      · exact fun _ _ => hclose

/-- A text that never closes more braces than are open is read whole, and leaves its own open ones
to be closed. -/
theorem cutBlock_append (taken : Text) (depth : Nat) (t rest : Text)
    (h : ∀ front, front <+: t → front.count '}' ≤ depth + front.count '{') :
    cutBlock taken depth (t ++ rest) =
      cutBlock (t.reverse ++ taken) (depth + t.count '{' - t.count '}') rest := by
  induction t generalizing taken depth with
  | nil => rfl
  | cons c t ih =>
      have hcount : ∀ (u : Text) (b : Char), (c :: u).count b = [c].count b + u.count b :=
        fun u _ => @List.count_append _ _ _ [c] u
      have hc : [c].count '}' ≤ depth + [c].count '{' := h [c] (List.prefix_append [c] t)
      rw [List.cons_append, cutBlock_cons taken _ hc, ih, hcount t, hcount t,
        List.reverse_cons, List.append_assoc, List.singleton_append]
      · congr 1
        omega
      · intro front hf
        have hle := h (c :: front) ((List.prefix_cons_inj c).2 hf)
        rw [hcount front, hcount front] at hle
        omega

theorem next?_blank {c : Char} (h : Text.isBlank c = true) (rest : Text) :
    next? (c :: rest) = some (.blank c, rest) := by
  rw [next?, if_pos h]
  all_goals
    rintro rfl
    simp [Text.isBlank] at h

theorem next?_block {t : Text} (h : t.IsNested) (rest : Text) :
    next? ('{' :: t ++ '}' :: rest) = some (.block t true, rest) := by
  have hcut : cutBlock [] 0 (t ++ '}' :: rest) = (t, some rest) := by
    rw [cutBlock_append [] 0 t _ (by simpa using h.1), h.2, Nat.zero_add, Nat.sub_self,
      List.append_nil, cutBlock, List.reverse_reverse]
  rw [List.cons_append, next?, hcut]

theorem next?_comment {body : Text} (h : '\n' ∉ body) (rest : Text) :
    next? ('#' :: body ++ '\n' :: rest) = some (.comment body true, rest) := by
  rw [List.cons_append, next?, Text.cutAt_append h]

theorem next?_quoted {body : Text} (h : '"' ∉ body) (rest : Text) :
    next? ('"' :: body ++ '"' :: rest) = some (.quoted body true, rest) := by
  rw [List.cons_append, next?, Text.cutAt_append h]

theorem next?_bare {first : Char} {others : Text} (hf : isBare first = true)
    (ho : ∀ c ∈ others, isBare c = true) (rest : Text)
    (hr : ∀ c, rest.head? = some c → isBare c = false) :
    next? (first :: others ++ rest) = some (.bare first others, rest) := by
  have hfirst := hf
  simp only [isBare, Bool.and_eq_true, Bool.not_eq_true', decide_eq_true_eq] at hfirst
  obtain ⟨⟨⟨⟨⟨hblank, hopen⟩, hclose⟩, hquote⟩, hbrace⟩, hcomment⟩ := hfirst
  have ht : (others ++ rest).takeWhile isBare = others := by
    rw [List.takeWhile_append_of_pos ho]
    cases rest with
    | nil => simp
    | cons c rest => simp [hr c rfl]
  have hd : (others ++ rest).dropWhile isBare = rest := by
    rw [List.dropWhile_append_of_pos ho]
    cases rest with
    | nil => rfl
    | cons c rest => simp [hr c rfl]
  rw [List.cons_append, next?, ht, hd, if_neg (by simp [hblank])]
  · exact hopen
  · exact hclose
  · exact hcomment
  · exact hquote
  · exact hbrace

/-- What the characters of a lexeme are like where `rest` follows it. -/
def IsRead (rest : Text) : Lexeme → Prop
  | .openList => True
  | .closeList => True
  | .blank c => Text.isBlank c = true
  | .comment body ended => '\n' ∉ body ∧ (ended = false → rest = [])
  | .bare first others =>
      (∀ c ∈ first :: others, isBare c = true) ∧ ∀ c, rest.head? = some c → isBare c = false
  | .quoted body closed => '"' ∉ body ∧ (closed = false → rest = [])
  | .block _ closed => closed = false → rest = []

theorem isRead_of_next? {source rest : Text} {lexeme : Lexeme}
    (h : next? source = some (lexeme, rest)) : lexeme.IsRead rest := by
  rw [next?.eq_def] at h
  split at h
  · simp at h
  · obtain ⟨rfl, rfl⟩ := Prod.mk.inj (Option.some.inj h)
    trivial
  · obtain ⟨rfl, rfl⟩ := Prod.mk.inj (Option.some.inj h)
    trivial
  · rename_i t
    have hm := Text.not_mem_fst_cutAt '\n' t
    split at h <;> rename_i hc <;> obtain ⟨rfl, rfl⟩ := Prod.mk.inj (Option.some.inj h) <;>
      rw [hc] at hm
    · exact ⟨hm, nofun⟩
    · exact ⟨hm, fun _ => rfl⟩
  · rename_i t
    have hm := Text.not_mem_fst_cutAt '"' t
    split at h <;> rename_i hc <;> obtain ⟨rfl, rfl⟩ := Prod.mk.inj (Option.some.inj h) <;>
      rw [hc] at hm
    · exact ⟨hm, nofun⟩
    · exact ⟨hm, fun _ => rfl⟩
  · split at h <;> obtain ⟨rfl, rfl⟩ := Prod.mk.inj (Option.some.inj h)
    · exact nofun
    · exact fun _ => rfl
  · rename_i c t hopen hclose hcomment hquote hbrace
    split at h <;> obtain ⟨rfl, rfl⟩ := Prod.mk.inj (Option.some.inj h)
    · assumption
    · rename_i hblank
      refine ⟨List.forall_mem_cons.2 ⟨?_, List.all_eq_true.1 List.all_takeWhile⟩, ?_⟩
      · simpa [isBare, hblank] using ⟨⟨⟨⟨hopen, hclose⟩, hquote⟩, hbrace⟩, hcomment⟩
      · intro d hd
        have hn := List.head?_dropWhile_not isBare t
        rw [hd] at hn
        simpa using hn

end Lexeme

namespace Atom

def IsSymbol (t : Text) : Prop :=
  ∀ c ∈ t, Text.isBlank c = false ∧ c ∉ ['(', ')', '"', '{', '#']

instance (t : Text) : Decidable (IsSymbol t) :=
  List.decidableBAll _ t

def IsQuoted (t : Text) : Prop := ∃ body, '"' ∉ body ∧ t = '"' :: body ++ ['"']

instance (t : Text) : Decidable (IsQuoted t) :=
  decidable_of_iff ('"' ∉ t.tail.dropLast ∧ t = '"' :: t.tail.dropLast ++ ['"']) <| by
    refine ⟨fun h => ⟨_, h⟩, ?_⟩
    rintro ⟨body, hb, rfl⟩
    simpa using hb

/-- What an atom can hold and still be read back from its written form. -/
def IsPrintable (t : Text) : Prop :=
  t ≠ [] ∧ (IsSymbol t ∨ IsQuoted t ∨ t.IsTrimmed ∧ t.IsNested)

instance (t : Text) : Decidable (IsPrintable t) :=
  inferInstanceAs (Decidable (_ ∧ _))

/-- The text is a lexeme of its own wherever the next character is not a letter of a symbol. -/
def IsLexeme (t source : Text) : Prop :=
  ∀ rest, (∀ c, rest.head? = some c → Lexeme.isBare c = false) →
    ∃ lexeme, Lexeme.next? (source ++ rest) = some (lexeme, rest) ∧
      lexeme.token? = some (.fragment t)

theorem isLexeme_symbol {first : Char} {others : Text} (hf : Lexeme.isBare first = true)
    (ho : ∀ c ∈ others, Lexeme.isBare c = true) : IsLexeme (first :: others) (first :: others) :=
  fun rest hr => ⟨_, Lexeme.next?_bare hf ho rest hr, rfl⟩

theorem isLexeme_quoted {body : Text} (h : '"' ∉ body) :
    IsLexeme ('"' :: body ++ ['"']) ('"' :: body ++ ['"']) := by
  intro rest _
  refine ⟨.quoted body true, ?_, by simp [Lexeme.token?, Lexeme.slice]⟩
  rw [List.append_assoc, List.singleton_append]
  exact Lexeme.next?_quoted h rest

theorem isLexeme_block {t : Text} (ht : t.IsTrimmed) (hn : t.IsNested) :
    IsLexeme t ('{' :: t ++ ['}']) := by
  intro rest _
  refine ⟨.block t true, ?_, by simp [Lexeme.token?, Text.trim_of_isTrimmed ht]⟩
  rw [List.append_assoc, List.singleton_append]
  exact Lexeme.next?_block hn rest

theorem isBare_of_isSymbol {t : Text} (h : IsSymbol t) : ∀ c ∈ t, Lexeme.isBare c = true := by
  intro c hc
  obtain ⟨hblank, hm⟩ := h c hc
  simp only [List.mem_cons, List.not_mem_nil, or_false, not_or] at hm
  simp [Lexeme.isBare, hblank, hm]

theorem isLexeme_of_isPlain {t : Text} (h : isPlain t = true) : IsLexeme t t := by
  unfold isPlain at h
  split at h
  · rename_i first others hn
    obtain ⟨hf, ho⟩ := List.forall_mem_cons.1 (Lexeme.isRead_of_next? hn).1
    have ht := Lexeme.slice_append_of_next? hn
    rw [List.append_nil] at ht
    rw [← ht]
    exact isLexeme_symbol hf ho
  · rename_i body closed hn
    obtain rfl : closed = true := h
    have ht := Lexeme.slice_append_of_next? hn
    rw [List.append_nil] at ht
    rw [← ht]
    exact isLexeme_quoted (Lexeme.isRead_of_next? hn).1
  · simp at h

/-- The written form of a printable atom is read as the one fragment that the atom is. -/
theorem isLexeme_written {t : Text} (h : IsPrintable t) : IsLexeme t (written t) := by
  rw [written]
  split
  · exact isLexeme_of_isPlain ‹_›
  · rename_i hplain
    obtain ⟨hne, hs | ⟨body, hb, rfl⟩ | ⟨ht, hn⟩⟩ := h
    · obtain ⟨first, others, rfl⟩ := List.exists_cons_of_ne_nil hne
      obtain ⟨hf, ho⟩ := List.forall_mem_cons.1 (isBare_of_isSymbol hs)
      have hnext := Lexeme.next?_bare hf ho [] (by simp)
      rw [List.append_nil] at hnext
      rw [isPlain, hnext] at hplain
      exact absurd rfl hplain
    · rw [isPlain, Lexeme.next?_quoted hb []] at hplain
      exact absurd rfl hplain
    · exact isLexeme_block ht hn

end Atom

namespace Sexp

mutual

/-- The atoms of an expression, from left to right. -/
def texts : Sexp → List Text
  | .atom text => [text]
  | .list items => textsItems items

def textsItems : List Sexp → List Text
  | [] => []
  | item :: items => texts item ++ textsItems items

end

theorem mem_textsItems {t : Text} {items : List Sexp} :
    t ∈ textsItems items ↔ ∃ item ∈ items, t ∈ item.texts := by
  induction items with
  | nil => simp [textsItems]
  | cons item items ih => simp [textsItems, ih]

def IsPrintable (e : Sexp) : Prop := ∀ t ∈ e.texts, Atom.IsPrintable t

instance (e : Sexp) : Decidable e.IsPrintable :=
  inferInstanceAs (Decidable (∀ t ∈ e.texts, _))

end Sexp

end Sexpand
