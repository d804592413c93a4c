import Sexpand.Text.Blank

namespace Sexpand

/-- A piece of source text. `ended` and `closed` are false when the text stops before the line feed,
the quote or the brace that the lexeme is waiting for. -/
inductive Lexeme
  | openList
  | closeList
  | blank (c : Char)
  | comment (body : Text) (ended : Bool)
  | bare (first : Char) (others : Text)
  | quoted (body : Text) (closed : Bool)
  | block (interior : Text) (closed : Bool)
  deriving DecidableEq

namespace Lexeme

def slice : Lexeme → Text
  | .openList => ['(']
  | .closeList => [')']
  | .blank c => [c]
  | .comment body ended => '#' :: body ++ (if ended then ['\n'] else [])
  | .bare first others => first :: others
  | .quoted body closed => '"' :: body ++ (if closed then ['"'] else [])
  | .block interior closed => '{' :: interior ++ (if closed then ['}'] else [])

/-- A brace that closes nothing is an ordinary character of a bare atom. -/
def isBare (c : Char) : Bool :=
  !Text.isBlank c && c ≠ '(' && c ≠ ')' && c ≠ '"' && c ≠ '{' && c ≠ '#'

/-- Cuts the text at the brace that closes `depth + 1` open ones. The characters before it are put
onto `taken`, the newest first. -/
def cutBlock (taken : Text) : Nat → Text → Text × Option Text
  | _, [] => (taken.reverse, none)
  | depth, '{' :: t => cutBlock ('{' :: taken) (depth + 1) t
  | 0, '}' :: t => (taken.reverse, some t)
  | depth + 1, '}' :: t => cutBlock ('}' :: taken) depth t
  | depth, c :: t => cutBlock (c :: taken) depth t

def next? : Text → Option (Lexeme × Text)
  | [] => none
  | '(' :: t => some (.openList, t)
  | ')' :: t => some (.closeList, t)
  | '#' :: t =>
      match Text.cutAt '\n' t with
      | (body, some rest) => some (.comment body true, rest)
      | (body, none) => some (.comment body false, [])
  | '"' :: t =>
      match Text.cutAt '"' t with
      | (body, some rest) => some (.quoted body true, rest)
      | (body, none) => some (.quoted body false, [])
  | '{' :: t =>
      match cutBlock [] 0 t with
      | (interior, some rest) => some (.block interior true, rest)
      | (interior, none) => some (.block interior false, [])
  | c :: t =>
      if Text.isBlank c then some (.blank c, t)
      else some (.bare c (t.takeWhile isBare), t.dropWhile isBare)

theorem eq_append_of_cutBlock {taken interior t rest : Text} {depth : Nat}
    (h : cutBlock taken depth t = (interior, some rest)) :
    taken.reverse ++ t = interior ++ '}' :: rest := by
  fun_induction cutBlock taken depth t with
  | case1 => simp at h
  | case2 taken depth t ih => simpa using ih h
  | case3 taken t => simp_all
  | case4 taken depth t ih => simpa using ih h
  | case5 taken depth c t _ _ _ ih => simpa using ih h

theorem eq_of_cutBlock {taken interior t : Text} {depth : Nat}
    (h : cutBlock taken depth t = (interior, none)) : taken.reverse ++ t = interior := by
  fun_induction cutBlock taken depth t with
  | case1 => simp_all
  | case2 taken depth t ih => simpa using ih h
  | case3 taken t => simp at h
  | case4 taken depth t ih => simpa using ih h
  | case5 taken depth c t _ _ _ ih => simpa using ih h

theorem slice_append_of_next? {source rest : Text} {lexeme : Lexeme}
    (h : next? source = some (lexeme, rest)) : lexeme.slice ++ rest = source := by
  unfold next? at h
  split at h
  · simp at h
  · simp only [Option.some.injEq, Prod.mk.injEq] at h
    obtain ⟨rfl, rfl⟩ := h
    rfl
  · simp only [Option.some.injEq, Prod.mk.injEq] at h
    obtain ⟨rfl, rfl⟩ := h
    rfl
  · split at h <;> rename_i hc <;> simp only [Option.some.injEq, Prod.mk.injEq] at h <;>
      obtain ⟨rfl, rfl⟩ := h
    · simp [slice, Text.eq_append_of_cutAt hc]
    · simp [slice, Text.eq_of_cutAt hc]
  · split at h <;> rename_i hc <;> simp only [Option.some.injEq, Prod.mk.injEq] at h <;>
      obtain ⟨rfl, rfl⟩ := h
    · simp [slice, Text.eq_append_of_cutAt hc]
    · simp [slice, Text.eq_of_cutAt hc]
  · split at h <;> rename_i hc <;> simp only [Option.some.injEq, Prod.mk.injEq] at h <;>
      obtain ⟨rfl, rfl⟩ := h
    · have ht := eq_append_of_cutBlock hc
      simp only [List.reverse_nil, List.nil_append] at ht
      simp [slice, ht]
    · have ht := eq_of_cutBlock hc
      simp only [List.reverse_nil, List.nil_append] at ht
      simp [slice, ht]
  · split at h <;> simp only [Option.some.injEq, Prod.mk.injEq] at h <;> obtain ⟨rfl, rfl⟩ := h
    · rfl
    · simp [slice]

theorem slice_ne_nil (lexeme : Lexeme) : lexeme.slice ≠ [] := by
  cases lexeme <;> simp [slice]

theorem length_lt_of_next? {source rest : Text} {lexeme : Lexeme}
    (h : next? source = some (lexeme, rest)) : rest.length < source.length := by
  have hp := List.length_pos_iff.2 lexeme.slice_ne_nil
  rw [← slice_append_of_next? h, List.length_append]
  omega

end Lexeme

end Sexpand
