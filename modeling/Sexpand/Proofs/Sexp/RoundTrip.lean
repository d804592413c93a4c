import Sexpand.Proofs.Sexp.Descent
import Sexpand.Proofs.Sexp.Printable
import Sexpand.Proofs.Sexp.Spelling

namespace Sexpand

open Grammar (Tokens atoms less read)

namespace Token

theorem ofTextAt_blank {c : Char} (h : Text.isBlank c = true) (start : Nat) (rest : Text) :
    ofTextAt start (c :: rest) =
      (.blank, ⟨.blank c, start⟩) :: ofTextAt (start + c.utf8Size) rest :=
  ofTextAt_of_token (Lexeme.next?_blank h rest) rfl start

theorem ofTextAt_openList (start : Nat) (rest : Text) :
    ofTextAt start ('(' :: rest) = (.openList, ⟨.openList, start⟩) :: ofTextAt (start + 1) rest :=
  ofTextAt_of_token rfl rfl start

theorem ofTextAt_closeList (start : Nat) (rest : Text) :
    ofTextAt start (')' :: rest) =
      (.closeList, ⟨.closeList, start⟩) :: ofTextAt (start + 1) rest :=
  ofTextAt_of_token rfl rfl start

theorem exists_ofTextAt_written {t rest : Text} (h : Atom.IsPrintable t)
    (hrest : ∀ c, rest.head? = some c → Lexeme.isBare c = false) (start : Nat) :
    ∃ p, ofTextAt start (Atom.written t ++ rest) =
        (.fragment t, p) :: ofTextAt (start + Text.size (Atom.written t)) rest ∧
      p.stop = start + Text.size (Atom.written t) := by
  obtain ⟨lexeme, hnext, htoken⟩ := Atom.isLexeme_written h rest hrest
  have hslice : lexeme.slice = Atom.written t :=
    List.append_cancel_right (Lexeme.slice_append_of_next? hnext)
  refine ⟨⟨lexeme, start⟩, ?_, by rw [Placed.stop, hslice]⟩
  rw [ofTextAt_of_token hnext htoken, hslice]

end Token

namespace Grammar

theorem atoms_nil : atoms [] = [] := rfl

theorem less_zero (left : Option Nat) : less left 0 = left := by cases left <;> rfl

theorem less_none (n : Nat) : less none n = none := rfl

theorem after_nil (r : Reading) : r.after [] = r := rfl

/-- Blanks end the word at hand and are no items. -/
theorem exists_read_gap {gap : Text} (hgap : ∀ c ∈ gap, Text.isBlank c = true) {word : Text}
    (hword : word ≠ [] → gap ≠ []) (room : Nat) {left : Option Nat}
    (hleft : less left (atoms word).length ≠ some 0) (stop start : Nat) (rest : Text) :
    ∃ stop', read room left word stop (Token.ofTextAt start (gap ++ rest)) =
      (read room (less left (atoms word).length) [] stop'
        (Token.ofTextAt (start + Text.size gap) rest)).after (atoms word) := by
  induction gap generalizing word left stop start with
  | nil =>
      obtain rfl : word = [] := Decidable.byContradiction fun hne => hword hne rfl
      refine ⟨stop, ?_⟩
      rw [atoms_nil, List.length_nil, less_zero, after_nil]
      rfl
  | cons c gap ih =>
      obtain ⟨hc, hgap⟩ := List.forall_mem_cons.1 hgap
      have hnil : less (less left (atoms word).length) (atoms []).length =
          less left (atoms word).length := less_zero _
      obtain ⟨stop', hread⟩ := ih hgap (fun hn => absurd rfl hn) (by rwa [hnil])
        (Placed.stop ⟨.blank c, start⟩) (start + c.utf8Size)
      refine ⟨stop', ?_⟩
      rw [List.cons_append, Token.ofTextAt_blank hc, read_blank, if_neg hleft, hread, hnil,
        atoms_nil, after_nil, Text.size_cons, Nat.add_assoc]

theorem read_list {room : Nat} (hroom : room ≠ 0) {left : Option Nat} (hleft : left ≠ some 0)
    {start stop' : Nat} {body : Text} {items : List Sexp} {tokens : Tokens}
    (h : read (room - 1) none [] (start + 1) (Token.ofTextAt (start + 1) body) =
      ⟨items, stop', tokens⟩) (stop : Nat) :
    read room left [] stop (Token.ofTextAt start ('(' :: body)) =
      if less left 1 = some 0 then ⟨[.list items], stop', tokens⟩
      else (read room (less left 1) [] stop' tokens).after [.list items] := by
  have hinner : read (room - 1) none [] (Placed.stop ⟨.openList, start⟩)
      (Token.ofTextAt (start + 1) body) = ⟨items, stop', tokens⟩ := h
  rw [Token.ofTextAt_openList, read_openList, atoms_nil, List.length_nil, less_zero, if_neg hleft,
    if_neg hroom, hinner]
  rfl

end Grammar

namespace Spells

theorem isBare_head?_append {items : List Sexp} {t rest : Text} (h : Spells true items t) :
    ∀ c, (t ++ ')' :: rest).head? = some c → Lexeme.isBare c = false := by
  have hblank : ∀ gap u : Text, (∀ c ∈ gap, Text.isBlank c = true) → gap ≠ [] →
      ∀ c, (gap ++ u).head? = some c → Lexeme.isBare c = false := by
    intro gap u hgap hne c hc
    obtain ⟨d, gap, rfl⟩ := List.exists_cons_of_ne_nil hne
    obtain rfl : d = c := by simpa using hc
    simp [Lexeme.isBare, hgap d List.mem_cons_self]
  cases h with
  | nil =>
      intro c hc
      obtain rfl : ')' = c := by simpa using hc
      rfl
  | atom hgap hapart _ =>
      rw [List.append_assoc]
      exact hblank _ _ hgap (hapart rfl)
  | list hgap hapart _ _ =>
      rw [List.append_assoc]
      exact hblank _ _ hgap (hapart rfl)

theorem size_list (gap t u : Text) : Text.size (gap ++ '(' :: (t ++ ')' :: u)) =
    Text.size gap + 1 + Text.size t + 1 + Text.size u := by
  rw [Text.size_append, Text.size_cons, Text.size_append, Text.size_cons,
    show '('.utf8Size = 1 from rfl, show ')'.utf8Size = 1 from rfl]
  omega

/-- The items of a list are read up to its closing parenthesis, after the word that stands in front
of them. -/
theorem read_eq {apart : Bool} {items : List Sexp} {t : Text} (h : Spells apart items t)
    (hitems : ∀ text ∈ Sexp.textsItems items, Atom.IsPrintable text) {room : Nat}
    (hdepth : Sexp.depthItems items ≤ room) {word : Text} (hword : word ≠ [] → apart = true)
    (stop start : Nat) (rest : Text) :
    read room none word stop (Token.ofTextAt start (t ++ ')' :: rest)) =
      ⟨atoms word ++ items, start + Text.size t + 1,
        Token.ofTextAt (start + Text.size t + 1) rest⟩ := by
  have hnone : ∀ word : Text, less none (atoms word).length ≠ some 0 := fun word => by simp [less]
  induction h generalizing room word stop start rest with
  | nil apart =>
      rw [List.nil_append, Token.ofTextAt_closeList, Grammar.read_closeList, List.append_nil]
      rfl
  | @atom apart gap t u others hgap hapart hu ih =>
      obtain ⟨ht, hothers⟩ := List.forall_mem_append.1 hitems
      replace ht : Atom.IsPrintable t := ht t List.mem_cons_self
      rw [Sexp.depthItems] at hdepth
      obtain ⟨stop', hread⟩ := Grammar.exists_read_gap hgap (fun hw => hapart (hword hw)) room
        (hnone word) stop start (Atom.written t ++ (u ++ ')' :: rest))
      obtain ⟨p, htoken, -⟩ := Token.exists_ofTextAt_written ht hu.isBare_head?_append
        (start + Text.size gap)
      have hatoms : atoms t = [.atom t] := if_neg ht.1
      rw [List.append_assoc, List.append_assoc, hread, htoken, Grammar.read_fragment,
        List.nil_append, Grammar.less_none,
        ih hothers (Nat.le_trans (Nat.le_max_right _ _) hdepth) (fun _ => rfl), hatoms]
      simp only [Grammar.Reading.after, Text.size_append, List.singleton_append, Nat.add_assoc]
  | @list apart gap t u items others hgap hapart ht hu iht ihu =>
      obtain ⟨hinner, hothers⟩ := List.forall_mem_append.1 hitems
      rw [Sexp.depthItems, Sexp.depth] at hdepth
      obtain ⟨stop', hread⟩ := Grammar.exists_read_gap hgap (fun hw => hapart (hword hw)) room
        (hnone word) stop start ('(' :: (t ++ ')' :: (u ++ ')' :: rest)))
      have hin := iht hinner (Nat.le_sub_of_add_le (Nat.le_trans (Nat.le_max_left _ _) hdepth))
        (fun hw => absurd rfl hw) (start + Text.size gap + 1) (start + Text.size gap + 1)
        (u ++ ')' :: rest)
      rw [List.append_assoc, List.cons_append, List.append_assoc, List.cons_append, hread,
        Grammar.less_none, Grammar.read_list (by omega) (by simp) hin, if_neg (by simp [less]),
        Grammar.less_none, ihu hothers (Nat.le_trans (Nat.le_max_right _ _) hdepth) (fun _ => rfl)]
      simp only [size_list, Grammar.Reading.after, Grammar.atoms_nil, List.nil_append,
        List.singleton_append, Nat.add_assoc]

theorem parseInvocation_of_read {source : Text} {items : List Sexp} {stop : Nat} {tokens : Tokens}
    (h : read Nest.maxDepth (some 1) [] 0 (Token.ofTextAt 0 source) = ⟨items, stop, tokens⟩) :
    Sexp.parseInvocation source = ⟨items, stop⟩ := by
  have hread := Reader.readList_eq_read (by simp : some 1 ≠ some 0) (.ofText source)
  rw [show (Reader.ofText source).consumed = 0 from rfl,
    show (Reader.ofText source).position = 0 from rfl,
    show (Reader.ofText source).rest = source from rfl, h] at hread
  exact congrArg (fun o : List Sexp × Nat => Sexp.Parsed.mk o.1 o.2) hread

theorem exists_read_one_gap {gap : Text} (hgap : ∀ c ∈ gap, Text.isBlank c = true) (rest : Text) :
    ∃ stop, read Nest.maxDepth (some 1) [] 0 (Token.ofTextAt 0 (gap ++ rest)) =
      read Nest.maxDepth (some 1) [] stop (Token.ofTextAt (Text.size gap) rest) := by
  obtain ⟨stop, hread⟩ := Grammar.exists_read_gap hgap (fun hw => absurd rfl hw) Nest.maxDepth
    (by decide : less (some 1) (atoms []).length ≠ some 0) 0 0 rest
  rw [Nat.zero_add] at hread
  exact ⟨stop, hread⟩

theorem parseInvocation_list {items : List Sexp} {t : Text} (h : Spells false [.list items] t)
    (hp : (Sexp.list items).IsPrintable) (hdepth : (Sexp.list items).depth ≤ Nest.maxDepth)
    (rest : Text) : Sexp.parseInvocation (t ++ rest) = ⟨[.list items], Text.size t⟩ := by
  cases h with
  | @list _ gap t _ _ _ hgap _ ht hu =>
      cases hu with
      | nil =>
          obtain ⟨stop, hread⟩ := exists_read_one_gap hgap ('(' :: (t ++ ')' :: rest))
          have hin := ht.read_eq hp (Nat.le_sub_of_add_le hdepth) (fun hw => absurd rfl hw)
            (Text.size gap + 1) (Text.size gap + 1) rest
          have hlist := Grammar.read_list (by decide : Nest.maxDepth ≠ 0)
            (by decide : some 1 ≠ some 0) hin stop
          rw [if_pos (by decide)] at hlist
          rw [List.append_assoc, List.cons_append, List.append_assoc, List.singleton_append,
            size_list]
          exact parseInvocation_of_read (hread.trans hlist)

theorem parseInvocation_atom {t u : Text} (h : Spells false [.atom t] u)
    (hp : Atom.IsPrintable t) : Sexp.parseInvocation u = ⟨[.atom t], Text.size u⟩ := by
  cases h with
  | @atom _ gap _ _ _ hgap _ hu =>
      cases hu with
      | nil =>
          obtain ⟨stop, hread⟩ := exists_read_one_gap hgap (Atom.written t ++ [])
          obtain ⟨p, htoken, hstop⟩ := Token.exists_ofTextAt_written hp
            (by simp : ∀ c, ([] : Text).head? = some c → _) (Text.size gap)
          rw [htoken, Grammar.read_fragment, hstop, Token.ofTextAt_nil, Grammar.read_nil,
            List.nil_append, atoms, if_neg hp.1] at hread
          rw [List.append_nil] at hread ⊢
          rw [Text.size_append]
          exact parseInvocation_of_read hread

theorem parse_eq {e : Sexp} {t : Text} (h : Spells false [e] t) (hp : e.IsPrintable)
    (hdepth : e.depth ≤ Nest.maxDepth) : Sexp.parse t = ⟨e, Text.size t⟩ := by
  have hread : Sexp.parseInvocation t = ⟨[e], Text.size t⟩ := by
    cases e with
    | atom text => exact parseInvocation_atom h (hp text List.mem_cons_self)
    | list items => simpa using parseInvocation_list h hp hdepth []
  rw [Sexp.parse, hread]
  rfl

end Spells

namespace Sexp

/-- Reading undoes both ways to write an expression. -/
theorem parse_compact_and_pretty {e : Sexp} (hp : e.IsPrintable) (hdepth : e.depth ≤ Nest.maxDepth)
    (width : Nat) :
    parse e.compact = ⟨e, Text.size e.compact⟩ ∧
      parse (e.pretty width) = ⟨e, Text.size (e.pretty width)⟩ :=
  ⟨e.spells_compact.parse_eq hp hdepth, (e.spells_pretty width).parse_eq hp hdepth⟩

theorem parse_compact_and_pretty_nested :
    let e : Sexp := .list [.atom "a\x7db".toList, .list [],
      .list [.list [.atom "(\n# \x7bx\x7dé".toList]], .atom "\"q \x7b\"".toList]
    e.IsPrintable ∧ e.depth ≤ Nest.maxDepth ∧ parse e.compact = ⟨e, Text.size e.compact⟩ ∧
      parse (e.pretty 3) = ⟨e, Text.size (e.pretty 3)⟩ :=
  ⟨by decide, by decide, parse_compact_and_pretty (by decide) (by decide) 3⟩

end Sexp

end Sexpand
