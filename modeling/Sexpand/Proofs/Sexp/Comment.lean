import Sexpand.Proofs.Lexeme.Comment
import Sexpand.Proofs.Lexeme.Extent
import Sexpand.Proofs.Sexp.Descent

namespace Sexpand

open Lexeme (Splits slices dropComments)
open Text (withoutComments)
open Token (ofTextAt)

namespace Nest

variable {n next : Nest}

theorem addText_addText (n : Nest) (text more : Text) :
    (n.addText text).addText more = n.addText (text ++ more) := by
  rw [addText, addText, Draft.addText_addText]
  rfl

theorem step_fragment (hfull : n.current.isFull = false) (text : Text) :
    n.step (.fragment text) text = .more (n.addText text) := by
  by_cases hraw : 0 < n.rawDepth
  · rw [step, if_pos hraw]
    rfl
  · have hadd : ¬ (n.addText text).current.isFull = true := Bool.not_eq_true _ ▸ hfull
    rw [step, if_neg hraw]
    exact unlessFull_of_not_full hadd

theorem run_fragment (hfull : n.current.isFull = false) {text : Text} {p : Placed}
    (hslice : p.lexeme.slice = text) (stop : Nat) (tokens : Grammar.Tokens) :
    n.run stop ((.fragment text, p) :: tokens) = (n.addText text).run p.stop tokens := by
  rw [run, hslice, step_fragment hfull]

theorem run_letters (hfull : n.current.isFull = false) {word rest : Text} (hne : word ≠ [])
    (hword : ∀ c ∈ word, Lexeme.isBare c = true)
    (hrest : ∀ c, rest.head? = some c → Lexeme.isBare c = false) (stop start : Nat) :
    n.run stop (ofTextAt start (word ++ rest)) =
      (n.addText word).run (start + Text.size word) (ofTextAt (start + Text.size word) rest) := by
  obtain ⟨first, others, rfl⟩ := List.exists_cons_of_ne_nil hne
  obtain ⟨hfirst, hothers⟩ := List.forall_mem_cons.1 hword
  rw [Token.ofTextAt_of_token (Lexeme.next?_bare hfirst hothers rest hrest) rfl]
  exact run_fragment hfull rfl stop _

theorem run_letters_append (hfull : n.current.isFull = false) {word : Text} (hne : word ≠ [])
    (hword : ∀ c ∈ word, Lexeme.isBare c = true) (rest : Text) (stop start : Nat) :
    n.run stop (ofTextAt start (word ++ rest)) =
      (n.addText word).run (start + Text.size word) (ofTextAt (start + Text.size word) rest) := by
  -- The lexer takes `word` and the letters that follow it as one lexeme.
  let more := rest.takeWhile Lexeme.isBare
  let others := rest.dropWhile Lexeme.isBare
  have hmore : ∀ c ∈ more, Lexeme.isBare c = true := List.all_eq_true.1 List.all_takeWhile
  have hothers : ∀ c, others.head? = some c → Lexeme.isBare c = false := by
    intro c hc
    have hn := List.head?_dropWhile_not Lexeme.isBare rest
    rw [hc] at hn
    simpa using hn
  have hrest : rest = more ++ others := List.takeWhile_append_dropWhile.symm
  have hwhole := run_letters hfull (List.append_ne_nil_of_left_ne_nil hne more)
    (List.forall_mem_append.2 ⟨hword, hmore⟩) hothers stop start
  rw [hrest, ← List.append_assoc, hwhole]
  by_cases hnil : more = []
  · rw [hnil, List.append_nil, List.nil_append]
  · rw [run_letters (n := n.addText word) hfull hnil hmore hothers, addText_addText,
      Text.size_append, Nat.add_assoc]

/-- A lexeme is read in front of other text as if it ended there. -/
theorem run_slice_append (hfull : n.current.isFull = false) {source rest rest' : Text}
    {lexeme : Lexeme} {token : Token} (hnext : Lexeme.next? source = some (lexeme, rest))
    (htoken : lexeme.token? = some token) (hend : rest = [] → rest' = []) (stop start : Nat) :
    n.run stop (ofTextAt start (lexeme.slice ++ rest')) =
      n.run stop ((token, ⟨lexeme, start⟩) ::
        ofTextAt (start + Text.size lexeme.slice) rest') := by
  have hread := Lexeme.isRead_of_next? hnext
  have hlexeme : lexeme.IsRead rest' → n.run stop (ofTextAt start (lexeme.slice ++ rest')) =
      n.run stop ((token, ⟨lexeme, start⟩) ::
        ofTextAt (start + Text.size lexeme.slice) rest') := by
    intro hread'
    rw [Token.ofTextAt_of_token (Lexeme.next?_slice_append hnext hread') htoken]
  cases lexeme with
  | openList | closeList | blank => exact hlexeme hread
  | comment => cases htoken
  | quoted body closed => exact hlexeme ⟨hread.1, fun hclosed => hend (hread.2 hclosed)⟩
  | block interior closed => exact hlexeme fun hclosed => hend (hread hclosed)
  | bare first others =>
      -- Other letters may follow now, but it does not matter where a run of them is cut.
      obtain rfl := Option.some.inj htoken
      have hletters := run_letters_append hfull (List.cons_ne_nil first others) hread.1 rest' stop
        start
      have hfragment := run_fragment (p := ⟨.bare first others, start⟩) hfull rfl stop
        (ofTextAt (start + Text.size (first :: others)) rest')
      exact hletters.trans hfragment.symm

end Nest

/-- At `place` in the source ends a lexeme, or the source begins, and `place'` is where that is when
the comments are deleted. -/
def Text.IsMoved (source : Text) (place place' : Nat) : Prop :=
  ∃ read rest, Splits source read rest ∧ place = Text.size (slices read) ∧
    place' = Text.size (slices (dropComments read))

namespace Nest

/-- Tokens are read the same after the comments in front of them and behind them are deleted. -/
theorem run_withoutComments {n : Nest} (hfull : n.current.isFull = false) {whole source : Text}
    {read : List Lexeme} (h : Splits whole read source) {stop stop' : Nat}
    (hstop : Text.IsMoved whole stop stop') :
    let outcome := n.run stop (ofTextAt (Text.size (slices read)) source)
    let outcome' := n.run stop'
      (ofTextAt (Text.size (slices (dropComments read))) (withoutComments source))
    outcome'.1 = outcome.1 ∧ Text.IsMoved whole outcome.2 outcome'.2 := by
  -- A comment is passed in one run only, and a token is read in both and takes them to the same nest.
  induction source using Lexeme.sourceInduction generalizing n read stop stop' with
  | nil =>
      rw [Text.withoutComments_nil, Token.ofTextAt_nil, Token.ofTextAt_nil]
      exact ⟨rfl, hstop⟩
  | cons source lexeme rest hnext ih =>
      have hsplits := h.trans (.single hnext)
      have hsize := Lexeme.size_slices_concat read lexeme
      cases hcomment : lexeme.isComment with
      | true =>
          have hrest := ih hfull hsplits hstop
          rw [Lexeme.dropComments_append, Lexeme.dropComments_comment hcomment,
            List.append_nil, hsize] at hrest
          rw [Text.withoutComments_of_comment hnext hcomment,
            Token.ofTextAt_of_comment hnext (Lexeme.token?_eq_none_iff.2 hcomment)]
          exact hrest
      | false =>
          obtain ⟨token, htoken⟩ : ∃ token, lexeme.token? = some token := by
            rw [← Option.ne_none_iff_exists', Ne, Lexeme.token?_eq_none_iff, hcomment]
            exact Bool.false_ne_true
          have hend : rest = [] → withoutComments rest = [] := by
            rintro rfl
            exact Text.withoutComments_nil
          have hsize' : Text.size (slices (dropComments (read ++ [lexeme]))) =
              Text.size (slices (dropComments read)) + Text.size lexeme.slice := by
            rw [Lexeme.dropComments_append, Lexeme.dropComments_token hcomment,
              Lexeme.size_slices_concat]
          have hmoved : Text.IsMoved whole (Text.size (slices read) + Text.size lexeme.slice)
              (Text.size (slices (dropComments read)) + Text.size lexeme.slice) :=
            ⟨_, rest, hsplits, hsize.symm, hsize'.symm⟩
          rw [Text.withoutComments_of_token hnext hcomment,
            run_slice_append hfull hnext htoken hend, Token.ofTextAt_of_token hnext htoken,
            run, run]
          cases hstep : n.step token lexeme.slice with
          | more next =>
              have hrest := ih (isFull_of_more hfull hstep) hsplits hmoved
              rw [hsize, hsize'] at hrest
              exact hrest
          | last next => exact ⟨rfl, hmoved⟩
          | before next => exact ⟨rfl, read, source, h, rfl, rfl⟩

end Nest

/-- Deleting the comments of a source changes nothing in its first expression, and moves the place
where it ends by the length of the comments before it. -/
theorem Sexp.parseInvocation_withoutComments (source : Text) :
    (parseInvocation (withoutComments source)).value = (parseInvocation source).value ∧
      (parseInvocation (withoutComments source)).consumed +
          Placed.commentSize (parseInvocation source).consumed (Placed.lexemes 0 source) =
        (parseInvocation source).consumed := by
  have hrun : ∀ source : Text, parseInvocation source =
      ⟨((Nest.start (some 1)).run 0 (ofTextAt 0 source)).1.finish,
        ((Nest.start (some 1)).run 0 (ofTextAt 0 source)).2⟩ := by
    intro source
    have hread := Reader.readList_eq_outcome (some 1) (.ofText source)
    exact congrArg (fun o : List Sexp × Nat => Parsed.mk o.1 o.2) hread
  have hstart : Text.IsMoved source 0 0 := ⟨[], source, .nil source, rfl, rfl⟩
  obtain ⟨hnest, read, rest, hsplits, hplace, hplace'⟩ :=
    Nest.run_withoutComments (n := .start (some 1)) rfl (.nil source) hstart
  have hsize := hsplits.size_dropComments_add 0
  rw [Nat.zero_add, ← hplace, ← hplace'] at hsize
  rw [hrun, hrun]
  exact ⟨congrArg Nest.finish hnest, hsize⟩

example : withoutComments "(a# )\nb \"# \"#\n) c".toList = "(ab \"# \") c".toList := by
  decide +kernel

end Sexpand
