import Sexpand.Proofs.Sexp.Descent
import Sexpand.Proofs.Sexp.Printable

namespace Sexpand

open Grammar (Tokens atoms)

/-- A text without letters is no piece of anything. -/
def Text.piece (t : Text) : List Text := if t = [] then [] else [t]

/-- The texts consist of the pieces, in their order and each in one text. -/
def Gathered (pieces texts : List Text) : Prop :=
  ∃ groups : List (List Text), groups.flatten = pieces ∧ groups.map List.flatten = texts

theorem Gathered.concat {pieces front : List Text} {word : Text}
    (h : Gathered pieces (front ++ word.piece)) (text : Text) :
    Gathered (pieces ++ text.piece) (front ++ Text.piece (word ++ text)) := by
  obtain ⟨groups, rfl, hgroups⟩ := h
  by_cases htext : text = []
  · subst htext
    exact ⟨groups, by simp [Text.piece], by rw [hgroups, List.append_nil]⟩
  have hpiece : text.piece = [text] := if_neg htext
  have hlonger : Text.piece (word ++ text) = [word ++ text] := if_neg (by simp [htext])
  rw [hpiece, hlonger]
  by_cases hword : word = []
  · subst hword
    rw [Text.piece, if_pos rfl, List.append_nil] at hgroups
    exact ⟨groups ++ [[text]], by simp, by simp [hgroups]⟩
  · -- The new piece belongs to the last text.
    rw [Text.piece, if_neg hword] at hgroups
    obtain ⟨others, last, rfl, hothers, hlast⟩ := List.map_eq_append_iff.1 hgroups
    obtain ⟨group, rfl, hgroup⟩ := List.map_eq_singleton_iff.1 hlast
    exact ⟨others ++ [group ++ [text]], by simp, by simp [hothers, hgroup]⟩

theorem Sexp.textsItems_append (items more : List Sexp) :
    textsItems (items ++ more) = textsItems items ++ textsItems more := by
  induction items with
  | nil => rfl
  | cons item items ih =>
      rw [List.cons_append, textsItems, textsItems, ih, List.append_assoc]

theorem Sexp.textsItems_atoms (word : Text) : textsItems (atoms word) = word.piece := by
  by_cases hword : word = []
  · rw [atoms, if_pos hword, Text.piece, if_pos hword]
    rfl
  · rw [atoms, if_neg hword, Text.piece, if_neg hword]
    rfl

namespace Draft

/-- The texts of the atoms, with the one that is under way. -/
def texts (d : Draft) : List Text := Sexp.textsItems d.items.reverse ++ Text.piece d.word.reverse

variable {d : Draft}

theorem texts_empty (limit : Option Nat) : (empty limit).texts = [] := rfl

theorem texts_endWord (d : Draft) : d.endWord.texts = d.texts := by
  rw [texts, d.reverse_items_endWord, d.word_endWord, Sexp.textsItems_append,
    Sexp.textsItems_atoms]
  exact List.append_nil _

theorem texts_addItem (h : d.word = []) (item : Sexp) :
    (d.addItem item).texts = d.texts ++ item.texts := by
  have hword : (d.addItem item).word = [] := h
  rw [texts, texts, hword, h, d.reverse_items_addItem, Sexp.textsItems_append]
  simp [Sexp.textsItems, Text.piece]

theorem textsItems_finish (h : d.isFull = true → d.word = []) :
    Sexp.textsItems d.finish = d.texts := by
  by_cases hfull : d.isFull = true
  · have hword := h hfull
    rw [finish_of_word_eq_nil hword, texts, hword]
    exact (List.append_nil _).symm
  · rw [finish_of_not_full (mt d.isFull_iff.2 hfull), Sexp.textsItems_append,
      Sexp.textsItems_atoms]
    rfl

end Draft

namespace Nest

/-- The texts of all atoms, from the outermost list inwards. -/
def texts (n : Nest) : List Text := n.parents.reverse.flatMap Draft.texts ++ n.current.texts

variable {n : Nest} {d parent : Draft} {parents : List Draft}

theorem texts_endWord (n : Nest) : n.endWord.texts = n.texts := by
  rw [texts, endWord, Draft.texts_endWord]
  rfl

theorem texts_openList (n : Nest) : n.openList.texts = n.texts := by
  rw [texts, openList, Draft.texts_empty, List.append_nil, List.reverse_cons, List.flatMap_append,
    List.flatMap_singleton]
  rfl

theorem texts_closeList (hparent : parent.word = []) (hfull : d.isFull = true → d.word = [])
    (rawDepth : Nat) :
    texts ⟨parent.addItem (.list d.finish), parents, rawDepth⟩ =
      texts ⟨d, parent :: parents, rawDepth⟩ := by
  have hlist : (Sexp.list d.finish).texts = d.texts := Draft.textsItems_finish hfull
  rw [texts, texts, Draft.texts_addItem hparent, hlist, List.reverse_cons, List.flatMap_append,
    List.flatMap_singleton, List.append_assoc]

theorem textsItems_finish (hparents : ∀ d ∈ n.parents, d.word = [])
    (hfull : n.current.isFull = true → n.current.word = []) :
    Sexp.textsItems n.finish = n.texts := by
  obtain ⟨d, parents, rawDepth⟩ := n
  induction parents generalizing d with
  | nil => exact Draft.textsItems_finish hfull
  | cons parent parents ih =>
      obtain ⟨hparent, hparents⟩ := List.forall_mem_cons.1 hparents
      rw [← texts_closeList hparent hfull]
      exact ih _ hparents fun _ => hparent

theorem gathered_addText {pieces : List Text} (h : Gathered pieces n.texts) (text : Text) :
    Gathered (pieces ++ text.piece) (n.addText text).texts := by
  rw [texts, Draft.texts, ← List.append_assoc] at h
  have hlonger := h.concat text
  rw [← Draft.reverse_word_addText, List.append_assoc] at hlonger
  exact hlonger

/-- The letters that a token adds to an atom, where `depth` parentheses are open before it. A token
that is too deep for a list adds its source text. -/
def letters (depth : Nat) (token : Token) (slice : Text) : Text :=
  if maxDepth < max depth (rawDepthAfter depth token) then slice
  else
    match token with
    | .fragment text => text
    | _ => []

def depthAfter (depth : Nat) (tokens : Tokens) : Nat :=
  tokens.foldl (fun depth entry => rawDepthAfter depth entry.1) depth

def pieces (depth : Nat) : Tokens → List Text
  | [] => []
  | (token, p) :: tokens =>
      Text.piece (letters depth token p.lexeme.slice) ++
        pieces (rawDepthAfter depth token) tokens

theorem depthAfter_concat (depth : Nat) (tokens : Tokens) (entry : Token × Placed) :
    depthAfter depth (tokens ++ [entry]) = rawDepthAfter (depthAfter depth tokens) entry.1 := by
  rw [depthAfter, List.foldl_append]
  rfl

theorem pieces_concat (depth : Nat) (tokens : Tokens) (entry : Token × Placed) :
    pieces depth (tokens ++ [entry]) =
      pieces depth tokens ++
        Text.piece (letters (depthAfter depth tokens) entry.1 entry.2.lexeme.slice) := by
  induction tokens generalizing depth with
  | nil => exact List.append_nil _
  | cons first tokens ih =>
      rw [List.cons_append, pieces, pieces, ih, List.append_assoc]
      rfl

end Nest

end Sexpand
