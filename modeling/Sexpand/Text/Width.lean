import Sexpand.Text.Emoji

namespace Sexpand.Text

inductive Selector
  | emoji
  | text
  | wide
  deriving DecidableEq

def Selector.ofChar? (c : Char) : Option Selector :=
  if c = '\ufe0f' then some .emoji
  else if c = '\ufe0e' then some .text
  else if c = '\ufe01' then some .wide
  else none

/-- What the text after a character begins with, as far as the two share columns. -/
inductive Ahead
  | plain
  | lineFeed
  | ligature (l : Ligature)
  | sequence (s : EmojiSequence)
  deriving DecidableEq

namespace Ahead

def ofChar (c : Char) : Ahead :=
  if c = '\n' then .lineFeed
  else match Ligature.ofChar? c with
    | some l => .ligature l
    | none => (EmojiSequence.ofChar? c).elim .plain .sequence

def before? (ahead : Ahead) (c : Char) : Option (Int × Ahead) :=
  match ahead with
  | .plain => none
  | .lineFeed => if c = '\r' then some (0, .plain) else none
  | .ligature l => (l.before? c).map fun (columns, rest) => (columns, rest.elim .plain .ligature)
  | .sequence s => (s.before? c).map fun (columns, next) => (columns, .sequence next)

def past : Ahead → Ahead
  | .ligature l => if l.isVowel then .plain else .ligature l
  | _ => .plain

def under (selector : Selector) (ahead : Ahead) : Ahead :=
  match selector, ahead with
  | .emoji, .sequence s => if s.isJoined then .sequence s else .plain
  | _, ahead => ahead.past

end Ahead

def Selector.before? (selector : Selector) (ahead : Ahead) (c : Char) : Option (Int × Ahead) :=
  match selector with
  | .emoji =>
      if selectableRanges.contains c then
        match ahead with
        | .sequence _ => some (0, .sequence .emoji)
        | _ => some (2, .sequence .emoji)
      else none
  | .text => if isNarrowAsText c then some (1, .plain) else none
  | .wide =>
      if c = '\u2018' ∨ c = '\u2019' ∨ c = '\u201c' ∨ c = '\u201d' then some (2, .plain) else none

structure Run where
  columns : Int
  ahead : Ahead
  selector : Option Selector
  deriving DecidableEq

namespace Run

def empty : Run := ⟨0, .plain, none⟩

def consUnselected (c : Char) (columns : Int) (ahead : Ahead) : Run :=
  match Selector.ofChar? c with
  | some selector => ⟨columns, ahead.under selector, some selector⟩
  | none =>
      match ahead.before? c with
      | some (added, ahead) => ⟨columns + added, ahead, none⟩
      | none => ⟨columns + charWidth c, .ofChar c, none⟩

def cons (c : Char) (run : Run) : Run :=
  match run.selector with
  | none => consUnselected c run.columns run.ahead
  | some selector =>
      match selector.before? run.ahead c with
      | some (added, ahead) => ⟨run.columns + added, ahead, none⟩
      | none => consUnselected c run.columns run.ahead.past

end Run

/-- A text is read from its end, since each character depends on what comes after it. -/
def run (t : Text) : Run := t.foldr Run.cons .empty

/-- The columns that the text takes on a display. In ASCII each character takes one, controls
included. -/
def width (t : Text) : Nat :=
  if t.all (fun c => c.toNat < 128) then t.length else (run t).columns.toNat

theorem width_of_ascii {t : Text} (h : ∀ c ∈ t, c.toNat < 128) : width t = t.length := by
  rw [width, if_pos (by simpa using h)]

end Sexpand.Text
