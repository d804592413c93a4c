import Sexpand.Form
import Sexpand.Notice

namespace Sexpand

/-- A form whose list has no item at the index. The head has index 0. -/
structure MissingArgument where
  form : Form
  index : Nat
  deriving DecidableEq

def MissingArgument.message (m : MissingArgument) : Text :=
  "`".toList ++ m.form.keyword ++ "` form is missing its argument ".toList ++
    Nat.toDigits 10 m.index

inductive Rendering.Part
  | atom (text : Text)
  | punctuation (text : Text)
  | notice (notice : Notice)
  deriving DecidableEq

/-- What comes of writing an expression, in order, up to the first missing argument. -/
structure Rendering where
  parts : List Rendering.Part
  missing : Option MissingArgument
  deriving DecidableEq

namespace Rendering

def empty : Rendering := ⟨[], none⟩

def atom (text : Text) : Rendering := ⟨[.atom text], none⟩

def punctuation (text : Text) : Rendering := ⟨[.punctuation text], none⟩

def notice (notice : Notice) : Rendering := ⟨[.notice notice], none⟩

def missingArgument (form : Form) (index : Nat) : Rendering := ⟨[], some ⟨form, index⟩⟩

def append (r s : Rendering) : Rendering :=
  match r.missing with
  | none => ⟨r.parts ++ s.parts, s.missing⟩
  | some _ => r

instance : Append Rendering := ⟨append⟩

theorem append_def (r s : Rendering) : r ++ s = r.append s := rfl

theorem append_assoc (r s t : Rendering) : r ++ s ++ t = r ++ (s ++ t) := by
  rcases r with ⟨_, _ | _⟩ <;> rcases s with ⟨_, _ | _⟩ <;> simp [append_def, append]

def Part.written : Part → Text
  | .atom text => text
  | .punctuation text => text
  | .notice _ => []

def text (r : Rendering) : Text := r.parts.flatMap Part.written

@[simp]
theorem text_append_of_none {r s : Rendering} (h : r.missing = none) :
    (r ++ s).text = r.text ++ s.text := by
  simp [append_def, append, h, text]

end Rendering

namespace Sexp

mutual

/-- An expression as a call, or as the statement of a form where `special` gives forms their
meaning. A signature with a text is written as that text. -/
def render (special : Bool) : Sexp → Rendering
  | .atom text => .atom text
  | .list [] => .notice .emptyList
  | .list (.list items :: args) => .notice (.headedByList (.list items :: args))
  | .list (.atom head :: args) =>
      match Form.active? special head, args with
      | some .var, signature :: init :: _ =>
          signature.text?.elim (render false signature) .atom ++ .punctuation [' ', '('] ++
            render false init ++ .punctuation [')', ';']
      | some .func, signature :: body :: _ =>
          signature.text?.elim (render false signature) .atom ++ .punctuation ['{'] ++
            render false body ++ .punctuation [';', '}']
      | some .code, e :: _ => render false e ++ .punctuation [';']
      | some .marker, e :: _ => render true e
      | some form, args => .missingArgument form (args.length + 1)
      | none, [] => .atom head
      | none, arg :: args =>
          .atom head ++ .punctuation [' ', '('] ++ render false arg ++ renderOthers args ++
            .punctuation [')']

def renderOthers : List Sexp → Rendering
  | [] => .empty
  | arg :: args => .punctuation [',', ' '] ++ render false arg ++ renderOthers args

end

def callText (e : Sexp) : Except MissingArgument Text :=
  match (e.render true).missing with
  | none => .ok (e.render true).text
  | some missing => .error missing

end Sexp

end Sexpand
