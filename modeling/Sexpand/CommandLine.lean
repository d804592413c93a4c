import Sexpand.Expansion
import Sexpand.Text.Similarity

namespace Sexpand.CommandLine

inductive Refusal
  | unexpectedArgument (argument : Text) (similar : Option Text)
  | unexpectedValue (option : Text) (value : Text)
  deriving DecidableEq

inductive Command
  | help
  | version
  | expand
  | refuse (refusal : Refusal)
  deriving DecidableEq

namespace Command

def longNames : List Text := ["help".toList, "version".toList]

/-- A value of a long option stands after its first equals sign. The hyphens of the option are left
out of `text`. -/
def ofLong (text : Text) : Command :=
  let (name, value) := Text.cutAt '=' text
  let command :=
    if name = "help".toList then some help
    else if name = "version".toList then some version
    else none
  let option := "--".toList ++ name
  match command, value with
  | none, _ =>
      let similar := Text.mostAlike? name longNames
      refuse (.unexpectedArgument option (similar.map ("--".toList ++ ·)))
  | some _, some value => refuse (.unexpectedValue option value)
  | some command, none => command

def ofShort (letter : Char) : Command :=
  if letter = 'h' then help
  else if letter = 'V' then version
  else refuse (.unexpectedArgument ['-', letter] none)

/-- The first argument decides. The options end at two hyphens. -/
def ofArguments : List Text → Command
  | [] => expand
  | ['-', '-'] :: [] => expand
  | ['-', '-'] :: argument :: _ => refuse (.unexpectedArgument argument none)
  | ('-' :: '-' :: text) :: _ => ofLong text
  | ('-' :: letter :: _) :: _ => ofShort letter
  | argument :: _ => refuse (.unexpectedArgument argument none)

end Command

def helpText : Text :=
  ("Expands marker-tagged s-expressions from standard input into call syntax\n\n" ++
    "Usage: sexprpp\n\n" ++
    "Options:\n" ++
    "  -h, --help     Print help\n" ++
    "  -V, --version  Print version\n").toList

def versionText : Text := "sexprpp 0.1.0\n".toList

namespace Refusal

def message : Refusal → Text
  | .unexpectedArgument argument _ =>
      "unexpected argument '".toList ++ argument ++ "' found".toList
  | .unexpectedValue option value =>
      "unexpected value '".toList ++ value ++ "' for '".toList ++ option ++
        "' found; no more were expected".toList

def option? : Refusal → Option Text
  | .unexpectedArgument _ similar => similar
  | .unexpectedValue option _ => some option

def tip : Refusal → Text
  | .unexpectedArgument _ (some similar) =>
      "  tip: a similar argument exists: '".toList ++ similar ++ "'\n\n".toList
  | _ => []

def usage (r : Refusal) : Text :=
  "Usage: sexprpp".toList ++ r.option?.elim [] (' ' :: ·)

def text (r : Refusal) : Text :=
  "error: ".toList ++ r.message ++ ['\n', '\n'] ++ r.tip ++ r.usage ++
    "\n\nFor more information, try '--help'.\n".toList

end Refusal

def threshold (setting : Option Text) : Option Level :=
  match setting with
  | none => some .error
  | some name => Level.ofName? name

def indented (message : Text) : Text :=
  message.flatMap fun c => if c = '\n' then '\n' :: List.replicate 4 ' ' else [c]

def logLine (time : Text) (level : Level) (target message : Text) : Text :=
  '[' :: time ++ ' ' :: level.name ++ List.replicate (5 - level.name.length) ' ' ++
    ' ' :: target ++ ']' :: ' ' :: indented message ++ ['\n']

def noticeLine (time : Text) (notice : Notice) : Text :=
  let target := if notice.isAboutWriting then "sexprpp::rewrite" else "sexprpp::scanner"
  logLine time notice.level target.toList notice.message

def summaryLine (time : Text) (expansions size : Nat) : Text :=
  logLine time .info "sexprpp".toList
    ("expanded ".toList ++ Nat.toDigits 10 expansions ++ " expression(s) in ".toList ++
      Nat.toDigits 10 size ++ " byte(s) of input".toList)

structure Outcome where
  status : Nat
  stdout : Utf8.Bytes
  stderr : Text
  deriving DecidableEq

def expandInput (most : Option Level) (time : Text) (input : Utf8.Bytes) : Outcome :=
  let report := expandBytes .standard input none
  let shown := report.notices.filter fun notice => notice.level.isShown most
  let lines := shown.flatMap (noticeLine time)
  match report.result with
  | .ok expansions =>
      let summary := summaryLine time expansions input.length
      ⟨0, report.output, lines ++ (if Level.info.isShown most then summary else [])⟩
  | .error error => ⟨1, report.output, lines ++ "Error: ".toList ++ error.message ++ ['\n']⟩

def execute (command : Command) (most : Option Level) (time : Text) (input : Utf8.Bytes) :
    Outcome :=
  match command with
  | .help => ⟨0, Utf8.encode helpText, []⟩
  | .version => ⟨0, Utf8.encode versionText, []⟩
  | .expand => expandInput most time input
  | .refuse refusal => ⟨2, [], refusal.text⟩

end Sexpand.CommandLine
