import Sexpand.Text.Basic

namespace Sexpand.Text

/-- The six blanks of the grammar. A no-break space or any other space of Unicode is a letter. -/
def isBlank (c : Char) : Bool :=
  c = ' ' || c = '\t' || c = '\n' || c = '\r' || c = '\x0B' || c = '\x0C'

def trimLeft (t : Text) : Text := t.dropWhile isBlank

def trimRight (t : Text) : Text := (trimLeft t.reverse).reverse

def trim (t : Text) : Text := trimRight (trimLeft t)

end Sexpand.Text
