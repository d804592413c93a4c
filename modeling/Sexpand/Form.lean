import Sexpand.Marker.Basic

namespace Sexpand

/-- The statements that a list is written as, by the keyword at its head. -/
inductive Form
  | var
  | func
  | code
  | marker
  deriving DecidableEq

namespace Form

def keyword : Form → Text
  | .var => ['v', 'a', 'r']
  | .func => ['f', 'u', 'n', 'c']
  | .code => ['c', 'o', 'd', 'e']
  | .marker => Marker.keyword

def ofKeyword? (symbol : Text) : Option Form :=
  [var, func, code, marker].find? fun form => form.keyword = symbol

theorem ofKeyword?_eq_some_iff {symbol : Text} {form : Form} :
    ofKeyword? symbol = some form ↔ form.keyword = symbol := by
  constructor
  · intro h
    simpa using List.find?_some h
  · rintro rfl
    cases form <;> decide

def active? (special : Bool) (head : Text) : Option Form :=
  (ofKeyword? head).filter fun form => special || form = marker

end Form

end Sexpand
