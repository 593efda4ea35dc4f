import NodLexis.Literal

/-! # Modes of a scanner

A mode says what the scanner is in the middle of: nothing, a token of some form,
an escape inside a literal, or one of the two endings.
-/

namespace NodLexis

inductive Mode where
  | between | newLine
  | integer | float
  | literal (q : Quote)
  | escape (q : Quote)
  | identifier | underscore | dollar | operator | dot | doubleDot
  | error | eof
  deriving DecidableEq

namespace Mode

def all : List Mode :=
  [.between, .newLine, .integer, .float, .literal .double, .escape .double,
    .literal .single, .escape .single, .identifier, .underscore, .dollar, .operator,
    .dot, .doubleDot, .error, .eof]

def name : Mode → String
  | .between => "Default"
  | .newLine => "NewLine"
  | .integer => "Integer"
  | .float => "Float"
  | .literal .double => "String"
  | .escape .double => "StringEscape"
  | .literal .single => "Char"
  | .escape .single => "CharEscape"
  | .identifier => "Identifier"
  | .underscore => "Underscore"
  | .dollar => "Dollar"
  | .operator => "Operator"
  | .dot => "Dot"
  | .doubleDot => "DoubleDot"
  | .error => "Error"
  | .eof => "Eof"

def ofName? (name : String) : Option Mode := all.find? fun m => m.name == name

/-- No token is pending, and the next character opens one or is skipped. -/
def isBetween : Mode → Bool
  | .between | .newLine => true
  | _ => false

theorem mem_all (m : Mode) : m ∈ all := by
  cases m with
  | literal q => cases q <;> decide
  | escape q => cases q <;> decide
  | _ => decide

end Mode

end NodLexis
