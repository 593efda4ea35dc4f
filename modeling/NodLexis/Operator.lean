/-! # Operators

The operator symbols that the language gives a meaning. Every other run of
operator characters is a general operator, whose meaning a program declares.
-/

namespace NodLexis

inductive Operator where
  | add | sub | mul | div | mod | pow | shiftLeft | shiftRight
  | less | greater | lessEqual | greaterEqual | notEqual | equal | identical | notIdentical
  | and | or | xor
  | assign | assignAdd | assignSub | assignMul | assignDiv
  | assignMod | assignPow | assignShiftLeft | assignShiftRight
  | ampersand | pipe | hat | exclamation | question
  | colon | doubleColon | rightArrow | tilde | tildeEqual
  deriving DecidableEq

/-- How far a symbol may be reused by a program that declares an operator: as it
is, only as the beginning of a longer symbol, or not at all. -/
inductive ReuseRule where
  | overloadable | longFormOnly | reserved
  deriving DecidableEq

namespace ReuseRule

def name : ReuseRule → String
  | .overloadable => "Overloadable"
  | .longFormOnly => "LongFormOnly"
  | .reserved => "Reserved"

end ReuseRule

namespace Operator

/-- The operators in the order of their symbols. -/
def all : List Operator :=
  [.exclamation, .notEqual, .notIdentical, .mod, .assignMod, .ampersand, .and, .mul, .pow,
    .assignPow, .assignMul, .add, .assignAdd, .sub, .assignSub, .rightArrow, .div,
    .assignDiv, .colon, .doubleColon, .less, .shiftLeft, .assignShiftLeft, .lessEqual,
    .assign, .equal, .identical, .greater, .greaterEqual, .shiftRight, .assignShiftRight,
    .question, .hat, .xor, .pipe, .or, .tilde, .tildeEqual]

def symbol : Operator → String
  | .add => "+" | .sub => "-" | .mul => "*" | .div => "/"
  | .mod => "%" | .pow => "**" | .shiftLeft => "<<" | .shiftRight => ">>"
  | .less => "<" | .greater => ">" | .lessEqual => "<=" | .greaterEqual => ">="
  | .notEqual => "!=" | .equal => "==" | .identical => "===" | .notIdentical => "!=="
  | .and => "&&" | .or => "||" | .xor => "^^"
  | .assign => "=" | .assignAdd => "+=" | .assignSub => "-=" | .assignMul => "*="
  | .assignDiv => "/=" | .assignMod => "%=" | .assignPow => "**="
  | .assignShiftLeft => "<<=" | .assignShiftRight => ">>="
  | .ampersand => "&" | .pipe => "|" | .hat => "^" | .exclamation => "!" | .question => "?"
  | .colon => ":" | .doubleColon => "::" | .rightArrow => "->" | .tilde => "~"
  | .tildeEqual => "~="

def name : Operator → String
  | .add => "Add" | .sub => "Sub" | .mul => "Mul"
  | .div => "Div" | .mod => "Mod" | .pow => "Pow"
  | .shiftLeft => "LSh" | .shiftRight => "RSh"
  | .less => "LT" | .greater => "GT" | .lessEqual => "LE"
  | .greaterEqual => "GE" | .notEqual => "NE" | .equal => "Eq"
  | .identical => "Id" | .notIdentical => "NI"
  | .and => "And" | .or => "Or" | .xor => "Xor"
  | .assign => "Assign" | .assignAdd => "AssignAdd" | .assignSub => "AssignSub"
  | .assignMul => "AssignMul" | .assignDiv => "AssignDiv"
  | .assignMod => "AssignMod" | .assignPow => "AssignPow" | .assignShiftLeft => "AssignLSh"
  | .assignShiftRight => "AssignRSh"
  | .ampersand => "Ampersand" | .pipe => "Pipe" | .hat => "Hat"
  | .exclamation => "ExclMark" | .question => "QuesMark"
  | .colon => "Colon" | .doubleColon => "DoubleColon" | .rightArrow => "RightArrow"
  | .tilde => "Tilde" | .tildeEqual => "TildeEq"

def reuse : Operator → ReuseRule
  | .assign | .assignAdd | .assignSub | .assignMul | .assignDiv | .assignMod | .assignPow |
    .assignShiftLeft | .assignShiftRight | .question | .colon | .doubleColon | .rightArrow |
    .tilde | .tildeEqual => .longFormOnly
  | _ => .overloadable

/-- The operator that a run of operator characters spells. -/
def ofSymbol? (symbol : String) : Option Operator := all.find? fun o => o.symbol == symbol

theorem mem_all (o : Operator) : o ∈ all := by
  cases o <;> decide

/-- No two operators are spelt alike. -/
theorem symbol_injective {o p : Operator} (h : o.symbol = p.symbol) : o = p := by
  have key : ∀ o ∈ all, ∀ p ∈ all, o.symbol = p.symbol → o = p := by decide +kernel
  exact key o (mem_all o) p (mem_all p) h

theorem ofSymbol?_eq_some_iff {symbol : String} {o : Operator} :
    ofSymbol? symbol = some o ↔ o.symbol = symbol := by
  constructor
  · intro h
    simpa using List.find?_some h
  · rintro rfl
    cases h : ofSymbol? o.symbol with
    | none => exact absurd (beq_self_eq_true o.symbol) (List.find?_eq_none.mp h o (mem_all o))
    | some p => exact congrArg some (symbol_injective (by simpa using List.find?_some h))

end Operator

end NodLexis
