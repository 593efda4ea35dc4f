/-! # Character classes

The classes of character that the lexical grammar speaks of. All of them hold
ASCII characters only, so a letter or digit of another script starts no token.
-/

namespace NodLexis.CharacterClass

def blanks : List Char := [' ', '\t', '\r', '\n']

def operatorSymbols : List Char :=
  ['+', '-', '*', '/', '%', '<', '>', '=', '!', '~', '|', '&', '^', '?', ':']

def isBlank (c : Char) : Bool := blanks.contains c

def isOperatorSymbol (c : Char) : Bool := operatorSymbols.contains c

/-- A letter or an underscore, the characters that open a word. -/
def isWordStart (c : Char) : Bool := c.isAlpha || c == '_'

/-- A letter, a digit or an underscore, the characters that continue a word. -/
def isWordChar (c : Char) : Bool := c.isAlphanum || c == '_'

/-- The value of a hexadecimal digit of either case. -/
def hexDigitValue? (c : Char) : Option Nat :=
  if c.isDigit then some (c.toNat - '0'.toNat)
  else if 'a' ≤ c ∧ c ≤ 'f' then some (c.toNat - 'a'.toNat + 10)
  else if 'A' ≤ c ∧ c ≤ 'F' then some (c.toNat - 'A'.toNat + 10)
  else none

def isHexDigit (c : Char) : Bool := (hexDigitValue? c).isSome

theorem isBlank_iff {c : Char} : isBlank c = true ↔ c ∈ blanks := List.contains_iff_mem

theorem isOperatorSymbol_iff {c : Char} :
    isOperatorSymbol c = true ↔ c ∈ operatorSymbols := List.contains_iff_mem

theorem isWordChar_of_isWordStart {c : Char} (h : isWordStart c = true) :
    isWordChar c = true := by
  simp only [isWordStart, isWordChar, Char.isAlphanum, Bool.or_eq_true] at h ⊢
  grind

end NodLexis.CharacterClass
