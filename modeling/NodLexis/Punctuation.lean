/-! # Punctuation

The separators, brackets and dots. Eight of them are tokens by their single
character; the dots are told apart by what follows the first.
-/

namespace NodLexis

inductive Punctuation where
  | semicolon | comma | dot | doubleDot | doubleDotLess
  | parenOpen | parenClose | bracketOpen | bracketClose | braceOpen | braceClose
  deriving DecidableEq

namespace Punctuation

def all : List Punctuation :=
  [.semicolon, .comma, .dot, .doubleDot, .doubleDotLess, .parenOpen, .parenClose,
    .bracketOpen, .bracketClose, .braceOpen, .braceClose]

def symbol : Punctuation → String
  | .semicolon => ";" | .comma => "," | .dot => "." | .doubleDot => ".."
  | .doubleDotLess => "..<" | .parenOpen => "(" | .parenClose => ")"
  | .bracketOpen => "[" | .bracketClose => "]" | .braceOpen => "\x7b" | .braceClose => "\x7d"

def name : Punctuation → String
  | .semicolon => "Semicolon" | .comma => "Comma" | .dot => "Dot"
  | .doubleDot => "DoubleDot" | .doubleDotLess => "DoubleDotLT"
  | .parenOpen => "ParenL" | .parenClose => "ParenR"
  | .bracketOpen => "BracketL" | .bracketClose => "BracketR"
  | .braceOpen => "BraceL" | .braceClose => "BraceR"

/-- The punctuation that a character is by itself, whatever follows it. -/
def ofChar? : Char → Option Punctuation
  | ';' => some .semicolon
  | ',' => some .comma
  | '(' => some .parenOpen
  | ')' => some .parenClose
  | '[' => some .bracketOpen
  | ']' => some .bracketClose
  | '{' => some .braceOpen
  | '}' => some .braceClose
  | _ => none

theorem mem_all (p : Punctuation) : p ∈ all := by
  cases p <;> decide

theorem symbol_of_ofChar? {c : Char} {p : Punctuation} (h : ofChar? c = some p) :
    p.symbol.toList = [c] := by
  unfold ofChar? at h
  split at h <;> simp_all <;> subst h <;> simp [symbol]

end Punctuation

end NodLexis
