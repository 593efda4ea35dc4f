import NodLexis.CharacterClass

/-! # Escapes

An escape is a backslash and what follows it: one letter for a common character,
or a code point as one to six hexadecimal digits in braces. `read` looks at the
text after a backslash and tells a complete escape from one that the end of the
text cuts off and from the ways in which it can be wrong.
-/

namespace NodLexis.Escape
open CharacterClass

/-- The character that one letter after the backslash stands for. -/
def simple? : Char → Option Char
  | 'n' => some '\n'
  | 't' => some '\t'
  | 'r' => some '\r'
  | '0' => some '\x00'
  | '\\' => some '\\'
  | '"' => some '"'
  | '\'' => some '\''
  | _ => none

def maxHexDigits : Nat := 6

/-- The value of a numeral in base sixteen. -/
def hexValue (digits : List Char) : Nat :=
  digits.foldl (fun n c => 16 * n + (hexDigitValue? c).getD 0) 0

/-- The character with a code point; surrogates and larger numbers have none. -/
def ofCodePoint? (n : Nat) : Option Char :=
  if n.isValidChar then some (Char.ofNat n) else none

/-- The character whose code point the digits spell. -/
def ofHex? (digits : List Char) : Option Char :=
  if digits ≠ [] ∧ digits.length ≤ maxHexDigits ∧ digits.all isHexDigit then
    ofCodePoint? (hexValue digits)
  else none

/-- What the text after a backslash turns out to be. A width counts the
characters that belong to the escape. -/
inductive Reading where
  | complete (value : Char) (width : Nat)
  | cut (width : Nat)
  /-- The width stops short of the last character of `sequence`, the one that
  cannot stand there. -/
  | malformed (sequence : List Char) (width : Nat)
  | unknown (c : Char)
  deriving DecidableEq

/-- Reads digits and a closing brace, after the letter and the opening brace. -/
def readDigits (text : List Char) : Reading :=
  let digits := (text.take maxHexDigits).takeWhile isHexDigit
  match text.drop digits.length with
  | [] => .cut (digits.length + 2)
  | '}' :: _ =>
    match ofHex? digits with
    | some value => .complete value (digits.length + 3)
    | none => .malformed ('{' :: digits ++ ['}']) (digits.length + 2)
  | c :: _ => .malformed ('{' :: digits ++ [c]) (digits.length + 2)

/-- Reads the text after a backslash. -/
def read : List Char → Reading
  | [] => .cut 0
  | ['u'] => .cut 1
  | 'u' :: '{' :: text => readDigits text
  | 'u' :: c :: _ => .malformed [c] 1
  | c :: _ =>
    match simple? c with
    | some value => .complete value 1
    | none => .unknown c

/-- A complete escape has at least one character after the backslash. -/
theorem width_pos_of_read {text : List Char} {value : Char} {width : Nat}
    (h : read text = .complete value width) : 0 < width := by
  unfold read at h
  split at h <;> try contradiction
  · unfold readDigits at h
    grind
  · grind

theorem ne_nil_of_read {text : List Char} {value : Char} {width : Nat}
    (h : read text = .complete value width) : text ≠ [] := by
  rintro rfl
  contradiction

end NodLexis.Escape
