import NodLexis.Unprintable

/-! # Quoted text

Messages show text between quotation marks, on one line and without loss: the
mark in force and the backslash are escaped, a few control characters have short
forms, and every other unprintable character is given by its code point.
-/

namespace NodLexis.Quoting

/-- The letter of a character that has a short escaped form. -/
def shortForm? (c : Char) : Option Char :=
  if c = '\x00' then some '0'
  else if c = '\t' then some 't'
  else if c = '\r' then some 'r'
  else if c = '\n' then some 'n'
  else none

/-- The escaped form by code point, in lowercase hexadecimal without leading zeros. -/
def codePointForm (c : Char) : List Char :=
  ['\\', 'u', '{'] ++ Nat.toDigits 16 c.toNat ++ ['}']

/-- How a character is written between two of the given marks. -/
def written (mark c : Char) : List Char :=
  if c = mark ∨ c = '\\' then ['\\', c]
  else match shortForm? c with
    | some letter => ['\\', letter]
    | none => if Unprintable.isUnprintable c then codePointForm c else [c]

def quoted (text : String) : String :=
  String.ofList ('"' :: text.toList.flatMap (written '"') ++ ['"'])

def quotedChar (c : Char) : String :=
  String.ofList ('\'' :: written '\'' c ++ ['\''])

end NodLexis.Quoting
