import NodLexis.Mode
import NodLexis.Place
import NodLexis.Quoting

/-! # Failures of a scan

A failure is its cause, the mode in which the scanner was left, and the place of
the offending character or of the end of the text. The wording of messages and
of the advice beside them is decided here.
-/

namespace NodLexis

inductive Cause where
  /-- The text ended inside what `context` names. -/
  | earlyEof (context : String)
  | badEscape (letter : Char)
  | badUnicodeEscape (sequence : String)
  | unrecognisedCharacter (character : Char)
  | malformedNumber (lexeme : String)
  | badLambdaArg (lexeme : String)
  | badCharLiteral (lexeme : String)
  deriving DecidableEq

/-- The coarse sorts of failure. -/
inductive FailureClass where
  | earlyEof | badEscape | other
  deriving DecidableEq

namespace FailureClass

def name : FailureClass → String
  | .earlyEof => "EarlyEof"
  | .badEscape => "BadEscape"
  | .other => "OtherError"

end FailureClass

namespace Cause

def failureClass : Cause → FailureClass
  | .earlyEof _ => .earlyEof
  | .badEscape _ | .badUnicodeEscape _ => .badEscape
  | _ => .other

def name : Cause → String
  | .earlyEof _ => "EarlyEof"
  | .badEscape _ => "BadEscape"
  | .badUnicodeEscape _ => "BadUnicodeEscape"
  | .unrecognisedCharacter _ => "UnrecognisedCharacter"
  | .malformedNumber _ => "MalformedNumber"
  | .badLambdaArg _ => "BadLambdaArg"
  | .badCharLiteral _ => "BadCharLiteral"

/-- The piece of text that the cause speaks of, unquoted. -/
def detail : Cause → String
  | .earlyEof text | .badUnicodeEscape text | .malformedNumber text
  | .badLambdaArg text | .badCharLiteral text => text
  | .badEscape c | .unrecognisedCharacter c => String.singleton c

/-- The cause with a name and a piece of text; where the text is a single
character, its first one counts. -/
def ofName? (name detail : String) : Option Cause :=
  match name with
  | "EarlyEof" => some (.earlyEof detail)
  | "BadEscape" => detail.toList.head?.map .badEscape
  | "BadUnicodeEscape" => some (.badUnicodeEscape detail)
  | "UnrecognisedCharacter" => detail.toList.head?.map .unrecognisedCharacter
  | "MalformedNumber" => some (.malformedNumber detail)
  | "BadLambdaArg" => some (.badLambdaArg detail)
  | "BadCharLiteral" => some (.badCharLiteral detail)
  | _ => none

def message : Cause → String
  | .earlyEof context => "unexpected end of input inside " ++ context
  | .badEscape c => "unknown escape sequence: \\" ++ String.singleton c
  | .badUnicodeEscape sequence => "invalid unicode escape: " ++ Quoting.quoted sequence
  | .unrecognisedCharacter c => "unrecognised character: " ++ Quoting.quotedChar c
  | .malformedNumber lexeme => "malformed number: " ++ Quoting.quoted lexeme
  | .badLambdaArg lexeme => "malformed lambda argument: " ++ Quoting.quoted lexeme
  | .badCharLiteral lexeme => "char literal must contain exactly one character: " ++ lexeme

/-- Advice on what to write instead. There is none for a stray character. -/
def tip? : Cause → Option String
  | .earlyEof context =>
    some ("Input ended inside a " ++ context ++ ", is a closing quote missing?")
  | .badEscape c =>
    some ("Unknown escape `\\" ++ String.singleton c ++
      "`, expected one of \\n \\t \\r \\0 \\\\ \\\" \\' or \\u\x7b...\x7d")
  | .badUnicodeEscape _ =>
    some ("Unicode escapes take 1 to 6 hex digits naming a valid code point, " ++
      "like \\u\x7b1F600\x7d")
  | .unrecognisedCharacter _ => none
  | .malformedNumber lexeme =>
    some ("Invalid number: `" ++ lexeme ++ "`, separate it from the following name")
  | .badLambdaArg lexeme =>
    some ("Invalid lambda argument `" ++ lexeme ++
      "`, use `$` followed by an index like `$0`")
  | .badCharLiteral lexeme =>
    some ("Char literal " ++ lexeme ++
      " must hold exactly one character, use \"...\" for text")

theorem tip?_eq_none_iff {c : Cause} :
    c.tip? = none ↔ ∃ x, c = .unrecognisedCharacter x := by
  cases c <;> simp [tip?]

theorem ofName?_name_detail (c : Cause) : ofName? c.name c.detail = some c := by
  cases c <;> simp [ofName?, name, detail]

end Cause

structure Failure where
  cause : Cause
  mode : Mode
  position : Position
  line : Nat
  column : Nat
  deriving DecidableEq

namespace Failure

/-- The message and where the scan stopped. -/
def display (f : Failure) : String :=
  f.cause.message ++ " at " ++ toString f.line ++ ":" ++ toString f.column

end Failure

end NodLexis
