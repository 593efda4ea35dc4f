import NodLexis.Literal
import NodLexis.Place
import NodLexis.Quoting
import NodLexis.TokenKind

/-! # Tokens

A token is a kind and the exact source text of it, with the place where that
text starts and the byte range that it covers.
-/

namespace NodLexis

structure Token where
  kind : TokenKind
  lexeme : String
  line : Nat
  column : Nat
  span : Span
  deriving DecidableEq

namespace Token

/-- The token on one line: its kind, its quoted text and where it starts. -/
def display (t : Token) : String :=
  t.kind.name ++ "(" ++ Quoting.quoted t.lexeme ++ ") at " ++ toString t.line ++ ":" ++
    toString t.column

/-- The text that a string or character literal denotes. -/
def cooked? (t : Token) : Option String :=
  if t.kind = .stringLiteral ∨ t.kind = .charLiteral then Literal.decode? t.lexeme else none

end Token

end NodLexis
