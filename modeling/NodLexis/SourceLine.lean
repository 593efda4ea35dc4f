import NodLexis.SourceText

/-! # The line around an offset

A view of a source from one of its byte offsets: the number and text of the line
that holds the offset, and the column at which the offset stands in it. The view
is computed from the text alone, without a cursor.
-/

namespace NodLexis

/-- A line of a source, numbered from one, and a column in it, counted in
characters from zero. -/
structure LineView where
  number : Nat
  text : String
  column : Nat
  deriving DecidableEq

namespace SourceLine

/-- The characters of a text up to its first line feed. -/
def firstLine (text : List Char) : List Char := text.takeWhile (· != '\n')

/-- The characters of a text from its last line feed on. -/
def lastLine (text : List Char) : List Char := (firstLine text.reverse).reverse

/-- The view from between two texts. -/
def viewBetween (before after : List Char) : LineView where
  number := before.count '\n' + 1
  text := String.ofList (lastLine before ++ firstLine after)
  column := (lastLine before).length

/-- The view from a byte offset, which has to be a character boundary of the
source or its end. -/
def lineAt? (source : String) (offset : Nat) : Option LineView :=
  (SourceText.cut? source.toList offset).map fun (before, after) => viewBetween before after

end SourceLine

end NodLexis
