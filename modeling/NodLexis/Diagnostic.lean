import NodLexis.Failure
import NodLexis.SourceLine
import NodLexis.WhiteSpace

/-! # Diagnostics

A failure drawn for a reader: what went wrong, in which file, and the source line
with a caret under the place. The line is shown without its indentation and
without the white space at its end, and the caret moves to the left with it.
-/

namespace NodLexis.Diagnostic

def isIndent (c : Char) : Bool := c == ' ' || c == '\t'

def heading (f : Failure) : String :=
  "Error: " ++ f.cause.name ++
    match f.cause.tip? with
    | none => ""
    | some tip => " (" ++ tip ++ ")"

/-- The empty column for line numbers, as wide as the given number, and its rule. -/
def gutter (number : Nat) : String :=
  String.ofList (List.replicate ((toString number).length + 1) ' ' ++ ['|'])

def codeLine (v : LineView) : String :=
  toString v.number ++ " | " ++
    String.ofList (WhiteSpace.trimEnd (v.text.toList.dropWhile isIndent))

def caretLine (v : LineView) : String :=
  let indent := (v.text.toList.takeWhile isIndent).length
  gutter v.number ++ " " ++ String.ofList (List.replicate (v.column - indent) '-' ++ ['^'])

/-- The lines of a diagnostic. A position that the source does not have is told
in words instead of drawn. -/
def lines (source : String) (f : Failure) : List String :=
  heading f :: ("-> " ++ f.position.file) ::
    match SourceLine.lineAt? source f.position.offset with
    | none => [f.display]
    | some v => [gutter v.number, codeLine v, caretLine v]

def render (source : String) (f : Failure) : String :=
  String.join ((lines source f).map fun line => line ++ "\n")

end NodLexis.Diagnostic
