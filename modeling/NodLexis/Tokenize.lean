import NodLexis.Scanner

/-! # Scanning a whole source

The tokens of a source as far as it can be scanned, the failure that stopped the
scan, and the journal of it.
-/

namespace NodLexis

structure Scan where
  tokens : List Token
  failure : Option Failure
  journal : List Event

namespace Scanner

/-- Runs and writes down the beginning, the outcome and the end. -/
def runRecorded (s : Scanner) : Scanner × Option Failure :=
  let bytes := SourceText.byteLength s.rest
  let (t, failure) := (s.record (.started s.file bytes)).run
  let t := match failure with
    | none => t
    | some f => t.record (.failed t.file f)
  (t.record (.finished t.file t.tokens.size), failure)

end Scanner

def tokenize (source : String) (file? : Option String) : Scan :=
  let (s, failure) := (Scanner.ofSource source file?).runRecorded
  ⟨s.tokens.toList, failure, s.journal.toList⟩

/-- The tokens of a source that scans to its end. -/
def tokenizeAll (source : String) (file? : Option String) : Except Failure (List Token) :=
  let scan := tokenize source file?
  match scan.failure with
  | none => .ok scan.tokens
  | some f => .error f

end NodLexis
