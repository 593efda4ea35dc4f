import NodLexis.Failure
import NodLexis.Token

/-! # The journal of a scan

What a scan tells about itself while it runs, one event after the other.
-/

namespace NodLexis

inductive Event where
  | started (file : String) (bytes : Nat)
  | emitted (t : Token)
  | failed (file : String) (f : Failure)
  | finished (file : String) (count : Nat)
  deriving DecidableEq

/-- How much detail a reader has to ask for to see an event. -/
inductive Level where
  | debug | trace
  deriving DecidableEq

namespace Level

def name : Level → String
  | .debug => "DEBUG"
  | .trace => "TRACE"

end Level

namespace Event

def level : Event → Level
  | .emitted _ => .trace
  | _ => .debug

def text : Event → String
  | .started file bytes => "tokenizing " ++ file ++ " (" ++ toString bytes ++ " bytes)"
  | .emitted t => t.display
  | .failed file f => "tokenizing " ++ file ++ " failed: " ++ f.display
  | .finished file count => "produced " ++ toString count ++ " tokens for " ++ file

end Event

end NodLexis
