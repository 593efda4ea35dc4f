import NodLexis.SourceText

/-! # Places, positions and spans

A place is where a cursor stands in a text: its byte offset, its line counted
from one, and its column counted in characters from zero. A position is a byte
offset tagged with the name of the text that it points into.
-/

namespace NodLexis

structure Place where
  offset : Nat
  line : Nat
  column : Nat
  deriving DecidableEq

namespace Place

def origin : Place := ⟨0, 1, 0⟩

/-- The place after a character. Only a line feed ends a line. -/
def next (p : Place) (c : Char) : Place :=
  if c = '\n' then ⟨p.offset + c.utf8Size, p.line + 1, 0⟩
  else ⟨p.offset + c.utf8Size, p.line, p.column + 1⟩

/-- The place after a whole text. -/
def after (p : Place) (text : List Char) : Place := text.foldl next p

@[simp] theorem offset_next (p : Place) (c : Char) :
    (p.next c).offset = p.offset + c.utf8Size := by
  unfold next; split <;> rfl

@[simp] theorem after_nil (p : Place) : p.after [] = p := rfl

@[simp] theorem after_cons (p : Place) (c : Char) (text : List Char) :
    p.after (c :: text) = (p.next c).after text := rfl

theorem after_append (p : Place) (s t : List Char) :
    p.after (s ++ t) = (p.after s).after t := List.foldl_append

theorem offset_after (p : Place) (text : List Char) :
    (p.after text).offset = p.offset + SourceText.byteLength text := by
  induction text generalizing p with
  | nil => simp
  | cons c text ih => simp [ih]; omega

theorem offset_origin_after (text : List Char) :
    (origin.after text).offset = SourceText.byteLength text := by
  rw [offset_after]
  exact Nat.zero_add _

end Place

structure Position where
  offset : Nat
  file : String
  deriving DecidableEq

namespace Position

/-- The position of something that stands in no text. -/
def null : Position := ⟨0, "<null>"⟩

end Position

/-- A byte range from `start` up to but not including `stop`. -/
structure Span where
  start : Position
  stop : Position
  deriving DecidableEq

/-- Why a span has no length. -/
inductive SpanError where
  | reversed
  deriving DecidableEq

namespace SpanError

def message : SpanError → String
  | .reversed => "attempt to subtract with overflow"

end SpanError

namespace Span

/-- The number of bytes in a span, which a reversed span lacks. -/
def length (s : Span) : Except SpanError Nat :=
  if s.start.offset ≤ s.stop.offset then .ok (s.stop.offset - s.start.offset)
  else .error .reversed

def isEmpty (s : Span) : Except SpanError Bool := return (← s.length) == 0

end Span

end NodLexis
