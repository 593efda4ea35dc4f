import Mathlib.Data.List.Induction
import NodLexis.Failure
import NodLexis.SourceLine
import NodLexis.Token

/-! # Places in a text

The place after a text tells its bytes, its lines and the length of its last line, so
that the line view from an offset shows the same line and column as a place counted
one character at a time. A place counted from the origin of a text is shifted when
another text is put before it: only its first line gets longer.
-/

namespace NodLexis
open SourceText SourceLine

theorem SourceLine.lastLine_concat (text : List Char) (c : Char) :
    lastLine (text ++ [c]) = if c = '\n' then [] else lastLine text ++ [c] := by
  by_cases h : c = '\n' <;> simp [lastLine, firstLine, h]

theorem SourceLine.lineAt?_byteLength {source : String} {before after : List Char}
    (h : source.toList = before ++ after) :
    lineAt? source (byteLength before) = some (viewBetween before after) := by
  rw [lineAt?, cut?_eq_some_iff.mpr ⟨h, rfl⟩]
  rfl

/-- A column on a line once a text is put before the one it counts in. -/
def shiftColumn (before : List Char) (line column : Nat) : Nat :=
  if line = 1 then column + (lastLine before).length else column

/-- Where a token starts. -/
def Token.place (t : Token) : Place := ⟨t.span.start.offset, t.line, t.column⟩

/-- Where a scan failed. -/
def Failure.place (f : Failure) : Place := ⟨f.position.offset, f.line, f.column⟩

namespace Place

variable {p : Place}

theorem origin_after_eq (text : List Char) :
    origin.after text = ⟨byteLength text, text.count '\n' + 1, (lastLine text).length⟩ := by
  induction text using List.reverseRecOn with
  | nil => rfl
  | append_singleton text c ih =>
    rw [after_append, ih, after_cons, after_nil, next, lastLine_concat]
    by_cases h : c = '\n' <;> simp [h]

/-- The place in the longer text when a text is put before the one that a place
points into. -/
def shift (before : List Char) (p : Place) : Place :=
  ⟨p.offset + byteLength before, p.line + before.count '\n', shiftColumn before p.line p.column⟩

theorem shift_origin (before : List Char) : origin.shift before = origin.after before := by
  rw [origin_after_eq]
  simp [shift, shiftColumn, origin, Nat.add_comm]

theorem line_pos_next (h : 0 < p.line) (c : Char) : 0 < (p.next c).line := by
  unfold next
  split
  · exact Nat.succ_pos _
  · exact h

theorem line_pos_after (h : 0 < p.line) (text : List Char) : 0 < (p.after text).line := by
  induction text generalizing p with
  | nil => exact h
  | cons c text ih => exact ih (line_pos_next h c)

theorem next_shift (h : 0 < p.line) (before : List Char) (c : Char) :
    (p.shift before).next c = (p.next c).shift before := by
  by_cases hc : c = '\n'
  · have hline : p.line + 1 ≠ 1 := by omega
    simp only [next, shift, shiftColumn, if_pos hc, if_neg hline, Place.mk.injEq, and_true]
    omega
  · simp only [next, shift, shiftColumn, if_neg hc, Place.mk.injEq, true_and]
    split <;> omega

theorem after_shift (h : 0 < p.line) (before text : List Char) :
    (p.shift before).after text = (p.after text).shift before := by
  induction text generalizing p with
  | nil => rfl
  | cons c text ih => rw [after_cons, after_cons, next_shift h, ih (line_pos_next h c)]

/-- A place in a text put after another one. -/
theorem origin_after_append (before text : List Char) :
    origin.after (before ++ text) = (origin.after text).shift before := by
  have hline : 0 < origin.line := Nat.one_pos
  rw [after_append, ← shift_origin, after_shift hline]

end Place

end NodLexis
