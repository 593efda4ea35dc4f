import NodLexis.Proofs.Caret
import NodLexis.Proofs.OffsetScanner

/-! # Diagnostics cut out of the source

The line view finds the ends of a line by their byte offsets and cuts the line and the
text in front of the column out of the source. The indentation of a line is cut off at
an offset that is counted in characters. A run of fill characters has a largest width.
Done with checks, all three have a result, and it is the one that is computed from the
text alone.
-/

namespace NodLexis

variable {text before after : List Char} {p : Char → Bool} {source : String} {offset : Nat} {f : Failure}

namespace SourceText

/-- The offset of the first character with a property. -/
def find? (p : Char → Bool) : List Char → Option Nat
  | [] => none
  | c :: text => if p c then some 0 else (find? p text).map (c.utf8Size + ·)

/-- The offset of the last character with a property. -/
def rfind? (p : Char → Bool) : List Char → Option Nat
  | [] => none
  | c :: text =>
    match rfind? p text with
    | some i => some (c.utf8Size + i)
    | none => if p c then some 0 else none

theorem find?_eq (p : Char → Bool) (text : List Char) :
    (find? p text).getD (byteLength text) = byteLength (text.takeWhile fun c => !p c) := by
  induction text with
  | nil => rfl
  | cons c text ih =>
    rw [find?, List.takeWhile_cons]
    cases hc : p c with
    | true => rfl
    | false =>
      rw [byteLength_cons]
      simp only [Bool.false_eq_true, if_false, Bool.not_false, if_true, byteLength_cons, ← ih]
      cases find? p text <;> rfl

theorem rfind?_eq_none (h : ∀ c ∈ text, p c = false) : rfind? p text = none := by
  induction text with
  | nil => rfl
  | cons c text ih =>
    rw [rfind?, ih fun d hd => h d (by simp [hd])]
    simp [h c (by simp)]

theorem rfind?_append_cons {c : Char} (hc : p c = true) (h : ∀ d ∈ after, p d = false) :
    rfind? p (before ++ c :: after) = some (byteLength before) := by
  induction before with
  | nil => simp [rfind?, rfind?_eq_none h, hc]
  | cons d before ih => simp [rfind?, ih]

end SourceText

namespace SourceLine
open SourceText

/-- The line view with every cut checked. There is no view where the offset is none of
the source. -/
def slicedLineAt? (source : String) (offset : Nat) : Option (Option LineView) :=
  if source.utf8ByteSize < offset ∨ ¬ String.Pos.Raw.IsValid source ⟨offset⟩ then some none
  else do
    let before ← slice? source.toList 0 offset
    let lineStart := ((rfind? (· == '\n') before).map (· + 1)).getD 0
    let after ← slice? source.toList offset source.utf8ByteSize
    let lineEnd := ((find? (· == '\n') after).map (offset + ·)).getD source.utf8ByteSize
    let head ← slice? source.toList lineStart offset
    let line ← slice? source.toList lineStart lineEnd
    return some ⟨before.count '\n' + 1, String.ofList line, head.length⟩

/-- The last line of a text starts behind its last line feed. -/
theorem exists_before_lastLine (before : List Char) :
    ∃ front, before = front ++ lastLine before ∧
      ((rfind? (· == '\n') before).map (· + 1)).getD 0 = byteLength front := by
  have hlast : ∀ c ∈ lastLine before, (c == '\n') = false := by
    intro c hc
    exact beq_eq_false_iff_ne.mpr (ne_of_mem_of_not_mem hc (lastLine_notMem before))
  obtain ⟨front, hbefore, -⟩ := exists_closed before
  refine ⟨closed front, hbefore, ?_⟩
  rcases List.eq_nil_or_concat front with rfl | ⟨front, line, rfl⟩
  · rw [hbefore, show closed [] = [] from rfl, List.nil_append, rfind?_eq_none hlast]
    rfl
  · rw [List.concat_eq_append, closed_concat, List.append_assoc, List.singleton_append] at hbefore
    rw [hbefore, rfind?_append_cons rfl hlast, List.concat_eq_append, closed_concat, byteLength_append _ ['\n']]
    rfl

/-- The first line of a text ends in front of its first line feed, or with the text. -/
theorem lineEnd_eq (after : List Char) (offset : Nat) :
    ((find? (· == '\n') after).map (offset + ·)).getD (offset + byteLength after) =
      offset + byteLength (firstLine after) := by
  have hfirst : (find? (· == '\n') after).getD (byteLength after) = byteLength (firstLine after) :=
    find?_eq (· == '\n') after
  rw [← hfirst]
  cases find? (· == '\n') after <;> rfl

theorem slicedLineAt?_eq (source : String) (offset : Nat) :
    slicedLineAt? source offset = some (lineAt? source offset) := by
  by_cases hvalid : String.Pos.Raw.IsValid source ⟨offset⟩
  · obtain ⟨before, after, hsource, rfl⟩ := isValid_iff_exists_append.mp hvalid
    have hsize : source.utf8ByteSize = byteLength before + byteLength after := by
      rw [← byteLength_toList, hsource, byteLength_append]
    have hin : ¬ (source.utf8ByteSize < byteLength before ∨
        ¬ String.Pos.Raw.IsValid source ⟨byteLength before⟩) := by
      rw [hsize]
      rintro (hlt | hnot)
      · omega
      · exact hnot hvalid
    obtain ⟨front, hbefore, hstart⟩ := exists_before_lastLine before
    obtain ⟨rest, hafter, -⟩ := exists_after_firstLine after
    have hfront : byteLength before = byteLength front + byteLength (lastLine before) := by
      rw [← byteLength_append, ← hbefore]
    have hslice₁ : slice? source.toList 0 (byteLength before) = some before :=
      slice?_eq_some_iff.mpr ⟨[], after, hsource, rfl, Nat.zero_add _⟩
    have hslice₂ : slice? source.toList (byteLength before) source.utf8ByteSize = some after :=
      slice?_eq_some_iff.mpr ⟨before, [], by rw [List.append_nil, hsource], rfl, hsize.symm⟩
    have hslice₃ : slice? source.toList (byteLength front) (byteLength before) = some (lastLine before) :=
      slice?_eq_some_iff.mpr ⟨front, after, by rw [hsource, ← List.append_assoc, ← hbefore], rfl, hfront.symm⟩
    have hslice₄ : slice? source.toList (byteLength front) (byteLength before + byteLength (firstLine after)) =
        some (lastLine before ++ firstLine after) := by
      refine slice?_eq_some_iff.mpr ⟨front, rest, ?_, rfl, ?_⟩
      · rw [hsource, List.append_assoc, ← hafter, ← List.append_assoc, ← hbefore]
      · rw [byteLength_append, hfront, Nat.add_assoc]
    rw [slicedLineAt?, if_neg hin, hslice₁, hslice₂]
    simp only [Option.bind_eq_bind, Option.bind_some, hstart, hslice₃]
    rw [hsize, lineEnd_eq, hslice₄, lineAt?_byteLength hsource]
    rfl
  · have hnone : lineAt? source offset = none := by
      rw [lineAt?, Option.map_eq_none_iff, ← Option.not_isSome_iff_eq_none, isSome_cut?_iff]
      exact hvalid
    rw [slicedLineAt?, if_pos (.inr hvalid), hnone]

end SourceLine

namespace Diagnostic
open SourceText SourceLine CharacterClass Numerals

/-- The text of a line without its indentation and the width of that, which is counted in
characters and used as an offset. -/
def unindent? (line : String) : Option (String × Nat) :=
  let width := (line.toList.takeWhile isIndent).length
  (slice? line.toList width line.utf8ByteSize).map fun text => (String.ofList text, width)

/-- The largest width that a text can be filled up to. -/
def maxWidth : Nat := 65535

/-- Fills a text up on its left side. -/
def pad? (fill : Char) (width : Nat) (text : String) : Option String :=
  if width ≤ maxWidth then some (String.ofList (List.replicate (width - text.length) fill ++ text.toList))
  else none

/-- The column of the caret in what is shown of a line. -/
def caretColumn (v : LineView) : Nat := v.column - (v.text.toList.takeWhile isIndent).length

def written (rows : List String) : String := String.join (rows.map fun row => row ++ "\n")

/-- A diagnostic with every cut and every width checked. -/
def slicedRender? (source : String) (f : Failure) : Option String := do
  match ← slicedLineAt? source f.position.offset with
  | none => return written [heading f, "-> " ++ f.position.file, f.display]
  | some v =>
    let number := toString v.number
    let rule ← pad? ' ' (number.utf8ByteSize + 2) "|"
    let (line, width) ← unindent? v.text
    let code := number ++ " | " ++ String.ofList (WhiteSpace.trimEnd line.toList)
    let arrow ← pad? '-' (v.column - width + 1) "^"
    return written [heading f, "-> " ++ f.position.file, rule, code, rule ++ " " ++ arrow]

theorem utf8Size_of_isIndent {c : Char} (h : isIndent c = true) : c.utf8Size = 1 := by
  rcases isIndent_iff.mp h with rfl | rfl <;> rfl

theorem unindent?_eq (line : String) :
    unindent? line =
      some (String.ofList (line.toList.dropWhile isIndent), (line.toList.takeWhile isIndent).length) := by
  have hline : line.toList = line.toList.takeWhile isIndent ++ line.toList.dropWhile isIndent :=
    List.takeWhile_append_dropWhile.symm
  have hwidth : byteLength (line.toList.takeWhile isIndent) = (line.toList.takeWhile isIndent).length :=
    byteLength_eq_length fun c hc => utf8Size_of_isIndent (List.all_eq_true.mp List.all_takeWhile c hc)
  have hslice : slice? line.toList (line.toList.takeWhile isIndent).length line.utf8ByteSize =
      some (line.toList.dropWhile isIndent) := by
    refine slice?_eq_some_iff.mpr ⟨line.toList.takeWhile isIndent, [], ?_, hwidth, ?_⟩
    · rw [List.append_nil]
      exact hline
    · rw [← hwidth, ← byteLength_append, ← hline, byteLength_toList]
  rw [unindent?, hslice]
  rfl

theorem utf8ByteSize_toString (n : Nat) : (toString n).utf8ByteSize = (toString n).length := by
  have hhex : ∀ c ∈ (toString n).toList, isHexDigit c = true := by
    intro c hc
    rw [isHexDigit, hexDigitValue?, if_pos (isDigit_of_mem_toString hc)]
    rfl
  rw [← byteLength_toList, byteLength_of_hex hhex, String.length_toList]

theorem number_le {v : LineView} (h : lineAt? source offset = some v) : v.number ≤ source.utf8ByteSize + 1 := by
  obtain ⟨⟨before, after⟩, hcut, rfl⟩ := Option.map_eq_some_iff.mp h
  have hcount : before.count '\n' ≤ before.length := List.count_le_length
  have hlength := length_le_byteLength before
  have hsize : source.utf8ByteSize = byteLength before + byteLength after := by
    rw [← byteLength_toList, (cut?_eq_some_iff.mp hcut).1, byteLength_append]
  simp only [viewBetween]
  omega

/-- A line number has at most twenty digits. -/
theorem pad?_rule {v : LineView} (hsize : source.utf8ByteSize < UInt64.size)
    (h : lineAt? source offset = some v) :
    pad? ' ' ((toString v.number).utf8ByteSize + 2) "|" = some (gutter v.number) := by
  have hdigits : (toString v.number).length ≤ 20 := by
    have hle := number_le h
    have hlt : v.number < 10 ^ 20 := by
      rw [UInt64.size] at hsize
      omega
    rw [← String.length_toList, show toString v.number = v.number.repr from rfl, Nat.toList_repr]
    exact (Nat.length_toDigits_le_iff (by decide) (by decide)).mpr hlt
  have hwidth : (toString v.number).utf8ByteSize + 2 ≤ maxWidth := by
    rw [utf8ByteSize_toString, maxWidth]
    omega
  rw [pad?, if_pos hwidth, utf8ByteSize_toString]
  rfl

theorem slicedRender?_eq (hsize : source.utf8ByteSize < UInt64.size)
    (hcaret : ∀ v, lineAt? source f.position.offset = some v → caretColumn v < maxWidth) :
    slicedRender? source f = some (render source f) := by
  rw [slicedRender?, slicedLineAt?_eq, render, lines]
  cases hv : lineAt? source f.position.offset with
  | none => rfl
  | some v =>
    have harrow : pad? '-' (caretColumn v + 1) "^" =
        some (String.ofList (List.replicate (caretColumn v) '-' ++ ['^'])) := by
      rw [pad?, if_pos (Nat.succ_le_of_lt (hcaret v hv))]
      rfl
    rw [caretColumn] at harrow
    simp only [Option.bind_eq_bind, Option.bind_some, pad?_rule hsize hv, unindent?_eq, harrow,
      String.toList_ofList]
    rfl

end Diagnostic

end NodLexis
