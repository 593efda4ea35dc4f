import Mathlib.Data.Prod.Lex
import NodLexis.Proofs.ByteOffsets
import NodLexis.Proofs.Places

/-! # Offsets, lines and columns

A source is split into lines at every line feed. The line view takes the offsets between
its characters to the columns of these lines, each column once, and keeps their order.
The offset of a column is found back by adding up the bytes in front of it.
-/

namespace NodLexis.SourceLine
open SourceText

/-- The lines of a text, without the line feeds between them. -/
def lines (text : List Char) : List (List Char) := text.splitOn '\n'

/-- Some lines one after the other, each with a line feed at its end. -/
def closed (front : List (List Char)) : List Char := front.flatMap (· ++ ['\n'])

/-- The bytes of some lines and of the line feeds at their ends. -/
def closedLength (front : List (List Char)) : Nat := front.foldr (fun line n => byteLength line + 1 + n) 0

/-- The offset of a column in the line with an index: the bytes of the lines in front of
it, and of the characters in front of it in the line. -/
def offsetOf (text : List Char) (i column : Nat) : Nat :=
  closedLength ((lines text).take i) + byteLength (((lines text).getD i []).take column)

/-- The view points to the column of a line that the offset is the one of. -/
structure PointsTo (source : String) (offset : Nat) (v : LineView) : Prop where
  number : 1 ≤ v.number
  line : (lines source.toList)[v.number - 1]? = some v.text.toList
  column : v.column ≤ v.text.length
  offset : offset = offsetOf source.toList (v.number - 1) v.column

variable {text line before after mid : List Char} {front back : List (List Char)} {source : String}
  {offset offset' : Nat} {v v' : LineView}

/-! ## Texts and their lines -/

theorem closed_concat (front : List (List Char)) (line : List Char) :
    closed (front ++ [line]) = closed front ++ line ++ ['\n'] := by
  simp [closed]

theorem byteLength_closed (front : List (List Char)) : byteLength (closed front) = closedLength front := by
  induction front with
  | nil => rfl
  | cons line front ih =>
    have hline : closed (line :: front) = line ++ ['\n'] ++ closed front := rfl
    have hfeed : byteLength ['\n'] = 1 := rfl
    rw [hline, byteLength_append, byteLength_append, ih, hfeed]
    rfl

theorem count_closed (h : ∀ line ∈ front, '\n' ∉ line) : (closed front).count '\n' = front.length := by
  induction front with
  | nil => rfl
  | cons line front ih =>
    have hline : closed (line :: front) = line ++ ['\n'] ++ closed front := rfl
    rw [hline, List.count_append, List.count_append, List.count_eq_zero.mpr (h line (by simp)),
      ih fun line hl => h line (by simp [hl])]
    simp [Nat.add_comm]

theorem lines_closed_append (h : ∀ line ∈ front, '\n' ∉ line) (text : List Char) :
    lines (closed front ++ text) = front ++ lines text := by
  induction front with
  | nil => rfl
  | cons line front ih =>
    have hline : closed (line :: front) ++ text = line ++ '\n' :: (closed front ++ text) := by simp [closed]
    have hrest := ih fun line hl => h line (by simp [hl])
    rw [lines] at hrest
    rw [lines, hline, List.splitOn_append_cons_self_of_not_mem (h line (by simp)), hrest]
    rfl

theorem firstLine_notMem (text : List Char) : '\n' ∉ firstLine text := by
  intro h
  have hall := List.all_takeWhile (p := (· != '\n')) (l := text)
  simpa using List.all_eq_true.mp hall '\n' h

theorem lastLine_notMem (text : List Char) : '\n' ∉ lastLine text := by
  rw [lastLine, List.mem_reverse]
  exact firstLine_notMem _

theorem firstLine_append (h : '\n' ∉ line) (text : List Char) :
    firstLine (line ++ text) = line ++ firstLine text := by
  apply List.takeWhile_append_of_pos
  intro c hc
  simpa using ne_of_mem_of_not_mem hc h

theorem lastLine_append (h : '\n' ∉ line) (text : List Char) :
    lastLine (text ++ line) = lastLine text ++ line := by
  rw [lastLine, List.reverse_append, firstLine_append (by simpa using h), List.reverse_append,
    List.reverse_reverse]
  rfl

/-- A text goes on after its first line with a line feed, if at all. -/
theorem exists_after_firstLine (text : List Char) :
    ∃ rest, text = firstLine text ++ rest ∧ (rest = [] ∨ ∃ more, rest = '\n' :: more) := by
  refine ⟨text.dropWhile (· != '\n'), List.takeWhile_append_dropWhile.symm, ?_⟩
  cases hrest : text.dropWhile (· != '\n') with
  | nil => exact .inl rfl
  | cons c more =>
    have hc := List.head?_dropWhile_not (· != '\n') text
    rw [hrest] at hc
    obtain rfl : c = '\n' := by simpa using hc
    exact .inr ⟨more, rfl⟩

/-- In front of the last line of a text there are closed lines. -/
theorem exists_closed (text : List Char) :
    ∃ front, text = closed front ++ lastLine text ∧ ∀ line ∈ front, '\n' ∉ line := by
  induction text using List.reverseRecOn with
  | nil => exact ⟨[], rfl, by simp⟩
  | append_singleton text c ih =>
    obtain ⟨front, htext, hfront⟩ := ih
    rw [lastLine_concat]
    by_cases hc : c = '\n'
    · refine ⟨front ++ [lastLine text], ?_, ?_⟩
      · rw [if_pos hc, closed_concat, ← htext, List.append_nil, hc]
      · intro line hline
        rcases List.mem_append.mp hline with hline | hline
        · exact hfront line hline
        · rw [List.mem_singleton.mp hline]
          exact lastLine_notMem text
    · refine ⟨front, ?_, hfront⟩
      rw [if_neg hc, ← List.append_assoc, ← htext]

theorem lastLine_closed (front : List (List Char)) : lastLine (closed front) = [] := by
  rcases List.eq_nil_or_concat front with rfl | ⟨front, line, rfl⟩
  · rfl
  · rw [List.concat_eq_append, closed_concat, lastLine_concat, if_pos rfl]

/-- The first line feed of a text ends the line that it goes on with. -/
theorem exists_lines_append (h : '\n' ∉ line) (text : List Char) :
    ∃ back, lines (line ++ text) = (line ++ firstLine text) :: back := by
  obtain ⟨rest, htext, hrest⟩ := exists_after_firstLine text
  have hfirst : '\n' ∉ line ++ firstLine text := by simp [h, firstLine_notMem]
  rw [htext, ← List.append_assoc, ← htext, lines]
  rcases hrest with rfl | ⟨more, rfl⟩
  · exact ⟨[], by rw [List.append_nil, List.splitOn_eq_singleton hfirst]⟩
  · exact ⟨_, List.splitOn_append_cons_self_of_not_mem hfirst more⟩

/-- The lines of a text are the closed ones and the last one. -/
theorem lines_eq_concat (text : List Char) :
    ∃ front, text = closed front ++ lastLine text ∧ lines text = front ++ [lastLine text] ∧
      ∀ line ∈ front, '\n' ∉ line := by
  obtain ⟨front, htext, hfront⟩ := exists_closed text
  refine ⟨front, htext, ?_, hfront⟩
  have hlast : lines (lastLine text) = [lastLine text] := List.splitOn_eq_singleton (lastLine_notMem text)
  rw [← hlast, ← lines_closed_append hfront, ← htext]

theorem length_lines (text : List Char) : (lines text).length = text.count '\n' + 1 := by
  obtain ⟨front, htext, hlines, hfront⟩ := lines_eq_concat text
  have hcount := congrArg (List.count '\n') htext
  rw [List.count_append, count_closed hfront, List.count_eq_zero.mpr (lastLine_notMem text)] at hcount
  rw [hlines, List.length_append, hcount]
  rfl

/-- A line of a text stands behind the closed lines in front of it, and a line feed
follows it, if anything does. -/
theorem exists_after_line (h : lines text = front ++ line :: back) :
    ∃ rest, text = closed front ++ (line ++ rest) ∧ (∀ l ∈ front, '\n' ∉ l) ∧ '\n' ∉ line ∧
      (rest = [] ∨ ∃ more, rest = '\n' :: more) := by
  obtain ⟨closing, htext, hlines, hclosing⟩ := lines_eq_concat text
  rw [hlines] at h
  rcases List.eq_nil_or_concat back with rfl | ⟨back, last, rfl⟩
  · obtain ⟨rfl, hlast⟩ := List.append_inj' h rfl
    obtain rfl := List.singleton_inj.mp hlast
    exact ⟨[], by rw [List.append_nil, ← htext], hclosing, lastLine_notMem text, .inl rfl⟩
  · have hsplit : closing ++ [lastLine text] = front ++ line :: back ++ [last] := by simpa using h
    obtain ⟨rfl, -⟩ := List.append_inj' hsplit rfl
    refine ⟨'\n' :: (closed back ++ lastLine text), ?_, ?_, hclosing line (by simp), .inr ⟨_, rfl⟩⟩
    · refine htext.trans ?_
      simp [closed]
    · intro l hl
      exact hclosing l (by simp [hl])

/-! ## Where the line view points -/

theorem pointsTo_of_lineAt? (h : lineAt? source offset = some v) : PointsTo source offset v := by
  obtain ⟨⟨before, after⟩, hcut, rfl⟩ := Option.map_eq_some_iff.mp h
  obtain ⟨hsource, rfl⟩ := cut?_eq_some_iff.mp hcut
  obtain ⟨front, hbefore, hfront⟩ := exists_closed before
  obtain ⟨back, hback⟩ := exists_lines_append (lastLine_notMem before) after
  have hcount : before.count '\n' = front.length := by
    have hcount := congrArg (List.count '\n') hbefore
    rwa [List.count_append, count_closed hfront, List.count_eq_zero.mpr (lastLine_notMem before)] at hcount
  have hlines : lines source.toList = front ++ (lastLine before ++ firstLine after) :: back := by
    rw [← hback, ← lines_closed_append hfront, ← List.append_assoc, ← hbefore, ← hsource]
  have hoffset : byteLength before = closedLength front + byteLength (lastLine before) := by
    rw [← byteLength_closed, ← byteLength_append, ← hbefore]
  refine ⟨Nat.le_add_left 1 _, ?_, ?_, ?_⟩
  · simp [viewBetween, hlines, hcount]
  · simp [viewBetween]
  · simp [viewBetween, offsetOf, hlines, hcount, hoffset]

/-- Every column of a line is seen from its offset. -/
theorem lineAt?_offsetOf {i column : Nat} (h : (lines source.toList)[i]? = some line)
    (hcolumn : column ≤ line.length) :
    lineAt? source (offsetOf source.toList i column) = some ⟨i + 1, String.ofList line, column⟩ := by
  obtain ⟨hi, hget⟩ := List.getElem?_eq_some_iff.mp h
  have hsplit : lines source.toList =
      (lines source.toList).take i ++ line :: (lines source.toList).drop (i + 1) := by
    rw [← hget]
    simp
  have hlength : ((lines source.toList).take i).length = i := by
    rw [List.length_take]
    omega
  obtain ⟨rest, hsource, hfront, hline, hrest⟩ := exists_after_line hsplit
  have htake : '\n' ∉ line.take column := fun hmem => hline (List.mem_of_mem_take hmem)
  have hdrop : '\n' ∉ line.drop column := fun hmem => hline (List.mem_of_mem_drop hmem)
  have hcut : source.toList =
      closed ((lines source.toList).take i) ++ line.take column ++ (line.drop column ++ rest) := by
    rw [List.append_assoc, ← List.append_assoc (line.take column), List.take_append_drop]
    exact hsource
  have hoffset : byteLength (closed ((lines source.toList).take i) ++ line.take column) =
      offsetOf source.toList i column := by
    rw [byteLength_append, byteLength_closed, offsetOf, List.getD_eq_getElem?_getD, h]
    rfl
  rw [← hoffset, lineAt?_byteLength hcut, viewBetween, lastLine_append htake, lastLine_closed,
    firstLine_append hdrop, List.count_append, count_closed hfront, hlength,
    List.count_eq_zero.mpr htake]
  have hfirst : firstLine rest = [] := by
    rcases hrest with rfl | ⟨more, rfl⟩ <;> rfl
  simp [hfirst, hcolumn]

/-! ## The order of offsets -/

theorem lt_of_offset_lt (h : lineAt? source offset = some v) (h' : lineAt? source offset' = some v')
    (hlt : offset < offset') : toLex (v.number, v.column) < toLex (v'.number, v'.column) := by
  obtain ⟨⟨before, after⟩, hcut, rfl⟩ := Option.map_eq_some_iff.mp h
  obtain ⟨⟨before', after'⟩, hcut', rfl⟩ := Option.map_eq_some_iff.mp h'
  obtain ⟨hsource, rfl⟩ := cut?_eq_some_iff.mp hcut
  obtain ⟨hsource', rfl⟩ := cut?_eq_some_iff.mp hcut'
  obtain ⟨mid, rfl, -⟩ := exists_append_of_byteLength_le (hsource'.symm.trans hsource) hlt.le
  rw [Prod.Lex.toLex_lt_toLex]
  by_cases hmid : '\n' ∈ mid
  · left
    have hpos := List.count_pos_iff.mpr hmid
    simp only [viewBetween, List.count_append]
    omega
  · right
    have hne : mid ≠ [] := by
      rintro rfl
      simp at hlt
    have hpos := List.length_pos_iff.mpr hne
    refine ⟨?_, ?_⟩
    · simp [viewBetween, List.count_eq_zero.mpr hmid]
    · simp only [viewBetween, lastLine_append hmid, List.length_append]
      omega

theorem offset_lt_iff (h : lineAt? source offset = some v) (h' : lineAt? source offset' = some v') :
    offset < offset' ↔ toLex (v.number, v.column) < toLex (v'.number, v'.column) := by
  refine ⟨lt_of_offset_lt h h', ?_⟩
  intro hlex
  rcases Nat.lt_trichotomy offset offset' with hlt | rfl | hgt
  · exact hlt
  · rw [h] at h'
    obtain rfl := Option.some.inj h'
    exact absurd hlex (lt_irrefl _)
  · exact absurd hlex (lt_asymm (lt_of_offset_lt h' h hgt))

/-- The line view exists at the offsets between two characters and at both ends of a
source. It points to a column of a line, from which the offset is computed back, every
column of every line is seen from exactly one offset, and a greater offset shows a later
line or a later column of the same line. -/
theorem lineAt?_bijective_ordered (source : String) :
    (∀ offset, (lineAt? source offset).isSome = true ↔
      offset ≤ source.utf8ByteSize ∧ String.Pos.Raw.IsValid source ⟨offset⟩) ∧
    (lines source.toList).length = source.toList.count '\n' + 1 ∧
    (∀ offset v, lineAt? source offset = some v → PointsTo source offset v) ∧
    (∀ i line column, (lines source.toList)[i]? = some line → column ≤ line.length →
      ∃! offset, ∃ text, lineAt? source offset = some ⟨i + 1, text, column⟩) ∧
    ∀ offset offset' v v', lineAt? source offset = some v → lineAt? source offset' = some v' →
      (offset < offset' ↔ toLex (v.number, v.column) < toLex (v'.number, v'.column)) := by
  refine ⟨?_, length_lines _, fun _ _ => pointsTo_of_lineAt?, ?_, fun _ _ _ _ => offset_lt_iff⟩
  · intro offset
    rw [lineAt?, Option.isSome_map, isSome_cut?_iff]
    exact ⟨fun h => ⟨h.le_utf8ByteSize, h⟩, And.right⟩
  · intro i line column hline hcolumn
    refine ⟨offsetOf source.toList i column, ⟨_, lineAt?_offsetOf hline hcolumn⟩, ?_⟩
    rintro offset ⟨text, h⟩
    have hpoints := pointsTo_of_lineAt? h
    exact hpoints.offset

end NodLexis.SourceLine
