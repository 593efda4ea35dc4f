import NodLexis.Diagnostic
import NodLexis.Proofs.LineTable
import NodLexis.Proofs.Numerals
import NodLexis.Proofs.Tracking

/-! # The caret of a diagnostic

A drawn failure ends with three lines whose bars stand in one column. The caret stands in
the column in which the offending character is shown, or behind all that is shown when
only white space is left of the line. No scan stops inside the indentation of a line, so
the caret moves with the text when that is cut off.
-/

namespace NodLexis.Diagnostic
open SourceText SourceLine CharacterClass Grammar Defect Numerals

/-- A line without its indentation and without the white space at its end. -/
structure Trims (line indent shown trail : List Char) : Prop where
  whole : line = indent ++ (shown ++ trail)
  indent : ∀ c ∈ indent, c = ' ' ∨ c = '\t'
  starts : ∀ c ∈ (shown ++ trail).head?, c ≠ ' ' ∧ c ≠ '\t'
  trail : ∀ c ∈ trail, WhiteSpace.isWhiteSpace c = true
  ends : ∀ c ∈ shown.getLast?, WhiteSpace.isWhiteSpace c = false

/-- The last three lines of a diagnostic with what is above them, the line of the source
that is drawn, and its parts. -/
structure Drawing where
  above : List (List Char)
  rule : List Char
  code : List Char
  caret : List Char
  line : List Char
  indent : List Char
  shown : List Char
  trail : List Char

/-- The diagnostic of a failure ends as drawn, with the caret in its place. -/
structure Draws (source : String) (f : Failure) (d : Drawing) : Prop where
  rendered : SourceLine.lines (render source f).toList = d.above ++ [d.rule, d.code, d.caret, []]
  view : lineAt? source f.position.offset = some ⟨f.line, String.ofList d.line, f.column⟩
  trims : Trims d.line d.indent d.shown d.trail
  rule : ∃ n, d.rule = List.replicate n ' ' ++ ['|']
  code : d.code = (toString f.line).toList ++ (' ' :: '|' :: ' ' :: d.shown)
  caret : ∃ n, d.caret = d.rule ++ (' ' :: (List.replicate n '-' ++ ['^']))
  bars : d.code.idxOf '|' = d.rule.idxOf '|' ∧ d.caret.idxOf '|' = d.rule.idxOf '|'
  unindented : d.indent.length ≤ f.column
  stands : d.caret.idxOf '^' = d.code.length - d.shown.length + (f.column - d.indent.length)
  /-- The offending character is shown above the caret. -/
  meets : ∀ before after, cut? source.toList f.position.offset = some (before, after) →
    (∃ c ∈ firstLine after, WhiteSpace.isWhiteSpace c = false) → d.code[d.caret.idxOf '^']? = after.head?
  /-- Nothing is shown above the caret where only white space is left of the line. -/
  beyond : ∀ before after, cut? source.toList f.position.offset = some (before, after) →
    (∀ c ∈ firstLine after, WhiteSpace.isWhiteSpace c = true) → d.code.length ≤ d.caret.idxOf '^'

variable {source : String} {f : Failure} {file? : Option String}
  {text rest read before after line indent shown trail : List Char} {cause : Cause} {mode : Mode}
  {number column width : Nat} {c : Char}

/-! ## The parts of a line -/

def indentOf (line : List Char) : List Char := line.takeWhile isIndent

def shownOf (line : List Char) : List Char := WhiteSpace.trimEnd (line.dropWhile isIndent)

def trailOf (line : List Char) : List Char := WhiteSpace.trailing (line.dropWhile isIndent)

theorem isIndent_iff : isIndent c = true ↔ c = ' ' ∨ c = '\t' := by
  simp [isIndent]

theorem isBlank_of_isIndent (h : isIndent c = true) : isBlank c = true := by
  rcases isIndent_iff.mp h with rfl | rfl <;> rfl

theorem shownOf_append_trailOf (line : List Char) : shownOf line ++ trailOf line = line.dropWhile isIndent :=
  WhiteSpace.trimEnd_append_trailing _

theorem trims (line : List Char) : Trims line (indentOf line) (shownOf line) (trailOf line) where
  whole := by rw [shownOf_append_trailOf, indentOf, List.takeWhile_append_dropWhile]
  indent := fun c hc => isIndent_iff.mp (List.all_eq_true.mp List.all_takeWhile c hc)
  starts := by
    intro c hc
    rw [shownOf_append_trailOf] at hc
    have hhead := List.head?_dropWhile_not isIndent line
    rw [hc] at hhead
    simpa [isIndent] using hhead
  trail := fun _ hc => WhiteSpace.isWhiteSpace_of_mem_trailing hc
  ends := WhiteSpace.getLast?_trimEnd _

/-- What is shown of a line, from a place in it on: the character there, or nothing when
only white space is left. -/
theorem shown_of_split {mid tail : List Char} (h : mid ++ tail = shown ++ trail)
    (htrail : ∀ c ∈ trail, WhiteSpace.isWhiteSpace c = true)
    (hends : ∀ c ∈ shown.getLast?, WhiteSpace.isWhiteSpace c = false) :
    ((∃ c ∈ tail, WhiteSpace.isWhiteSpace c = false) → shown[mid.length]? = tail.head?) ∧
      ((∀ c ∈ tail, WhiteSpace.isWhiteSpace c = true) → shown.length ≤ mid.length) := by
  rcases List.append_eq_append_iff.mp h with ⟨more, rfl, rfl⟩ | ⟨more, rfl, rfl⟩
  · constructor
    · rintro ⟨c, hc, hblack⟩
      cases more with
      | nil =>
        rw [htrail c (by simpa using hc)] at hblack
        cases hblack
      | cons d more => simp
    · intro hwhite
      rcases List.eq_nil_or_concat more with rfl | ⟨more, d, rfl⟩
      · simp
      · have hblack := hends d (by simp)
        rw [hwhite d (by simp)] at hblack
        cases hblack
  · constructor
    · rintro ⟨c, hc, hblack⟩
      rw [htrail c (by simp [hc])] at hblack
      cases hblack
    · intro _
      simp

/-! ## No failure in an indentation -/

theorem isBlank_eq_false_of_isHexDigit (h : isHexDigit c = true) : isBlank c = false := by
  have key : (blanks.all fun c => !isHexDigit c) = true := rfl
  cases hb : isBlank c with
  | false => rfl
  | true =>
    have hc := List.all_eq_true.mp key c (isBlank_iff.mp hb)
    rw [h] at hc
    cases hc

theorem isBlank_eq_false_of_isWordStart (h : isWordStart c = true) : isBlank c = false :=
  isBlank_eq_false_of_opens (by simp [opens, h])

/-- Two texts that meet at the end of all text or beside a character that is no blank. -/
inductive Stops : List Char → List Char → Prop where
  | done {before : List Char} : Stops before []
  | ahead {before after : List Char} {c : Char} (h : isBlank c = false) : Stops before (c :: after)
  | behind {after : List Char} (front : List Char) (c : Char) (h : isBlank c = false) : Stops (front ++ [c]) after

theorem Stops.append_left (h : Stops before after) (front : List Char) : Stops (front ++ before) after := by
  cases h with
  | done => exact .done
  | ahead h => exact .ahead h
  | behind mid c h =>
    rw [← List.append_assoc]
    exact .behind (front ++ mid) c h

theorem stops_of_shape (h : Shape read rest cause mode) : Stops read rest := by
  cases h with
  | stray hb _ => exact .ahead hb
  | number _ _ hc => exact .ahead (isBlank_eq_false_of_isWordStart hc)
  | lambdaArg _ hc => exact .ahead (isBlank_eq_false_of_isWordStart hc)
  | dollar _ => exact .behind [] '$' rfl
  | openLiteral q _ => exact .done
  | @charLiteral body _ _ _ _ => exact .behind ('\'' :: body) '\'' rfl
  | @escape q body _ _ _ _ _ hb =>
    cases hb with
    | unfinished _ => exact .done
    | letter _ _ => exact .behind (q.mark :: body) '\\' rfl
    | brace _ => simpa using (Stops.behind ['\\'] 'u' rfl).append_left (q.mark :: body)
    | value _ _ _ => exact .ahead rfl
    | @digit ds _ _ _ hex _ _ =>
      rcases List.eq_nil_or_concat ds with rfl | ⟨ds, d, rfl⟩
      · simpa using (Stops.behind ['\\', 'u'] '{' rfl).append_left (q.mark :: body)
      · have hd := isBlank_eq_false_of_isHexDigit (hex d (by simp))
        simpa using (Stops.behind ('\\' :: 'u' :: '{' :: ds) d hd).append_left (q.mark :: body)

theorem length_takeWhile_le {p : Char → Bool} (h : p c = false) (front tail : List Char) :
    ((front ++ c :: tail).takeWhile p).length ≤ front.length := by
  induction front with
  | nil => simp [h]
  | cons d front ih =>
    rw [List.cons_append, List.takeWhile_cons]
    split
    · exact Nat.succ_le_succ ih
    · exact Nat.zero_le _

/-- Where a scan stops the indentation of the line is over. -/
theorem length_indent_le (h : Stops before after) :
    (indentOf (lastLine before ++ firstLine after)).length ≤ (lastLine before).length := by
  have hindent {c : Char} (hc : isBlank c = false) : isIndent c = false :=
    Bool.eq_false_iff.mpr fun hi => by simp [isBlank_of_isIndent hi] at hc
  have hfeed {c : Char} (hc : isBlank c = false) : c ≠ '\n' := by
    rintro rfl
    cases hc
  cases h with
  | done =>
    rw [show firstLine [] = [] from rfl, List.append_nil]
    exact (List.takeWhile_sublist _).length_le
  | @ahead _ tail c hc =>
    have hline : firstLine (c :: tail) = c :: firstLine tail := by simp [firstLine, hfeed hc]
    rw [hline]
    exact length_takeWhile_le (hindent hc) _ _
  | behind front c hc =>
    rw [lastLine_concat, if_neg (hfeed hc), List.append_assoc, List.length_append]
    exact (length_takeWhile_le (hindent hc) _ _).trans (Nat.le_add_right _ _)

/-! ## The drawn rows -/

/-- The width of the line numbers and of the space between them and the bar. -/
def margin (number : Nat) : Nat := (toString number).toList.length + 1

def ruleRow (number : Nat) : List Char := List.replicate (margin number) ' ' ++ ['|']

def codeRow (number : Nat) (shown : List Char) : List Char :=
  (toString number).toList ++ (' ' :: '|' :: ' ' :: shown)

/-- A caret behind some dashes, the first of which is below the first shown character. -/
def caretRow (number width : Nat) : List Char :=
  ruleRow number ++ (' ' :: (List.replicate width '-' ++ ['^']))

/-- The rows for a place in a line, below what is above them. -/
def drawing (above : List (List Char)) (number column : Nat) (line : List Char) : Drawing where
  above
  rule := ruleRow number
  code := codeRow number (shownOf line)
  caret := caretRow number (column - (indentOf line).length)
  line
  indent := indentOf line
  shown := shownOf line
  trail := trailOf line

theorem idxOf_append_cons (h : c ∉ text) (rest : List Char) : (text ++ c :: rest).idxOf c = text.length := by
  rw [List.idxOf_append, if_neg h, List.idxOf_cons_self, Nat.zero_add]

theorem bar_notMem_margin (number : Nat) : '|' ∉ List.replicate (margin number) ' ' := by
  simp [List.mem_replicate]

theorem bar_ruleRow (number : Nat) : (ruleRow number).idxOf '|' = margin number := by
  rw [ruleRow, idxOf_append_cons (bar_notMem_margin number), List.length_replicate]

theorem bar_codeRow (number : Nat) (shown : List Char) : (codeRow number shown).idxOf '|' = margin number := by
  have hdigits : '|' ∉ (toString number).toList ++ [' '] := by
    rw [List.mem_append]
    rintro (h | h)
    · exact notMem_toString rfl h
    · simp at h
  rw [codeRow, List.append_cons, idxOf_append_cons hdigits, List.length_append]
  rfl

theorem bar_caretRow (number width : Nat) : (caretRow number width).idxOf '|' = margin number := by
  rw [caretRow, ruleRow, List.append_assoc, List.singleton_append,
    idxOf_append_cons (bar_notMem_margin number), List.length_replicate]

theorem caret_caretRow (number width : Nat) : (caretRow number width).idxOf '^' = margin number + 2 + width := by
  have hfront : '^' ∉ List.replicate (margin number) ' ' ++ ['|', ' '] ++ List.replicate width '-' := by
    simp [List.mem_replicate]
  have hrow : caretRow number width =
      List.replicate (margin number) ' ' ++ ['|', ' '] ++ List.replicate width '-' ++ ['^'] := by
    simp [caretRow, ruleRow]
  rw [hrow, idxOf_append_cons hfront]
  simp only [List.length_append, List.length_replicate, List.length_cons, List.length_nil]

/-- The shown text starts in the column of the first dash. -/
theorem codeRow_eq (number : Nat) (shown : List Char) :
    ∃ front, codeRow number shown = front ++ shown ∧ front.length = margin number + 2 :=
  ⟨(toString number).toList ++ [' ', '|', ' '], by simp [codeRow], by simp [margin]⟩

/-- The caret is as far from where the shown text starts as there are dashes. -/
theorem caret_stands (number width : Nat) (shown : List Char) :
    (caretRow number width).idxOf '^' = (codeRow number shown).length - shown.length + width := by
  obtain ⟨front, hcode, hfront⟩ := codeRow_eq number shown
  rw [caret_caretRow, hcode, List.length_append, hfront, Nat.add_sub_cancel]

theorem codeRow_above_caret (number width : Nat) (shown : List Char) :
    (codeRow number shown)[(caretRow number width).idxOf '^']? = shown[width]? := by
  obtain ⟨front, hcode, hfront⟩ := codeRow_eq number shown
  rw [caret_caretRow, hcode, ← hfront, List.getElem?_append_right (Nat.le_add_right _ _), Nat.add_sub_cancel_left]

theorem codeRow_ends_before_caret (number : Nat) (h : shown.length ≤ width) :
    (codeRow number shown).length ≤ (caretRow number width).idxOf '^' := by
  obtain ⟨front, hcode, hfront⟩ := codeRow_eq number shown
  rw [caret_caretRow, hcode, List.length_append, hfront]
  exact Nat.add_le_add_left h _

/-! ## The lines of a diagnostic -/

theorem toList_gutter (number : Nat) : (gutter number).toList = ruleRow number := by
  rw [gutter, String.toList_ofList, ruleRow, margin, String.length_toList]

theorem toList_codeLine (number column : Nat) (line : List Char) :
    (codeLine ⟨number, String.ofList line, column⟩).toList = codeRow number (shownOf line) := by
  simp [codeLine, codeRow, shownOf]

theorem toList_caretLine (number column : Nat) (line : List Char) :
    (caretLine ⟨number, String.ofList line, column⟩).toList =
      caretRow number (column - (indentOf line).length) := by
  simp [caretLine, caretRow, indentOf, toList_gutter]

theorem toList_render (source : String) (f : Failure) :
    (render source f).toList = closed ((lines source f).map String.toList) := by
  simp [render, closed, List.flatMap_map]

theorem closed_append (front back : List (List Char)) : closed (front ++ back) = closed front ++ closed back :=
  List.flatMap_append

theorem lineFeed_notMem_rows (hfeed : '\n' ∉ line) :
    ∀ row ∈ [ruleRow number, codeRow number (shownOf line), caretRow number width], '\n' ∉ row := by
  have hshown : '\n' ∉ shownOf line := by
    intro hmem
    apply hfeed
    rw [(trims line).whole]
    simp [hmem]
  have hdigit : '\n' ∉ (toString number).toList := notMem_toString rfl
  simp only [caretRow, codeRow, ruleRow]
  generalize (toString number).toList = digits at hdigit ⊢
  simp [hdigit, hshown]

/-- The rows below the heading are lines of the diagnostic, even where the heading or the
name of the file has line feeds. -/
theorem lines_render (h : lineAt? source f.position.offset = some ⟨number, String.ofList line, column⟩)
    (hfeed : '\n' ∉ line) :
    ∃ above, SourceLine.lines (render source f).toList =
      above ++ [ruleRow number, codeRow number (shownOf line),
        caretRow number (column - (indentOf line).length), []] := by
  obtain ⟨above, habove, hfront⟩ := exists_closed (closed [(heading f).toList, ("-> " ++ f.position.file).toList])
  rw [lastLine_closed, List.append_nil] at habove
  refine ⟨above, ?_⟩
  have hrender : (render source f).toList =
      closed (above ++ [ruleRow number, codeRow number (shownOf line),
        caretRow number (column - (indentOf line).length)]) ++ [] := by
    rw [toList_render, lines, h, closed_append, ← habove, ← closed_append, List.append_nil, ← toList_gutter,
      ← toList_codeLine, ← toList_caretLine]
    rfl
  rw [hrender, lines_closed_append, List.append_assoc]
  · rfl
  · intro row hrow
    rcases List.mem_append.mp hrow with hrow | hrow
    · exact hfront row hrow
    · exact lineFeed_notMem_rows hfeed row hrow

/-! ## The caret -/

/-- What is shown where the caret stands. -/
theorem caret_meets (h : Trims (lastLine before ++ firstLine after) indent shown trail)
    (hindent : indent.length ≤ (lastLine before).length) :
    ((∃ c ∈ firstLine after, WhiteSpace.isWhiteSpace c = false) →
        shown[(lastLine before).length - indent.length]? = after.head?) ∧
      ((∀ c ∈ firstLine after, WhiteSpace.isWhiteSpace c = true) →
        shown.length ≤ (lastLine before).length - indent.length) := by
  obtain ⟨mid, hmid⟩ : ∃ mid, lastLine before = indent ++ mid :=
    (List.prefix_of_prefix_length_le ⟨_, h.whole.symm⟩ ⟨_, rfl⟩ hindent).imp fun _ => Eq.symm
  have hsplit : mid ++ firstLine after = shown ++ trail := by
    have hwhole := h.whole
    rw [hmid, List.append_assoc] at hwhole
    exact List.append_cancel_left hwhole
  have hlength : (lastLine before).length - indent.length = mid.length := by
    rw [hmid, List.length_append, Nat.add_sub_cancel_left]
  have hhead : (∃ c ∈ firstLine after, WhiteSpace.isWhiteSpace c = false) →
      (firstLine after).head? = after.head? := by
    rintro ⟨c, hc, -⟩
    obtain ⟨rest, hrest, -⟩ := exists_after_firstLine after
    obtain ⟨d, tail, hfirst⟩ := List.exists_cons_of_ne_nil (List.ne_nil_of_mem hc)
    rw [hfirst] at hrest ⊢
    rw [hrest]
    rfl
  obtain ⟨hmeets, hbeyond⟩ := shown_of_split hsplit h.trail h.ends
  rw [hlength]
  exact ⟨fun hblack => (hmeets hblack).trans (hhead hblack), hbeyond⟩

/-- A failure at which the indentation of the line is over is drawn with the caret in
its place. -/
theorem exists_drawing_of_stops (h : source.toList = before ++ after) (hplace : f.place = .after .origin before)
    (hstops : Stops before after) :
    ∃ above, Draws source f (drawing above f.line f.column (lastLine before ++ firstLine after)) := by
  rw [Place.origin_after_eq] at hplace
  have hoffset : f.position.offset = byteLength before := congrArg Place.offset hplace
  have hline : f.line = before.count '\n' + 1 := congrArg Place.line hplace
  have hcolumn : f.column = (lastLine before).length := congrArg Place.column hplace
  have hview : lineAt? source f.position.offset =
      some ⟨f.line, String.ofList (lastLine before ++ firstLine after), f.column⟩ := by
    rw [hoffset, hline, hcolumn]
    exact lineAt?_byteLength h
  have hcut {before' after' : List Char} (h' : cut? source.toList f.position.offset = some (before', after')) :
      after = after' := by
    rw [cut?_eq_some_iff.mpr ⟨h, hoffset.symm⟩] at h'
    exact (Prod.mk.inj (Option.some.inj h')).2
  have hindent := length_indent_le hstops
  obtain ⟨hmeets, hbeyond⟩ := caret_meets (trims _) hindent
  obtain ⟨above, hrows⟩ := lines_render hview (by simp [lastLine_notMem, firstLine_notMem])
  rw [← hcolumn] at hindent hmeets hbeyond
  refine ⟨above, hrows, hview, trims _, ⟨_, rfl⟩, rfl, ⟨_, rfl⟩, ?bars, hindent, caret_stands _ _ _, ?meets, ?beyond⟩
  case bars => exact ⟨(bar_codeRow _ _).trans (bar_ruleRow _).symm, (bar_caretRow _ _).trans (bar_ruleRow _).symm⟩
  case meets =>
    intro before' after' h' hblack
    obtain rfl := hcut h'
    exact (codeRow_above_caret _ _ _).trans (hmeets hblack)
  case beyond =>
    intro before' after' h' hwhite
    obtain rfl := hcut h'
    exact codeRow_ends_before_caret _ (hbeyond hwhite)

/-- The diagnostic of a failed scan draws the line of the failure with the caret below
the character at which the scan failed. -/
theorem exists_drawing_of_failure (h : (tokenize source file?).failure = some f) : ∃ d, Draws source f d := by
  obtain ⟨pieces, gap, ahead, hcut⟩ := exists_cut source.toList
  obtain ⟨read, rest, cause, mode, rfl, hshape, rfl⟩ := exists_shape_of_failure hcut h
  have hspelt : source.toList = spell pieces gap ++ read ++ rest := by
    rw [hcut.spelt, spell_append_right, List.append_assoc]
  have hstops : Stops (spell pieces gap ++ read) rest := (stops_of_shape hshape).append_left _
  exact (exists_drawing_of_stops hspelt rfl hstops).elim fun _ hdraws => ⟨_, hdraws⟩

/-- An unknown escape behind an indentation and a character of two bytes. -/
theorem exists_drawing_of_bad_escape :
    (tokenize "a\n \t\"é\\q\" " none).failure = some ⟨.badEscape 'q', .escape .double, ⟨8, "shell"⟩, 2, 5⟩ ∧
      ∃ d, Draws "a\n \t\"é\\q\" " ⟨.badEscape 'q', .escape .double, ⟨8, "shell"⟩, 2, 5⟩ d := by
  have h : (tokenize "a\n \t\"é\\q\" " none).failure =
      some ⟨.badEscape 'q', .escape .double, ⟨8, "shell"⟩, 2, 5⟩ := by decide +kernel
  exact ⟨h, exists_drawing_of_failure h⟩

end NodLexis.Diagnostic
