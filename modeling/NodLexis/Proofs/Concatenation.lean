import NodLexis.Proofs.Junctions
import NodLexis.Proofs.Outcome
import NodLexis.Proofs.Places

/-! # Scanning a concatenation

A scanner that is ready for a token has forgotten what it read before, except for the
place. It yields the tokens and the failure of a fresh scan of what is left, shifted by
the text before. As blanks end every lexeme, the scan of two sources with blanks between
them is the scan of the first followed by the shifted scan of the second.
-/

namespace NodLexis
open SourceText Grammar Defect Scanner

/-- The token when a text is put before the one it lies in. -/
def Token.shift (before : List Char) (t : Token) : Token :=
  { t with
    line := t.line + before.count '\n'
    column := shiftColumn before t.line t.column
    span := ⟨⟨t.span.start.offset + byteLength before, t.span.start.file⟩,
      ⟨t.span.stop.offset + byteLength before, t.span.stop.file⟩⟩ }

/-- The failure when a text is put before the one that was scanned. -/
def Failure.shift (before : List Char) (f : Failure) : Failure :=
  { f with
    line := f.line + before.count '\n'
    column := shiftColumn before f.line f.column
    position := ⟨f.position.offset + byteLength before, f.position.file⟩ }

@[simp] theorem Token.shift_nil : Token.shift [] = id := by
  funext t
  simp [Token.shift, shiftColumn, SourceLine.lastLine, SourceLine.firstLine]

@[simp] theorem Failure.shift_nil : Failure.shift [] = id := by
  funext f
  simp [Failure.shift, shiftColumn, SourceLine.lastLine, SourceLine.firstLine]

namespace Concatenation

variable {s : Scanner} {p : Place} {before : List Char} {source : String}

theorem tokenAt_shift (h : 0 < p.line) (file : String) (before : List Char) (kind : TokenKind)
    (lexeme : List Char) : tokenAt file (p.shift before) kind lexeme = (tokenAt file p kind lexeme).shift before := by
  rw [tokenAt, Place.after_shift h]
  rfl

theorem tokensFrom_shift (h : 0 < p.line) (file : String) (before : List Char) (pieces : List Piece) :
    tokensFrom file (p.shift before) pieces = (tokensFrom file p pieces).map (Token.shift before) := by
  induction pieces generalizing p with
  | nil => rfl
  | cons piece pieces ih =>
    simp only [tokensFrom, Place.after_shift h, List.map_cons, tokenAt_shift (Place.line_pos_after h _),
      ih (Place.line_pos_after h _)]

theorem failureAt_shift (file : String) (before : List Char) (p : Place) (cause : Cause) (mode : Mode) :
    failureAt file (p.shift before) cause mode = (failureAt file p cause mode).shift before := rfl

/-- A ready scanner goes on as a fresh scan of the text ahead does, shifted by the text
behind it. -/
theorem run_of_ready (file? : Option String) (hs : s.Ready) (hhere : s.here = Place.origin.after before)
    (hfile : s.file = fileName file?) (hr : s.rest = source.toList) :
    ∃ t, s.run = (t, (tokenize source file?).failure.map (Failure.shift before)) ∧
      t.tokens.toList = s.tokens.toList ++ (tokenize source file?).tokens.map (Token.shift before) := by
  have hline : 0 < Place.origin.line := Nat.one_pos
  obtain ⟨pieces, gap, ahead, hspelt, hp, hg, rfl | ⟨read, rest, cause, mode, rfl, hshape⟩⟩ :=
    exists_cut source.toList
  · rw [List.append_nil] at hspelt hp
    obtain ⟨r, hrun⟩ := run_of_blank hs (hr.trans hspelt) hp hg
    refine ⟨_, by rw [hrun, (tokenize_of_blank hspelt hp hg).2]; rfl, ?_⟩
    rw [(tokenize_of_blank hspelt hp hg).1, ← tokensFrom_shift hline, Place.shift_origin, ← hhere, ← hfile,
      toList_tokens_reached]
    rfl
  · obtain ⟨t, hrun, ht⟩ := run_of_shape hs (hr.trans hspelt) hp hg hshape
    refine ⟨t, ?_, ?_⟩
    · rw [hrun, (tokenize_of_shape hspelt hp hg hshape).2, Option.map_some, ← failureAt_shift,
        ← Place.origin_after_append, hhere, hfile, ← Place.after_append]
    · rw [ht, (tokenize_of_shape hspelt hp hg hshape).1, ← tokensFrom_shift hline, Place.shift_origin, ← hhere,
        ← hfile, Array.toList_append]

/-- A scan is a run of a fresh scanner. -/
theorem run_ofSource (source : String) (file? : Option String) :
    (ofSource source file?).run.1.tokens.toList = (tokenize source file?).tokens ∧
      (ofSource source file?).run.2 = (tokenize source file?).failure := by
  have hready : (ofSource source file?).Ready := ⟨rfl, rfl, rfl, rfl⟩
  have hhere : (ofSource source file?).here = Place.origin.after [] := rfl
  have hrest : (ofSource source file?).rest = source.toList := rfl
  obtain ⟨t, hrun, htokens⟩ := run_of_ready file? hready hhere rfl hrest
  rw [hrun, htokens, Token.shift_nil, Failure.shift_nil, List.map_id, Option.map_id]
  exact ⟨rfl, rfl⟩

/-- Behind some pieces and a gap a scan goes on as a scan of the rest alone. -/
theorem tokenize_behind {pieces : List Piece} {gap : List Char} {rest : String} (file? : Option String)
    (h : source.toList = spell pieces (gap ++ rest.toList)) (hp : Proper pieces (gap ++ rest.toList))
    (hg : Blank gap) :
    (tokenize source file?).tokens = tokensFrom (fileName file?) .origin pieces ++
        (tokenize rest file?).tokens.map (Token.shift (spell pieces gap)) ∧
      (tokenize source file?).failure =
        (tokenize rest file?).failure.map (Failure.shift (spell pieces gap)) := by
  let fresh := ofSource source file?
  let start := fresh.record (.started fresh.file (byteLength fresh.rest))
  have hstart : start.Ready := ready_ofSource source file? _
  obtain ⟨r, m, hm, hsteps⟩ := steps_gap hstart h hp hg
  have hready := ready_reached (start.noting r 0) hm (spell pieces gap) rest.toList
    (tokensFrom start.file start.here pieces)
  obtain ⟨t, hrun, ht⟩ := run_of_ready file? hready rfl rfl rfl
  obtain ⟨htokens, hfailure⟩ := tokenize_of_run ((run_of_steps hsteps).trans hrun)
  have hnone : (start.noting r 0).tokens.toList = [] := rfl
  refine ⟨?_, hfailure⟩
  rw [htokens, ht, toList_tokens_reached, hnone]
  rfl

/-- The scan of two sources with blanks between them, the first one without failure,
yields the tokens of the first, then the tokens of the second and its failure, shifted. -/
theorem tokenize_append (first blanks second : String) (file? : Option String)
    (hfirst : (tokenize first file?).failure = none) (hne : blanks ≠ "") (hb : Blank blanks.toList) :
    (tokenize (first ++ blanks ++ second) file?).tokens =
        (tokenize first file?).tokens ++
          (tokenize second file?).tokens.map (Token.shift (first ++ blanks).toList) ∧
      (tokenize (first ++ blanks ++ second) file?).failure =
        (tokenize second file?).failure.map (Failure.shift (first ++ blanks).toList) := by
  obtain ⟨pieces, gap, ahead, hcut⟩ := exists_cut first.toList
  obtain rfl := ahead_eq_nil_of_success hcut hfirst
  have htokens := tokens_of_cut file? hcut
  obtain ⟨hspelt, hproper, hgap, -⟩ := hcut
  rw [List.append_nil] at hspelt hproper
  have hbehind : spell pieces (gap ++ blanks.toList) = (first ++ blanks).toList := by
    rw [spell_append_right, ← hspelt, String.toList_append]
  have hsource : (first ++ blanks ++ second).toList = spell pieces (gap ++ blanks.toList ++ second.toList) := by
    rw [spell_append_right, hbehind, String.toList_append]
  have hp : Proper pieces (gap ++ blanks.toList ++ second.toList) := by
    obtain ⟨c, tail, hc⟩ := List.exists_cons_of_ne_nil (mt String.toList_eq_nil_iff.mp hne)
    have hblank : CharacterClass.isBlank c = true := hb c (by simp [hc])
    rw [List.append_assoc, hc, List.cons_append]
    exact hproper.append_blank hblank _
  rw [htokens, ← hbehind]
  exact tokenize_behind file? hsource hp (hgap.append hb)

/-- A tab behind a string of two lines, and a second source that fails in its second line. -/
theorem tokenize_append_tab :
    (tokenize "f \"é\n\"" none).failure = none ∧ "\t" ≠ "" ∧ Blank "\t".toList ∧
      (tokenize ("f \"é\n\"" ++ "\t" ++ "x\n12y") none).tokens =
        (tokenize "f \"é\n\"" none).tokens ++
          (tokenize "x\n12y" none).tokens.map (Token.shift ("f \"é\n\"" ++ "\t").toList) ∧
      (tokenize ("f \"é\n\"" ++ "\t" ++ "x\n12y") none).failure =
        (tokenize "x\n12y" none).failure.map (Failure.shift ("f \"é\n\"" ++ "\t").toList) := by
  have hfirst : (tokenize "f \"é\n\"" none).failure = none := by decide +kernel
  have hne : "\t" ≠ "" := by decide
  have hblank : Blank "\t".toList := by decide
  exact ⟨hfirst, hne, hblank, tokenize_append _ _ _ none hfirst hne hblank⟩

end Concatenation
end NodLexis
