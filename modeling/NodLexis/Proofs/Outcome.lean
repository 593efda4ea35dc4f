import NodLexis.Proofs.Junctions
import NodLexis.Proofs.LiteralRuns

/-! # The outcome of a scan

Every source is cut in one way into pieces and a text ahead of them that is blank
or, after a gap, has one of the shapes of a defect. A run yields the tokens of the
pieces and, with a defect, its failure.
-/

namespace NodLexis.Scanner
open CharacterClass Grammar Defect

variable {s : Scanner} {text rest gap tail : List Char} {kind : TokenKind} {pieces : List Piece}

theorem emits_of_lexeme (hs : s.Ready) (hr : s.rest = text ++ rest) (hl : Lexeme kind text)
    (hf : Follow kind rest) : s.Emits kind text rest := by
  cases hl with
  | keyword k =>
    have h := emits_word hs hr (word_keyword k).1 (word_keyword k).2 hf
    rwa [String.ofList_toList, ofWord_word] at h
  | underscore => exact emits_underscore hs hr hf
  | identifier h hu hk => exact ofWord_identifier hk ▸ emits_word hs hr h hu hf
  | intLiteral h => exact emits_intLiteral hs hr h hf
  | floatLiteral hw hfr => exact emits_floatLiteral hs hr hw hfr hf
  | lambdaArg h => exact emits_lambdaArg hs hr h hf
  | operator o =>
    have h := emits_symbol hs hr (symbols_operator o) hf
    rwa [String.ofList_toList, ofSymbol_symbol] at h
  | generalOperator h ho => exact ofSymbol_general ho ▸ emits_symbol hs hr h hf
  | punctuation p => exact emits_punctuation hs hr hf
  | stringLiteral h => exact emits_literal (q := .double) hs (by simpa [Quote.mark] using hr) h fun _ => rfl
  | charLiteral h => exact emits_literal (q := .single) hs (by simpa [Quote.mark] using hr) h fun _ => rfl

theorem fails_of_shape {read : List Char} {cause : Cause} {mode : Mode} (hs : s.Ready)
    (hr : s.rest = read ++ rest) (h : Shape read rest cause mode) : s.Fails read rest cause mode := by
  cases h with
  | stray hb h => exact fails_stray hs hr hb h
  | number hk h hc => exact fails_number hs hr hk h hc
  | lambdaArg h hc => exact fails_lambdaArg hs hr h hc
  | dollar h => exact fails_dollar hs hr h
  | openLiteral q h => exact fails_openLiteral hs (by simpa using hr) h
  | escape q h hb => exact fails_escape hs (by simpa using hr) h hb
  | charLiteral h hn => exact fails_charLiteral hs (by simpa using hr) h hn

/-- A ready scanner gets past all pieces and yields their tokens. -/
theorem steps_pieces (hs : s.Ready) (hr : s.rest = spell pieces tail) (hp : Proper pieces tail) :
    ∃ r m, m.isBetween = true ∧
      Steps s ((s.noting r 0).reached m (spell pieces []) tail (tokensFrom s.file s.here pieces)) := by
  induction pieces generalizing s with
  | nil =>
    refine ⟨s.resume, s.mode, hs.between, ?_⟩
    rw [noting_self hs.items_eq, spell, tokensFrom, show tail = s.rest from hr.symm, reached_self hs]
  | cons p pieces ih =>
    obtain ⟨hgap, hl, hf, hp⟩ := hp
    obtain ⟨m, hm, hblank⟩ := steps_blank hs hr hgap
    obtain ⟨r₁, hemit⟩ := emits_of_lexeme (ready_reached s hm p.gap (p.lexeme ++ spell pieces tail) []) rfl hl hf
    obtain ⟨r₂, m₂, hm₂, htail⟩ := ih (ready_reached _ (show Mode.between.isBetween = true from rfl) _ _ _) rfl hp
    refine ⟨r₂, m₂, hm₂, ?_⟩
    have h := (hblank.trans hemit).trans htail
    simpa [reached_reached, spell, tokensFrom, Place.after_append] using h

theorem steps_gap {ahead : List Char} (hs : s.Ready) (hr : s.rest = spell pieces (gap ++ ahead))
    (hp : Proper pieces (gap ++ ahead)) (hg : Blank gap) :
    ∃ r m, m.isBetween = true ∧
      Steps s ((s.noting r 0).reached m (spell pieces gap) ahead (tokensFrom s.file s.here pieces)) := by
  obtain ⟨r, m, hm, hpieces⟩ := steps_pieces hs hr hp
  have hready := ready_reached (s.noting r 0) hm (spell pieces []) (gap ++ ahead)
    (tokensFrom s.file s.here pieces)
  obtain ⟨m', hm', hgap⟩ := steps_blank hready rfl hg
  rw [reached_reached, spell_append_tail, List.append_nil] at hgap
  exact ⟨r, m', hm', hpieces.trans hgap⟩

theorem run_of_blank (hs : s.Ready) (hr : s.rest = spell pieces gap) (hp : Proper pieces gap)
    (hg : Blank gap) :
    ∃ r, s.run = ((s.noting r 0).reached .eof (spell pieces gap) []
      (tokensFrom s.file s.here pieces), none) := by
  rw [← List.append_nil gap] at hr hp
  obtain ⟨r, m, hm, hsteps⟩ := steps_gap hs hr hp hg
  refine ⟨r, ?_⟩
  rw [run_of_steps hsteps]
  apply run_of_done
  rw [step, move_of_between hm]
  rfl

theorem run_of_shape {read : List Char} {cause : Cause} {mode : Mode} (hs : s.Ready)
    (hr : s.rest = spell pieces (gap ++ (read ++ rest))) (hp : Proper pieces (gap ++ (read ++ rest)))
    (hg : Blank gap) (h : Shape read rest cause mode) :
    ∃ t, s.run = (t, some (failureAt s.file (s.here.after (spell pieces gap ++ read)) cause mode)) ∧
      t.tokens = s.tokens ++ (tokensFrom s.file s.here pieces).toArray := by
  obtain ⟨r, m, hm, hsteps⟩ := steps_gap hs hr hp hg
  have hready := ready_reached (s.noting r 0) hm (spell pieces gap) (read ++ rest)
    (tokensFrom s.file s.here pieces)
  obtain ⟨t, r', n, hread, hfail⟩ := fails_of_shape hready rfl h
  have hrun := run_of_steps (hsteps.trans hread)
  rw [run_of_failed hfail, here_reached, file_reached, here_noting, file_noting,
    ← Place.after_append] at hrun
  exact ⟨_, hrun, rfl⟩

/-! ## Whole sources -/

theorem ready_ofSource (source : String) (file? : Option String) (e : Event) :
    ((ofSource source file?).record e).Ready := ⟨rfl, rfl, rfl, rfl⟩

end NodLexis.Scanner

namespace NodLexis
open Grammar Defect Scanner

variable {source : String} {file? : Option String} {pieces : List Piece} {gap : List Char}

/-- The name under which a source is scanned. -/
def fileName (file? : Option String) : String := file?.getD defaultFile

theorem tokenize_of_run {t : Scanner} {o : Option Failure}
    (h : ((ofSource source file?).record (.started (ofSource source file?).file
      (SourceText.byteLength (ofSource source file?).rest))).run = (t, o)) :
    (tokenize source file?).tokens = t.tokens.toList ∧ (tokenize source file?).failure = o := by
  simp only [tokenize, runRecorded, h]
  cases o <;> simp [record]

theorem tokenize_of_blank (h : source.toList = spell pieces gap) (hp : Proper pieces gap)
    (hg : Blank gap) :
    (tokenize source file?).tokens = tokensFrom (fileName file?) .origin pieces ∧
      (tokenize source file?).failure = none := by
  obtain ⟨r, hrun⟩ := run_of_blank (ready_ofSource source file? _) h hp hg
  obtain ⟨ht, hf⟩ := tokenize_of_run hrun
  refine ⟨ht.trans ?_, hf⟩
  simp [reached, record, ofSource, noting, fileName]

theorem tokenize_of_shape {read rest : List Char} {cause : Cause} {mode : Mode}
    (h : source.toList = spell pieces (gap ++ (read ++ rest)))
    (hp : Proper pieces (gap ++ (read ++ rest))) (hg : Blank gap) (hs : Shape read rest cause mode) :
    (tokenize source file?).tokens = tokensFrom (fileName file?) .origin pieces ∧
      (tokenize source file?).failure =
        some (failureAt (fileName file?) (Place.origin.after (spell pieces gap ++ read)) cause mode) := by
  obtain ⟨t, hrun, htokens⟩ := run_of_shape (ready_ofSource source file? _) h hp hg hs
  obtain ⟨ht, hf⟩ := tokenize_of_run hrun
  refine ⟨?_, hf⟩
  rw [ht, htokens]
  simp [record, ofSource, fileName]

theorem tokens_of_cut {ahead : List Char} (file? : Option String) (h : Cut source.toList pieces gap ahead) :
    (tokenize source file?).tokens = tokensFrom (fileName file?) .origin pieces := by
  obtain ⟨hs, hp, hg, rfl | ⟨read, rest, cause, mode, rfl, hshape⟩⟩ := h
  · rw [List.append_nil] at hs hp
    exact (tokenize_of_blank hs hp hg).1
  · exact (tokenize_of_shape hs hp hg hshape).1

theorem ahead_eq_nil_of_success {ahead : List Char} (h : Cut source.toList pieces gap ahead)
    (hnone : (tokenize source file?).failure = none) : ahead = [] := by
  obtain ⟨hs, hp, hg, rfl | ⟨read, rest, cause, mode, rfl, hshape⟩⟩ := h
  · rfl
  · rw [(tokenize_of_shape hs hp hg hshape).2] at hnone
    cases hnone

/-- The failure of a scan is that of the defect after the gap. -/
theorem exists_shape_of_failure {ahead : List Char} {f : Failure} (h : Cut source.toList pieces gap ahead)
    (hf : (tokenize source file?).failure = some f) :
    ∃ read rest cause mode, ahead = read ++ rest ∧ Shape read rest cause mode ∧
      f = failureAt (fileName file?) (Place.origin.after (spell pieces gap ++ read)) cause mode := by
  obtain ⟨hs, hp, hg, rfl | ⟨read, rest, cause, mode, rfl, hshape⟩⟩ := h
  · rw [List.append_nil] at hs hp
    rw [(tokenize_of_blank hs hp hg).2] at hf
    cases hf
  · rw [(tokenize_of_shape hs hp hg hshape).2] at hf
    exact ⟨read, rest, cause, mode, rfl, hshape, (Option.some.inj hf).symm⟩

/-- A lexeme alone scans as the one token that it is. -/
theorem tokenize_of_lexeme {lexeme : String} {kind : TokenKind} (file? : Option String)
    (h : Lexeme kind lexeme.toList) :
    (tokenize lexeme file?).tokens = [tokenAt (fileName file?) .origin kind lexeme.toList] ∧
      (tokenize lexeme file?).failure = none := by
  have hspell : lexeme.toList = spell [⟨[], kind, lexeme.toList⟩] [] := by simp [spell]
  exact tokenize_of_blank hspell ⟨blank_nil, h, follow_nil kind, trivial⟩ blank_nil

/-- Every token of a scan, failed or not, is that of a lexeme. -/
theorem exists_lexeme_of_mem_tokens {t : Token} (h : t ∈ (tokenize source file?).tokens) :
    ∃ start kind lexeme, t = tokenAt (fileName file?) start kind lexeme ∧ Lexeme kind lexeme := by
  obtain ⟨pieces, gap, ahead, hcut⟩ := exists_cut source.toList
  rw [tokens_of_cut file? hcut] at h
  obtain ⟨p, hp, front, back, -, rfl⟩ := exists_of_mem_tokensFrom [] [] h
  exact ⟨_, p.kind, p.lexeme, rfl, (hcut.proper.of_mem hp).2⟩

end NodLexis
