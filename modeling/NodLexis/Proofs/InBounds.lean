import NodLexis.Proofs.OffsetRuns
import NodLexis.Proofs.Slicing

/-! # Everything is read in bounds

A cut of a source has a result exactly when its ends are in order and on character
boundaries. Since the scanner over byte offsets and the diagnostics with checked cuts
always have a result, they never cut the source anywhere else, whatever is called in
whatever state.
-/

namespace NodLexis
open SourceText Grammar

/-- A token with a span that is not empty and as long as the text of the token. -/
structure Token.Measured (t : Token) : Prop where
  order : t.span.start.offset < t.span.stop.offset
  length : t.span.length = .ok t.lexeme.utf8ByteSize
  nonempty : t.span.isEmpty = .ok false

theorem measured_tokenAt {lexeme : List Char} (h : lexeme ≠ []) (file : String) (p : Place) (kind : TokenKind) :
    (tokenAt file p kind lexeme).Measured := by
  have hpos : 0 < byteLength lexeme := by
    have := List.length_pos_iff.mpr h
    have := length_le_byteLength lexeme
    omega
  have hlength : (tokenAt file p kind lexeme).span.length = .ok (byteLength lexeme) := by
    simp [tokenAt, Span.length, Place.offset_after]
  refine ⟨?_, ?_, ?_⟩
  · simp only [tokenAt, Place.offset_after]
    omega
  · rw [hlength, byteLength_eq_utf8ByteSize]
    rfl
  · have hne : (byteLength lexeme == 0) = false := beq_eq_false_iff_ne.mpr (by omega)
    rw [Span.isEmpty, hlength, ← hne]
    rfl

namespace OffsetScanner

/-- The places of a scanner over offsets are in order and on character boundaries, all
it can read from them has a result, and its tokens are measured. -/
structure InBounds (o : OffsetScanner) : Prop where
  start : String.Pos.Raw.IsValid o.source ⟨o.start.offset⟩
  here : String.Pos.Raw.IsValid o.source ⟨o.here.offset⟩
  order : o.start.offset ≤ o.here.offset ∧ o.here.offset ≤ o.source.utf8ByteSize
  line : o.here.line ≤ o.source.utf8ByteSize + 1
  column : o.here.column ≤ o.source.utf8ByteSize
  characters : o.current?.isSome = true ∧ o.second?.isSome = true
  lexemes : o.lexeme?.isSome = true ∧ o.lexemeWithOffender?.isSome = true
  step : o.step?.isSome = true
  run : o.run?.isSome = true
  tokens : ∀ t ∈ o.tokens, t.Measured

variable {o : OffsetScanner} {s : Scanner} {source : String} {before taken rest : List Char}

theorem isSome_lexemeWithOffender? (h : o.Around before taken rest) : o.lexemeWithOffender?.isSome = true := by
  rcases barred_or_exists CharacterClass.isWordChar rest with hb | ⟨c, rest, rfl, hc⟩
  · rw [h.lexemeWithOffender?_of_barred hb]
    rfl
  · rw [h.lexemeWithOffender?_eq hc]
    rfl

/-- A place behind a text has no more lines in front of it and no greater column than the
text has bytes. -/
theorem line_column_le (text : List Char) :
    (Place.origin.after text).line ≤ byteLength text + 1 ∧ (Place.origin.after text).column ≤ byteLength text := by
  have hlength := length_le_byteLength text
  have hcount : text.count '\n' ≤ text.length := List.count_le_length
  have hcolumn : (SourceLine.lastLine text).length ≤ text.length := by
    have hfirst : (SourceLine.firstLine text.reverse).length ≤ text.reverse.length :=
      (List.takeWhile_sublist _).length_le
    rwa [List.length_reverse, ← List.length_reverse] at hfirst
  rw [Place.origin_after_eq]
  dsimp only
  omega

theorem inBounds_of_follows (h : Follows source o s before taken)
    (htokens : ∀ t ∈ s.tokens.toList, t.Measured) : o.InBounds := by
  have haround := h.around
  have hsource : o.source.toList = before ++ taken ++ s.rest := haround.source_eq
  have hstart := haround.offset_start
  have hhere := haround.offset_here
  have hsize : o.source.utf8ByteSize = byteLength before + byteLength taken + byteLength s.rest := by
    rw [← byteLength_toList, hsource, byteLength_append, byteLength_append]
  have hplace : o.here = Place.origin.after (before ++ taken) := by
    rw [haround.here, haround.start, Place.after_append]
  obtain ⟨hline, hcolumn⟩ := line_column_le (before ++ taken)
  rw [← hplace, byteLength_append] at hline hcolumn
  obtain ⟨t, _, _, hstep, -⟩ := answers_step h
  obtain ⟨u, _, _, hrun, -⟩ := follows_run h
  refine ⟨?_, ?_, ?_, ?_, ?_, ?_, ?_, ?_, ?_, ?_⟩
  · exact isValid_iff_exists_append.mpr ⟨before, taken ++ s.rest, haround.source, hstart.symm⟩
  · refine isValid_iff_exists_append.mpr ⟨before ++ taken, s.rest, hsource, ?_⟩
    rw [byteLength_append, hhere]
  · omega
  · omega
  · omega
  · rw [haround.current?_eq, haround.second?_eq]
    exact ⟨rfl, rfl⟩
  · rw [haround.lexeme?_eq]
    exact ⟨rfl, isSome_lexemeWithOffender? haround⟩
  · rw [hstep]
    rfl
  · rw [hrun]
    rfl
  · intro t ht
    rw [h.tokens] at ht
    exact htokens t (Array.mem_toList_iff.mpr ht)

theorem measured_calls (source : String) (file? : Option String) (cs : List Call) :
    ∀ t ∈ ((Scanner.ofSource source file?).calls cs).tokens.toList, t.Measured := by
  obtain ⟨-, pieces, gap, hlayout⟩ := Scanner.layout_calls source file? cs
  intro t ht
  rw [hlayout.tokens] at ht
  obtain ⟨p, hp, front, back, -, rfl⟩ := exists_of_mem_tokensFrom [] [] ht
  exact measured_tokenAt (hlayout.solid p hp).2 _ _ _

end OffsetScanner

/-- A source is only ever cut between two characters and in order. A cut has a result
exactly there, and the scanner over byte offsets has a result after any calls: it keeps
in step with the scanner, and its places are in bounds. So has the line view at every
offset, the removal of an indentation from every line, and the diagnostic of every
failure, whether of this source or not, if its caret is not too far to the right. The
size of the source, which is that of a text in memory, bounds the width of the gutter. -/
theorem cuts_in_bounds (source : String) (file? : Option String) :
    (∀ start stop, (slice? source.toList start stop).isSome = true ↔
      start ≤ stop ∧ String.Pos.Raw.IsValid source ⟨start⟩ ∧ String.Pos.Raw.IsValid source ⟨stop⟩) ∧
    (∀ start stop, (distance? start stop).isSome = true ↔ start ≤ stop) ∧
    (∀ cs : List Call, ∃ o before taken, (OffsetScanner.ofSource source file?).calls? cs = some o ∧
      OffsetScanner.Follows source o ((Scanner.ofSource source file?).calls cs) before taken ∧ o.InBounds) ∧
    (∀ offset, SourceLine.slicedLineAt? source offset = some (SourceLine.lineAt? source offset)) ∧
    (∀ line : String, ∃ removed, Diagnostic.unindent? line = some removed) ∧
    ∀ f : Failure, source.utf8ByteSize < UInt64.size →
      (∀ v, SourceLine.lineAt? source f.position.offset = some v →
        Diagnostic.caretColumn v < Diagnostic.maxWidth) →
      Diagnostic.slicedRender? source f = some (Diagnostic.render source f) := by
  refine ⟨fun _ _ => isSome_slice?_iff, ?_, ?_, SourceLine.slicedLineAt?_eq source, ?_, ?_⟩
  · intro start stop
    rw [distance?]
    split <;> simp_all
  · intro cs
    obtain ⟨o, before, taken, hcalls, hfollows⟩ :=
      OffsetScanner.follows_calls (OffsetScanner.follows_ofSource source file?) cs
    have hmeasured := OffsetScanner.measured_calls source file? cs
    exact ⟨o, before, taken, hcalls, hfollows, OffsetScanner.inBounds_of_follows hfollows hmeasured⟩
  · exact fun line => ⟨_, Diagnostic.unindent?_eq line⟩
  · exact fun f hsize hcaret => Diagnostic.slicedRender?_eq hsize hcaret

end NodLexis
