import NodLexis.Proofs.Segmentation

/-! # Lexemes scanned alone

The text of a token, scanned for itself, is one token of the same kind, so the kind of a
token is told by its text alone. Among the texts that start where a token does, the lexeme
of the token is the longest one of which this holds.
-/

namespace NodLexis.Munch
open SourceText Grammar Defect Segmentation

/-- The scan of a text yields one token, which is of a kind and all of the text. -/
structure ScansAs (text : String) (file? : Option String) (kind : TokenKind) : Prop where
  failure : (tokenize text file?).failure = none
  token : ∃ t, (tokenize text file?).tokens = [t] ∧ t.kind = kind ∧ t.lexeme = text

variable {source text : String} {file? : Option String} {kind : TokenKind} {t : Token}

/-- The texts that scan as one token are the lexemes. -/
theorem scansAs_iff : ScansAs text file? kind ↔ Lexeme kind text.toList := by
  constructor
  · rintro ⟨-, t, htokens, rfl, rfl⟩
    have hmem : t ∈ (tokenize t.lexeme file?).tokens := by simp [htokens]
    obtain ⟨start, kind, lexeme, ht, hl⟩ := exists_lexeme_of_mem_tokens hmem
    have hlexeme : t.lexeme.toList = lexeme := by rw [ht, tokenAt, String.toList_ofList]
    rwa [hlexeme, ht]
  · intro h
    obtain ⟨htokens, hfailure⟩ := tokenize_of_lexeme file? h
    exact ⟨hfailure, _, htokens, rfl, String.ofList_toList⟩

/-- No text is a lexeme of two kinds. -/
theorem kind_unique {kind' : TokenKind} {lexeme : List Char} (h : Lexeme kind lexeme) (h' : Lexeme kind' lexeme) :
    kind = kind' := by
  rw [← String.toList_ofList (l := lexeme)] at h h'
  have htokens := (tokenize_of_lexeme none h).1
  rw [(tokenize_of_lexeme none h').1] at htokens
  exact (congrArg Token.kind (List.singleton_inj.mp htokens)).symm

/-- A token stands in its source as a lexeme in front of a text that may follow it. -/
theorem exists_follow_of_mem_tokens (h : t ∈ (tokenize source file?).tokens) :
    ∃ before after, cut? source.toList t.span.start.offset = some (before, t.lexeme.toList ++ after) ∧
      Lexeme t.kind t.lexeme.toList ∧ Follow t.kind after := by
  obtain ⟨pieces, gap, ahead, hcut⟩ := exists_cut source.toList
  rw [tokens_of_cut file? hcut] at h
  obtain ⟨i, hi⟩ := List.mem_iff_getElem?.mp h
  obtain ⟨front, p, back, rfl, -, rfl⟩ := exists_split_of_getElem? hi
  obtain ⟨hspelt, hproper, -, -⟩ := hcut
  obtain ⟨-, -, hl, hf, -⟩ := proper_append_iff.mp hproper
  rw [← String.toList_ofList (l := p.lexeme)] at hl
  refine ⟨spell front p.gap, spell back (gap ++ ahead), cut?_eq_some_iff.mpr ⟨?_, ?_⟩, hl, hf⟩
  · rw [hspelt, spell_append, spell, spell_append_right, tokenAt, String.toList_ofList]
  · exact (Place.offset_origin_after _).symm

theorem lexeme_of_mem_tokens (h : t ∈ (tokenize source file?).tokens) : Lexeme t.kind t.lexeme.toList := by
  obtain ⟨-, -, -, hl, -⟩ := exists_follow_of_mem_tokens h
  exact hl

/-- Every token of a scan, failed or not, scans alone as one token of the same kind, so that
in no other scan a token with the same lexeme is of another kind. No longer text that starts
in the source where the token does scans as one token. -/
theorem scansAs_longest (h : t ∈ (tokenize source file?).tokens) :
    (∀ file?', ScansAs t.lexeme file?' t.kind) ∧
    (∀ source' file?' u, u ∈ (tokenize source' file?').tokens → u.lexeme = t.lexeme → u.kind = t.kind) ∧
    ∃ before after, cut? source.toList t.span.start.offset = some (before, t.lexeme.toList ++ after) ∧
      ∀ more file?' kind, more ≠ [] → more <+: after →
        ¬ ScansAs (String.ofList (t.lexeme.toList ++ more)) file?' kind := by
  obtain ⟨before, after, hcut, hl, hf⟩ := exists_follow_of_mem_tokens h
  refine ⟨fun file?' => scansAs_iff.mpr hl, ?_, before, after, hcut, ?_⟩
  · intro source' file?' u hu heq
    have hu := lexeme_of_mem_tokens hu
    rw [heq] at hu
    exact kind_unique hu hl
  · intro more file?' kind hne hmore hscan
    have hlonger := scansAs_iff.mp hscan
    rw [String.toList_ofList] at hlonger
    have hle := length_le_of_follow hl hf hlonger ((List.prefix_append_right_inj _).mpr hmore)
    have := List.length_pos_iff.mpr hne
    rw [List.length_append] at hle
    omega

/-- An integer in front of a range, in a source that fails at the number behind it. -/
theorem scansAs_longest_integer :
    (tokenize "x=1..<3.5y" none).failure.isSome = true ∧
      ⟨.intLiteral, "1", 1, 2, ⟨⟨2, "shell"⟩, ⟨3, "shell"⟩⟩⟩ ∈ (tokenize "x=1..<3.5y" none).tokens ∧
      ScansAs "1" none .intLiteral ∧
      ∀ more kind, more ≠ [] → more <+: "..<3.5y".toList → ¬ ScansAs (String.ofList ('1' :: more)) none kind := by
  have hfails : (tokenize "x=1..<3.5y" none).failure.isSome = true := by decide +kernel
  have hmem : ⟨.intLiteral, "1", 1, 2, ⟨⟨2, "shell"⟩, ⟨3, "shell"⟩⟩⟩ ∈ (tokenize "x=1..<3.5y" none).tokens := by
    decide +kernel
  obtain ⟨halone, -, before, after, hcut, hlonger⟩ := scansAs_longest hmem
  have hafter : after = "..<3.5y".toList := by
    have hstart : cut? "x=1..<3.5y".toList 2 = some (['x', '='], '1' :: "..<3.5y".toList) := by decide +kernel
    rw [hstart] at hcut
    obtain ⟨-, hrest⟩ := Prod.mk.inj (Option.some.inj hcut)
    exact (List.cons.inj hrest).2.symm
  subst hafter
  exact ⟨hfails, hmem, halone none, fun more kind => hlonger more none kind⟩

end NodLexis.Munch
