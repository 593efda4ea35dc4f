import NodLexis.Proofs.ByteOffsets
import NodLexis.Proofs.Concatenation

/-! # Bounded lookahead

A token is settled by its own text and the next character, an integer by the next two,
and a failure by the text up to the offending character. So two sources that share a
beginning share the tokens and the failure which lie far enough inside of it.
-/

namespace NodLexis.Locality
open SourceText CharacterClass Grammar Defect

/-- How many bytes behind a token have to be known before the token is. -/
def lookahead : TokenKind → Nat
  | .intLiteral => 2
  | _ => 1

variable {front pieces : List Piece} {p : Piece} {gap text read mid rest tail : List Char} {cause : Cause}
  {mode : Mode}

theorem lookahead_pos (kind : TokenKind) : 0 < lookahead kind := by
  cases kind <;> exact Nat.succ_pos _

/-- The pieces up to a token stay proper when the text is exchanged beyond what the
token looks at. -/
theorem proper_exchange (hp : Proper (front ++ [p]) (mid ++ rest))
    (hmid : lookahead p.kind ≤ byteLength mid) (rest' : List Char) :
    Proper (front ++ [p]) (mid ++ rest') := by
  have hne : mid ≠ [] := by
    rintro rfl
    have := lookahead_pos p.kind
    simp at hmid
    omega
  have hdot : p.kind = .intLiteral → mid ≠ ['.'] := by
    rintro hk rfl
    rw [hk] at hmid
    exact absurd hmid (by decide)
  obtain ⟨hfront, hgap, hl, hf, -⟩ := proper_append_iff.mp hp
  -- A piece further in front is settled by this one and the character behind it.
  have hsettles : Settles (p.gap ++ (p.lexeme ++ mid)) := by
    have := List.length_pos_iff.mpr hl.ne_nil
    have := List.length_pos_iff.mpr hne
    have hlength : 2 ≤ (p.lexeme ++ mid).length := by
      rw [List.length_append]
      omega
    exact (settles_of_length hlength).append_left p.gap
  refine proper_append_iff.mpr ⟨?_, hgap, hl, follow_swap hne hdot hf, trivial⟩
  have hspell (tail : List Char) : spell [p] (mid ++ tail) = p.gap ++ (p.lexeme ++ mid) ++ tail := by
    simp [spell]
  rw [hspell] at hfront ⊢
  exact hfront.swap hsettles rest'

/-- A defect does not depend on the text behind its offending character, and a character
literal with too many or too few items has no offending character. -/
theorem shape_exchange (h : Shape read (mid ++ rest) cause mode)
    (hmid : mid ≠ [] ∨ ∃ lexeme, cause = .badCharLiteral lexeme) (rest' : List Char) :
    Shape read (mid ++ rest') cause mode := by
  rcases hmid with hne | ⟨lexeme, rfl⟩
  · obtain ⟨c, mid, rfl⟩ := List.exists_cons_of_ne_nil hne
    cases h with
    | stray hb h => exact .stray hb h
    | number hk h hc => exact .number hk h hc
    | lambdaArg h hc => exact .lambdaArg h hc
    | dollar h => exact .dollar (barred_cons.mpr (barred_cons.mp h))
    | charLiteral h hn => exact .charLiteral h hn
    | escape q h hb =>
      refine .escape q h ?_
      cases hb with
      | letter hu h => exact .letter hu h
      | brace h => exact .brace h
      | digit short hex hc stop => exact .digit short hex hc stop
      | value short hex h => exact .value short hex h
  · generalize mid ++ rest = behind at h
    cases h with
    | charLiteral h hn => exact .charLiteral h hn
    | escape q h hb => cases hb

/-- The part of a defect that decides about it settles the pieces in front, too. -/
theorem settles_of_shape (h : Shape read (mid ++ rest) cause mode)
    (hmid : mid ≠ [] ∨ ∃ lexeme, cause = .badCharLiteral lexeme) : Settles (read ++ mid) := by
  constructor
  · rcases hmid with hne | ⟨lexeme, rfl⟩
    · simp [hne]
    · generalize mid ++ rest = behind at h
      cases h <;> simp
  · intro he
    have hdot := h.barred_dot
    rw [← List.append_assoc, he] at hdot
    exact absurd (barred_cons.mp hdot) (by decide)

/-- The pieces in front of a defect stay proper when the text is exchanged beyond it. -/
theorem proper_exchange_of_shape (hp : Proper pieces (gap ++ (read ++ (mid ++ rest))))
    (h : Shape read (mid ++ rest) cause mode) (hmid : mid ≠ [] ∨ ∃ lexeme, cause = .badCharLiteral lexeme)
    (rest' : List Char) : Proper pieces (gap ++ (read ++ (mid ++ rest'))) := by
  have hsettles := (settles_of_shape h hmid).append_left gap
  rw [← List.append_assoc read, ← List.append_assoc gap] at hp ⊢
  exact hp.swap hsettles rest'

theorem getElem?_tokens_exchange {shared rest : String} {file? : Option String} {i : Nat} {t : Token}
    (h : (tokenize (shared ++ rest) file?).tokens[i]? = some t)
    (hle : t.span.stop.offset + lookahead t.kind ≤ byteLength shared.toList) (rest' : String) :
    (tokenize (shared ++ rest') file?).tokens[i]? = some t := by
  obtain ⟨pieces, gap, ahead, hcut⟩ := exists_cut (shared ++ rest).toList
  rw [tokens_of_cut file? hcut] at h
  obtain ⟨front, p, back, rfl, rfl, rfl⟩ := exists_split_of_getElem? h
  have hstop : byteLength (spell front p.gap ++ p.lexeme) + lookahead p.kind ≤ byteLength shared.toList := by
    rwa [← Place.offset_origin_after, Place.after_append]
  obtain ⟨hs, hp, -, -⟩ := hcut
  rw [List.append_cons] at hs hp
  rw [spell_append, spell_concat, String.toList_append] at hs
  obtain ⟨mid, hshared, hmid⟩ := exists_append_of_byteLength_le hs (by omega)
  have hlookahead : lookahead p.kind ≤ byteLength mid := by
    rw [hshared, byteLength_append _ mid] at hstop
    omega
  obtain ⟨hp, -⟩ := proper_append_iff.mp hp
  rw [← hmid] at hp
  have hsource : (shared ++ rest').toList =
      spell (front ++ [p]) ([] ++ (String.ofList (mid ++ rest'.toList)).toList) := by
    rw [spell_concat, String.toList_append, hshared]
    simp
  have hp' : Proper (front ++ [p]) ([] ++ (String.ofList (mid ++ rest'.toList)).toList) := by
    rw [List.nil_append, String.toList_ofList]
    exact proper_exchange hp hlookahead rest'.toList
  rw [(Concatenation.tokenize_behind file? hsource hp' blank_nil).1, List.getElem?_append_left (by simp)]
  exact getElem?_tokensFrom _ _ front p []

theorem failure_exchange {shared rest : String} {file? : Option String} {f : Failure}
    (h : (tokenize (shared ++ rest) file?).failure = some f)
    (hle : f.position.offset < byteLength shared.toList ∨
      (∃ lexeme, f.cause = .badCharLiteral lexeme) ∧ f.position.offset ≤ byteLength shared.toList)
    (rest' : String) :
    (tokenize (shared ++ rest') file?).tokens = (tokenize (shared ++ rest) file?).tokens ∧
      (tokenize (shared ++ rest') file?).failure = some f := by
  obtain ⟨pieces, gap, ahead, hcut⟩ := exists_cut (shared ++ rest).toList
  obtain ⟨read, behind, cause, mode, rfl, hshape, rfl⟩ := exists_shape_of_failure hcut h
  have htokens := tokens_of_cut file? hcut
  obtain ⟨hs, hp, hg, -⟩ := hcut
  have hoffset : (Place.origin.after (spell pieces gap ++ read)).offset = byteLength (spell pieces gap ++ read) :=
    Place.offset_origin_after _
  simp only [failureAt, hoffset] at hle
  rw [String.toList_append, spell_append_right, ← List.append_assoc] at hs
  obtain ⟨mid, hshared, rfl⟩ := exists_append_of_byteLength_le hs (by omega)
  have hmid : mid ≠ [] ∨ ∃ lexeme, cause = .badCharLiteral lexeme := by
    rcases hle with hlt | ⟨hcause, -⟩
    · left
      rintro rfl
      rw [hshared, List.append_nil] at hlt
      omega
    · exact .inr hcause
  have hsource : (shared ++ rest').toList = spell pieces (gap ++ (read ++ (mid ++ rest'.toList))) := by
    rw [String.toList_append, hshared, spell_append_right]
    simp
  have hp' := proper_exchange_of_shape hp hshape hmid rest'.toList
  have hshape' := shape_exchange hshape hmid rest'.toList
  rw [htokens]
  exact tokenize_of_shape hsource hp' hg hshape'

/-- Two sources with a common beginning have those tokens in common that lie in it
together with their lookahead. If the scan of one fails inside the beginning, the scan of
the other has the same tokens and the same failure. -/
theorem tokenize_exchange (shared rest rest' : String) (file? : Option String) :
    (∀ (i : Nat) (t : Token), (tokenize (shared ++ rest) file?).tokens[i]? = some t →
      t.span.stop.offset + lookahead t.kind ≤ byteLength shared.toList →
        (tokenize (shared ++ rest') file?).tokens[i]? = some t) ∧
    ∀ f, (tokenize (shared ++ rest) file?).failure = some f →
      (f.position.offset < byteLength shared.toList ∨
        (∃ lexeme, f.cause = .badCharLiteral lexeme) ∧ f.position.offset ≤ byteLength shared.toList) →
      (tokenize (shared ++ rest') file?).tokens = (tokenize (shared ++ rest) file?).tokens ∧
        (tokenize (shared ++ rest') file?).failure = some f := by
  constructor
  · intro i t h hle
    exact getElem?_tokens_exchange h hle rest'
  · intro f h hle
    exact failure_exchange h hle rest'

/-- One byte behind an integer does not settle it. -/
example : (tokenize ("3." ++ "x") none).tokens[0]? ≠ (tokenize ("3." ++ "1") none).tokens[0]? := by
  decide +kernel

end NodLexis.Locality
