import Mathlib.Data.Set.Subsingleton
import NodLexis.Proofs.Junctions
import NodLexis.Proofs.Outcome

/-! # Scans and segmentations

A scan to the end of a source and a segmentation of it are the same thing. As the
scanner is deterministic, no source has two segmentations, and no lexeme of one
could have been longer.
-/

namespace NodLexis.Segmentation
open CharacterClass Grammar Defect

variable {text tail tail' rest : List Char} {kind : TokenKind} {pieces pieces' : List Piece}

/-- The tokens of a text give back its pieces. -/
theorem pieces_eq_of_tokens {file : String} {start : Place} (hp : Proper pieces tail)
    (hp' : Proper pieces' tail') (ht : spell pieces tail = spell pieces' tail')
    (h : tokensFrom file start pieces = tokensFrom file start pieces') : pieces = pieces' := by
  induction pieces generalizing pieces' start with
  | nil =>
    cases pieces' with
    | nil => rfl
    | cons p' pieces' => cases h
  | cons p pieces ih =>
    cases pieces' with
    | nil => cases h
    | cons p' pieces' =>
      obtain ⟨hg, hl, -, hp⟩ := hp
      obtain ⟨hg', hl', -, hp'⟩ := hp'
      obtain ⟨htoken, htokens⟩ := List.cons.inj h
      have hkind : p.kind = p'.kind := congrArg Token.kind htoken
      have hlexeme : p.lexeme = p'.lexeme := String.ofList_injective (congrArg Token.lexeme htoken)
      have hgap : p.gap = p'.gap := by
        rw [eq_takeWhile_of_blank hg (hl.barred_isBlank (spell pieces tail)),
          eq_takeWhile_of_blank hg' (hl'.barred_isBlank (spell pieces' tail'))]
        exact congrArg (List.takeWhile isBlank) ht
      have heq : p = p' := by
        cases p
        cases p'
        simp_all
      subst heq
      have hrest : spell pieces tail = spell pieces' tail' := by simpa [spell] using ht
      rw [ih hp hp' hrest htokens]

/-- A text is cut in one way only. -/
theorem pieces_eq_of_cut {gap gap' ahead ahead' : List Char} (h : Cut text pieces gap ahead)
    (h' : Cut text pieces' gap' ahead') : pieces = pieces' := by
  have hsource : (String.ofList text).toList = text := String.toList_ofList
  rw [← hsource] at h h'
  have ht := tokens_of_cut none h
  have ht' := tokens_of_cut none h'
  exact pieces_eq_of_tokens h.proper h'.proper (h.spelt.symm.trans h'.spelt) (ht.symm.trans ht')

/-- No longer lexeme starts where a lexeme stands that may end where it does. -/
theorem length_le_of_follow {kind' : TokenKind} {lexeme longer : List Char} (hl : Lexeme kind lexeme)
    (hf : Follow kind rest) (hl' : Lexeme kind' longer) (h : longer <+: lexeme ++ rest) :
    longer.length ≤ lexeme.length := by
  by_contra hlt
  obtain ⟨more, rfl⟩ := List.prefix_of_prefix_length_le (List.prefix_append lexeme rest) h (by omega)
  obtain ⟨after, rfl⟩ := (List.prefix_append_right_inj lexeme).mp h
  match more with
  | [] => simp at hlt
  | c :: more =>
    -- The longer lexeme alone is one cut, and another has the shorter one first.
    obtain ⟨pieces, gap, ahead, hs, hp, hg, hstop⟩ := exists_cut (c :: more)
    have hfollow : Follow kind (spell pieces (gap ++ ahead)) := hs ▸ follow_of_append hf
    have hshort : Cut (lexeme ++ c :: more) (⟨[], kind, lexeme⟩ :: pieces) gap ahead :=
      ⟨by rw [hs]; rfl, ⟨blank_nil, hl, hfollow, hp⟩, hg, hstop⟩
    have hlong : Cut (lexeme ++ c :: more) [⟨[], kind', lexeme ++ c :: more⟩] [] [] :=
      ⟨by simp [spell], ⟨blank_nil, hl', follow_nil kind', trivial⟩, blank_nil, .inl rfl⟩
    have heq := pieces_eq_of_cut hshort hlong
    simp at heq

/-- No lexeme of any kind that starts where one of the pieces does is longer. -/
def MaximalMunch : List Piece → List Char → Prop
  | [], _ => True
  | p :: pieces, tail =>
    (∀ kind longer, Lexeme kind longer → longer <+: p.lexeme ++ spell pieces tail →
      longer.length ≤ p.lexeme.length) ∧ MaximalMunch pieces tail

theorem maximalMunch_of_proper (hp : Proper pieces tail) : MaximalMunch pieces tail := by
  induction pieces with
  | nil => trivial
  | cons p pieces ih =>
    obtain ⟨-, hl, hf, hp⟩ := hp
    refine ⟨?_, ih hp⟩
    intro kind longer hl' h
    exact length_le_of_follow hl hf hl' h

/-- A source scans to its end exactly when it has a segmentation, and then the
tokens are those of its pieces. There is at most one segmentation, and all its
lexemes are as long as they can be. -/
theorem tokenize_eq_iff_segmentation (source : String) (file? : Option String) :
    (∀ ts : List Token,
      ((tokenize source file?).tokens = ts ∧ (tokenize source file?).failure = none) ↔
        ∃ pieces, Segmentation source.toList pieces ∧
          ts = tokensFrom (fileName file?) .origin pieces) ∧
    {pieces | Segmentation source.toList pieces}.Subsingleton ∧
    ∀ pieces tail, source.toList = spell pieces tail → Proper pieces tail →
      MaximalMunch pieces tail := by
  refine ⟨?_, ?_, ?_⟩
  · intro ts
    constructor
    · rintro ⟨rfl, hnone⟩
      obtain ⟨pieces, gap, ahead, hs, hp, hg, rfl | ⟨read, rest, cause, mode, rfl, hshape⟩⟩ :=
        exists_cut source.toList
      · rw [List.append_nil] at hs hp
        exact ⟨pieces, ⟨gap, hg, hs, hp⟩, (tokenize_of_blank hs hp hg).1⟩
      · rw [(tokenize_of_shape hs hp hg hshape).2] at hnone
        cases hnone
    · rintro ⟨pieces, ⟨gap, hg, hs, hp⟩, rfl⟩
      exact tokenize_of_blank hs hp hg
  · rintro pieces ⟨tail, hb, hs, hp⟩ pieces' ⟨tail', hb', hs', hp'⟩
    have hcut : Cut source.toList pieces tail [] := by
      rw [← List.append_nil tail] at hs hp
      exact ⟨hs, hp, hb, .inl rfl⟩
    have hcut' : Cut source.toList pieces' tail' [] := by
      rw [← List.append_nil tail'] at hs' hp'
      exact ⟨hs', hp', hb', .inl rfl⟩
    exact pieces_eq_of_cut hcut hcut'
  · intro pieces tail _ hp
    exact maximalMunch_of_proper hp

end NodLexis.Segmentation
