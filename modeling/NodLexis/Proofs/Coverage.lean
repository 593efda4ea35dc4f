import NodLexis.Proofs.Outcome
import NodLexis.Proofs.ScannerCalls

/-! # Coverage

The tokens of a scanner lie in its source one after the other, each over exactly
its own text, and only blanks lie before and between them. Gaps and lexemes thus
spell the source as far as it has been read.
-/

namespace NodLexis.Coverage
open SourceText Grammar Defect Scanner

/-- Where the last of some tokens ends. -/
def endOffset (ts : List Token) : Nat := (ts.getLast?.map fun t => t.span.stop.offset).getD 0

/-- The texts before each token, from the end of the one before it. -/
def gapsBefore (source : List Char) (ts : List Token) : List (Option (List Char)) :=
  List.zipWith (slice? source) (0 :: ts.map fun t => t.span.stop.offset)
    (ts.map fun t => t.span.start.offset)

/-- Gaps and the lexemes of tokens in turn. -/
def weave (gaps : List (List Char)) (ts : List Token) : List Char :=
  (List.zipWith (fun gap t => gap ++ t.lexeme.toList) gaps ts).flatten

def BlankBetween (source : List Char) (start stop : Nat) : Prop :=
  ∃ text, slice? source start stop = some text ∧ Blank text

/-- Tokens in their places in a source, with the gaps before them and the text
after the last of them. -/
structure Covers (source : List Char) (file : String) (ts : List Token) (gaps : List (List Char))
    (tail : List Char) : Prop where
  nonempty : ∀ t ∈ ts, t.span.start.offset < t.span.stop.offset
  ordered : ts.Pairwise fun t u => t.span.stop.offset ≤ u.span.start.offset
  lexeme : ∀ t ∈ ts, slice? source t.span.start.offset t.span.stop.offset = some t.lexeme.toList
  file : ∀ t ∈ ts, t.span.start.file = file ∧ t.span.stop.file = file
  gaps_eq : gapsBefore source ts = gaps.map some
  blank : ∀ gap ∈ gaps, Blank gap
  spelt : cut? source (endOffset ts) = some (weave gaps ts, tail)

variable {source tail : List Char} {file : String} {pieces : List Piece} {start : Place} {t : Token}

theorem start_le_of_mem_tokensFrom (h : t ∈ tokensFrom file start pieces) :
    start.offset ≤ t.span.start.offset := by
  induction pieces generalizing start with
  | nil => cases h
  | cons p pieces ih =>
    rcases List.mem_cons.mp h with rfl | h
    · simp [tokenAt, Place.offset_after]
    · have := ih h
      rw [Place.offset_after] at this
      omega

theorem pairwise_tokensFrom (file : String) (start : Place) (pieces : List Piece) :
    (tokensFrom file start pieces).Pairwise fun t u => t.span.stop.offset ≤ u.span.start.offset := by
  induction pieces generalizing start with
  | nil => exact .nil
  | cons p pieces ih =>
    refine .cons ?_ (ih _)
    intro u hu
    have h := start_le_of_mem_tokensFrom hu
    rwa [Place.after_append] at h

theorem getLast?_tokensFrom (file : String) (start : Place) (pieces : List Piece) :
    ((tokensFrom file start pieces).getLast?.map fun t => t.span.stop.offset).getD start.offset =
      (start.after (spell pieces [])).offset := by
  induction pieces generalizing start with
  | nil => rfl
  | cons p pieces ih =>
    have h := ih (start.after (p.gap ++ p.lexeme))
    have hspell : spell (p :: pieces) [] = p.gap ++ p.lexeme ++ spell pieces [] := by simp [spell]
    rw [hspell, Place.after_append, ← h, tokensFrom, List.getLast?_cons]
    cases (tokensFrom file (start.after (p.gap ++ p.lexeme)) pieces).getLast? with
    | none => simp [tokenAt, Place.after_append]
    | some u => rfl

/-- The last token ends where the pieces do. -/
theorem endOffset_tokensFrom (file : String) (pieces : List Piece) :
    endOffset (tokensFrom file .origin pieces) = byteLength (spell pieces []) := by
  rw [← Place.offset_origin_after]
  exact getLast?_tokensFrom file .origin pieces

theorem zipWith_tokensFrom (file : String) (before : List Char) (pieces : List Piece) (tail : List Char) :
    List.zipWith (slice? (before ++ spell pieces tail))
        ((Place.origin.after before).offset ::
          (tokensFrom file (Place.origin.after before) pieces).map fun t => t.span.stop.offset)
        ((tokensFrom file (Place.origin.after before) pieces).map fun t => t.span.start.offset) =
      pieces.map fun p => some p.gap := by
  induction pieces generalizing before with
  | nil => rfl
  | cons p pieces ih =>
    have h := ih (before ++ (p.gap ++ p.lexeme))
    have hgap := slice?_append before p.gap (p.lexeme ++ spell pieces tail)
    have hspell : before ++ (p.gap ++ p.lexeme) ++ spell pieces tail = before ++ spell (p :: pieces) tail := by
      simp [spell]
    rw [hspell, Place.after_append, Place.after_append] at h
    rw [← Place.offset_origin_after, ← Place.offset_after] at hgap
    simp only [tokensFrom, List.map_cons, List.zipWith_cons_cons, tokenAt, Place.after_append]
    exact congrArg₂ List.cons hgap h

theorem weave_tokensFrom (file : String) (start : Place) (pieces : List Piece) :
    weave (pieces.map Piece.gap) (tokensFrom file start pieces) = spell pieces [] := by
  induction pieces generalizing start with
  | nil => rfl
  | cons p pieces ih =>
    have h := ih (start.after (p.gap ++ p.lexeme))
    unfold weave at h ⊢
    simp [tokensFrom, spell, tokenAt, h]

/-- The tokens of pieces cover what the pieces spell. -/
theorem covers_tokensFrom (file : String) (tail : List Char)
    (h : ∀ p ∈ pieces, Blank p.gap ∧ p.lexeme ≠ []) :
    Covers (spell pieces tail) file (tokensFrom file .origin pieces) (pieces.map Piece.gap) tail := by
  have hmem : ∀ t ∈ tokensFrom file .origin pieces, ∃ p ∈ pieces, ∃ front back,
      spell pieces tail = front ++ (p.lexeme ++ back) ∧
        t = tokenAt file (Place.origin.after front) p.kind p.lexeme :=
    fun t ht => exists_of_mem_tokensFrom [] tail ht
  refine ⟨?_, pairwise_tokensFrom .., ?_, ?_, ?_, ?_, ?_⟩
  · intro t ht
    obtain ⟨p, hp, front, back, -, rfl⟩ := hmem t ht
    obtain ⟨c, lexeme, hl⟩ := List.exists_cons_of_ne_nil (h p hp).2
    have := c.utf8Size_pos
    simp only [tokenAt, Place.offset_after, hl, byteLength_cons]
    omega
  · intro t ht
    obtain ⟨p, hp, front, back, hs, rfl⟩ := hmem t ht
    have hslice := slice?_append front p.lexeme back
    rw [← Place.offset_origin_after, ← Place.offset_after] at hslice
    simpa [hs, tokenAt] using hslice
  · intro t ht
    obtain ⟨p, hp, front, back, -, rfl⟩ := hmem t ht
    exact ⟨rfl, rfl⟩
  · rw [List.map_map]
    exact zipWith_tokensFrom file [] pieces tail
  · intro gap hgap
    obtain ⟨p, hp, rfl⟩ := List.mem_map.mp hgap
    exact (h p hp).1
  · rw [weave_tokensFrom, endOffset_tokensFrom]
    exact cut?_eq_some_iff.mpr ⟨(spell_append_tail pieces tail).symm, rfl⟩

/-- What a scanner has covered of its source. -/
structure ScannerCovers (source : List Char) (file : String) (s : Scanner) : Prop where
  tokens : ∃ gaps tail, Covers source file s.tokens.toList gaps tail ∧ (s.mode = .eof → Blank tail)
  cursor : s.mode.isBetween = true ∨ s.mode = .eof →
    BlankBetween source (endOffset s.tokens.toList) s.here.offset
  pending : s.mode.isPending = true →
    BlankBetween source (endOffset s.tokens.toList) s.start.offset
  ended : s.mode = .eof → s.here.offset = byteLength source

/-- From the last token to where the pending text starts there are blanks. -/
theorem blankBetween_of_layout {gap : List Char} {s : Scanner} (h : Layout source file pieces gap s) :
    BlankBetween source (endOffset s.tokens.toList) s.start.offset := by
  have hspell : source = spell pieces [] ++ (gap ++ (s.pending.toList ++ s.rest)) :=
    h.spelt.trans (spell_append_tail _ _).symm
  have hstart : byteLength (spell pieces gap) = byteLength (spell pieces []) + byteLength gap := by
    rw [← spell_append_tail, byteLength_append]
  refine ⟨gap, ?_, h.blank⟩
  rw [hspell, h.tokens, endOffset_tokensFrom, h.start, Place.offset_origin_after, hstart]
  exact slice?_append ..

theorem scannerCovers_of_layout {gap : List Char} {s : Scanner} (hs : s.Settled)
    (h : Layout source file pieces gap s) : ScannerCovers source file s := by
  have hidle (hm : s.mode.isBetween = true ∨ s.mode = .eof) : s.here = s.start := by
    rw [h.here, hs.idle hm]
    rfl
  have hahead (hm : s.mode = .eof) : s.pending.toList ++ s.rest = [] := by
    simp [hs.idle (.inr hm), hs.ended hm]
  refine ⟨⟨pieces.map Piece.gap, gap ++ (s.pending.toList ++ s.rest), ?_, ?_⟩, ?_, ?_, ?_⟩
  · rw [h.tokens, h.spelt]
    exact covers_tokensFrom _ _ h.solid
  · intro hm
    rw [hahead hm, List.append_nil]
    exact h.blank
  · intro hm
    rw [hidle hm]
    exact blankBetween_of_layout h
  · intro _
    exact blankBetween_of_layout h
  · intro hm
    rw [hidle (.inr hm), h.start, Place.offset_origin_after, h.spelt, hahead hm, List.append_nil]

/-- After any calls of a scanner, failed ones among them, its tokens cover the
source up to a gap that ends at the pending token or at the cursor, and at the end
of the text they cover it all. A scan covers its whole source if it does not fail. -/
theorem covers_calls (source : String) (file? : Option String) :
    (∀ cs : List Call,
      ScannerCovers source.toList (fileName file?) ((ofSource source file?).calls cs)) ∧
    ∃ gaps tail, Covers source.toList (fileName file?) (tokenize source file?).tokens gaps tail ∧
      ((tokenize source file?).failure = none → Blank tail) := by
  constructor
  · intro cs
    obtain ⟨hs, pieces, gap, h⟩ := layout_calls source file? cs
    exact scannerCovers_of_layout hs h
  · obtain ⟨pieces, gap, ahead, h⟩ := exists_cut source.toList
    refine ⟨pieces.map Piece.gap, gap ++ ahead, ?_, ?_⟩
    · rw [tokens_of_cut file? h, h.spelt]
      apply covers_tokensFrom
      intro p hp
      obtain ⟨hgap, hl⟩ := h.proper.of_mem hp
      exact ⟨hgap, hl.ne_nil⟩
    · intro hnone
      obtain ⟨hs, hp, hg, rfl | ⟨read, rest, cause, mode, rfl, hshape⟩⟩ := h
      · simpa using hg
      · rw [(tokenize_of_shape hs hp hg hshape).2] at hnone
        cases hnone

end NodLexis.Coverage
