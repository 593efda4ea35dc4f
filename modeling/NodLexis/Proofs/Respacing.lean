import Mathlib.Data.List.Forall2
import NodLexis.Proofs.Coverage
import NodLexis.Proofs.Junctions

/-! # Changing the gaps between tokens

What may follow a lexeme depends on whether there are blanks behind it, not on how many
there are or which. So the gaps of a source can be exchanged for other ones, and a scan
finds the same tokens in other places, as long as no gap between two tokens vanishes. A
gap may open anywhere, for a blank may follow every lexeme.
-/

namespace NodLexis
open CharacterClass Grammar Defect Coverage

/-- What a token is, wherever it stands. -/
def Token.content (t : Token) : TokenKind × String := (t.kind, t.lexeme)

namespace Respacing

/-- As many gaps as other ones, with blanks wherever those have some, but for the first
gap, which has no token before it. -/
structure Respaces (gaps gaps' : List (List Char)) : Prop where
  length : gaps'.length = gaps.length
  blank : ∀ gap ∈ gaps', Blank gap
  apart : List.Forall₂ (fun gap gap' => gap ≠ [] → gap' ≠ []) gaps.tail gaps'.tail

/-- The scan of a source succeeds and yields tokens with the given contents. -/
def Reads (source : String) (file? : Option String) (contents : List (TokenKind × String)) : Prop :=
  (tokenize source file?).failure = none ∧ (tokenize source file?).tokens.map Token.content = contents

/-- The pieces with other gaps. -/
def respace (pieces : List Piece) (gaps : List (List Char)) : List Piece :=
  List.zipWith (fun p gap => { p with gap }) pieces gaps

/-- A blank gap for every piece, empty only where the piece has no gap itself. -/
def Apart (pieces : List Piece) (gaps : List (List Char)) : Prop :=
  List.Forall₂ (fun p gap => Blank gap ∧ (gap = [] → p.gap = [])) pieces gaps

variable {pieces : List Piece} {gaps gaps' : List (List Char)} {tail tail' : List Char} {kind : TokenKind}

@[simp] theorem spell_respace_cons (p : Piece) (gap : List Char) :
    spell (respace (p :: pieces) (gap :: gaps)) tail =
      gap ++ (p.lexeme ++ spell (respace pieces gaps) tail) := rfl

/-! ## What may follow -/

theorem barred_of_blank {p : Char → Bool} (hp : ∀ c, isBlank c = true → p c = false) (h : Blank tail) :
    Barred p tail := by
  intro c hc
  exact hp c (h c (List.mem_of_mem_head? hc))

theorem follow_of_blank (kind : TokenKind) (h : Blank tail) : Follow kind tail := by
  cases tail with
  | nil => exact follow_nil kind
  | cons c tail => exact follow_of_isBlank (h c (by simp)) kind tail

/-- Other gaps do not bring characters of a class without blanks to the front. -/
theorem barred_respace {p : Char → Bool} (hp : ∀ c, isBlank c = true → p c = false)
    (hproper : Proper pieces tail) (h : Apart pieces gaps) (ht : Blank tail')
    (hb : Barred p (spell pieces tail)) : Barred p (spell (respace pieces gaps) tail') := by
  cases h with
  | nil => exact barred_of_blank hp ht
  | @cons piece gap pieces gaps hgap _ =>
    obtain ⟨hblank, hempty⟩ := hgap
    cases gap with
    | cons c gap => exact barred_cons.mpr (hp c (hblank c (by simp)))
    | nil =>
      obtain ⟨-, hl, -, -⟩ := hproper
      obtain ⟨c, lexeme, hc⟩ := List.exists_cons_of_ne_nil hl.ne_nil
      rw [spell, hempty rfl, hc] at hb
      rw [spell_respace_cons, hc]
      exact barred_cons.mpr (barred_cons.mp hb)

theorem follow_respace (hproper : Proper pieces tail) (h : Apart pieces gaps) (ht : Blank tail')
    (hf : Follow kind (spell pieces tail)) : Follow kind (spell (respace pieces gaps) tail') := by
  cases h with
  | nil => exact follow_of_blank kind ht
  | @cons piece gap pieces gaps hgap hgaps =>
    obtain ⟨hblank, hempty⟩ := hgap
    cases gap with
    | cons c gap => exact follow_of_isBlank (hblank c (by simp)) kind _
    | nil =>
      -- The lexeme directly behind is the same, and a number looks one character past it.
      obtain ⟨-, hl, -, hproper⟩ := hproper
      rw [spell, hempty rfl, List.nil_append] at hf
      rw [spell_respace_cons, List.nil_append]
      obtain ⟨hlexeme, -, hdot⟩ := follow_append_iff.mp hf
      refine follow_append_iff.mpr ⟨hlexeme, fun he => absurd he hl.ne_nil, ?_⟩
      intro hk he
      exact barred_respace (fun c => isDigit_eq_false_of_isBlank) hproper hgaps ht (hdot hk he)

/-- Pieces stay proper when their gaps are exchanged and none vanishes. -/
theorem proper_respace_of_apart (hp : Proper pieces tail) (h : Apart pieces gaps) (ht : Blank tail') :
    Proper (respace pieces gaps) tail' := by
  induction h with
  | nil => trivial
  | cons hgap hgaps ih =>
    obtain ⟨-, hl, hf, hp⟩ := hp
    exact ⟨hgap.1, hl, follow_respace hp hgaps ht hf, ih hp⟩

theorem apart_of_forall₂ (hblank : ∀ gap ∈ gaps, Blank gap)
    (h : List.Forall₂ (fun gap gap' => gap ≠ [] → gap' ≠ []) (pieces.map Piece.gap) gaps) :
    Apart pieces gaps := by
  rw [List.forall₂_map_left_iff] at h
  induction h with
  | nil => exact .nil
  | cons hgap _ ih =>
    refine .cons ⟨hblank _ (by simp), not_imp_not.mp hgap⟩ (ih ?_)
    intro gap hmem
    exact hblank gap (by simp [hmem])

theorem proper_respace (hp : Proper pieces tail) (h : Respaces (pieces.map Piece.gap) gaps)
    (ht : Blank tail') : Proper (respace pieces gaps) tail' := by
  obtain ⟨hlength, hblank, hapart⟩ := h
  match pieces, gaps with
  | [], _ => trivial
  | _ :: _, [] => cases hlength
  | p :: pieces, gap :: gaps =>
    obtain ⟨-, hl, hf, hp⟩ := hp
    have hgaps : Apart pieces gaps := by
      apply apart_of_forall₂ _ hapart
      intro gap hmem
      exact hblank gap (List.mem_cons_of_mem _ hmem)
    exact ⟨hblank gap (by simp), hl, follow_respace hp hgaps ht hf, proper_respace_of_apart hp hgaps ht⟩

/-! ## Contents and texts -/

theorem content_tokensFrom (file : String) (start : Place) (pieces : List Piece) :
    (tokensFrom file start pieces).map Token.content =
      pieces.map fun p => (p.kind, String.ofList p.lexeme) := by
  induction pieces generalizing start with
  | nil => rfl
  | cons p pieces ih => simp [tokensFrom, Token.content, tokenAt, ih]

theorem content_respace (h : gaps.length = pieces.length) :
    ((respace pieces gaps).map fun p => (p.kind, String.ofList p.lexeme)) =
      pieces.map fun p => (p.kind, String.ofList p.lexeme) := by
  induction pieces generalizing gaps with
  | nil => rfl
  | cons p pieces ih =>
    match gaps with
    | [] => cases h
    | gap :: gaps => exact congrArg (List.cons _) (ih (Nat.succ.inj h))

/-- New gaps and the lexemes of tokens in turn spell the pieces with the new gaps. -/
theorem weave_respace (file : String) (start : Place) (h : gaps.length = pieces.length) :
    weave gaps (tokensFrom file start pieces) = spell (respace pieces gaps) [] := by
  induction pieces generalizing gaps start with
  | nil =>
    cases gaps with
    | nil => rfl
    | cons gap gaps => cases h
  | cons p pieces ih =>
    match gaps with
    | [] => cases h
    | gap :: gaps =>
      have hrest := ih (start.after (p.gap ++ p.lexeme)) (Nat.succ.inj h)
      unfold weave respace at hrest ⊢
      simp [tokensFrom, spell, tokenAt, hrest]

theorem reads_respace {source : String} {file? : Option String} (file : String) (file?' : Option String)
    (hp : Proper pieces tail) (h : Respaces (pieces.map Piece.gap) gaps) (ht : Blank tail')
    (htokens : (tokenize source file?).tokens = tokensFrom file .origin pieces) :
    Reads (String.ofList (weave gaps (tokenize source file?).tokens ++ tail')) file?'
      ((tokenize source file?).tokens.map Token.content) := by
  have hlength : gaps.length = pieces.length := by simpa using h.length
  have hsource : (String.ofList (weave gaps (tokenize source file?).tokens ++ tail')).toList =
      spell (respace pieces gaps) tail' := by
    rw [String.toList_ofList, htokens, weave_respace file .origin hlength, spell_append_tail]
  refine ⟨(tokenize_of_blank hsource (proper_respace hp h ht) ht).2, ?_⟩
  rw [(tokenize_of_blank hsource (proper_respace hp h ht) ht).1, htokens, content_tokensFrom,
    content_tokensFrom, content_respace hlength]

/-! ## One gap for all -/

/-- The gaps of a text in which lexemes are joined by the same blanks. -/
def evenGaps (blanks : List Char) : List Token → List (List Char)
  | [] => []
  | _ :: ts => [] :: ts.map fun _ => blanks

theorem respaces_evenGaps {blanks : List Char} (hne : blanks ≠ []) (hb : Blank blanks)
    {ts : List Token} (h : gaps.length = ts.length) : Respaces gaps (evenGaps blanks ts) := by
  match ts, gaps with
  | [], [] => exact ⟨rfl, by simp [evenGaps], .nil⟩
  | [], _ :: _ => cases h
  | _ :: _, [] => cases h
  | t :: ts, gap :: gaps =>
    have htail : gaps.length = ts.length := Nat.succ.inj h
    refine ⟨by simp [evenGaps, htail], ?_, ?_⟩
    · intro gap hgap
      rcases List.mem_cons.mp hgap with rfl | hgap
      · exact blank_nil
      · obtain ⟨-, -, rfl⟩ := List.mem_map.mp hgap
        exact hb
    · rw [evenGaps, List.tail_cons, List.tail_cons, List.forall₂_map_right_iff, List.forall₂_iff_zip]
      exact ⟨htail, fun _ _ => hne⟩

theorem weave_cons_evenGaps (blanks : List Char) (t : Token) (ts : List Token) :
    weave ([] :: ts.map fun _ => blanks) (t :: ts) =
      blanks.intercalate ((t :: ts).map fun t => t.lexeme.toList) := by
  induction ts generalizing t with
  | nil => simp [weave]
  | cons u ts ih =>
    have hrest := ih u
    unfold weave at hrest ⊢
    rw [List.map_cons] at hrest
    rw [List.map_cons, List.map_cons, List.map_cons, List.intercalate_cons_cons, ← hrest]
    simp

theorem intercalate_eq_weave (blanks : String) (ts : List Token) :
    blanks.intercalate (ts.map Token.lexeme) = String.ofList (weave (evenGaps blanks.toList ts) ts ++ []) := by
  apply String.toList_inj.mp
  rw [String.toList_intercalate, String.toList_ofList, List.append_nil, List.map_map]
  cases ts with
  | nil => rfl
  | cons t ts => exact (weave_cons_evenGaps blanks.toList t ts).symm

/-- The tokens of a source that scans to its end are found again, with the same kinds and
lexemes, after any exchange of the gaps before, between and behind them that lets no gap
between two tokens vanish, so also when the lexemes are joined by any blanks. -/
theorem tokenize_respace (source : String) (file? file?' : Option String)
    (h : (tokenize source file?).failure = none) :
    ∃ gaps tail, Covers source.toList (fileName file?) (tokenize source file?).tokens gaps tail ∧ Blank tail ∧
      (∀ gaps' tail', Respaces gaps gaps' → Blank tail' →
        Reads (String.ofList (weave gaps' (tokenize source file?).tokens ++ tail')) file?'
          ((tokenize source file?).tokens.map Token.content)) ∧
      ∀ blanks : String, blanks ≠ "" → Blank blanks.toList →
        Reads (blanks.intercalate ((tokenize source file?).tokens.map Token.lexeme)) file?'
          ((tokenize source file?).tokens.map Token.content) := by
  obtain ⟨pieces, tail, ahead, hcut⟩ := exists_cut source.toList
  obtain rfl := ahead_eq_nil_of_success hcut h
  have htokens := tokens_of_cut file? hcut
  obtain ⟨hspelt, hproper, hblank, -⟩ := hcut
  rw [List.append_nil] at hspelt hproper
  have hcovers : Covers source.toList (fileName file?) (tokenize source file?).tokens
      (pieces.map Piece.gap) tail := by
    rw [htokens, hspelt]
    apply covers_tokensFrom
    intro p hp
    obtain ⟨hgap, hl⟩ := hproper.of_mem hp
    exact ⟨hgap, hl.ne_nil⟩
  have hrespace (gaps' : List (List Char)) (tail' : List Char)
      (hgaps : Respaces (pieces.map Piece.gap) gaps') (ht : Blank tail') :
      Reads (String.ofList (weave gaps' (tokenize source file?).tokens ++ tail')) file?'
        ((tokenize source file?).tokens.map Token.content) :=
    reads_respace (fileName file?) file?' hproper hgaps ht htokens
  refine ⟨pieces.map Piece.gap, tail, hcovers, hblank, hrespace, ?_⟩
  intro blanks hne hb
  rw [intercalate_eq_weave]
  apply hrespace _ [] _ blank_nil
  apply respaces_evenGaps (mt String.toList_eq_nil_iff.mp hne) hb
  simp [htokens]

/-- Blanks open around the dot of a number and its name, and others change. -/
theorem tokenize_respace_dot :
    (tokenize "3.abs x=-1" none).failure = none ∧
      Reads " 3\n.abs\tx =-1\r" none ((tokenize "3.abs x=-1" none).tokens.map Token.content) := by
  have h : (tokenize "3.abs x=-1" none).failure = none := by decide +kernel
  obtain ⟨gaps, tail, hcovers, -, hrespace, -⟩ := tokenize_respace "3.abs x=-1" none none h
  have hgaps : gaps = [[], [], [], [' '], [], []] := by
    have hsome : gaps.map some = [[], [], [], [' '], [], []].map some := by
      rw [← hcovers.gaps_eq]
      decide +kernel
    exact List.map_inj_right (fun _ _ => Option.some.inj) |>.mp hsome
  have hrespaces : Respaces gaps [[' '], ['\n'], [], ['\t'], [' '], []] := by
    subst hgaps
    exact ⟨rfl, by decide, by simp⟩
  have hreads := hrespace _ ['\r'] hrespaces (by decide)
  have hsource : String.ofList (weave [[' '], ['\n'], [], ['\t'], [' '], []]
      (tokenize "3.abs x=-1" none).tokens ++ ['\r']) = " 3\n.abs\tx =-1\r" := by
    decide +kernel
  rw [hsource] at hreads
  exact ⟨h, hreads⟩

end Respacing

end NodLexis
