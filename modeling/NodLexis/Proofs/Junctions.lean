import NodLexis.Proofs.Grammar

/-! # Where texts meet

What may follow a lexeme is decided by the next character, and by two of them only for
a dot after an integer. So a lexeme that may end where it does may still end there when
the text after it is cut off, is continued behind a blank, or is exchanged beyond those
characters, and the same holds of a sequence of pieces.
-/

namespace NodLexis.Grammar
open CharacterClass

variable {p : Char → Bool} {text rest rest' gap : List Char} {kind : TokenKind} {pieces more : List Piece}
  {c : Char}

/-- The characters that a lexeme of some kind does not stop before. -/
def continues : TokenKind → Char → Bool
  | .keyword _ | .underscore | .identifier | .intLiteral | .floatLiteral | .lambdaArg => isWordChar
  | .operator _ | .generalOperator => isOperatorSymbol
  | .punctuation .dot => (· == '.')
  | .punctuation .doubleDot => (· == '<')
  | _ => fun _ => false

theorem barred_append_iff : Barred p (text ++ rest) ↔ Barred p text ∧ (text = [] → Barred p rest) := by
  cases text with
  | nil => simp [barred_nil]
  | cons c text => simp [barred_cons]

theorem fractionAhead_cons_iff : FractionAhead (c :: text) ↔ c = '.' ∧ ¬ Barred Char.isDigit text := by
  cases text with
  | nil => simp [FractionAhead, barred_nil]
  | cons d text =>
    rw [barred_cons, Bool.not_eq_false]
    constructor
    · rintro ⟨d, tail, he, hd⟩
      cases he
      exact ⟨rfl, hd⟩
    · rintro ⟨rfl, hd⟩
      exact ⟨d, text, rfl, hd⟩

/-- A fraction ahead lies in the first part of a text, except that its dot may be all
of that part. -/
theorem fractionAhead_append_iff (h : text ≠ []) :
    FractionAhead (text ++ rest) ↔ FractionAhead text ∨ text = ['.'] ∧ ¬ Barred Char.isDigit rest := by
  obtain ⟨c, text, rfl⟩ := List.exists_cons_of_ne_nil h
  rw [List.cons_append, fractionAhead_cons_iff, fractionAhead_cons_iff, barred_append_iff]
  cases text with
  | nil => simp [barred_nil]
  | cons d text => simp

theorem not_fractionAhead_nil : ¬ FractionAhead [] := by
  simp [FractionAhead]

theorem follow_iff :
    Follow kind text ↔ Barred (continues kind) text ∧ (kind = .intLiteral → ¬ FractionAhead text) := by
  have hfalse : Barred (fun _ => false) text := fun _ _ => rfl
  cases kind with
  | punctuation p => cases p <;> simp [Follow, continues, hfalse]
  | _ => simp [Follow, continues, hfalse]

theorem follow_nil (kind : TokenKind) : Follow kind [] :=
  follow_iff.mpr ⟨barred_nil, fun _ => not_fractionAhead_nil⟩

/-- A text may follow a lexeme if its first part may, and two short first parts leave
something to the second one. -/
theorem follow_append_iff :
    Follow kind (text ++ rest) ↔ Follow kind text ∧ (text = [] → Follow kind rest) ∧
      (kind = .intLiteral → text = ['.'] → Barred Char.isDigit rest) := by
  by_cases hn : text = []
  · simp [hn, follow_nil]
  · rw [follow_iff, follow_iff, barred_append_iff, fractionAhead_append_iff hn]
    grind

theorem follow_of_append (h : Follow kind (text ++ rest)) : Follow kind text :=
  (follow_append_iff.mp h).1

theorem follow_swap (hne : text ≠ []) (hdot : kind = .intLiteral → text ≠ ['.'])
    (h : Follow kind (text ++ rest)) : Follow kind (text ++ rest') :=
  follow_append_iff.mpr ⟨follow_of_append h, fun he => absurd he hne, fun hk he => absurd he (hdot hk)⟩

/-- The text is enough to tell what may precede it, whatever comes after it. -/
def Settles (text : List Char) : Prop := text ≠ [] ∧ text ≠ ['.']

theorem settles_of_length (h : 2 ≤ text.length) : Settles text := by
  constructor
  · rintro rfl
    cases h
  · rintro rfl
    exact absurd h (by decide)

theorem Settles.append_left (h : Settles text) (front : List Char) : Settles (front ++ text) := by
  refine ⟨List.append_ne_nil_of_right_ne_nil front h.1, ?_⟩
  intro he
  rcases List.append_eq_singleton_iff.mp he with ⟨-, he⟩ | ⟨-, he⟩
  · exact h.2 he
  · exact h.1 he

/-! ## Blanks -/

theorem Blank.append (h : Blank text) (h' : Blank rest) : Blank (text ++ rest) := by
  intro c hc
  exact (List.mem_append.mp hc).elim (h c) (h' c)

private theorem continues_eq_false_of_isBlank (h : isBlank c = true) (kind : TokenKind) :
    continues kind c = false := by
  have hword : (blanks.all fun c => !isWordChar c) = true := rfl
  have hsymbol : (blanks.all fun c => !isOperatorSymbol c) = true := rfl
  have hdots : (blanks.all fun c => !(c == '.') && !(c == '<')) = true := rfl
  rw [List.all_eq_true] at hword hsymbol hdots
  have hc := isBlank_iff.mp h
  cases kind with
  | punctuation p => cases p <;> simp_all [continues]
  | _ => simp_all [continues]

/-- A blank may follow any lexeme. -/
theorem follow_of_isBlank (h : isBlank c = true) (kind : TokenKind) (rest : List Char) :
    Follow kind (c :: rest) := by
  refine follow_iff.mpr ⟨barred_cons.mpr (continues_eq_false_of_isBlank h kind), ?_⟩
  intro _ hf
  rw [(fractionAhead_cons_iff.mp hf).1] at h
  cases h

theorem isDigit_eq_false_of_isBlank (h : isBlank c = true) : c.isDigit = false := by
  have hword := continues_eq_false_of_isBlank h .intLiteral
  rw [continues, isWordChar_eq, Bool.or_eq_false_iff] at hword
  exact hword.1

/-- What may follow a lexeme may do so with a blank behind it. -/
theorem follow_append_blank (h : Follow kind text) (hc : isBlank c = true) (rest : List Char) :
    Follow kind (text ++ c :: rest) := by
  refine follow_append_iff.mpr ⟨h, fun _ => follow_of_isBlank hc kind rest, ?_⟩
  intro _ _
  exact barred_cons.mpr (isDigit_eq_false_of_isBlank hc)

/-! ## Sequences of pieces -/

theorem proper_append_iff :
    Proper (pieces ++ more) rest ↔ Proper pieces (spell more rest) ∧ Proper more rest := by
  induction pieces with
  | nil => simp [Proper]
  | cons p pieces ih => simp only [List.cons_append, Proper, spell_append, ih, and_assoc]

/-- Pieces before another tail, if every lexeme may be followed by it. -/
theorem Proper.of_follow (hp : Proper pieces rest)
    (h : ∀ kind text, Follow kind (text ++ rest) → Follow kind (text ++ rest')) : Proper pieces rest' := by
  induction pieces with
  | nil => trivial
  | cons p pieces ih =>
    obtain ⟨hgap, hl, hf, hp⟩ := hp
    refine ⟨hgap, hl, ?_, ih hp⟩
    rw [← spell_append_tail] at hf ⊢
    exact h _ _ hf

theorem Proper.append_blank (hp : Proper pieces text) (hc : isBlank c = true) (rest : List Char) :
    Proper pieces (text ++ c :: rest) := by
  apply hp.of_follow
  intro kind front h
  rw [← List.append_assoc]
  exact follow_append_blank h hc rest

theorem Proper.swap (hp : Proper pieces (text ++ rest)) (h : Settles text) (rest' : List Char) :
    Proper pieces (text ++ rest') := by
  apply hp.of_follow
  intro kind front hf
  have hfront := h.append_left front
  rw [← List.append_assoc] at hf ⊢
  exact follow_swap hfront.1 (fun _ => hfront.2) hf

end NodLexis.Grammar
