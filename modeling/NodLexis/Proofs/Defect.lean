import NodLexis.Failure
import NodLexis.Proofs.Grammar

/-! # Malformed text

The shapes of text that are no token, each with its cause and the mode in which a
scan gives up. A shape is split where the scan stops: the first part has been
read, the second starts with the offending character or is empty. Whatever starts
with no blank is either a lexeme that may end where it does or one of these.
-/

namespace NodLexis.Defect
open CharacterClass Grammar

/-- What a text may end with after a backslash without being wrong so far. -/
inductive Unfinished : List Char → Prop where
  | backslash : Unfinished []
  | letter : Unfinished ['u']
  | digits {ds : List Char} (short : ds.length ≤ 6) (hex : ∀ c ∈ ds, isHexDigit c = true) :
      Unfinished ('u' :: '{' :: ds)

/-- The ways in which the text after a backslash can be wrong. -/
inductive BadEscape : List Char → List Char → Cause → Prop where
  | unfinished {read : List Char} (h : Unfinished read) :
      BadEscape read [] (.earlyEof "escape sequence")
  | letter {c : Char} {rest : List Char} (hu : c ≠ 'u') (h : ∀ value, (c, value) ∉ Literal.letterValues) :
      BadEscape [] (c :: rest) (.badEscape c)
  | brace {c : Char} {rest : List Char} (h : c ≠ '{') :
      BadEscape ['u'] (c :: rest) (.badUnicodeEscape (String.ofList ['\\', 'u', c]))
  | digit {ds : List Char} {c : Char} {rest : List Char} (short : ds.length ≤ 6)
      (hex : ∀ d ∈ ds, isHexDigit d = true) (hc : c ≠ '}')
      (stop : ds.length = 6 ∨ isHexDigit c = false) :
      BadEscape ('u' :: '{' :: ds) (c :: rest)
        (.badUnicodeEscape (String.ofList ('\\' :: 'u' :: '{' :: (ds ++ [c]))))
  | value {ds rest : List Char} (short : ds.length ≤ 6) (hex : ∀ d ∈ ds, isHexDigit d = true)
      (h : ∀ value, ¬ CodePoint ds value) :
      BadEscape ('u' :: '{' :: ds) ('}' :: rest)
        (.badUnicodeEscape (String.ofList ('\\' :: 'u' :: '{' :: (ds ++ ['}']))))

/-- The shapes of text that are no token. -/
inductive Shape : List Char → List Char → Cause → Mode → Prop where
  | stray {c : Char} {rest : List Char} (hb : isBlank c = false)
      (h : ¬ ∃ kind text, Lexeme kind (c :: text)) :
      Shape [] (c :: rest) (.unrecognisedCharacter c) .error
  | number {kind : TokenKind} {number : List Char} {c : Char} {rest : List Char}
      (hk : kind = .intLiteral ∨ kind = .floatLiteral) (h : Lexeme kind number)
      (hc : isWordStart c = true) :
      Shape number (c :: rest) (.malformedNumber (String.ofList (number ++ [c]))) .error
  | lambdaArg {digits : List Char} {c : Char} {rest : List Char}
      (h : ∀ d ∈ digits, d.isDigit = true) (hc : isWordStart c = true) :
      Shape ('$' :: digits) (c :: rest)
        (.badLambdaArg (String.ofList ('$' :: (digits ++ [c])))) .error
  | dollar {rest : List Char} (h : Barred isWordChar rest) :
      Shape ['$'] rest (.badLambdaArg "$") .error
  | openLiteral (q : Quote) {body values : List Char} (h : Items (Plain q) body values) :
      Shape (q.mark :: body) [] (.earlyEof q.context) (.literal q)
  | escape (q : Quote) {body values read rest : List Char} {cause : Cause}
      (h : Items (Plain q) body values) (hb : BadEscape read rest cause) :
      Shape (q.mark :: (body ++ '\\' :: read)) rest cause (.escape q)
  | charLiteral {body values rest : List Char} (h : Items (Plain .single) body values)
      (hn : values.length ≠ 1) :
      Shape ('\'' :: (body ++ ['\''])) rest
        (.badCharLiteral (String.ofList ('\'' :: (body ++ ['\''])))) .error

/-- The failure at a place. -/
def failureAt (file : String) (p : Place) (cause : Cause) (mode : Mode) : Failure where
  cause
  mode
  position := ⟨p.offset, file⟩
  line := p.line
  column := p.column

/-- A text cut into pieces, a gap, and what ends a scan: the end of the text or a
defect. -/
structure Cut (text : List Char) (pieces : List Piece) (gap ahead : List Char) : Prop where
  spelt : text = spell pieces (gap ++ ahead)
  proper : Proper pieces (gap ++ ahead)
  blank : Blank gap
  stop : ahead = [] ∨ ∃ read rest cause mode, ahead = read ++ rest ∧ Shape read rest cause mode

/-- No defect starts with a blank. -/
theorem Shape.barred_isBlank {read rest : List Char} {cause : Cause} {mode : Mode}
    (h : Shape read rest cause mode) : Barred isBlank (read ++ rest) := by
  have hmark (q : Quote) (text : List Char) : Barred isBlank (q.mark :: text) := by
    cases q <;> exact barred_cons.mpr rfl
  cases h with
  | stray hb _ => exact barred_cons.mpr hb
  | number _ hl _ => exact hl.barred_isBlank _
  | lambdaArg _ _ => exact barred_cons.mpr rfl
  | dollar _ => exact barred_cons.mpr rfl
  | openLiteral q _ => exact hmark q _
  | escape q _ _ => exact hmark q _
  | charLiteral _ _ => exact barred_cons.mpr rfl

/-- No defect starts with a dot. -/
theorem Shape.barred_dot {read rest : List Char} {cause : Cause} {mode : Mode}
    (h : Shape read rest cause mode) : Barred (· == '.') (read ++ rest) := by
  have hmark (q : Quote) (text : List Char) : Barred (· == '.') (q.mark :: text) := by
    cases q <;> exact barred_cons.mpr rfl
  have hdigits {text : List Char} (h : Digits text) (rest : List Char) : Barred (· == '.') (text ++ rest) := by
    obtain ⟨c, text, rfl⟩ := List.exists_cons_of_ne_nil h.1
    have hc : c.isDigit = true := h.2 c (by simp)
    refine barred_cons.mpr (beq_eq_false_iff_ne.mpr ?_)
    rintro rfl
    cases hc
  cases h with
  | stray _ h =>
    refine barred_cons.mpr (beq_eq_false_iff_ne.mpr ?_)
    rintro rfl
    exact h ⟨_, [], .punctuation .dot⟩
  | number hk hl _ =>
    rcases hk with rfl | rfl
    · cases hl with
      | intLiteral h => exact hdigits h _
    · cases hl with
      | floatLiteral hw _ =>
        rw [List.append_assoc]
        exact hdigits hw _
  | lambdaArg _ _ => exact barred_cons.mpr rfl
  | dollar _ => exact barred_cons.mpr rfl
  | openLiteral q _ => exact hmark q _
  | escape q _ _ => exact hmark q _
  | charLiteral _ _ => exact barred_cons.mpr rfl

/-! ## Literals -/

private theorem exists_hexDigits (n : Nat) (text : List Char) :
    ∃ ds rest, text = ds ++ rest ∧ ds.length ≤ n ∧ (∀ c ∈ ds, isHexDigit c = true) ∧
      (ds.length = n ∨ Barred isHexDigit rest) := by
  induction n generalizing text with
  | zero => exact ⟨[], text, rfl, by simp, by simp, .inl rfl⟩
  | succ n ih =>
    rcases barred_or_exists isHexDigit text with h | ⟨c, text, rfl, hc⟩
    · exact ⟨[], text, rfl, by simp, by simp, .inr h⟩
    · obtain ⟨ds, rest, rfl, hl, hhex, hstop⟩ := ih text
      refine ⟨c :: ds, rest, rfl, by simpa using hl, ?_, by simpa using hstop⟩
      intro d hd
      rcases List.mem_cons.mp hd with rfl | hd
      · exact hc
      · exact hhex d hd

private theorem codePoint_or_badEscape (Raw : Char → Prop) (text : List Char) :
    (∃ s rest value, '{' :: text = s ++ rest ∧ Item Raw ('\\' :: 'u' :: s) value) ∨
      ∃ s rest cause, '{' :: text = s ++ rest ∧ BadEscape ('u' :: s) rest cause := by
  obtain ⟨ds, rest, rfl, hl, hhex, hstop⟩ := exists_hexDigits 6 text
  cases rest with
  | nil => exact .inr ⟨'{' :: ds, [], _, by simp, .unfinished (.digits hl hhex)⟩
  | cons c rest =>
    by_cases hc : c = '}'
    · subst hc
      by_cases hv : ∃ value, CodePoint ds value
      · obtain ⟨value, hv⟩ := hv
        exact .inl ⟨'{' :: (ds ++ ['}']), rest, value, by simp, .codePoint hv⟩
      · exact .inr ⟨'{' :: ds, '}' :: rest, _, by simp, .value hl hhex (not_exists.mp hv)⟩
    · refine .inr ⟨'{' :: ds, c :: rest, _, by simp, .digit hl hhex hc ?_⟩
      exact hstop.imp_right fun h => barred_cons.mp h

/-- After a backslash there is the rest of an item or something wrong. -/
theorem item_or_badEscape (Raw : Char → Prop) (text : List Char) :
    (∃ s rest value, text = s ++ rest ∧ Item Raw ('\\' :: s) value) ∨
      ∃ s rest cause, text = s ++ rest ∧ BadEscape s rest cause := by
  match text with
  | [] => exact .inr ⟨[], [], _, rfl, .unfinished .backslash⟩
  | c :: text =>
    by_cases hu : c = 'u'
    · subst hu
      match text with
      | [] => exact .inr ⟨['u'], [], _, rfl, .unfinished .letter⟩
      | d :: text =>
        by_cases hd : d = '{'
        · subst hd
          rcases codePoint_or_badEscape Raw text with ⟨s, rest, value, h, hi⟩ | ⟨s, rest, cause, h, hb⟩
          · exact .inl ⟨'u' :: s, rest, value, by simp [h], hi⟩
          · exact .inr ⟨'u' :: s, rest, cause, by simp [h], hb⟩
        · exact .inr ⟨['u'], d :: text, _, rfl, .brace hd⟩
    · by_cases hvalue : ∃ value, (c, value) ∈ Literal.letterValues
      · obtain ⟨value, hvalue⟩ := hvalue
        exact .inl ⟨[c], text, value, rfl, .simple hvalue⟩
      · exact .inr ⟨[], c :: text, _, rfl, .letter hu (not_exists.mp hvalue)⟩

theorem item_ne_nil {Raw : Char → Prop} {text : List Char} {value : Char} (h : Item Raw text value) :
    text ≠ [] := by
  cases h <;> simp

/-- After the opening mark there are items up to the end of the text, to the
closing mark, or to an escape that is wrong. -/
theorem exists_items (q : Quote) (text : List Char) :
    ∃ body values rest, text = body ++ rest ∧ Items (Plain q) body values ∧
      (rest = [] ∨ (∃ tail, rest = q.mark :: tail) ∨
        ∃ s tail cause, rest = '\\' :: (s ++ tail) ∧ BadEscape s tail cause) := by
  induction hn : text.length using Nat.strongRecOn generalizing text with
  | ind n ih =>
    match text with
    | [] => exact ⟨[], [], [], rfl, .nil, .inl rfl⟩
    | c :: text =>
      have more (item : List Char) {after : List Char} {value : Char} (he : c :: text = item ++ after)
          (hi : Item (Plain q) item value) :
          ∃ body values rest, c :: text = body ++ rest ∧ Items (Plain q) body values ∧
            (rest = [] ∨ (∃ tail, rest = q.mark :: tail) ∨
              ∃ s tail cause, rest = '\\' :: (s ++ tail) ∧ BadEscape s tail cause) := by
        have hlt : after.length < n := by
          have := List.length_pos_iff.mpr (item_ne_nil hi)
          have := congrArg List.length he
          simp only [List.length_append] at this
          omega
        obtain ⟨body, values, rest, rfl, hbody, hrest⟩ := ih after.length hlt after rfl
        exact ⟨item ++ body, value :: values, rest, by rw [he, List.append_assoc], .cons hi hbody, hrest⟩
      by_cases hm : c = q.mark
      · exact ⟨[], [], c :: text, rfl, .nil, .inr (.inl ⟨text, by rw [hm]⟩)⟩
      · by_cases hs : c = '\\'
        · subst hs
          rcases item_or_badEscape (Plain q) text with ⟨s, rest, value, rfl, hi⟩ | ⟨s, rest, cause, rfl, hb⟩
          · exact more _ rfl hi
          · exact ⟨[], [], _, rfl, .nil, .inr (.inr ⟨s, rest, cause, rfl, hb⟩)⟩
        · exact more [c] rfl (.raw ⟨hm, hs⟩)

/-! ## Whatever starts with no blank -/

/-- A lexeme that may end where it does, or a defect. -/
inductive Front : List Char → Prop where
  | lexeme {kind : TokenKind} {lexeme rest : List Char} (hl : Lexeme kind lexeme)
      (hf : Follow kind rest) : Front (lexeme ++ rest)
  | defect {read rest : List Char} {cause : Cause} {mode : Mode} (h : Shape read rest cause mode) :
      Front (read ++ rest)

private theorem front_number {kind : TokenKind} {number rest : List Char}
    (hk : kind = .intLiteral ∨ kind = .floatLiteral) (h : Lexeme kind number)
    (hd : Barred Char.isDigit rest) (hf : ¬ FractionAhead rest) : Front (number ++ rest) := by
  rcases barred_or_exists isWordStart rest with hw | ⟨c, rest, rfl, hc⟩
  · have hb := barred_isWordChar hd hw
    rcases hk with rfl | rfl
    · exact .lexeme h ⟨hb, hf⟩
    · exact .lexeme h hb
  · exact .defect (.number hk h hc)

private theorem front_digit {c : Char} (hc : c.isDigit = true) (text : List Char) : Front (c :: text) := by
  obtain ⟨whole, rest, rfl, hwhole, hrest⟩ := exists_run Char.isDigit text
  have hw : Digits (c :: whole) := ⟨by simp, by simpa using ⟨hc, hwhole⟩⟩
  by_cases hf : FractionAhead rest
  · obtain ⟨d, tail, rfl, hd⟩ := hf
    obtain ⟨fraction, rest, rfl, hfraction, hrest⟩ := exists_run Char.isDigit tail
    have hl : Lexeme .floatLiteral (c :: whole ++ '.' :: d :: fraction) :=
      .floatLiteral hw ⟨by simp, by simpa using ⟨hd, hfraction⟩⟩
    by_cases hf : FractionAhead rest
    · -- A second fraction starts with a dot, which ends the number.
      obtain ⟨e, tail, rfl, -⟩ := hf
      have hb : Follow .floatLiteral ('.' :: e :: tail) := barred_cons.mpr rfl
      simpa using Front.lexeme hl hb
    · simpa using front_number (.inr rfl) hl hrest hf
  · exact front_number (.inl rfl) (.intLiteral hw) hrest hf

private theorem front_word {c : Char} (hc : isWordStart c = true) (text : List Char) : Front (c :: text) := by
  obtain ⟨run, rest, rfl, hrun, hrest⟩ := exists_run isWordChar text
  by_cases hu : c :: run = ['_']
  · have h : Front (['_'] ++ rest) := .lexeme .underscore hrest
    rwa [← hu] at h
  · have hl : Lexeme (.ofWord (String.ofList (c :: run))) (c :: run) := lexeme_ofWord ⟨hc, hrun⟩ hu
    apply Front.lexeme hl
    rw [TokenKind.ofWord]
    split <;> exact hrest

private theorem front_dollar (text : List Char) : Front ('$' :: text) := by
  obtain ⟨digits, rest, rfl, hdigits, hrest⟩ := exists_run Char.isDigit text
  rcases barred_or_exists isWordStart rest with hw | ⟨c, rest, rfl, hc⟩
  · have hb := barred_isWordChar hrest hw
    by_cases hn : digits = []
    · subst hn
      exact .defect (.dollar hb)
    · exact .lexeme (.lambdaArg ⟨hn, hdigits⟩) hb
  · exact .defect (.lambdaArg hdigits hc)

private theorem front_dot (text : List Char) : Front ('.' :: text) := by
  rcases barred_or_exists (· == '.') text with h | ⟨c, text, rfl, hc⟩
  · exact .lexeme (.punctuation .dot) h
  · obtain rfl := beq_iff_eq.mp hc
    rcases barred_or_exists (· == '<') text with h | ⟨c, text, rfl, hc⟩
    · exact .lexeme (.punctuation .doubleDot) h
    · obtain rfl := beq_iff_eq.mp hc
      exact .lexeme (.punctuation .doubleDotLess) trivial

private theorem front_symbol {c : Char} (hc : isOperatorSymbol c = true) (text : List Char) :
    Front (c :: text) := by
  obtain ⟨run, rest, rfl, hrun, hrest⟩ := exists_run isOperatorSymbol text
  have hl : Lexeme (.ofSymbol (String.ofList (c :: run))) (c :: run) :=
    lexeme_ofSymbol ⟨by simp, by simpa using ⟨hc, hrun⟩⟩
  apply Front.lexeme hl
  rw [TokenKind.ofSymbol]
  split <;> exact hrest

private theorem front_closed (q : Quote) {body values rest : List Char}
    (h : Items (Plain q) body values) : Front (q.mark :: (body ++ q.mark :: rest)) := by
  cases q with
  | double =>
    have hf : Follow .stringLiteral rest := trivial
    simpa [Quote.mark] using Front.lexeme (Lexeme.stringLiteral h) hf
  | single =>
    by_cases hn : values.length = 1
    · obtain ⟨value, rfl⟩ := List.length_eq_one_iff.mp hn
      have hf : Follow .charLiteral rest := trivial
      simpa [Quote.mark] using Front.lexeme (Lexeme.charLiteral h) hf
    · have hs : Shape ('\'' :: (body ++ ['\''])) rest _ _ := .charLiteral h hn
      simpa [Quote.mark] using Front.defect hs

private theorem front_quote (q : Quote) (text : List Char) : Front (q.mark :: text) := by
  obtain ⟨body, values, rest, rfl, h, rfl | ⟨tail, rfl⟩ | ⟨s, tail, cause, rfl, hb⟩⟩ := exists_items q text
  · exact .defect (.openLiteral q h)
  · exact front_closed q h
  · simpa using Front.defect (Shape.escape q h hb)

private theorem front_punctuation {c : Char} {p : Punctuation} (h : Punctuation.ofChar? c = some p)
    (text : List Char) : Front (c :: text) := by
  have hl : Lexeme (.punctuation p) [c] := Punctuation.symbol_of_ofChar? h ▸ .punctuation p
  have hf : Follow (.punctuation p) text := by
    unfold Punctuation.ofChar? at h
    split at h <;> cases h <;> trivial
  exact .lexeme hl hf

/-- Every text that starts with no blank begins with a token or with a defect. -/
theorem front {c : Char} (hb : isBlank c = false) (text : List Char) : Front (c :: text) := by
  cases ho : opens c with
  | false =>
    have h : ¬ ∃ kind text, Lexeme kind (c :: text) := by
      rw [← opens_iff, ho]
      simp
    exact .defect (.stray hb h)
  | true =>
    simp only [opens, Bool.or_eq_true, beq_iff_eq, Option.isSome_iff_exists] at ho
    rcases ho with (((((h | h) | rfl) | rfl) | h) | ⟨q, h⟩) | ⟨p, h⟩
    · exact front_digit h text
    · exact front_word h text
    · exact front_dollar text
    · exact front_dot text
    · exact front_symbol h text
    · rw [Quote.ofMark?_eq_some_iff.mp h]
      exact front_quote q text
    · exact front_punctuation h text

/-- Every text is cut in some way. -/
theorem exists_cut (text : List Char) : ∃ pieces gap ahead, Cut text pieces gap ahead := by
  induction hn : text.length using Nat.strongRecOn generalizing text with
  | ind n ih =>
    obtain ⟨gap, after, rfl, hgap, hafter⟩ := exists_run isBlank text
    match after with
    | [] => exact ⟨[], gap, [], rfl, trivial, hgap, .inl rfl⟩
    | c :: after =>
      have hfront := front (barred_cons.mp hafter) after
      generalize c :: after = start at hfront hn
      cases hfront with
      | defect h => exact ⟨[], gap, _, rfl, trivial, hgap, .inr ⟨_, _, _, _, rfl, h⟩⟩
      | @lexeme kind lexeme rest hl hf =>
        have hlt : rest.length < n := by
          have := List.length_pos_iff.mpr hl.ne_nil
          simp only [List.length_append] at hn
          omega
        obtain ⟨pieces, gap', ahead, rfl, hp, hgap', hstop⟩ := ih rest.length hlt rest rfl
        exact ⟨⟨gap, kind, lexeme⟩ :: pieces, gap', ahead, rfl, ⟨hgap, hl, hf, hp⟩, hgap', hstop⟩

end NodLexis.Defect
