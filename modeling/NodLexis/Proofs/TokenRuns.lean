import NodLexis.Proofs.ScannerRuns

/-! # Runs through words, numbers and symbols

How a ready scanner gets through a lexeme of each kind but the literals, and how
it fails on a malformed number, on a malformed lambda argument and on a stray
character. The first character decides the mode by its class alone.
-/

namespace NodLexis.Scanner
open CharacterClass Grammar Defect

variable {s : Scanner} {text rest : List Char} {c : Char} {kind : TokenKind}

/-! ## Openings -/

theorem ne_lineFeed_of_isBlank (h : isBlank c = false) : c ≠ '\n' := by
  rintro rfl
  cases h

theorem isDigit_of_isAlpha (h : c.isAlpha = true) : c.isDigit = false := by
  have hletter : 65 ≤ c.val.toNat := by
    change (decide (c.val ≥ 65 ∧ c.val ≤ 90) || (decide (c.val ≥ 97) && decide (c.val ≤ 122))) = true at h
    simp only [Bool.or_eq_true, Bool.and_eq_true, decide_eq_true_eq, ge_iff_le,
      UInt32.le_iff_toNat_le] at h
    rcases h with h | h
    · exact h.1
    · have : 97 ≤ c.val.toNat := h.1
      omega
  apply Bool.eq_false_iff.mpr
  intro hdigit
  have : c.val.toNat ≤ 57 := (Char.isDigit_iff_toNat.mp hdigit).2
  omega

theorem opening_blank (h : isBlank c = true) (rest : List Char) :
    ∃ m, m.isBetween = true ∧ Move.opening (c :: rest) = .skip m := by
  by_cases hn : c = '\n'
  · exact ⟨.newLine, rfl, by simp [Move.opening, hn]⟩
  · exact ⟨.between, rfl, by simp [Move.opening, hn, h]⟩

theorem opening_digit (h : c.isDigit = true) : Move.opening (c :: rest) = .extend .integer := by
  have hb : isBlank c = false := isBlank_eq_false_of_opens (by simp [opens, h])
  simp [Move.opening, ne_lineFeed_of_isBlank hb, hb, h]

theorem opening_letter (h : c.isAlpha = true) : Move.opening (c :: rest) = .extend .identifier := by
  have hb : isBlank c = false := isBlank_eq_false_of_opens (by simp [opens, isWordStart, h])
  have hu : c ≠ '_' := by
    rintro rfl
    cases h
  simp [Move.opening, ne_lineFeed_of_isBlank hb, hb, isDigit_of_isAlpha h, hu, h]

theorem opening_symbol (h : isOperatorSymbol c = true) :
    Move.opening (c :: rest) = .extend .operator := by
  have key : (operatorSymbols.all fun c => Move.opening [c] == .extend .operator) = true := rfl
  exact beq_iff_eq.mp (List.all_eq_true.mp key c (isOperatorSymbol_iff.mp h))

theorem opening_mark (q : Quote) : Move.opening (q.mark :: rest) = .extend (.literal q) := by
  cases q <;> rfl

theorem opening_punctuation {p : Punctuation} (h : Punctuation.ofChar? c = some p) :
    Move.opening (c :: rest) = .closeOn (.punctuation p) := by
  unfold Punctuation.ofChar? at h
  split at h <;> cases h <;> rfl

theorem opening_stray (hb : isBlank c = false) (h : opens c = false) :
    Move.opening (c :: rest) = .fail 0 (.unrecognisedCharacter c) .error := by
  simp only [opens, isWordStart, Bool.or_eq_false_iff, beq_eq_false_iff_ne, Option.isSome_eq_false_iff,
    Option.isNone_iff_eq_none] at h
  obtain ⟨⟨⟨⟨⟨⟨hd, ha, hu⟩, h₁⟩, h₂⟩, ho⟩, hq⟩, hp⟩ := h
  simp [Move.opening, ne_lineFeed_of_isBlank hb, hb, hd, ha, hu, h₁, h₂, ho, hq, hp]

theorem goes_blank (hs : s.Ready) (hr : s.rest = c :: rest) (h : isBlank c = true) :
    ∃ m, m.isBetween = true ∧ s.Goes (s.reached m [c] rest []) := by
  obtain ⟨m, hm, ho⟩ := opening_blank h rest
  exact ⟨m, hm, goes_skip hs hr ho⟩

theorem steps_blank {gap : List Char} (hs : s.Ready) (hr : s.rest = gap ++ rest) (h : Blank gap) :
    ∃ m, m.isBetween = true ∧ Steps s (s.reached m gap rest []) := by
  induction gap generalizing s with
  | nil =>
    have he : s.reached s.mode [] rest [] = s := by
      rw [← List.nil_append rest, ← hr, reached_self hs]
    exact ⟨s.mode, hs.between, he ▸ .refl⟩
  | cons c gap ih =>
    obtain ⟨m, hm, hg⟩ := goes_blank hs hr (h c (by simp))
    obtain ⟨m', hm', ht⟩ := ih (s := s.reached m [c] (gap ++ rest) []) (ready_reached s hm [c] (gap ++ rest) []) rfl
      fun d hd => h d (by simp [hd])
    rw [reached_reached] at ht
    exact ⟨m', hm', .head hg ht⟩

/-! ## Words -/

private theorem move_identifier_end (hf : Barred isWordChar rest) :
    (s.reading .identifier text rest).move = .close (.ofWord (String.ofList text)) := by
  cases rest with
  | nil => rfl
  | cons c rest => simp [move, reading, Move.identifier, barred_cons.mp hf]

private theorem steps_identifier (s : Scanner) (text rest run : List Char) (hrun : ∀ c ∈ run, isWordChar c = true) :
    Steps (s.reading .identifier text (run ++ rest)) (s.reading .identifier (text ++ run) rest) := by
  apply steps_extend text run hrun
  intro text c rest hc
  simp [move, reading, Move.identifier, hc]

theorem emits_word (hs : s.Ready) (hr : s.rest = text ++ rest) (hw : Word text)
    (hu : text ≠ ['_']) (hf : Barred isWordChar rest) :
    s.Emits (.ofWord (String.ofList text)) text rest := by
  match text with
  | [] => exact hw.elim
  | c :: run =>
    by_cases hc : c = '_'
    · -- A second character turns the underscore into an identifier.
      subst hc
      match run with
      | [] => exact absurd rfl hu
      | d :: run =>
        have hd : isWordChar d = true := hw.2 d (by simp)
        have hopen : s.Goes (s.reading .underscore ['_'] (d :: (run ++ rest))) := goes_open hs hr rfl
        have hnext : (s.reading .underscore ['_'] (d :: (run ++ rest))).Goes
            (s.reading .identifier ['_', d] (run ++ rest)) :=
          goes_extend (by simp [move, reading, Move.underscore, hd])
        have hrun := steps_identifier s ['_', d] rest run fun e he => hw.2 e (by simp [he])
        exact emits_of_close hs (.head hopen (.head hnext hrun)) (move_identifier_end hf)
    · have ha : c.isAlpha = true := by simpa [isWordStart, hc] using hw.1
      have hopen : s.Goes (s.reading .identifier [c] (run ++ rest)) := goes_open hs hr (opening_letter ha)
      have hrun := steps_identifier s [c] rest run hw.2
      exact emits_of_close hs (.head hopen hrun) (move_identifier_end hf)

theorem emits_underscore (hs : s.Ready) (hr : s.rest = '_' :: rest) (hf : Barred isWordChar rest) :
    s.Emits .underscore ['_'] rest := by
  apply emits_of_close hs (.single (goes_open hs hr rfl))
  cases rest with
  | nil => rfl
  | cons c rest => simp [move, reading, Move.underscore, barred_cons.mp hf]

/-! ## Numbers -/

private theorem steps_integer (s : Scanner) (text rest run : List Char) (hrun : ∀ c ∈ run, c.isDigit = true) :
    Steps (s.reading .integer text (run ++ rest)) (s.reading .integer (text ++ run) rest) := by
  apply steps_extend text run hrun
  intro text c rest hc
  simp [move, reading, Move.integer, hc]

private theorem steps_float (s : Scanner) (text rest run : List Char) (hrun : ∀ c ∈ run, c.isDigit = true) :
    Steps (s.reading .float text (run ++ rest)) (s.reading .float (text ++ run) rest) := by
  apply steps_extend text run hrun
  intro text c rest hc
  simp [move, reading, Move.float, hc]

/-- A ready scanner reads a whole number before it looks at what follows. -/
private theorem steps_whole {whole : List Char} (hs : s.Ready) (hr : s.rest = whole ++ rest)
    (h : Digits whole) : Steps s (s.reading .integer whole rest) := by
  match whole with
  | [] => exact absurd rfl h.1
  | c :: run =>
    have hopen : s.Goes (s.reading .integer [c] (run ++ rest)) :=
      goes_open hs hr (opening_digit (h.2 c (by simp)))
    exact .head hopen (steps_integer s [c] rest run fun d hd => h.2 d (by simp [hd]))

private theorem steps_fraction {whole fraction : List Char} (hs : s.Ready)
    (hr : s.rest = whole ++ '.' :: fraction ++ rest) (hw : Digits whole) (hf : Digits fraction) :
    Steps s (s.reading .float (whole ++ '.' :: fraction) rest) := by
  have hwhole : Steps s (s.reading .integer whole ('.' :: (fraction ++ rest))) :=
    steps_whole hs (by simp [hr]) hw
  have hdot : (s.reading .integer whole ('.' :: (fraction ++ rest))).Goes
      (s.reading .float (whole ++ ['.']) (fraction ++ rest)) := by
    apply goes_extend
    match fraction with
    | [] => exact absurd rfl hf.1
    | d :: fraction =>
      have hd := hf.2 d (by simp)
      simp [move, reading, Move.integer, hd, show Char.isDigit '.' = false from rfl]
  have hrun := steps_float s (whole ++ ['.']) rest fraction hf.2
  rw [List.append_assoc] at hrun
  exact hwhole.trans (.head hdot hrun)

theorem isDigit_of_isWordStart (h : isWordStart c = true) : c.isDigit = false := by
  by_cases hu : c = '_'
  · rw [hu]
    rfl
  · exact isDigit_of_isAlpha (by simpa [isWordStart, hu] using h)

private theorem ne_dot_of_isWordStart (h : isWordStart c = true) : c ≠ '.' := by
  rintro rfl
  cases h

theorem emits_intLiteral (hs : s.Ready) (hr : s.rest = text ++ rest) (h : Digits text)
    (hf : Follow .intLiteral rest) : s.Emits .intLiteral text rest := by
  apply emits_of_close hs (steps_whole hs hr h)
  match rest with
  | [] => rfl
  | c :: rest =>
    have hc := barred_cons.mp hf.1
    rw [isWordChar_eq, Bool.or_eq_false_iff] at hc
    have hdot : ¬ (c = '.' ∧ rest.head?.any Char.isDigit = true) := by
      rintro ⟨rfl, hd⟩
      cases rest with
      | nil => simp at hd
      | cons d tail => exact hf.2 ⟨d, tail, rfl, by simpa using hd⟩
    simp [move, reading, Move.integer, hc.1, hc.2, hdot]

theorem emits_floatLiteral {whole fraction : List Char} (hs : s.Ready)
    (hr : s.rest = whole ++ '.' :: fraction ++ rest) (hw : Digits whole) (hf : Digits fraction)
    (hb : Barred isWordChar rest) : s.Emits .floatLiteral (whole ++ '.' :: fraction) rest := by
  apply emits_of_close hs (steps_fraction hs hr hw hf)
  match rest with
  | [] => rfl
  | c :: rest =>
    have hc := barred_cons.mp hb
    rw [isWordChar_eq, Bool.or_eq_false_iff] at hc
    simp [move, reading, Move.float, hc.1, hc.2]

theorem fails_number (hs : s.Ready) (hr : s.rest = text ++ c :: rest)
    (hk : kind = .intLiteral ∨ kind = .floatLiteral) (h : Lexeme kind text)
    (hc : isWordStart c = true) :
    s.Fails text (c :: rest) (.malformedNumber (String.ofList (text ++ [c]))) .error := by
  have hd := isDigit_of_isWordStart hc
  rw [← push_ofList]
  rcases hk with rfl | rfl
  · cases h with
    | intLiteral h =>
      apply fails_of_move (steps_whole hs hr h)
      simp [move, reading, Move.integer, hd, ne_dot_of_isWordStart hc, hc]
  · cases h with
    | floatLiteral hw hf =>
      apply fails_of_move (steps_fraction hs hr hw hf)
      simp [move, reading, Move.float, hd, hc]

/-! ## Lambda arguments -/

private theorem steps_dollar (digits : List Char) (hs : s.Ready)
    (hr : s.rest = '$' :: (digits ++ rest)) (h : ∀ d ∈ digits, d.isDigit = true) :
    Steps s (s.reading .dollar ('$' :: digits) rest) := by
  have hopen : s.Goes (s.reading .dollar ['$'] (digits ++ rest)) := goes_open hs hr rfl
  refine .head hopen (steps_extend ['$'] digits h ?_)
  intro text c rest hc
  simp [move, reading, Move.dollar, hc]

private theorem move_dollar_end (h : Barred isWordChar rest) :
    (s.reading .dollar text rest).move = Move.dollarEnd (String.ofList text) := by
  match rest with
  | [] => rfl
  | c :: rest =>
    have hc := barred_cons.mp h
    rw [isWordChar_eq, Bool.or_eq_false_iff] at hc
    simp [move, reading, Move.dollar, hc.1, hc.2]

theorem emits_lambdaArg {digits : List Char} (hs : s.Ready)
    (hr : s.rest = '$' :: (digits ++ rest)) (h : Digits digits) (hb : Barred isWordChar rest) :
    s.Emits .lambdaArg ('$' :: digits) rest := by
  apply emits_of_close hs (steps_dollar digits hs hr h.2)
  have hn : String.ofList ('$' :: digits) ≠ "$" := by
    intro he
    have hl := congrArg String.toList he
    simp [h.1] at hl
  rw [move_dollar_end hb, Move.dollarEnd, if_neg hn]

theorem fails_dollar (hs : s.Ready) (hr : s.rest = '$' :: rest) (hb : Barred isWordChar rest) :
    s.Fails ['$'] rest (.badLambdaArg "$") .error := by
  apply fails_of_move (steps_dollar [] hs hr (by simp))
  rw [move_dollar_end hb]
  rfl

theorem fails_lambdaArg {digits : List Char} (hs : s.Ready)
    (hr : s.rest = '$' :: (digits ++ c :: rest)) (h : ∀ d ∈ digits, d.isDigit = true)
    (hc : isWordStart c = true) :
    s.Fails ('$' :: digits) (c :: rest)
      (.badLambdaArg (String.ofList ('$' :: (digits ++ [c])))) .error := by
  rw [← List.cons_append, ← push_ofList]
  apply fails_of_move (steps_dollar digits hs hr h)
  simp [move, reading, Move.dollar, isDigit_of_isWordStart hc, hc]

/-! ## Symbols, dots and punctuation -/

theorem emits_symbol (hs : s.Ready) (hr : s.rest = text ++ rest) (h : Symbols text)
    (hb : Barred isOperatorSymbol rest) : s.Emits (.ofSymbol (String.ofList text)) text rest := by
  match text with
  | [] => exact absurd rfl h.1
  | c :: run =>
    have hopen : s.Goes (s.reading .operator [c] (run ++ rest)) :=
      goes_open hs hr (opening_symbol (h.2 c (by simp)))
    have hrun : Steps (s.reading .operator [c] (run ++ rest)) (s.reading .operator (c :: run) rest) := by
      apply steps_extend [c] run (fun d hd => h.2 d (by simp [hd]))
      intro text d rest hd
      simp [move, reading, Move.operator, hd]
    apply emits_of_close hs (.head hopen hrun)
    cases rest with
    | nil => rfl
    | cons d rest => simp [move, reading, Move.operator, barred_cons.mp hb]

private theorem emits_dot (hs : s.Ready) (hr : s.rest = '.' :: rest)
    (hf : Follow (.punctuation .dot) rest) : s.Emits (.punctuation .dot) ['.'] rest := by
  apply emits_of_close hs (.single (goes_open hs hr rfl))
  match rest with
  | [] => rfl
  | c :: rest =>
    have hc : c ≠ '.' := by simpa using barred_cons.mp hf
    simp [move, reading, Move.dot, hc]

private theorem steps_doubleDot (hs : s.Ready) (hr : s.rest = '.' :: '.' :: rest) :
    Steps s (s.reading .doubleDot ['.', '.'] rest) := by
  have hopen : s.Goes (s.reading .dot ['.'] ('.' :: rest)) := goes_open hs hr rfl
  exact .head hopen (.single (goes_extend rfl))

private theorem emits_doubleDot (hs : s.Ready) (hr : s.rest = '.' :: '.' :: rest)
    (hf : Follow (.punctuation .doubleDot) rest) :
    s.Emits (.punctuation .doubleDot) ['.', '.'] rest := by
  apply emits_of_close hs (steps_doubleDot hs hr)
  match rest with
  | [] => rfl
  | c :: rest =>
    have hc : c ≠ '<' := by simpa using barred_cons.mp hf
    simp [move, reading, Move.doubleDot, hc]

private theorem emits_single {p : Punctuation} (hs : s.Ready) (hr : s.rest = c :: rest)
    (h : Punctuation.ofChar? c = some p) : s.Emits (.punctuation p) [c] rest := by
  have hr' : s.reading s.mode [] (c :: rest) = s := by rw [← hr, reading_self hs]
  have hm : (s.reading s.mode [] (c :: rest)).move = .closeOn (.punctuation p) := by
    rw [hr', move_of_between hs.between, hr, opening_punctuation h]
  have hstart : Steps s (s.reading s.mode [] (c :: rest)) := hr' ▸ .refl
  exact emits_of_closeOn hs hstart hm

theorem emits_punctuation {p : Punctuation} (hs : s.Ready) (hr : s.rest = p.symbol.toList ++ rest)
    (hf : Follow (.punctuation p) rest) : s.Emits (.punctuation p) p.symbol.toList rest := by
  cases p with
  | dot => exact emits_dot hs hr hf
  | doubleDot => exact emits_doubleDot hs hr hf
  | doubleDotLess => exact emits_of_closeOn hs (steps_doubleDot hs hr) rfl
  | _ => exact emits_single hs hr rfl

theorem fails_stray (hs : s.Ready) (hr : s.rest = c :: rest) (hb : isBlank c = false)
    (h : ¬ ∃ kind text, Lexeme kind (c :: text)) :
    s.Fails [] (c :: rest) (.unrecognisedCharacter c) .error := by
  have ho : opens c = false := by
    rw [← opens_iff] at h
    simpa using h
  have hr' : s.reading s.mode [] (c :: rest) = s := by rw [← hr, reading_self hs]
  have hstart : Steps s (s.reading s.mode [] (c :: rest)) := hr' ▸ .refl
  apply fails_of_move hstart
  rw [hr', move_of_between hs.between, hr, opening_stray hb ho]

end NodLexis.Scanner
