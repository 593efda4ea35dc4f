import NodLexis.Proofs.PendingText

/-! # Families of kinds

The kinds fall into families: keywords, operators with punctuation, and literals. By number, the
keywords are an interval of the kinds, and so are the operators, but for the general one. The text
of a token tells its families too. A word opens with a letter or an underscore, a literal with a
digit, a quote or a dollar sign, and an operator has nothing but symbols; no character is of two of
these classes.
-/

namespace NodLexis
open CharacterClass Grammar

namespace TokenKind

def numberedSymbols : List TokenKind :=
  ([.add, .sub, .mul, .div, .mod, .pow, .shiftLeft, .shiftRight, .less, .greater, .lessEqual, .greaterEqual,
    .notEqual, .equal, .identical, .notIdentical, .and, .or, .xor, .assign, .assignAdd, .assignSub, .assignMul,
    .assignDiv, .assignMod, .assignPow, .assignShiftLeft, .assignShiftRight, .ampersand, .pipe, .hat,
    .exclamation, .question, .colon, .doubleColon] : List Operator).map .operator ++
  ([.semicolon, .comma, .dot, .doubleDot, .doubleDotLess] : List Punctuation).map .punctuation ++
  ([.rightArrow, .tilde, .tildeEqual] : List Operator).map .operator ++
  ([.parenOpen, .parenClose, .bracketOpen, .bracketClose, .braceOpen, .braceClose] : List Punctuation).map
    .punctuation

def numberedWords : List TokenKind :=
  [.keyword .asKw, .keyword .attrKw, .keyword .breakKw, .keyword .caseKw, .keyword .catchKw, .keyword .classKw,
    .keyword .continueKw, .keyword .delKw, .modified .delOpt, .keyword .doKw, .keyword .elseKw, .keyword .enumKw,
    .keyword .falseKw, .keyword .forKw, .keyword .funcKw, .keyword .genKw, .keyword .getKw, .modified .getOpt,
    .keyword .guardKw, .keyword .ifKw, .keyword .inKw, .modified .inOpt, .keyword .infixKw, .keyword .initKw,
    .modified .initAmp, .modified .initOpt, .keyword .inlineKw, .keyword .leftKw, .keyword .letKw,
    .modified .letAmp, .modified .letOpt, .keyword .loopKw, .keyword .matchKw, .keyword .mutKw,
    .keyword .namespaceKw, .keyword .postfixKw, .keyword .prefixKw, .keyword .protocolKw, .keyword .pubKw,
    .modified .pubOpt, .keyword .returnKw, .keyword .rightKw, .keyword .selfKw, .keyword .setKw,
    .modified .setOpt, .keyword .staticKw, .keyword .throwKw, .keyword .throwsKw, .modified .throwsOpt,
    .keyword .trueKw, .keyword .tryKw, .modified .tryExcl, .modified .tryOpt, .keyword .useKw, .keyword .whileKw,
    .keyword .yieldKw]

/-- The kinds in the order of their numbers. -/
def numbered : List TokenKind :=
  [.lambdaArg, .identifier, .intLiteral, .floatLiteral, .charLiteral, .stringLiteral, .generalOperator,
    .underscore] ++ (numberedSymbols ++ (numberedWords ++ [.errorToken]))

def number (k : TokenKind) : Nat := numbered.idxOf k

/-- A kind whose number lies between those of two others. -/
def Between (first k last : TokenKind) : Prop := first.number ≤ k.number ∧ k.number ≤ last.number

instance (first k last : TokenKind) : Decidable (Between first k last) :=
  inferInstanceAs (Decidable (_ ∧ _))

theorem isKeyword_iff_between (k : TokenKind) :
    k.isKeyword = true ↔ Between (.keyword .asKw) k (.keyword .yieldKw) := by
  have key : ∀ k ∈ all, k.isKeyword = true ↔ Between (.keyword .asKw) k (.keyword .yieldKw) := by decide +kernel
  exact key k k.mem_all

theorem isOperator_iff_between (k : TokenKind) :
    k.isOperator = true ↔
      Between (.operator .add) k (.punctuation .braceClose) ∨ k = .generalOperator := by
  have key : ∀ k ∈ all, k.isOperator = true ↔
      Between (.operator .add) k (.punctuation .braceClose) ∨ k = .generalOperator := by decide +kernel
  exact key k k.mem_all

/-- Only a keyword with a modifier behind it is formed so. -/
theorem modified_of_withModifier? {j k : TokenKind} {c : Char} (h : k.withModifier? c = some j) :
    ∃ m, j = .modified m := by
  cases k with
  | keyword k =>
    obtain ⟨m, -, h⟩ := Option.bind_eq_some_iff.mp h
    obtain ⟨f, -, hf⟩ := Option.bind_eq_some_iff.mp h
    exact ⟨f, (Option.some.inj hf).symm⟩
  | _ => cases h

end TokenKind

/-! ## Classes of characters -/

def punctuationMarks : List Char := ['.', '(', ')', '[', ']', '{', '}', ';', ',']

def isSymbolic (c : Char) : Bool := isOperatorSymbol c || punctuationMarks.contains c

def literalMarks : List Char := ['"', '\'', '$']

def isLiteralStart (c : Char) : Bool := c.isDigit || literalMarks.contains c

variable {c : Char} {text : List Char} {kind : TokenKind}

theorem isSymbolic_iff : isSymbolic c = true ↔ c ∈ operatorSymbols ++ punctuationMarks := by
  rw [isSymbolic, Bool.or_eq_true, isOperatorSymbol_iff, List.contains_iff_mem, List.mem_append]

/-- A symbol opens neither a word nor a literal. -/
theorem opens_of_isSymbolic (h : isSymbolic c = true) : isWordStart c = false ∧ isLiteralStart c = false := by
  have key : ((operatorSymbols ++ punctuationMarks).all fun c => !isWordStart c && !isLiteralStart c) = true := rfl
  have hc := List.all_eq_true.mp key c (isSymbolic_iff.mp h)
  rwa [Bool.and_eq_true, Bool.not_eq_true', Bool.not_eq_true'] at hc

theorem isLiteralStart_of_isWordStart (h : isWordStart c = true) : isLiteralStart c = false := by
  have key : (literalMarks.all fun c => !isWordStart c) = true := rfl
  have hmark : literalMarks.contains c = false := by
    rw [Bool.eq_false_iff]
    intro hm
    have hc := List.all_eq_true.mp key c (List.contains_iff_mem.mp hm)
    rw [h] at hc
    cases hc
  rw [isLiteralStart, Scanner.isDigit_of_isWordStart h, hmark, Bool.or_false]

theorem symbolic_punctuation (p : Punctuation) : ∀ c ∈ p.symbol.toList, isSymbolic c = true := by
  have key : ∀ p ∈ Punctuation.all, p.symbol.toList.all isSymbolic = true := by decide +kernel
  exact List.all_eq_true.mp (key p p.mem_all)

theorem symbolic_of_symbols (h : Symbols text) : ∀ c ∈ text, isSymbolic c = true := by
  intro c hc
  rw [isSymbolic, h.2 c hc, Bool.true_or]

/-! ## Families by their texts -/

/-- The kinds of a literal that is no word. -/
def literalKinds : List TokenKind := [.lambdaArg, .intLiteral, .floatLiteral, .charLiteral, .stringLiteral]

def truthValues : List Keyword := [.trueKw, .falseKw]

/-- What the text of a kind tells of its family. -/
inductive Family : TokenKind → List Char → Prop where
  | keyword (k : Keyword) : Family (.keyword k) k.word.toList
  | underscore : Family .underscore ['_']
  | identifier {text : List Char} (h : Word text) (hu : text ≠ ['_'])
      (hk : ∀ k : Keyword, text ≠ k.word.toList) : Family .identifier text
  | literal {kind : TokenKind} {c : Char} {text : List Char} (hkind : kind ∈ literalKinds)
      (hc : isLiteralStart c = true) : Family kind (c :: text)
  | symbol {kind : TokenKind} {text : List Char} (hkind : kind.isOperator = true)
      (h : ∀ c ∈ text, isSymbolic c = true) : Family kind text

theorem isLiteralStart_of_isDigit (h : c.isDigit = true) : isLiteralStart c = true := by
  simp [isLiteralStart, h]

theorem family_of_digits (hkind : kind ∈ literalKinds) (h : Digits text) (more : List Char) :
    Family kind (text ++ more) := by
  cases text with
  | nil => exact absurd rfl h.1
  | cons c text => exact .literal hkind (isLiteralStart_of_isDigit (h.2 c List.mem_cons_self))

theorem family_of_found (h : Found kind text) : Family kind text := by
  cases h with
  | literal q body => cases q <;> exact .literal (by decide) rfl
  | lexeme h =>
    cases h with
    | keyword k => exact .keyword k
    | underscore => exact .underscore
    | identifier h hu hk => exact .identifier h hu hk
    | intLiteral h => exact List.append_nil text ▸ family_of_digits (by decide) h []
    | floatLiteral hw _ => exact family_of_digits (by decide) hw _
    | lambdaArg _ | stringLiteral _ | charLiteral _ => exact .literal (by decide) rfl
    | operator o => exact .symbol rfl (symbolic_of_symbols (symbols_operator o))
    | generalOperator h _ => exact .symbol rfl (symbolic_of_symbols h)
    | punctuation p => exact .symbol rfl (symbolic_punctuation p)

/-- A text that starts as a literal does. -/
def OpensLiteral (text : List Char) : Prop := ∃ c tail, text = c :: tail ∧ isLiteralStart c = true

theorem not_word_of_literal (h : OpensLiteral text) : ¬ Word text := by
  obtain ⟨c, tail, rfl, hc⟩ := h
  rintro ⟨hw, -⟩
  rw [isLiteralStart_of_isWordStart hw] at hc
  cases hc

theorem not_symbolic_of_literal (h : OpensLiteral text) : ¬ ∀ c ∈ text, isSymbolic c = true := by
  obtain ⟨c, tail, rfl, hc⟩ := h
  intro hs
  rw [(opens_of_isSymbolic (hs c List.mem_cons_self)).2] at hc
  cases hc

theorem not_symbolic_of_word (h : Word text) : ¬ ∀ c ∈ text, isSymbolic c = true := by
  intro hs
  cases text with
  | nil => exact h
  | cons c text =>
    have hw := h.1
    rw [(opens_of_isSymbolic (hs c List.mem_cons_self)).1] at hw
    cases hw

theorem word_underscore : Word ['_'] := by decide

theorem isLiteral_keyword (k : Keyword) : (TokenKind.keyword k).isLiteral = true ↔ k ∈ truthValues := by
  have key : ∀ k ∈ Keyword.all, (TokenKind.keyword k).isLiteral = true ↔ k ∈ truthValues := by decide
  exact key k k.mem_all

theorem flags_of_literalKind (h : kind ∈ literalKinds) :
    kind.isKeyword = false ∧ kind.isOperator = false ∧ kind.isLiteral = true ∧ kind.reuse? = none := by
  have key : ∀ kind ∈ literalKinds,
      kind.isKeyword = false ∧ kind.isOperator = false ∧ kind.isLiteral = true ∧ kind.reuse? = none := by decide
  exact key kind h

theorem flags_of_isOperator (h : kind.isOperator = true) :
    kind.isKeyword = false ∧ kind.isLiteral = false ∧
      (kind.reuse?.isSome = true ↔ kind ≠ .generalOperator) := by
  cases kind <;> simp_all [TokenKind.isKeyword, TokenKind.isOperator, TokenKind.isLiteral, TokenKind.reuse?]

namespace Family

theorem isKeyword_iff (h : Family kind text) :
    kind.isKeyword = true ↔ ∃ k : Keyword, text = k.word.toList := by
  cases h with
  | keyword k => exact iff_of_true rfl ⟨k, rfl⟩
  | underscore =>
    refine iff_of_false Bool.false_ne_true ?_
    rintro ⟨k, hk⟩
    exact (word_keyword k).2 hk.symm
  | identifier _ _ hk =>
    refine iff_of_false Bool.false_ne_true ?_
    rintro ⟨k, rfl⟩
    exact hk k rfl
  | literal hkind hc =>
    refine iff_of_false (Bool.eq_false_iff.mp (flags_of_literalKind hkind).1) ?_
    rintro ⟨k, hk⟩
    exact not_word_of_literal ⟨_, _, rfl, hc⟩ (hk ▸ (word_keyword k).1)
  | symbol hkind h =>
    refine iff_of_false (Bool.eq_false_iff.mp (flags_of_isOperator hkind).1) ?_
    rintro ⟨k, rfl⟩
    exact not_symbolic_of_word (word_keyword k).1 h

theorem isOperator_iff (h : Family kind text) :
    kind.isOperator = true ↔ ∀ c ∈ text, isSymbolic c = true := by
  cases h with
  | keyword k => exact iff_of_false Bool.false_ne_true (not_symbolic_of_word (word_keyword k).1)
  | underscore => exact iff_of_false Bool.false_ne_true (not_symbolic_of_word word_underscore)
  | identifier hw _ _ => exact iff_of_false Bool.false_ne_true (not_symbolic_of_word hw)
  | literal hkind hc =>
    exact iff_of_false (Bool.eq_false_iff.mp (flags_of_literalKind hkind).2.1)
      (not_symbolic_of_literal ⟨_, _, rfl, hc⟩)
  | symbol hkind h => exact iff_of_true hkind h

theorem isLiteral_iff (h : Family kind text) :
    kind.isLiteral = true ↔ OpensLiteral text ∨ ∃ k ∈ truthValues, text = k.word.toList := by
  cases h with
  | keyword k =>
    rw [isLiteral_keyword]
    constructor
    · exact fun h => .inr ⟨k, h, rfl⟩
    · rintro (h | ⟨j, hj, h⟩)
      · exact absurd (word_keyword k).1 (not_word_of_literal h)
      · rwa [Keyword.word_injective (String.toList_inj.mp h)]
  | underscore =>
    refine iff_of_false Bool.false_ne_true ?_
    rintro (h | ⟨k, -, h⟩)
    · exact not_word_of_literal h word_underscore
    · exact (word_keyword k).2 h.symm
  | identifier hw _ hk =>
    refine iff_of_false Bool.false_ne_true ?_
    rintro (h | ⟨k, -, h⟩)
    · exact not_word_of_literal h hw
    · exact hk k h
  | literal hkind hc => exact iff_of_true (flags_of_literalKind hkind).2.2.1 (.inl ⟨_, _, rfl, hc⟩)
  | symbol hkind hs =>
    refine iff_of_false (Bool.eq_false_iff.mp (flags_of_isOperator hkind).2.1) ?_
    rintro (h | ⟨k, -, rfl⟩)
    · exact not_symbolic_of_literal h hs
    · exact not_symbolic_of_word (word_keyword k).1 hs

theorem reuse?_iff (h : Family kind text) :
    kind.reuse?.isSome = true ↔ text = ['_'] ∨ kind.isOperator = true ∧ kind ≠ .generalOperator := by
  cases h with
  | keyword k =>
    refine iff_of_false Bool.false_ne_true ?_
    rintro (h | h)
    · exact (word_keyword k).2 h
    · cases h.1
  | underscore => exact iff_of_true rfl (.inl rfl)
  | identifier _ hu _ =>
    refine iff_of_false Bool.false_ne_true ?_
    rintro (h | h)
    · exact hu h
    · cases h.1
  | literal hkind hc =>
    obtain ⟨-, hoperator, -, hnone⟩ := flags_of_literalKind hkind
    refine iff_of_false (by simp [hnone]) ?_
    rintro (h | h)
    · exact not_word_of_literal ⟨_, _, rfl, hc⟩ (h ▸ word_underscore)
    · rw [hoperator] at h
      cases h.1
  | symbol hkind hs =>
    rw [(flags_of_isOperator hkind).2.2]
    constructor
    · exact fun h => .inr ⟨hkind, h⟩
    · rintro (rfl | h)
      · exact absurd hs (not_symbolic_of_word word_underscore)
      · exact h.2

theorem plain (h : Family kind text) : kind ≠ .errorToken ∧ ∀ m, kind ≠ .modified m := by
  cases h with
  | keyword | underscore | identifier => exact ⟨by simp, by simp⟩
  | literal hkind _ =>
    have key : ∀ kind ∈ literalKinds, kind ≠ .errorToken ∧ kind.isKeyword = false := by decide
    obtain ⟨herror, hkeyword⟩ := key kind hkind
    refine ⟨herror, ?_⟩
    rintro m rfl
    cases hkeyword
  | symbol hkind _ =>
    constructor
    · rintro rfl
      cases hkind
    · rintro m rfl
      cases hkind

end Family

/-- The kind of a token belongs to the families that the text of the token tells. -/
structure Token.Agrees (t : Token) : Prop where
  keyword : t.kind.isKeyword = true ↔ ∃ k : Keyword, t.lexeme = k.word
  operator : t.kind.isOperator = true ↔ ∀ c ∈ t.lexeme.toList, isSymbolic c = true
  literal : t.kind.isLiteral = true ↔ OpensLiteral t.lexeme.toList ∨ t.lexeme = "true" ∨ t.lexeme = "false"
  reuse : t.kind.reuse?.isSome = true ↔
    t.lexeme = "_" ∨ t.kind.isOperator = true ∧ t.kind ≠ .generalOperator
  plain : t.kind ≠ .errorToken ∧ ∀ (k : TokenKind) (c : Char), k.withModifier? c ≠ some t.kind

theorem agrees_of_family {t : Token} (h : Family t.kind t.lexeme.toList) : t.Agrees where
  keyword := by simpa only [String.toList_inj] using h.isKeyword_iff
  operator := h.isOperator_iff
  literal := by
    have hwords : (∃ k ∈ truthValues, t.lexeme.toList = k.word.toList) ↔
        t.lexeme = "true" ∨ t.lexeme = "false" := by
      simp [truthValues, String.toList_inj, Keyword.word]
    exact h.isLiteral_iff.trans (or_congr_right hwords)
  reuse := by
    have hone : t.lexeme = "_" ↔ t.lexeme.toList = ['_'] := String.toList_inj.symm
    rw [hone]
    exact h.reuse?_iff
  plain := by
    refine ⟨h.plain.1, ?_⟩
    intro k c hk
    obtain ⟨m, hm⟩ := TokenKind.modified_of_withModifier? hk
    exact h.plain.2 m hm

/-- By number, the keywords are an interval of the kinds, and with the general operator in front so
are the operators. After any calls, each token has a kind of the families that its text tells. -/
theorem families_agree :
    (∀ k : TokenKind, k.isKeyword = true ↔ TokenKind.Between (.keyword .asKw) k (.keyword .yieldKw)) ∧
    (∀ k : TokenKind, k.isOperator = true ↔
      TokenKind.Between (.operator .add) k (.punctuation .braceClose) ∨ k = .generalOperator) ∧
    ∀ (source : String) (file? : Option String) (cs : List Call),
      ∀ t ∈ ((Scanner.ofSource source file?).calls cs).tokens.toList, t.Agrees := by
  refine ⟨TokenKind.isKeyword_iff_between, TokenKind.isOperator_iff_between, ?_⟩
  intro source file? cs t ht
  exact agrees_of_family (family_of_found ((Scanner.shaped_calls source file? cs).tokens t ht))

theorem families_agree_truth_value :
    ∃ t ∈ ((Scanner.ofSource "let ok = true;" none).calls [.run]).tokens.toList,
      t.kind = .keyword .trueKw ∧ t.lexeme = "true" ∧ t.Agrees := by
  have hfound : ∃ t ∈ ((Scanner.ofSource "let ok = true;" none).calls [.run]).tokens.toList,
      t.kind = .keyword .trueKw ∧ t.lexeme = "true" := by decide +kernel
  obtain ⟨t, ht, hkind, hlexeme⟩ := hfound
  exact ⟨t, ht, hkind, hlexeme, families_agree.2.2 _ _ _ t ht⟩

end NodLexis
