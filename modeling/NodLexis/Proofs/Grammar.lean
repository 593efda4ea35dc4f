import NodLexis.Proofs.EscapeValues
import NodLexis.Token

/-! # The lexical grammar

What a source has to look like, said without a scanner: the items of literals, the
texts of each kind of token, and what may follow a token. A source is a sequence
of pieces, each a gap of blanks and a lexeme, with one more gap at the end.
-/

namespace NodLexis.Grammar
open CharacterClass

/-- The text does not start with a character of the class. -/
def Barred (p : Char → Bool) (text : List Char) : Prop := ∀ c ∈ text.head?, p c = false

def Blank (text : List Char) : Prop := ∀ c ∈ text, isBlank c = true

def Digits (text : List Char) : Prop := text ≠ [] ∧ ∀ c ∈ text, c.isDigit = true

def Symbols (text : List Char) : Prop := text ≠ [] ∧ ∀ c ∈ text, isOperatorSymbol c = true

def Word : List Char → Prop
  | [] => False
  | c :: text => isWordStart c = true ∧ ∀ d ∈ text, isWordChar d = true

/-- One to six hexadecimal digits and the character whose code point they are worth. -/
structure CodePoint (digits : List Char) (value : Char) : Prop where
  nonempty : digits ≠ []
  short : digits.length ≤ 6
  names : Escape.Numeral digits value.toNat

/-- An item of a literal as it is written, and the character that it stands for.
`Raw` says which characters stand for themselves. -/
inductive Item (Raw : Char → Prop) : List Char → Char → Prop where
  | raw {c : Char} (h : Raw c) : Item Raw [c] c
  | simple {letter value : Char} (h : (letter, value) ∈ Literal.letterValues) :
      Item Raw ['\\', letter] value
  | codePoint {digits : List Char} {value : Char} (h : CodePoint digits value) :
      Item Raw ('\\' :: 'u' :: '{' :: (digits ++ ['}'])) value

inductive Items (Raw : Char → Prop) : List Char → List Char → Prop where
  | nil : Items Raw [] []
  | cons {item text values : List Char} {value : Char} (head : Item Raw item value)
      (tail : Items Raw text values) : Items Raw (item ++ text) (value :: values)

/-- The characters that stand for themselves between the marks of a quote. -/
def Plain (q : Quote) (c : Char) : Prop := c ≠ q.mark ∧ c ≠ '\\'

/-- The texts of each kind. A scan yields no modified keyword and no error token,
so these two have no text. -/
inductive Lexeme : TokenKind → List Char → Prop where
  | keyword (k : Keyword) : Lexeme (.keyword k) k.word.toList
  | underscore : Lexeme .underscore ['_']
  | identifier {text : List Char} (h : Word text) (hu : text ≠ ['_'])
      (hk : ∀ k : Keyword, text ≠ k.word.toList) : Lexeme .identifier text
  | intLiteral {text : List Char} (h : Digits text) : Lexeme .intLiteral text
  | floatLiteral {whole fraction : List Char} (hw : Digits whole) (hf : Digits fraction) :
      Lexeme .floatLiteral (whole ++ '.' :: fraction)
  | lambdaArg {digits : List Char} (h : Digits digits) : Lexeme .lambdaArg ('$' :: digits)
  | operator (o : Operator) : Lexeme (.operator o) o.symbol.toList
  | generalOperator {text : List Char} (h : Symbols text)
      (ho : ∀ o : Operator, text ≠ o.symbol.toList) : Lexeme .generalOperator text
  | punctuation (p : Punctuation) : Lexeme (.punctuation p) p.symbol.toList
  | stringLiteral {body values : List Char} (h : Items (Plain .double) body values) :
      Lexeme .stringLiteral ('"' :: (body ++ ['"']))
  | charLiteral {body : List Char} {value : Char} (h : Items (Plain .single) body [value]) :
      Lexeme .charLiteral ('\'' :: (body ++ ['\'']))

/-- A dot with a digit after it, which an integer takes for its own. -/
def FractionAhead (text : List Char) : Prop :=
  ∃ d tail, text = '.' :: d :: tail ∧ d.isDigit = true

/-- What has to hold of the text after a lexeme for the lexeme to end there. -/
def Follow (kind : TokenKind) (text : List Char) : Prop :=
  match kind with
  | .keyword _ | .underscore | .identifier | .floatLiteral | .lambdaArg => Barred isWordChar text
  | .intLiteral => Barred isWordChar text ∧ ¬ FractionAhead text
  | .operator _ | .generalOperator => Barred isOperatorSymbol text
  | .punctuation .dot => Barred (· == '.') text
  | .punctuation .doubleDot => Barred (· == '<') text
  | _ => True

/-- A gap of blanks and the lexeme after it. -/
structure Piece where
  gap : List Char
  kind : TokenKind
  lexeme : List Char

/-- The text of some pieces, up to a tail. -/
def spell : List Piece → List Char → List Char
  | [], tail => tail
  | p :: pieces, tail => p.gap ++ (p.lexeme ++ spell pieces tail)

/-- Every gap is blank, and every lexeme is one of its kind and ends where it may. -/
def Proper : List Piece → List Char → Prop
  | [], _ => True
  | p :: pieces, tail =>
    Blank p.gap ∧ Lexeme p.kind p.lexeme ∧ Follow p.kind (spell pieces tail) ∧ Proper pieces tail

/-- A whole source cut into pieces, with nothing but blanks after the last. -/
def Segmentation (source : List Char) (pieces : List Piece) : Prop :=
  ∃ tail, Blank tail ∧ source = spell pieces tail ∧ Proper pieces tail

/-- The token of a lexeme that starts at a place. -/
def tokenAt (file : String) (start : Place) (kind : TokenKind) (lexeme : List Char) : Token where
  kind
  lexeme := String.ofList lexeme
  line := start.line
  column := start.column
  span := ⟨⟨start.offset, file⟩, ⟨(start.after lexeme).offset, file⟩⟩

/-- The tokens of some pieces, the first gap starting at a place. -/
def tokensFrom (file : String) (start : Place) : List Piece → List Token
  | [] => []
  | p :: pieces =>
    tokenAt file (start.after p.gap) p.kind p.lexeme ::
      tokensFrom file (start.after (p.gap ++ p.lexeme)) pieces

instance (text : List Char) : Decidable (Blank text) :=
  decidable_of_iff (text.all isBlank = true) (by simp [Blank])

instance (text : List Char) : Decidable (Symbols text) :=
  decidable_of_iff (text ≠ [] ∧ text.all isOperatorSymbol = true) (by simp [Symbols])

instance : DecidablePred Word
  | [] => isFalse id
  | c :: text => decidable_of_iff (isWordStart c = true ∧ text.all isWordChar = true) (by simp [Word])

variable {p : Char → Bool} {text rest tail : List Char} {kind : TokenKind}

/-! ## Runs of characters of one class -/

theorem blank_nil : Blank [] := by simp [Blank]

theorem barred_nil : Barred p [] := by simp [Barred]

theorem barred_cons {c : Char} : Barred p (c :: text) ↔ p c = false := by simp [Barred]

theorem barred_or_exists (p : Char → Bool) (text : List Char) :
    Barred p text ∨ ∃ c rest, text = c :: rest ∧ p c = true := by
  cases text with
  | nil => exact .inl barred_nil
  | cons c rest =>
    cases h : p c with
    | false => exact .inl (barred_cons.mpr h)
    | true => exact .inr ⟨c, rest, rfl, h⟩

/-- Every text starts with a longest run of a class. -/
theorem exists_run (p : Char → Bool) (text : List Char) :
    ∃ run rest, text = run ++ rest ∧ (∀ c ∈ run, p c = true) ∧ Barred p rest := by
  induction text with
  | nil => exact ⟨[], [], rfl, by simp, barred_nil⟩
  | cons c text ih =>
    cases h : p c with
    | false => exact ⟨[], c :: text, rfl, by simp, barred_cons.mpr h⟩
    | true =>
      obtain ⟨run, rest, rfl, hrun, hrest⟩ := ih
      refine ⟨c :: run, rest, rfl, ?_, hrest⟩
      intro d hd
      rcases List.mem_cons.mp hd with rfl | hd
      · exact h
      · exact hrun d hd

theorem forall_mem_concat {α : Type} {P : α → Prop} {front : List α} {last : α} (h : ∀ x ∈ front, P x)
    (hlast : P last) : ∀ x ∈ front ++ [last], P x :=
  List.forall_mem_append.mpr ⟨h, List.forall_mem_singleton.mpr hlast⟩

/-- A character that neither of two texts has shows where they end. -/
theorem append_cons_unique {front front' rest rest' : List Char} {c : Char} (h : c ∉ front) (h' : c ∉ front')
    (heq : front ++ c :: rest = front' ++ c :: rest') : front = front' ∧ rest = rest' := by
  induction front generalizing front' with
  | nil =>
    cases front' with
    | nil => exact ⟨rfl, (List.cons.inj heq).2⟩
    | cons d front' => exact absurd ((List.cons.inj heq).1 ▸ List.mem_cons_self) h'
  | cons d front ih =>
    cases front' with
    | nil => exact absurd ((List.cons.inj heq).1 ▸ List.mem_cons_self) h
    | cons d' front' =>
      obtain ⟨rfl, htail⟩ := List.cons.inj heq
      obtain ⟨rfl, hrest⟩ := ih (fun hc => h (.tail d hc)) (fun hc => h' (.tail d hc)) htail
      exact ⟨rfl, hrest⟩

/-- A blank text before one that starts with no blank is found by its characters. -/
theorem eq_takeWhile_of_blank {gap : List Char} (hg : Blank gap) (hr : Barred isBlank rest) :
    gap = (gap ++ rest).takeWhile isBlank := by
  rw [List.takeWhile_append_of_pos hg]
  cases rest with
  | nil => simp
  | cons c rest => simp [barred_cons.mp hr]

theorem isWordChar_eq (c : Char) : isWordChar c = (c.isDigit || isWordStart c) := by
  simp only [isWordChar, isWordStart, Char.isAlphanum]
  cases c.isAlpha <;> cases c.isDigit <;> rfl

theorem barred_isWordChar (hd : Barred Char.isDigit text) (hw : Barred isWordStart text) :
    Barred isWordChar text := by
  intro c hc
  rw [isWordChar_eq, hd c hc, hw c hc]
  rfl

theorem spell_append_tail (pieces : List Piece) (tail : List Char) :
    spell pieces [] ++ tail = spell pieces tail := by
  induction pieces with
  | nil => rfl
  | cons p pieces ih => simp [spell, ih]

theorem spell_append_right (pieces : List Piece) (text tail : List Char) :
    spell pieces (text ++ tail) = spell pieces text ++ tail := by
  rw [← spell_append_tail, ← spell_append_tail pieces text, List.append_assoc]

theorem spell_append (pieces more : List Piece) (tail : List Char) :
    spell (pieces ++ more) tail = spell pieces (spell more tail) := by
  induction pieces with
  | nil => rfl
  | cons p pieces ih => simp [spell, ih]

/-- The text of some pieces with one more behind them. -/
theorem spell_concat (front : List Piece) (p : Piece) (tail : List Char) :
    spell (front ++ [p]) tail = spell front p.gap ++ p.lexeme ++ tail := by
  rw [spell_append, spell, spell, spell_append_right, List.append_assoc]

theorem tokensFrom_append (file : String) (start : Place) (pieces more : List Piece) :
    tokensFrom file start (pieces ++ more) =
      tokensFrom file start pieces ++ tokensFrom file (start.after (spell pieces [])) more := by
  induction pieces generalizing start with
  | nil => rfl
  | cons p pieces ih => simp [tokensFrom, spell, ih, Place.after_append]

@[simp] theorem length_tokensFrom (file : String) (start : Place) (pieces : List Piece) :
    (tokensFrom file start pieces).length = pieces.length := by
  induction pieces generalizing start with
  | nil => rfl
  | cons p pieces ih => simp [tokensFrom, ih]

/-- The token of the piece behind some other ones. -/
theorem getElem?_tokensFrom (file : String) (start : Place) (front : List Piece) (p : Piece)
    (back : List Piece) :
    (tokensFrom file start (front ++ p :: back))[front.length]? =
      some (tokenAt file (start.after (spell front p.gap)) p.kind p.lexeme) := by
  rw [tokensFrom_append, List.getElem?_append_right (by simp), length_tokensFrom, Nat.sub_self, tokensFrom,
    List.getElem?_cons_zero, ← Place.after_append, spell_append_tail]

/-- A token of some pieces splits them at the piece that it is the token of. -/
theorem exists_split_of_getElem? {t : Token} {file : String} {start : Place} {pieces : List Piece} {i : Nat}
    (h : (tokensFrom file start pieces)[i]? = some t) :
    ∃ front p back, pieces = front ++ p :: back ∧ front.length = i ∧
      t = tokenAt file (start.after (spell front p.gap)) p.kind p.lexeme := by
  have hi : i < pieces.length := by
    have := (List.getElem?_eq_some_iff.mp h).1
    rwa [length_tokensFrom] at this
  have hlength : (pieces.take i).length = i := by
    rw [List.length_take]
    omega
  have hsplit : pieces = pieces.take i ++ pieces[i] :: pieces.drop (i + 1) := by simp
  have ht := getElem?_tokensFrom file start (pieces.take i) pieces[i] (pieces.drop (i + 1))
  rw [← hsplit, hlength, h] at ht
  exact ⟨_, _, _, hsplit, hlength, Option.some.inj ht⟩

/-- A token of some pieces is that of a lexeme somewhere in their text. -/
theorem exists_of_mem_tokensFrom {t : Token} {file : String} {pieces : List Piece}
    (before tail : List Char) (h : t ∈ tokensFrom file (Place.origin.after before) pieces) :
    ∃ p ∈ pieces, ∃ front back, before ++ spell pieces tail = front ++ (p.lexeme ++ back) ∧
      t = tokenAt file (Place.origin.after front) p.kind p.lexeme := by
  induction pieces generalizing before with
  | nil => cases h
  | cons p pieces ih =>
    rw [tokensFrom, ← Place.after_append, ← Place.after_append] at h
    rcases List.mem_cons.mp h with rfl | h
    · exact ⟨p, by simp, before ++ p.gap, spell pieces tail, by simp [spell], rfl⟩
    · obtain ⟨p', hp', front, back, hs, rfl⟩ := ih _ h
      exact ⟨p', by simp [hp'], front, back, by simpa [spell] using hs, rfl⟩

theorem Proper.of_mem {pieces : List Piece} {p : Piece} (h : Proper pieces tail) (hp : p ∈ pieces) :
    Blank p.gap ∧ Lexeme p.kind p.lexeme := by
  induction pieces with
  | nil => cases hp
  | cons p' pieces ih =>
    obtain ⟨hgap, hl, -, h⟩ := h
    rcases List.mem_cons.mp hp with rfl | hp
    · exact ⟨hgap, hl⟩
    · exact ih h hp

/-! ## Code points -/

theorem toNat_ofNat {n : Nat} (h : n.isValidChar) : (Char.ofNat n).toNat = n := by
  rw [Char.ofNat, dif_pos h]
  rfl

theorem CodePoint.hex {digits : List Char} {value : Char} (h : CodePoint digits value) :
    ∀ c ∈ digits, isHexDigit c = true := (Escape.numeral_iff.mp h.names).1

theorem ofHex?_eq_some_iff {digits : List Char} {value : Char} :
    Escape.ofHex? digits = some value ↔ CodePoint digits value := by
  unfold Escape.ofHex? Escape.ofCodePoint?
  constructor
  · intro h
    split at h
    · rename_i hd
      split at h
      · rename_i hv
        obtain rfl := Option.some.inj h
        exact ⟨hd.1, hd.2.1, Escape.numeral_iff.mpr ⟨List.all_eq_true.mp hd.2.2, (toNat_ofNat hv).symm⟩⟩
      · cases h
    · cases h
  · intro h
    have hvalue : Escape.hexValue digits = value.toNat := (Escape.numeral_iff.mp h.names).2
    have hv : (Escape.hexValue digits).isValidChar := hvalue ▸ value.valid
    rw [if_pos ⟨h.nonempty, h.short, List.all_eq_true.mpr h.hex⟩, if_pos hv, hvalue]
    simp

theorem ofHex?_eq_none_iff {digits : List Char} :
    Escape.ofHex? digits = none ↔ ∀ value, ¬ CodePoint digits value := by
  rw [Option.eq_none_iff_forall_ne_some]
  exact forall_congr' fun _ => not_congr ofHex?_eq_some_iff

/-! ## Words and symbols -/

theorem word_keyword (k : Keyword) : Word k.word.toList ∧ k.word.toList ≠ ['_'] := by
  have key : ∀ k ∈ Keyword.all, Word k.word.toList ∧ k.word.toList ≠ ['_'] := by decide +kernel
  exact key k k.mem_all

theorem symbols_operator (o : Operator) : Symbols o.symbol.toList := by
  have key : ∀ o ∈ Operator.all, Symbols o.symbol.toList := by decide +kernel
  exact key o o.mem_all

theorem lexeme_ofWord (h : Word text) (hu : text ≠ ['_']) :
    Lexeme (.ofWord (String.ofList text)) text := by
  rw [TokenKind.ofWord]
  split
  · rename_i k hk
    have hw : k.word.toList = text := by
      rw [Keyword.ofWord?_eq_some_iff.mp hk, String.toList_ofList]
    exact hw ▸ .keyword k
  · rename_i hk
    refine .identifier h hu ?_
    rintro k rfl
    rw [String.ofList_toList, Keyword.ofWord?_eq_some_iff.mpr rfl] at hk
    cases hk

theorem ofWord_word (k : Keyword) : TokenKind.ofWord k.word = .keyword k := by
  simp [TokenKind.ofWord, Keyword.ofWord?_eq_some_iff.mpr rfl]

theorem ofWord_identifier (hk : ∀ k : Keyword, text ≠ k.word.toList) :
    TokenKind.ofWord (String.ofList text) = .identifier := by
  rw [TokenKind.ofWord]
  split
  · rename_i k h
    rw [Keyword.ofWord?_eq_some_iff] at h
    exact absurd (by rw [h, String.toList_ofList]) (hk k)
  · rfl

theorem lexeme_ofSymbol (h : Symbols text) : Lexeme (.ofSymbol (String.ofList text)) text := by
  rw [TokenKind.ofSymbol]
  split
  · rename_i o ho
    have hs : o.symbol.toList = text := by
      rw [Operator.ofSymbol?_eq_some_iff.mp ho, String.toList_ofList]
    exact hs ▸ .operator o
  · rename_i ho
    refine .generalOperator h ?_
    rintro o rfl
    rw [String.ofList_toList, Operator.ofSymbol?_eq_some_iff.mpr rfl] at ho
    cases ho

theorem ofSymbol_symbol (o : Operator) : TokenKind.ofSymbol o.symbol = .operator o := by
  simp [TokenKind.ofSymbol, Operator.ofSymbol?_eq_some_iff.mpr rfl]

theorem ofSymbol_general (ho : ∀ o : Operator, text ≠ o.symbol.toList) :
    TokenKind.ofSymbol (String.ofList text) = .generalOperator := by
  rw [TokenKind.ofSymbol]
  split
  · rename_i o h
    rw [Operator.ofSymbol?_eq_some_iff] at h
    exact absurd (by rw [h, String.toList_ofList]) (ho o)
  · rfl

/-! ## The first character of a token -/

/-- The characters that a token can start with. -/
def opens (c : Char) : Bool :=
  c.isDigit || isWordStart c || c == '$' || c == '.' || isOperatorSymbol c ||
    (Quote.ofMark? c).isSome || (Punctuation.ofChar? c).isSome

private theorem exists_cons_of_class (hp : ∀ c, p c = true → opens c = true)
    (h : text ≠ [] ∧ ∀ c ∈ text, p c = true) : ∃ c rest, text = c :: rest ∧ opens c = true := by
  cases text with
  | nil => exact absurd rfl h.1
  | cons c rest => exact ⟨c, rest, rfl, hp c (h.2 c (by simp))⟩

private theorem exists_cons_of_word (h : Word text) : ∃ c rest, text = c :: rest ∧ opens c = true := by
  cases text with
  | nil => exact h.elim
  | cons c rest => exact ⟨c, rest, rfl, by simp [opens, h.1]⟩

private theorem exists_cons_of_punctuation (p : Punctuation) :
    ∃ c rest, p.symbol.toList = c :: rest ∧ opens c = true := by
  cases p <;> exact ⟨_, _, rfl, rfl⟩

theorem exists_cons_of_lexeme (h : Lexeme kind text) : ∃ c rest, text = c :: rest ∧ opens c = true := by
  have hdigit : ∀ c : Char, c.isDigit = true → opens c = true := fun c hc => by simp [opens, hc]
  have hsymbol : ∀ c, isOperatorSymbol c = true → opens c = true := fun c hc => by simp [opens, hc]
  cases h with
  | keyword k => exact exists_cons_of_word (word_keyword k).1
  | underscore => exact ⟨'_', [], rfl, rfl⟩
  | identifier h _ _ => exact exists_cons_of_word h
  | intLiteral h => exact exists_cons_of_class hdigit h
  | @floatLiteral whole fraction hw _ =>
    obtain ⟨c, rest, rfl, hc⟩ := exists_cons_of_class hdigit hw
    exact ⟨c, rest ++ '.' :: fraction, rfl, hc⟩
  | lambdaArg h => exact ⟨'$', _, rfl, rfl⟩
  | operator o => exact exists_cons_of_class hsymbol (symbols_operator o)
  | generalOperator h _ => exact exists_cons_of_class hsymbol h
  | punctuation p => exact exists_cons_of_punctuation p
  | stringLiteral h => exact ⟨'"', _, rfl, rfl⟩
  | charLiteral h => exact ⟨'\'', _, rfl, rfl⟩

theorem exists_lexeme_of_opens {c : Char} (h : opens c = true) : ∃ kind text, Lexeme kind (c :: text) := by
  simp only [opens, Bool.or_eq_true, beq_iff_eq, Option.isSome_iff_exists] at h
  rcases h with (((((h | h) | rfl) | rfl) | h) | ⟨q, h⟩) | ⟨p, h⟩
  · exact ⟨_, [], .intLiteral ⟨by simp, by simpa using h⟩⟩
  · by_cases hc : c = '_'
    · subst hc
      exact ⟨_, [], Lexeme.underscore⟩
    · exact ⟨_, [], lexeme_ofWord ⟨h, by simp⟩ (by simp [hc])⟩
  · exact ⟨_, ['0'], .lambdaArg ⟨by simp, List.forall_mem_singleton.mpr rfl⟩⟩
  · exact ⟨_, [], .punctuation .dot⟩
  · exact ⟨_, [], lexeme_ofSymbol ⟨by simp, by simpa using h⟩⟩
  · rw [Quote.ofMark?_eq_some_iff] at h
    subst h
    cases q with
    | double => exact ⟨_, _, Lexeme.stringLiteral .nil⟩
    | single =>
      have hi : Items (Plain .single) ['a'] ['a'] := .cons (.raw (by unfold Plain; decide)) .nil
      exact ⟨_, _, Lexeme.charLiteral hi⟩
  · have hs := Punctuation.symbol_of_ofChar? h
    exact ⟨_, [], hs ▸ Lexeme.punctuation p⟩

theorem opens_iff {c : Char} : opens c = true ↔ ∃ kind text, Lexeme kind (c :: text) := by
  constructor
  · exact exists_lexeme_of_opens
  · rintro ⟨kind, text, h⟩
    obtain ⟨d, rest, hd, ho⟩ := exists_cons_of_lexeme h
    obtain ⟨rfl, rfl⟩ := List.cons.inj hd
    exact ho

theorem Lexeme.ne_nil (h : Lexeme kind text) : text ≠ [] := by
  obtain ⟨c, rest, rfl, -⟩ := exists_cons_of_lexeme h
  simp

/-- No blank starts a token. -/
theorem isBlank_eq_false_of_opens {c : Char} (h : opens c = true) : isBlank c = false := by
  cases hb : isBlank c with
  | false => rfl
  | true =>
    have key : (blanks.all fun c => !opens c) = true := rfl
    have hc := List.all_eq_true.mp key c (isBlank_iff.mp hb)
    rw [h] at hc
    cases hc

theorem Lexeme.barred_isBlank (h : Lexeme kind text) (rest : List Char) : Barred isBlank (text ++ rest) := by
  obtain ⟨c, tail, rfl, ho⟩ := exists_cons_of_lexeme h
  exact barred_cons.mpr (isBlank_eq_false_of_opens ho)

end NodLexis.Grammar
