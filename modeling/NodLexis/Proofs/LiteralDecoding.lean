import NodLexis.Proofs.Outcome

/-! # Decoded literals

The decoder of literals accepts the same items as the scanner, except that a quote
may stand for itself. The two agree on every literal whose quotes inside are all
escaped: it is a token, and its value is what its items stand for.
-/

namespace NodLexis.Literal
open CharacterClass Grammar

/-- The characters that stand for themselves where both quotes may. -/
def Unescaped (c : Char) : Prop := c ≠ '\\'

/-- A text without its backslashes and the characters directly after them. -/
def bare : List Char → List Char
  | '\\' :: _ :: text => bare text
  | c :: text => c :: bare text
  | [] => []

variable {text body values digits : List Char} {c letter value : Char} {q : Quote}

theorem unescape?_raw (h : c ≠ '\\') (text : List Char) :
    unescape? (c :: text) = (unescape? text).map (c :: ·) := by
  rw [unescape?]
  · cases unescape? text <;> rfl
  all_goals simp [h]

theorem unescape?_simple (h : Escape.simple? letter = some value) (text : List Char) :
    unescape? ('\\' :: letter :: text) = (unescape? text).map (value :: ·) := by
  have hu : letter ≠ 'u' := by
    rintro rfl
    cases h
  rw [unescape?]
  · rw [h]
    cases unescape? text <;> rfl
  · simp [hu]

theorem brace_notMem (h : CodePoint digits value) : '}' ∉ digits := by
  intro hmem
  cases h.hex _ hmem

theorem bne_brace (hd : '}' ∉ digits) : ∀ c ∈ digits, (c != '}') = true := by
  intro c hc
  exact bne_iff_ne.mpr (ne_of_mem_of_not_mem hc hd)

theorem takeWhile_bne_brace (hd : '}' ∉ digits) (text : List Char) :
    (digits ++ '}' :: text).takeWhile (· != '}') = digits := by
  simp [List.takeWhile_append_of_pos (bne_brace hd)]

theorem unescape?_braced (hd : '}' ∉ digits) (text : List Char) :
    unescape? ('\\' :: 'u' :: '{' :: (digits ++ '}' :: text)) =
      (Escape.ofHex? digits).bind fun value => (unescape? text).map (value :: ·) := by
  have hdrop : (digits ++ '}' :: text).dropWhile (· != '}') = '}' :: text := by
    simp [List.dropWhile_append_of_pos (bne_brace hd)]
  rw [unescape?]
  split
  · rename_i h
    rw [hdrop] at h
    cases h
  · rename_i d rest h
    rw [hdrop] at h
    obtain ⟨-, rfl⟩ := List.cons.inj h
    rw [takeWhile_bne_brace hd]
    cases unescape? text <;> rfl

theorem unescape?_codePoint (h : CodePoint digits value) (text : List Char) :
    unescape? ('\\' :: 'u' :: '{' :: (digits ++ '}' :: text)) = (unescape? text).map (value :: ·) := by
  rw [unescape?_braced (brace_notMem h), ofHex?_eq_some_iff.mpr h]
  rfl

theorem unescape?_item {item : List Char} (h : Item Unescaped item value) (text : List Char) :
    unescape? (item ++ text) = (unescape? text).map (value :: ·) := by
  cases h with
  | raw hc => exact unescape?_raw hc text
  | simple hs => exact unescape?_simple (simple?_eq_some_iff.mpr hs) text
  | codePoint hd => simpa using unescape?_codePoint hd text

theorem unescape?_of_items (h : Items Unescaped text values) : unescape? text = some values := by
  induction h with
  | nil => rw [unescape?]
  | cons head _ ih =>
    rw [unescape?_item head, ih]
    rfl

theorem items_of_unescape? (h : unescape? text = some values) : Items Unescaped text values := by
  fun_induction unescape? text generalizing values with
  | case1 =>
    obtain rfl := Option.some.inj h
    exact .nil
  | case2 | case5 => cases h
  | case3 text d rest hdrop ih =>
    simp only [Option.bind_eq_bind, Option.bind_eq_some_iff, Option.pure_def, Option.some.injEq] at h
    obtain ⟨value, hvalue, tail, htail, rfl⟩ := h
    have hbrace : d = '}' := by
      have hnot := List.head?_dropWhile_not (· != '}') text
      rw [hdrop] at hnot
      simpa using hnot
    subst hbrace
    have htext : text = text.takeWhile (· != '}') ++ '}' :: rest := by
      rw [← hdrop, List.takeWhile_append_dropWhile]
    have hitem : Item Unescaped ('\\' :: 'u' :: '{' :: (text.takeWhile (· != '}') ++ ['}'])) value :=
      .codePoint (ofHex?_eq_some_iff.mp hvalue)
    have hitems := Items.cons hitem (ih htail)
    rw [htext]
    simpa using hitems
  | case4 letter text _ ih =>
    simp only [Option.bind_eq_bind, Option.bind_eq_some_iff, Option.pure_def, Option.some.injEq] at h
    obtain ⟨value, hvalue, tail, htail, rfl⟩ := h
    exact .cons (.simple (simple?_eq_some_iff.mp hvalue)) (ih htail)
  | case6 c text _ hletter hlone ih =>
    simp only [Option.bind_eq_bind, Option.bind_eq_some_iff, Option.pure_def, Option.some.injEq] at h
    obtain ⟨tail, htail, rfl⟩ := h
    have hc : Unescaped c := by
      intro hc
      cases text with
      | nil => exact hlone hc rfl
      | cons d text => exact hletter d text hc rfl
    exact .cons (.raw hc) (ih htail)

/-- A text decodes to what the items that it consists of stand for. -/
theorem unescape?_eq_some_iff : unescape? text = some values ↔ Items Unescaped text values :=
  ⟨items_of_unescape?, unescape?_of_items⟩

/-! ## Quotes inside of a literal -/

theorem item_mono {Raw Raw' : Char → Prop} (hraw : ∀ c, Raw c → Raw' c) (h : Item Raw text value) :
    Item Raw' text value := by
  cases h with
  | raw h => exact .raw (hraw _ h)
  | simple h => exact .simple h
  | codePoint h => exact .codePoint h

theorem items_mono {Raw Raw' : Char → Prop} (hraw : ∀ c, Raw c → Raw' c) (h : Items Raw text values) :
    Items Raw' text values := by
  induction h with
  | nil => exact .nil
  | cons head _ ih => exact .cons (item_mono hraw head) ih

theorem bare_append (hb : '\\' ∉ body) (text : List Char) : bare (body ++ text) = body ++ bare text := by
  induction body with
  | nil => rfl
  | cons c body ih =>
    rw [List.mem_cons, not_or] at hb
    obtain ⟨hc, hb⟩ := hb
    rw [List.cons_append, bare]
    · rw [ih hb]
      rfl
    · intro d rest h
      exact absurd h.symm hc

/-- Where no quote is bare, only the other one stands for itself. -/
theorem items_plain (h : Items Unescaped body values) (hq : q.mark ∉ bare body) : Items (Plain q) body values := by
  induction h with
  | nil => exact .nil
  | @cons item text values value head _ ih =>
    cases head with
    | raw hc =>
      rw [List.singleton_append, bare] at hq
      · rw [List.mem_cons, not_or] at hq
        exact .cons (.raw ⟨Ne.symm hq.1, hc⟩) (ih hq.2)
      · intro d rest h
        exact absurd h hc
    | simple hs => exact .cons (.simple hs) (ih hq)
    | @codePoint digits _ hd =>
      have hslash : '\\' ∉ '{' :: (digits ++ ['}']) := by
        intro hmem
        have hdigit : '\\' ∈ digits := by simpa using hmem
        cases hd.hex _ hdigit
      refine .cons (.codePoint hd) (ih ?_)
      intro hmem
      apply hq
      have hbare : bare ('\\' :: 'u' :: '{' :: (digits ++ ['}']) ++ text) =
          '{' :: (digits ++ ['}']) ++ bare text := bare_append hslash text
      rw [hbare]
      exact List.mem_append_right _ hmem

/-! ## Decoding of whole literals -/

/-- The kind of literal that a quote encloses. -/
def kindOf : Quote → TokenKind
  | .double => .stringLiteral
  | .single => .charLiteral

theorem decode?_quoted {lexeme : String} (h : lexeme.toList = q.mark :: (body ++ [q.mark])) :
    decode? lexeme = (unescape? body).map String.ofList := by
  simp [decode?, h]

/-- A literal decodes when it has a closing mark of its own and items between the
marks. -/
theorem decode?_eq_some_iff {lexeme value : String} :
    decode? lexeme = some value ↔ ∃ (q : Quote) (body : List Char),
      lexeme.toList = q.mark :: (body ++ [q.mark]) ∧ Items Unescaped body value.toList := by
  constructor
  · intro h
    rw [decode?] at h
    split at h
    · cases h
    · rename_i mark text hlexeme
      split at h
      · rename_i hmark
        obtain ⟨hopen, hclose⟩ := hmark
        obtain ⟨q, hq⟩ := Option.isSome_iff_exists.mp hopen
        rw [Quote.ofMark?_eq_some_iff] at hq
        obtain ⟨values, hvalues, rfl⟩ := Option.map_eq_some_iff.mp h
        obtain ⟨body, rfl⟩ := List.getLast?_eq_some_iff.mp hclose
        rw [List.dropLast_concat] at hvalues
        refine ⟨q, body, by rw [hlexeme, hq], ?_⟩
        rw [String.toList_ofList]
        exact unescape?_eq_some_iff.mp hvalues
      · cases h
  · rintro ⟨q, body, hlexeme, hitems⟩
    simp [decode?_quoted hlexeme, unescape?_eq_some_iff.mpr hitems]

theorem decode?_of_items (h : Items (Plain q) body values) :
    decode? (String.ofList (q.mark :: (body ++ [q.mark]))) = some (String.ofList values) := by
  rw [decode?_eq_some_iff]
  refine ⟨q, body, String.toList_ofList, ?_⟩
  rw [String.toList_ofList]
  exact items_mono (fun c hc => hc.2) h

/-! ## Scanned literals -/

theorem lexeme_kindOf (h : Items (Plain q) body values) (hn : q = .single → values.length = 1) :
    Lexeme (kindOf q) (q.mark :: (body ++ [q.mark])) := by
  cases q with
  | double => exact .stringLiteral h
  | single =>
    obtain ⟨value, rfl⟩ := List.length_eq_one_iff.mp (hn rfl)
    exact .charLiteral h

theorem cooked?_of_items (file : String) (start : Place) (h : Items (Plain q) body values) :
    (tokenAt file start (kindOf q) (q.mark :: (body ++ [q.mark]))).cooked? = some (String.ofList values) := by
  have hkind : kindOf q = .stringLiteral ∨ kindOf q = .charLiteral := by cases q <;> simp [kindOf]
  rw [Token.cooked?, tokenAt, if_pos hkind]
  exact decode?_of_items h

/-- The lexemes that decode are the string and character literals. -/
theorem isSome_cooked?_iff {kind : TokenKind} {lexeme : List Char} (file : String) (start : Place)
    (h : Lexeme kind lexeme) :
    (tokenAt file start kind lexeme).cooked?.isSome = true ↔
      kind = .stringLiteral ∨ kind = .charLiteral := by
  cases h with
  | stringLiteral h =>
    have hcooked := cooked?_of_items (q := .double) file start h
    exact iff_of_true (Option.isSome_iff_exists.mpr ⟨_, hcooked⟩) (.inl rfl)
  | charLiteral h =>
    have hcooked := cooked?_of_items (q := .single) file start h
    exact iff_of_true (Option.isSome_iff_exists.mpr ⟨_, hcooked⟩) (.inr rfl)
  | _ => simp [Token.cooked?, tokenAt]

theorem cooked?_charLiteral {lexeme : List Char} (file : String) (start : Place)
    (h : Lexeme .charLiteral lexeme) :
    ∃ value, (tokenAt file start .charLiteral lexeme).cooked? = some value ∧ value.length = 1 := by
  cases h with
  | @charLiteral body value h => exact ⟨_, cooked?_of_items (q := .single) file start h, by simp⟩

/-- A literal scans as the one token that it is. -/
theorem tokenize_of_items {lexeme : String} (file? : Option String)
    (hlexeme : lexeme.toList = q.mark :: (body ++ [q.mark])) (h : Items (Plain q) body values)
    (hn : q = .single → values.length = 1) :
    (tokenize lexeme file?).tokens = [tokenAt (fileName file?) .origin (kindOf q) lexeme.toList] ∧
      (tokenize lexeme file?).failure = none := by
  have hl : Lexeme (kindOf q) lexeme.toList := hlexeme ▸ lexeme_kindOf h hn
  exact tokenize_of_lexeme file? hl

/-- A scan decodes its string and character literals and no other token, and every
text that decodes to a literal without a bare quote inside scans as that literal. -/
theorem scan_agrees_with_decode (file? : Option String) :
    (∀ (source : String), ∀ t ∈ (tokenize source file?).tokens,
      (t.cooked?.isSome = true ↔ t.kind = .stringLiteral ∨ t.kind = .charLiteral) ∧
      (t.kind = .charLiteral → ∃ value, t.cooked? = some value ∧ value.length = 1)) ∧
    ∀ (q : Quote) (lexeme value : String), lexeme.toList.head? = some q.mark →
      decode? lexeme = some value → q.mark ∉ bare lexeme.toList.tail.dropLast →
      (q = .single → value.length = 1) →
      ∃ t, (tokenize lexeme file?).tokens = [t] ∧ (tokenize lexeme file?).failure = none ∧
        t.kind = kindOf q ∧ t.lexeme = lexeme ∧ t.cooked? = some value := by
  constructor
  · intro source t ht
    obtain ⟨start, kind, text, rfl, hl⟩ := exists_lexeme_of_mem_tokens ht
    refine ⟨isSome_cooked?_iff _ start hl, ?_⟩
    rintro rfl
    exact cooked?_charLiteral _ start hl
  · intro q lexeme value hhead hdecode hbare hn
    obtain ⟨q', body, hlexeme, hitems⟩ := decode?_eq_some_iff.mp hdecode
    rw [hlexeme] at hhead hbare
    obtain rfl : q' = q := by
      have hmark : q'.mark = q.mark := Option.some.inj hhead
      have hof := congrArg Quote.ofMark? hmark
      simpa using hof
    rw [List.tail_cons, List.dropLast_concat] at hbare
    have hplain := items_plain hitems hbare
    obtain ⟨htokens, hfailure⟩ := tokenize_of_items file? hlexeme hplain hn
    refine ⟨_, htokens, hfailure, rfl, String.ofList_toList, ?_⟩
    rw [hlexeme, cooked?_of_items _ _ hplain, String.ofList_toList]

end NodLexis.Literal
