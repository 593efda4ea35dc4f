import NodLexis.Proofs.LiteralDecoding

/-! # The grammar of quoted texts

A text with quotes at both ends decodes when the part between them is written as a
sequence of items. An item shows where it ends, so no text is written as two such
sequences. Every other text has a defect of one of a few shapes, and does not decode.
-/

namespace NodLexis.Literal
open CharacterClass Grammar

/-- An item of a quoted text as it is written, with the character that it stands for. -/
structure Written where
  text : List Char
  value : Char
  item : Item Unescaped text value

/-- Items one after the other. -/
def spelling (ws : List Written) : List Char := ws.flatMap Written.text

/-- Items in quotes. -/
def quoted (q : Quote) (ws : List Written) : List Char := q.mark :: (spelling ws ++ [q.mark])

/-- A text that does not start with an item. -/
inductive Broken : List Char → Prop where
  | backslash : Broken ['\\']
  | letter {letter : Char} {text : List Char} (hu : letter ≠ 'u')
      (h : ∀ value, (letter, value) ∉ letterValues) : Broken ('\\' :: letter :: text)
  | unopened {text : List Char} (h : text.head? ≠ some '{') : Broken ('\\' :: 'u' :: text)
  | unclosed {text : List Char} (h : '}' ∉ text) : Broken ('\\' :: 'u' :: '{' :: text)
  | nameless {digits text : List Char} (hd : '}' ∉ digits) (h : ∀ value, ¬ CodePoint digits value) :
      Broken ('\\' :: 'u' :: '{' :: (digits ++ '}' :: text))

/-- A text that is no sequence of items in quotes: the first quote, the last one or
an item between them is wrong or missing. -/
inductive Malformed : List Char → Prop where
  | unquoted {text : List Char} (h : ∀ q : Quote, text.head? ≠ some q.mark) : Malformed text
  | lone (q : Quote) : Malformed [q.mark]
  | unclosed {q : Quote} {text : List Char} {last : Char} (h : last ≠ q.mark) :
      Malformed (q.mark :: (text ++ [last]))
  | broken {q : Quote} {rest : List Char} (ws : List Written) (h : Broken rest) :
      Malformed (q.mark :: (spelling ws ++ rest ++ [q.mark]))

variable {text text' rest rest' digits : List Char} {c letter value value' : Char} {q q' : Quote}
  {ws ws' : List Written}

@[simp] theorem spelling_cons (w : Written) (ws : List Written) :
    spelling (w :: ws) = w.text ++ spelling ws := rfl

/-! ## Where an item ends -/

theorem item_raw_unique (h : Item Unescaped text value) (hc : c ≠ '\\') (heq : text ++ rest = c :: rest') :
    text = [c] ∧ value = c := by
  cases h with
  | raw => simp_all
  | simple => exact absurd (List.cons.inj heq).1.symm hc
  | codePoint => exact absurd (List.cons.inj heq).1.symm hc

theorem item_simple_unique (h : Item Unescaped text value) (hs : (letter, value') ∈ letterValues)
    (heq : text ++ rest = '\\' :: letter :: rest') : text = ['\\', letter] ∧ value = value' := by
  cases h with
  | raw hc => exact absurd (List.cons.inj heq).1 hc
  | simple hs' =>
    obtain ⟨rfl, -⟩ := List.cons.inj (List.cons.inj heq).2
    exact ⟨rfl, letterValues_unique hs' hs⟩
  | codePoint =>
    obtain ⟨rfl, -⟩ := List.cons.inj (List.cons.inj heq).2
    exact absurd rfl (ne_u_of_mem_letterValues hs)

theorem item_codePoint_unique (h : Item Unescaped text value) (hd : CodePoint digits value')
    (heq : text ++ rest = '\\' :: 'u' :: '{' :: (digits ++ '}' :: rest')) :
    text = '\\' :: 'u' :: '{' :: (digits ++ ['}']) ∧ value = value' := by
  cases h with
  | raw hc => exact absurd (List.cons.inj heq).1 hc
  | simple hs =>
    obtain ⟨rfl, -⟩ := List.cons.inj (List.cons.inj heq).2
    exact absurd rfl (ne_u_of_mem_letterValues hs)
  | @codePoint digits' _ hd' =>
    have htail : digits' ++ '}' :: rest = digits ++ '}' :: rest' := by simpa using heq
    obtain ⟨rfl, -⟩ := append_cons_unique (brace_notMem hd') (brace_notMem hd) htail
    exact ⟨rfl, Char.toNat_inj.mp (hd'.names.unique hd.names)⟩

/-- At most one item starts a text. -/
theorem item_unique (h : Item Unescaped text value) (h' : Item Unescaped text' value')
    (heq : text ++ rest = text' ++ rest') : text = text' ∧ value = value' := by
  cases h' with
  | raw hc => exact item_raw_unique h hc heq
  | simple hs => exact item_simple_unique h hs heq
  | codePoint hd => exact item_codePoint_unique h hd (by simpa using heq)

theorem written_unique {w w' : Written} (h : w.text ++ rest = w'.text ++ rest') : w = w' ∧ rest = rest' := by
  obtain ⟨text, value, item⟩ := w
  obtain ⟨text', value', item'⟩ := w'
  obtain ⟨rfl, rfl⟩ := item_unique item item' h
  exact ⟨rfl, List.append_cancel_left h⟩

theorem Written.text_ne_nil (w : Written) : w.text ≠ [] := by
  obtain ⟨text, value, item⟩ := w
  cases item <;> simp

/-- A text is written as one sequence of items at most. -/
theorem spelling_injective : Function.Injective spelling := by
  intro ws ws' h
  induction ws generalizing ws' with
  | nil =>
    cases ws' with
    | nil => rfl
    | cons w' ws' => exact absurd (List.append_eq_nil_iff.mp h.symm).1 w'.text_ne_nil
  | cons w ws ih =>
    cases ws' with
    | nil => exact absurd (List.append_eq_nil_iff.mp h).1 w.text_ne_nil
    | cons w' ws' =>
      obtain ⟨rfl, htail⟩ := written_unique h
      rw [ih htail]

theorem mark_injective : Function.Injective Quote.mark := by
  intro q q' h
  cases q <;> cases q' <;> first | rfl | cases h

theorem quoted_unique (h : quoted q ws = quoted q' ws') : q = q' ∧ ws = ws' := by
  obtain ⟨hmark, htail⟩ := List.cons.inj h
  obtain rfl := mark_injective hmark
  exact ⟨rfl, spelling_injective (List.append_cancel_right htail)⟩

/-! ## Every text has items or a defect -/

theorem broken_or_exists_codePoint (text : List Char) :
    Broken ('\\' :: 'u' :: text) ∨ ∃ (w : Written) (rest : List Char), '\\' :: 'u' :: text = w.text ++ rest := by
  by_cases hopen : text.head? = some '{'
  · obtain ⟨text, rfl⟩ := List.head?_eq_some_iff.mp hopen
    by_cases hclose : '}' ∈ text
    · obtain ⟨digits, rest, rfl, hd⟩ := List.eq_append_cons_of_mem hclose
      by_cases hvalue : ∃ value, CodePoint digits value
      · obtain ⟨value, hvalue⟩ := hvalue
        exact .inr ⟨⟨_, value, .codePoint hvalue⟩, rest, by simp⟩
      · exact .inl (.nameless hd (not_exists.mp hvalue))
    · exact .inl (.unclosed hclose)
  · exact .inl (.unopened hopen)

theorem broken_or_exists_item (c : Char) (text : List Char) :
    Broken (c :: text) ∨ ∃ (w : Written) (rest : List Char), c :: text = w.text ++ rest := by
  by_cases hc : c = '\\'
  · subst hc
    cases text with
    | nil => exact .inl .backslash
    | cons letter text =>
      by_cases hu : letter = 'u'
      · subst hu
        exact broken_or_exists_codePoint text
      · by_cases hvalue : ∃ value, (letter, value) ∈ letterValues
        · obtain ⟨value, hvalue⟩ := hvalue
          exact .inr ⟨⟨_, value, .simple hvalue⟩, text, rfl⟩
        · exact .inl (.letter hu (not_exists.mp hvalue))
  · exact .inr ⟨⟨_, c, .raw hc⟩, text, rfl⟩

/-- Items lead to the end of a text or to where it is broken. -/
theorem exists_spelling (text : List Char) :
    ∃ ws rest, text = spelling ws ++ rest ∧ (rest = [] ∨ Broken rest) := by
  induction hn : text.length using Nat.strongRecOn generalizing text with
  | ind n ih =>
    cases text with
    | nil => exact ⟨[], [], rfl, .inl rfl⟩
    | cons c text =>
      rcases broken_or_exists_item c text with hbroken | ⟨w, tail, htext⟩
      · exact ⟨[], c :: text, rfl, .inr hbroken⟩
      · have hlt : tail.length < n := by
          have hpos := List.length_pos_iff.mpr w.text_ne_nil
          rw [htext, List.length_append] at hn
          omega
        obtain ⟨ws, rest, rfl, hrest⟩ := ih tail.length hlt tail rfl
        exact ⟨w :: ws, rest, by rw [htext, spelling_cons, List.append_assoc], hrest⟩

theorem quoted_or_malformed (text : List Char) : (∃ q ws, text = quoted q ws) ∨ Malformed text := by
  by_cases hmark : ∃ q : Quote, text.head? = some q.mark
  · obtain ⟨q, hmark⟩ := hmark
    obtain ⟨text, rfl⟩ := List.head?_eq_some_iff.mp hmark
    rcases List.eq_nil_or_concat text with rfl | ⟨body, last, rfl⟩
    · exact .inr (.lone q)
    · rw [List.concat_eq_append]
      by_cases hlast : last = q.mark
      · subst hlast
        obtain ⟨ws, rest, rfl, rfl | hbroken⟩ := exists_spelling body
        · exact .inl ⟨q, ws, by rw [List.append_nil, quoted]⟩
        · exact .inr (.broken ws hbroken)
      · exact .inr (.unclosed hlast)
  · exact .inr (.unquoted (not_exists.mp hmark))

/-! ## Decoding -/

theorem unescape?_spelling (ws : List Written) (rest : List Char) :
    unescape? (spelling ws ++ rest) = (unescape? rest).map (ws.map Written.value ++ ·) := by
  induction ws with
  | nil => cases h : unescape? rest <;> simp [spelling, h]
  | cons w ws ih =>
    rw [spelling_cons, List.append_assoc, unescape?_item w.item, ih, Option.map_map]
    rfl

theorem unescape?_of_broken (h : Broken rest) : unescape? rest = none := by
  cases h with
  | backslash => rw [unescape?]
  | @letter letter text hu h =>
    rw [unescape?, simple?_eq_none_iff.mpr h]
    · rfl
    · simp [hu]
  | @unopened text h =>
    rw [unescape?]
    · rfl
    · rintro tail - rfl
      exact h rfl
  | @unclosed text h =>
    have hdrop : (text ++ []).dropWhile (· != '}') = [] := List.dropWhile_append_of_pos (bne_brace h)
    rw [List.append_nil] at hdrop
    rw [unescape?]
    split
    · rfl
    · rename_i h'
      rw [hdrop] at h'
      cases h'
  | nameless hd h =>
    rw [unescape?_braced hd, ofHex?_eq_none_iff.mpr h]
    rfl

theorem decode?_of_quoted {lexeme : String} (h : lexeme.toList = quoted q ws) :
    decode? lexeme = some (String.ofList (ws.map Written.value)) := by
  have hbody := unescape?_spelling ws []
  rw [List.append_nil, unescape?] at hbody
  rw [decode?_quoted h, hbody]
  simp

theorem decode?_of_malformed {lexeme : String} (h : Malformed lexeme.toList) : decode? lexeme = none := by
  generalize htext : lexeme.toList = text at h
  cases h with
  | unquoted h =>
    rw [decode?, htext]
    split
    · rfl
    · rename_i mark text
      have hmark : ¬ (Quote.ofMark? mark).isSome := by
        intro hsome
        obtain ⟨q, hq⟩ := Option.isSome_iff_exists.mp hsome
        exact h q (congrArg some (Quote.ofMark?_eq_some_iff.mp hq))
      rw [if_neg (fun hboth => hmark hboth.1)]
  | lone q => simp [decode?, htext]
  | @unclosed q text last h => simp [decode?, htext, h]
  | broken ws h =>
    rw [decode?_quoted htext, unescape?_spelling, unescape?_of_broken h]
    rfl

/-- A text decodes exactly when it is a sequence of items in quotes, and to what the items
stand for, one character for each. There is only one such sequence. All other texts are
malformed. -/
theorem decode_exact (lexeme : String) :
    (∀ value, decode? lexeme = some value ↔
      ∃ q ws, lexeme.toList = quoted q ws ∧ value.toList = ws.map Written.value) ∧
    (∀ q ws q' ws', lexeme.toList = quoted q ws → lexeme.toList = quoted q' ws' → q = q' ∧ ws = ws') ∧
    (decode? lexeme = none ↔ Malformed lexeme.toList) ∧
    ∀ letter value, Escape.simple? letter = some value ↔ (letter, value) ∈ letterValues := by
  refine ⟨?_, ?_, ⟨?_, decode?_of_malformed⟩, fun _ _ => simple?_eq_some_iff⟩
  · intro value
    constructor
    · intro h
      rcases quoted_or_malformed lexeme.toList with ⟨q, ws, hquoted⟩ | hmalformed
      · rw [decode?_of_quoted hquoted] at h
        obtain rfl := Option.some.inj h
        exact ⟨q, ws, hquoted, String.toList_ofList⟩
      · rw [decode?_of_malformed hmalformed] at h
        cases h
    · rintro ⟨q, ws, hquoted, hvalue⟩
      rw [decode?_of_quoted hquoted, ← hvalue, String.ofList_toList]
  · intro q ws q' ws' h h'
    exact quoted_unique (h.symm.trans h')
  · intro h
    rcases quoted_or_malformed lexeme.toList with ⟨q, ws, hquoted⟩ | hmalformed
    · rw [decode?_of_quoted hquoted] at h
      cases h
    · exact hmalformed

/-- The quotes come off before any escape is read, so nothing is left for this backslash. -/
example : decode? "\"\\\"" = none := by cbv

end NodLexis.Literal
