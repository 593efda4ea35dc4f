import NodLexis.Proofs.TokenRuns

/-! # Runs through literals

How a ready scanner gets through the items of a literal and through its closing
mark, and how it fails at the end of the text, in an escape and at the end of a
character literal. An item is one step, or two when a backslash opens it.
-/

namespace NodLexis.Scanner
open CharacterClass Grammar Defect

variable {s : Scanner} {r : Mode} {n : Nat} {q : Quote} {text rest : List Char} {c : Char}

/-! ## Reading an escape -/

private theorem read_simple {value : Char} (h : Escape.simple? c = some value) (text : List Char) :
    Escape.read (c :: text) = .complete value 1 := by
  have hu : c ≠ 'u' := by
    rintro rfl
    cases h
  simp [Escape.read, hu, h]

private theorem read_unknown (hu : c ≠ 'u') (h : Escape.simple? c = none) (text : List Char) :
    Escape.read (c :: text) = .unknown c := by
  simp [Escape.read, hu, h]

private theorem read_noBrace (h : c ≠ '{') (text : List Char) :
    Escape.read ('u' :: c :: text) = .malformed [c] 1 := by
  simp [Escape.read]

private theorem hexDigits_append {ds : List Char} (short : ds.length ≤ 6)
    (hex : ∀ d ∈ ds, isHexDigit d = true) (stop : ds.length = 6 ∨ Barred isHexDigit rest) :
    ((ds ++ rest).take Escape.maxHexDigits).takeWhile isHexDigit = ds := by
  have htail : (rest.take (Escape.maxHexDigits - ds.length)).takeWhile isHexDigit = [] := by
    rcases stop with hl | hb
    · simp [Escape.maxHexDigits, hl]
    · cases rest with
      | nil => simp
      | cons c rest =>
        cases Escape.maxHexDigits - ds.length with
        | zero => simp
        | succ k => simp [barred_cons.mp hb]
  rw [List.take_append, List.take_of_length_le (by simpa [Escape.maxHexDigits] using short),
    List.takeWhile_append_of_pos hex, htail, List.append_nil]

section digits
variable {ds : List Char} (short : ds.length ≤ 6) (hex : ∀ d ∈ ds, isHexDigit d = true)
include short hex

private theorem read_cut : Escape.read ('u' :: '{' :: ds) = .cut (ds.length + 2) := by
  have hd : ((ds ++ []).take Escape.maxHexDigits).takeWhile isHexDigit = ds :=
    hexDigits_append short hex (.inr barred_nil)
  rw [List.append_nil] at hd
  simp [Escape.read, Escape.readDigits, hd]

private theorem read_offender (hc : c ≠ '}') (stop : ds.length = 6 ∨ isHexDigit c = false) :
    Escape.read ('u' :: '{' :: (ds ++ c :: rest)) = .malformed ('{' :: (ds ++ [c])) (ds.length + 2) := by
  have hb : ds.length = 6 ∨ Barred isHexDigit (c :: rest) := stop.imp_right fun h => barred_cons.mpr h
  simp [Escape.read, Escape.readDigits, hexDigits_append short hex hb]

private theorem read_closed (rest : List Char) :
    Escape.read ('u' :: '{' :: (ds ++ '}' :: rest)) =
      ((Escape.ofHex? ds).map fun value => .complete value (ds.length + 3)).getD
        (.malformed ('{' :: (ds ++ ['}'])) (ds.length + 2)) := by
  have hb : Barred isHexDigit ('}' :: rest) := barred_cons.mpr rfl
  simp only [Escape.read, Escape.readDigits, hexDigits_append short hex (.inr hb), List.drop_left]
  cases Escape.ofHex? ds <;> rfl

end digits

theorem escape_of_item {s : List Char} {value : Char} (h : Item (Plain q) ('\\' :: s) value)
    (resume : Mode) : Move.escape q resume (s ++ rest) = .item s.length resume := by
  cases h with
  | raw h => exact absurd rfl h.2
  | simple h =>
    rw [Move.escape, List.singleton_append, read_simple (Literal.simple?_eq_some_iff.mpr h)]
    rfl
  | @codePoint digits value h =>
    have hread := read_closed h.short h.hex rest
    rw [ofHex?_eq_some_iff.mpr h] at hread
    simp [Move.escape, hread]

theorem escape_of_badEscape {s : List Char} {cause : Cause} (h : BadEscape s rest cause)
    (resume : Mode) : Move.escape q resume (s ++ rest) = .fail s.length cause (.escape q) := by
  cases h with
  | unfinished h =>
    cases h with
    | backslash => rfl
    | letter => rfl
    | digits short hex => simp [Move.escape, read_cut short hex]
  | letter hu h =>
    rw [Move.escape, List.nil_append, read_unknown hu (Literal.simple?_eq_none_iff.mpr h)]
    rfl
  | brace h => simp [Move.escape, read_noBrace h]
  | digit short hex hc stop => simp [Move.escape, read_offender short hex hc stop]
  | @value ds rest short hex h =>
    have hread := read_closed short hex rest
    rw [ofHex?_eq_none_iff.mpr h] at hread
    simp [Move.escape, hread]

/-! ## Items -/

theorem goes_item {mode m : Mode} (more : List Char)
    (h : ((s.noting r n).reading mode text (more ++ rest)).move = .item more.length m) :
    ((s.noting r n).reading mode text (more ++ rest)).Goes
      ((s.noting r (n + 1)).reading m (text ++ more) rest) := by
  simp only [Goes, step, h, perform, takeMany_reading]
  rfl

theorem goes_backslash :
    ((s.noting r n).reading (.literal q) text ('\\' :: rest)).Goes
      ((s.noting (.literal q) n).reading (.escape q) (text ++ ['\\']) rest) := by
  have h : ((s.noting r n).reading (.literal q) text ('\\' :: rest)).move = .backslash (.escape q) := by
    cases q <;> rfl
  simp only [Goes, step, h, perform]
  simp only [take, reading, noting, push_ofList, Place.after_append]
  rfl

theorem steps_item {item : List Char} {value : Char} (h : Item (Plain q) item value) (s : Scanner)
    (r : Mode) (n : Nat) (text rest : List Char) :
    ∃ r', Steps ((s.noting r n).reading (.literal q) text (item ++ rest))
      ((s.noting r' (n + 1)).reading (.literal q) (text ++ item) rest) := by
  have escaped {tail : List Char} (h : Item (Plain q) ('\\' :: tail) value) :
      ∃ r', Steps ((s.noting r n).reading (.literal q) text ('\\' :: (tail ++ rest)))
        ((s.noting r' (n + 1)).reading (.literal q) (text ++ '\\' :: tail) rest) := by
    have hitem : ((s.noting (.literal q) n).reading (.escape q) (text ++ ['\\']) (tail ++ rest)).Goes
        ((s.noting (.literal q) (n + 1)).reading (.literal q) (text ++ ['\\'] ++ tail) rest) :=
      goes_item tail (escape_of_item h (.literal q))
    rw [List.append_assoc] at hitem
    exact ⟨.literal q, .head goes_backslash (.single hitem)⟩
  cases h with
  | raw h =>
    refine ⟨r, .single (goes_item [value] ?_)⟩
    simp [move, reading, noting, Move.literal, h.1, h.2]
  | simple h => exact escaped (.simple h)
  | codePoint h => exact escaped (.codePoint h)

theorem steps_items {body values : List Char} (h : Items (Plain q) body values) (s : Scanner)
    (r : Mode) (n : Nat) (text rest : List Char) :
    ∃ r', Steps ((s.noting r n).reading (.literal q) text (body ++ rest))
      ((s.noting r' (n + values.length)).reading (.literal q) (text ++ body) rest) := by
  induction h generalizing r n text with
  | nil => exact ⟨r, by simpa using Relation.ReflTransGen.refl⟩
  | @cons item body values value head tail ih =>
    obtain ⟨r₁, h₁⟩ := steps_item head s r n text (body ++ rest)
    obtain ⟨r₂, h₂⟩ := ih r₁ (n + 1) (text ++ item)
    refine ⟨r₂, ?_⟩
    rw [List.append_assoc, List.length_cons, Nat.add_comm values.length, ← Nat.add_assoc]
    rw [List.append_assoc] at h₂
    exact h₁.trans h₂

/-- A ready scanner reads the opening mark and all items after it. -/
theorem steps_body {body values : List Char} (hs : s.Ready)
    (hr : s.rest = q.mark :: (body ++ rest)) (h : Items (Plain q) body values) :
    ∃ r, Steps s ((s.noting r values.length).reading (.literal q) (q.mark :: body) rest) := by
  have hopen : s.Goes (s.reading (.literal q) [q.mark] (body ++ rest)) := goes_open hs hr (opening_mark q)
  obtain ⟨r, hbody⟩ := steps_items h s s.resume 0 [q.mark] rest
  rw [noting_self hs.items_eq, Nat.zero_add] at hbody
  exact ⟨r, .head hopen hbody⟩

/-! ## Endings -/

theorem emits_literal {body values : List Char} {kind : TokenKind} (hs : s.Ready)
    (hr : s.rest = q.mark :: (body ++ q.mark :: rest)) (h : Items (Plain q) body values)
    (hk : ∀ pending, Move.closing q pending values.length = .closeOn kind) :
    s.Emits kind (q.mark :: (body ++ [q.mark])) rest := by
  obtain ⟨r, hbody⟩ := steps_body hs hr h
  have hm : ((s.noting r values.length).reading (.literal q) (q.mark :: body) (q.mark :: rest)).move =
      .closeOn kind := by
    have hq : q.mark ≠ '\\' := by cases q <;> decide
    simp [move, reading, noting, Move.literal, hq, hk]
  exact ⟨r, hbody.tail (goes_closeOn (s := s.noting r values.length) hs.start_eq hm)⟩

theorem fails_openLiteral {body values : List Char} (hs : s.Ready) (hr : s.rest = q.mark :: body)
    (h : Items (Plain q) body values) :
    s.Fails (q.mark :: body) [] (.earlyEof q.context) (.literal q) := by
  rw [← List.append_nil body] at hr
  obtain ⟨r, hbody⟩ := steps_body hs hr h
  have hm : ((s.noting r values.length).reading (.literal q) (q.mark :: body) ([] ++ [])).move =
      .fail 0 (.earlyEof q.context) (.literal q) := rfl
  have hf := step_fail [] hm
  simp only [List.append_nil] at hf
  exact ⟨_, r, values.length, hbody, hf⟩

theorem fails_escape {body values read : List Char} {cause : Cause} (hs : s.Ready)
    (hr : s.rest = q.mark :: (body ++ '\\' :: (read ++ rest))) (h : Items (Plain q) body values)
    (hb : BadEscape read rest cause) :
    s.Fails (q.mark :: (body ++ '\\' :: read)) rest cause (.escape q) := by
  obtain ⟨r, hbody⟩ := steps_body hs hr h
  have hm : ((s.noting (.literal q) values.length).reading (.escape q) (q.mark :: body ++ ['\\'])
      (read ++ rest)).move = .fail read.length cause (.escape q) := escape_of_badEscape hb (.literal q)
  have hf := step_fail read hm
  rw [List.append_assoc] at hf
  exact ⟨_, .literal q, values.length, hbody.tail goes_backslash, hf⟩

theorem fails_charLiteral {body values : List Char} (hs : s.Ready)
    (hr : s.rest = '\'' :: (body ++ '\'' :: rest)) (h : Items (Plain .single) body values)
    (hn : values.length ≠ 1) :
    s.Fails ('\'' :: (body ++ ['\''])) rest
      (.badCharLiteral (String.ofList ('\'' :: (body ++ ['\''])))) .error := by
  obtain ⟨r, hbody⟩ := steps_body (q := .single) hs hr h
  have hm : ((s.noting r values.length).reading (.literal .single) ('\'' :: body) (['\''] ++ rest)).move =
      .fail 1 (.badCharLiteral (String.ofList ('\'' :: (body ++ ['\''])))) .error := by
    rw [← List.cons_append, ← push_ofList]
    simp [move, reading, noting, Move.literal, Move.closing, Quote.mark, hn]
  exact ⟨_, r, values.length, hbody, step_fail ['\''] hm⟩

end NodLexis.Scanner
