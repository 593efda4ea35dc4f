import NodLexis.Proofs.LiteralDecoding
import NodLexis.Proofs.Restart
import NodLexis.Proofs.Termination

/-! # The text that is pending in a mode

In each mode the pending text has a form of its own, and it becomes the lexeme of a token only
from a form that makes it one. Outside of literals no failure leaves a scanner that goes on, so
the form is kept by all calls. Behind a wrong escape a literal may go on with what is no
sequence of items any more. As long as no call has failed, it is one, and its items are counted.
-/

namespace NodLexis
open CharacterClass Grammar Defect SourceText

namespace Mode

/-- The form of a text that is pending in a mode, in front of the text ahead. Of a literal only
the opening mark is told. -/
def Pends : Mode → List Char → List Char → Prop
  | .between, text, _ => text = []
  | .newLine, text, _ => text = []
  | .integer, text, _ => Digits text
  | .float, text, rest => ∃ whole fraction, text = whole ++ '.' :: fraction ∧ Digits whole ∧
      (∀ c ∈ fraction, c.isDigit = true) ∧
      (fraction = [] → ∃ c tail, rest = c :: tail ∧ c.isDigit = true)
  | .literal q, text, _ => ∃ body, text = q.mark :: body
  | .escape q, text, _ => ∃ body, text = q.mark :: body
  | .identifier, text, _ => Word text ∧ text ≠ ['_']
  | .underscore, text, _ => text = ['_']
  | .dollar, text, _ => ∃ digits, text = '$' :: digits ∧ ∀ c ∈ digits, c.isDigit = true
  | .operator, text, _ => Symbols text
  | .dot, text, _ => text = ['.']
  | .doubleDot, text, _ => text = ['.', '.']
  | .error, _, _ => True
  | .eof, _, _ => True

theorem pends_of_isBetween {next : Mode} (h : next.isBetween = true) (rest : List Char) : next.Pends [] rest := by
  cases next with
  | between | newLine => rfl
  | _ => cases h

/-- The items of a text that is pending in a mode, as long as no call has failed. -/
def Counts : Mode → List Char → Nat → Prop
  | .between, _, n => n = 0
  | .newLine, _, n => n = 0
  | .literal q, text, n => ∃ body values, text = q.mark :: body ∧ Items (Plain q) body values ∧ n = values.length
  | .escape q, text, n => ∃ body values, text = q.mark :: (body ++ ['\\']) ∧ Items (Plain q) body values ∧
      n = values.length
  | _, _, _ => True

theorem counts_of_isBetween {next : Mode} (h : next.isBetween = true) (text : List Char) : next.Counts text 0 := by
  cases next with
  | between | newLine => rfl
  | _ => cases h

end Mode

/-- The texts of tokens of a kind, after any calls. A literal may have something else than items
between its marks. -/
inductive Found : TokenKind → List Char → Prop where
  | lexeme {kind : TokenKind} {text : List Char} (h : Lexeme kind text) : Found kind text
  | literal (q : Quote) (body : List Char) : Found (Literal.kindOf q) (q.mark :: (body ++ [q.mark]))

variable {text rest : List Char} {c : Char} {q : Quote} {n : Nat}

theorem Grammar.Digits.concat (h : Digits text) (hc : c.isDigit = true) : Digits (text ++ [c]) := by
  refine ⟨by simp, ?_⟩
  exact forall_mem_concat h.2 hc

theorem Grammar.Symbols.concat (h : Symbols text) (hc : isOperatorSymbol c = true) : Symbols (text ++ [c]) := by
  refine ⟨by simp, ?_⟩
  exact forall_mem_concat h.2 hc

theorem Grammar.Word.concat (h : Word text) (hc : isWordChar c = true) : Word (text ++ [c]) := by
  cases text with
  | nil => exact h.elim
  | cons d text => exact ⟨h.1, forall_mem_concat h.2 hc⟩

theorem Grammar.Items.append {Raw : Char → Prop} {body values item : List Char} {value : Char}
    (h : Items Raw body values) (hi : Item Raw item value) : Items Raw (body ++ item) (values ++ [value]) := by
  induction h with
  | nil =>
    have hone := Items.cons hi .nil
    rwa [List.append_nil] at hone
  | cons head _ ih =>
    rw [List.append_assoc]
    exact .cons head ih

namespace Move

/-- A move that leaves a text pending in a form of the mode that it leads to, or closes a token
on a text of the right kind. -/
def Fits (text rest : List Char) : Move → Prop
  | .stop | .halt => True
  | .skip next => next.isBetween = true ∧ text = []
  | .extend next => ∃ c tail, rest = c :: tail ∧ next.Pends (text ++ [c]) tail
  | .close kind => Found kind text
  | .closeOn kind => ∃ c tail, rest = c :: tail ∧ Found kind (text ++ [c])
  | .item _ next | .backslash next => ∃ q, (next = .literal q ∨ next = .escape q) ∧ ∃ body, text = q.mark :: body
  | .fail _ _ next =>
    next = .error ∨ ∃ q, (next = .literal q ∨ next = .escape q) ∧ ∃ body, text = q.mark :: body

theorem fits_opening : (opening rest).Fits [] rest := by
  cases rest with
  | nil => trivial
  | cons c rest =>
    simp only [opening]
    split
    · exact ⟨rfl, rfl⟩
    split
    · exact ⟨rfl, rfl⟩
    split
    · rename_i hc
      exact ⟨c, rest, rfl, by simp, List.forall_mem_singleton.mpr hc⟩
    split
    · rename_i hc
      exact ⟨c, rest, rfl, by rw [hc]; rfl⟩
    split
    · rename_i hu ha
      exact ⟨c, rest, rfl, ⟨by simp [isWordStart, ha], by simp⟩, by simpa using hu⟩
    split
    · rename_i hc
      exact ⟨c, rest, rfl, [], by rw [hc]; rfl, by simp⟩
    split
    · rename_i hc
      exact ⟨c, rest, rfl, by rw [hc]; rfl⟩
    split
    · rename_i hc
      exact ⟨c, rest, rfl, by simp, List.forall_mem_singleton.mpr hc⟩
    split
    · rename_i q hq
      rw [Quote.ofMark?_eq_some_iff] at hq
      exact ⟨c, rest, rfl, [], by rw [hq]; rfl⟩
    · rename_i p _ hp
      refine ⟨c, rest, rfl, .lexeme ?_⟩
      rw [List.nil_append, ← Punctuation.symbol_of_ofChar? hp]
      exact .punctuation p
    · exact .inl rfl

theorem fits_integer {pending : String} (h : Digits text) : (integer pending rest).Fits text rest := by
  cases rest with
  | nil => exact .lexeme (.intLiteral h)
  | cons c rest =>
    simp only [integer]
    split
    · rename_i hc
      exact ⟨c, rest, rfl, h.concat hc⟩
    split
    · rename_i hdot
      obtain ⟨rfl, hd⟩ := hdot
      refine ⟨'.', rest, rfl, text, [], rfl, h, by simp, ?_⟩
      intro _
      cases rest with
      | nil => cases hd
      | cons d tail => exact ⟨d, tail, rfl, hd⟩
    split
    · exact .inl rfl
    · exact .lexeme (.intLiteral h)

/-- A digit that has to come cannot be missing where the number ends. -/
theorem found_float (h : Mode.float.Pends text rest) (hrest : Barred Char.isDigit rest) :
    Found .floatLiteral text := by
  obtain ⟨whole, fraction, rfl, hwhole, hfraction, hahead⟩ := h
  refine .lexeme (.floatLiteral hwhole ⟨?_, hfraction⟩)
  intro hnil
  obtain ⟨c, tail, rfl, hc⟩ := hahead hnil
  rw [barred_cons.mp hrest] at hc
  cases hc

theorem fits_float {pending : String} (h : Mode.float.Pends text rest) : (float pending rest).Fits text rest := by
  cases rest with
  | nil => exact found_float h barred_nil
  | cons c rest =>
    simp only [float]
    split
    · rename_i hc
      obtain ⟨whole, fraction, rfl, hwhole, hfraction, -⟩ := h
      refine ⟨c, rest, rfl, whole, fraction ++ [c], by simp, hwhole, ?_, by simp⟩
      exact forall_mem_concat hfraction hc
    split
    · exact .inl rfl
    · rename_i hc _
      exact found_float h (barred_cons.mpr (by simpa using hc))

theorem fits_underscore : (underscore rest).Fits ['_'] rest := by
  cases rest with
  | nil => exact .lexeme .underscore
  | cons c rest =>
    simp only [underscore]
    split
    · rename_i hc
      exact ⟨c, rest, rfl, ⟨rfl, List.forall_mem_singleton.mpr hc⟩, by simp⟩
    · exact .lexeme .underscore

theorem fits_identifier (h : Word text) (hu : text ≠ ['_']) :
    (identifier (String.ofList text) rest).Fits text rest := by
  cases rest with
  | nil => exact .lexeme (lexeme_ofWord h hu)
  | cons c rest =>
    simp only [identifier]
    split
    · rename_i hc
      refine ⟨c, rest, rfl, h.concat hc, ?_⟩
      intro hone
      cases text with
      | nil => exact h
      | cons d text => simp at hone
    · exact .lexeme (lexeme_ofWord h hu)

theorem fits_dollarEnd {digits : List Char} (h : ∀ c ∈ digits, c.isDigit = true) :
    (dollarEnd (String.ofList ('$' :: digits))).Fits ('$' :: digits) rest := by
  rw [dollarEnd]
  split
  · exact .inl rfl
  · rename_i hne
    refine .lexeme (.lambdaArg ⟨?_, h⟩)
    rintro rfl
    exact hne rfl

theorem fits_dollar {digits : List Char} (h : ∀ c ∈ digits, c.isDigit = true) :
    (dollar (String.ofList ('$' :: digits)) rest).Fits ('$' :: digits) rest := by
  cases rest with
  | nil => exact fits_dollarEnd h
  | cons c rest =>
    simp only [dollar]
    split
    · rename_i hc
      exact ⟨c, rest, rfl, digits ++ [c], rfl, forall_mem_concat h hc⟩
    split
    · exact .inl rfl
    · exact fits_dollarEnd h

theorem fits_operator (h : Symbols text) : (operator (String.ofList text) rest).Fits text rest := by
  cases rest with
  | nil => exact .lexeme (lexeme_ofSymbol h)
  | cons c rest =>
    simp only [operator]
    split
    · rename_i hc
      exact ⟨c, rest, rfl, h.concat hc⟩
    · exact .lexeme (lexeme_ofSymbol h)

theorem fits_dot : (dot rest).Fits ['.'] rest := by
  rw [dot.eq_def]
  split
  · exact ⟨_, _, rfl, rfl⟩
  · exact .lexeme (.punctuation .dot)

theorem fits_doubleDot : (doubleDot rest).Fits ['.', '.'] rest := by
  rw [doubleDot.eq_def]
  split
  · exact ⟨_, _, rfl, .lexeme (.punctuation .doubleDotLess)⟩
  · exact .lexeme (.punctuation .doubleDot)

theorem fits_literal {pending : String} {items : Nat} {body : List Char} :
    (literal q pending items rest).Fits (q.mark :: body) rest := by
  cases rest with
  | nil => exact .inr ⟨q, .inl rfl, body, rfl⟩
  | cons c rest =>
    simp only [literal]
    split
    · exact ⟨q, .inr rfl, body, rfl⟩
    split
    · rename_i hc
      have hfound : Found (Literal.kindOf q) (q.mark :: body ++ [c]) := by
        rw [hc]
        exact .literal q body
      cases q with
      | double => exact ⟨c, rest, rfl, hfound⟩
      | single =>
        simp only [closing]
        split
        · exact ⟨c, rest, rfl, hfound⟩
        · exact .inl rfl
    · exact ⟨q, .inl rfl, body, rfl⟩

theorem fits_escape {body : List Char} : (escape q (.literal q) rest).Fits (q.mark :: body) rest := by
  rw [escape]
  split
  · exact ⟨q, .inl rfl, body, rfl⟩
  all_goals exact .inr ⟨q, .inr rfl, body, rfl⟩

/-! ## Items -/

/-- A move that counts the items of the pending text, if it does not fail. -/
def Tallies (text rest : List Char) (items : Nat) : Move → Prop
  | .skip next => next.isBetween = true ∧ items = 0
  | .extend next | .backslash next => next.Counts (text ++ rest.take 1) items
  | .item width next => next.Counts (text ++ rest.take width) (items + 1)
  | _ => True

theorem tallies_opening : (opening rest).Tallies [] rest 0 := by
  cases rest with
  | nil => trivial
  | cons c rest =>
    simp only [opening]
    iterate 2
      split
      · exact ⟨rfl, rfl⟩
    -- Six classes of characters begin a token that has no items.
    iterate 6
      split
      · trivial
    split
    · rename_i q hq
      rw [Quote.ofMark?_eq_some_iff] at hq
      exact ⟨[], [], by rw [hq]; rfl, .nil, rfl⟩
    all_goals trivial

theorem tallies_literal {pending : String} (h : (Mode.literal q).Counts text n) (items : Nat) :
    (literal q pending items rest).Tallies text rest n := by
  obtain ⟨body, values, rfl, hitems, rfl⟩ := h
  cases rest with
  | nil => trivial
  | cons c rest =>
    simp only [literal]
    split
    · rename_i hc
      exact ⟨body, values, by rw [hc]; rfl, hitems, rfl⟩
    split
    · rw [closing.eq_def]
      repeat' split
      all_goals trivial
    · rename_i hc hq
      exact ⟨body ++ [c], values ++ [c], rfl, hitems.append (.raw ⟨hq, hc⟩), by simp⟩

theorem tallies_escape (h : (Mode.escape q).Counts text n) :
    (escape q (.literal q) rest).Tallies text rest n := by
  obtain ⟨body, values, rfl, hitems, rfl⟩ := h
  rcases item_or_badEscape (Plain q) rest with ⟨item, rest, value, rfl, hi⟩ | ⟨read, rest, cause, rfl, hb⟩
  · rw [Scanner.escape_of_item hi, Tallies, List.take_left]
    exact ⟨body ++ '\\' :: item, values ++ [value], by simp, hitems.append hi, by simp⟩
  · rw [Scanner.escape_of_badEscape hb]
    trivial

end Move

namespace Scanner

variable {s t : Scanner}

/-! ## The form of the pending text -/

/-- The pending text has the form of the mode, and the tokens have texts of their kinds. -/
structure Shaped (s : Scanner) : Prop where
  pending : s.mode.Pends s.pending.toList s.rest
  tokens : ∀ t ∈ s.tokens.toList, Found t.kind t.lexeme.toList

theorem shaped_ofSource (source : String) (file? : Option String) : (ofSource source file?).Shaped :=
  ⟨rfl, List.forall_mem_nil _⟩

theorem fits_move (hs : s.Settled) (h : s.mode.Pends s.pending.toList s.rest) :
    s.move.Fits s.pending.toList s.rest := by
  have hpending : s.pending = String.ofList s.pending.toList := String.ofList_toList.symm
  generalize s.pending.toList = text at h hpending
  cases hm : s.mode <;> rw [hm] at h <;> simp only [move, hm, hpending]
  case between | newLine =>
    obtain rfl : text = [] := h
    exact Move.fits_opening
  case integer => exact Move.fits_integer h
  case float => exact Move.fits_float h
  case underscore =>
    obtain rfl : text = ['_'] := h
    exact Move.fits_underscore
  case identifier => exact Move.fits_identifier h.1 h.2
  case dollar =>
    obtain ⟨digits, rfl, hdigits⟩ := h
    exact Move.fits_dollar hdigits
  case operator => exact Move.fits_operator h
  case dot =>
    obtain rfl : text = ['.'] := h
    exact Move.fits_dot
  case doubleDot =>
    obtain rfl : text = ['.', '.'] := h
    exact Move.fits_doubleDot
  case literal q =>
    obtain ⟨body, rfl⟩ := h
    exact Move.fits_literal
  case escape q =>
    obtain ⟨body, rfl⟩ := h
    rw [hs.resume q hm]
    exact Move.fits_escape
  case error | eof => trivial

theorem toList_pending_takeMany (n : Nat) (s : Scanner) :
    (s.takeMany n).pending.toList = s.pending.toList ++ s.rest.take n := by
  rw [takeMany_eq, String.toList_append, String.toList_ofList]

theorem toList_pending_take (hr : s.rest = c :: rest) : s.take.pending.toList = s.pending.toList ++ [c] := by
  rw [take, hr, String.toList_push]

theorem pending_skip (s : Scanner) : s.skip.pending = s.pending := by
  rw [skip]
  split <;> rfl

/-- Of a literal only the mark is told, so whatever is added to its text does not matter. -/
theorem Shaped.opened {next : Mode} (h : s.Shaped)
    (hnext : ∃ q, (next = .literal q ∨ next = .escape q) ∧ ∃ body, s.pending.toList = q.mark :: body)
    (n : Nat) (resume : Mode) (items : Nat) :
    Shaped { s.takeMany n with mode := next, resume, items } := by
  obtain ⟨q, hq, body, hbody⟩ := hnext
  have hpending : ∃ body, (s.takeMany n).pending.toList = q.mark :: body :=
    ⟨body ++ s.rest.take n, by rw [toList_pending_takeMany, hbody, List.cons_append]⟩
  refine ⟨?_, ?_⟩
  · rcases hq with rfl | rfl <;> exact hpending
  · rw [tokens_takeMany]
    exact h.tokens

theorem Shaped.emit {kind : TokenKind} (h : ∀ t ∈ s.tokens.toList, Found t.kind t.lexeme.toList)
    (hfound : Found kind s.pending.toList) : (s.emit kind).Shaped := by
  refine ⟨rfl, ?_⟩
  rw [Scanner.emit, Array.toList_push]
  exact forall_mem_concat h hfound

theorem shaped_perform {m : Move} (h : s.Shaped) (hm : m.Fits s.pending.toList s.rest) :
    (s.perform m).1.Shaped := by
  cases m with
  | stop => exact ⟨trivial, h.tokens⟩
  | halt => exact h
  | skip next =>
    obtain ⟨hnext, hidle⟩ := hm
    refine ⟨?_, ?_⟩
    · rw [perform, pending_skip, hidle]
      exact Mode.pends_of_isBetween hnext _
    · rw [perform, tokens_skip]
      exact h.tokens
  | extend next =>
    obtain ⟨c, tail, hr, hpends⟩ := hm
    refine ⟨?_, ?_⟩
    · rw [perform, toList_pending_take hr, rest_take, hr]
      exact hpends
    · exact (tokens_takeMany 1 s).symm ▸ h.tokens
  | close kind => exact .emit h.tokens hm
  | closeOn kind =>
    obtain ⟨c, tail, hr, hfound⟩ := hm
    rw [← toList_pending_take hr] at hfound
    exact .emit ((tokens_takeMany 1 s).symm ▸ h.tokens) hfound
  | item width next => exact h.opened hm width _ _
  | backslash next => exact h.opened hm 1 _ _
  | fail width cause next =>
    rcases hm with rfl | hm
    · exact ⟨trivial, by rw [perform, tokens_takeMany]; exact h.tokens⟩
    · exact h.opened hm width _ _

theorem shaped_calls (source : String) (file? : Option String) (cs : List Call) :
    ((ofSource source file?).calls cs).Shaped := by
  have h := calls_induction (P := fun s => s.Settled ∧ s.Shaped) (s := ofSource source file?) ?_ ?_ cs
  · exact h.2
  · rintro s ⟨hs, h⟩
    exact ⟨settled_step hs, shaped_perform h (fits_move hs h.pending)⟩
  · exact ⟨settled_ofSource source file?, shaped_ofSource source file?⟩

/-! ## The items of the pending text -/

theorem tallies_move (hs : s.Settled) (h : s.mode.Counts s.pending.toList s.items) :
    s.move.Tallies s.pending.toList s.rest s.items := by
  cases hm : s.mode <;> rw [hm] at h <;> simp only [move, hm]
  case between | newLine =>
    have hpending : s.pending = "" := hs.idle (.inl (hm ▸ rfl))
    have hitems : s.items = 0 := h
    rw [hpending, hitems]
    exact Move.tallies_opening
  case literal q => exact Move.tallies_literal h s.items
  case escape q =>
    rw [hs.resume q hm]
    exact Move.tallies_escape h
  case error | eof => trivial
  -- The other modes have no items and lead to no mode that has.
  case integer | float | identifier | underscore | dollar | operator | dot | doubleDot =>
    simp only [Move.integer.eq_def, Move.float.eq_def, Move.identifier.eq_def, Move.underscore.eq_def,
      Move.dollar.eq_def, Move.dollarEnd, Move.operator.eq_def, Move.dot.eq_def, Move.doubleDot.eq_def]
    repeat' split
    all_goals simp [Move.Tallies, Mode.Counts]

theorem items_skip (s : Scanner) : s.skip.items = s.items := by
  rw [skip]
  split <;> rfl

theorem counts_perform {m : Move} (h : s.mode.Counts s.pending.toList s.items)
    (hm : m.Tallies s.pending.toList s.rest s.items) (hok : (s.perform m).2.failure? = none) :
    (s.perform m).1.mode.Counts (s.perform m).1.pending.toList (s.perform m).1.items := by
  have hitems (n : Nat) : (s.takeMany n).items = s.items := by rw [takeMany_eq]
  cases m with
  | stop => trivial
  | halt => exact h
  | skip next =>
    obtain ⟨hnext, hzero⟩ := hm
    rw [perform, items_skip, hzero]
    exact Mode.counts_of_isBetween hnext _
  | extend next | backslash next =>
    rw [Move.Tallies, ← toList_pending_takeMany, ← hitems 1] at hm
    exact hm
  | close kind | closeOn kind => rfl
  | item width next =>
    rw [Move.Tallies, ← toList_pending_takeMany, ← hitems width] at hm
    exact hm
  | fail width cause next => cases hok

theorem counts_calls {source : String} {file? : Option String} {cs : List Call}
    (h : (ofSource source file?).Unfailed cs) :
    ((ofSource source file?).calls cs).mode.Counts ((ofSource source file?).calls cs).pending.toList
      ((ofSource source file?).calls cs).items := by
  have hkept := calls_induction_unfailed
    (P := fun s => s.Settled ∧ s.mode.Counts s.pending.toList s.items) ?_ ⟨settled_ofSource source file?, rfl⟩ h
  · exact hkept.2
  · rintro s ⟨hs, h⟩ hok
    exact ⟨settled_step hs, counts_perform h (tallies_move hs h) hok⟩

/-- The pending text is what lies in the source between its start and the cursor. -/
theorem slice?_pending (source : String) (file? : Option String) (cs : List Call) :
    slice? source.toList ((ofSource source file?).calls cs).start.offset
      ((ofSource source file?).calls cs).here.offset = some ((ofSource source file?).calls cs).pending.toList := by
  obtain ⟨-, pieces, gap, h⟩ := layout_calls source file? cs
  have hspelt : source.toList = spell pieces gap ++ (((ofSource source file?).calls cs).pending.toList ++
      ((ofSource source file?).calls cs).rest) := by
    rw [h.spelt, spell_append_right]
  rw [h.here, Place.offset_after, h.start, Place.offset_origin_after, hspelt]
  exact slice?_append _ _ _

/-- A text as it is pending in a scanner that no call has failed of: it has the form of the mode,
its items are counted, and a literal that were closed now would denote as many characters. -/
structure Corresponds (s : Scanner) (text : List Char) : Prop where
  form : s.mode.Pends text s.rest
  items : s.mode.Counts text s.items
  cooked : ∀ q, s.mode = .literal q →
    ∃ value, Literal.decode? (String.ofList (text ++ [q.mark])) = some value ∧ value.length = s.items

theorem cooked_of_counts (h : (Mode.literal q).Counts text n) :
    ∃ value, Literal.decode? (String.ofList (text ++ [q.mark])) = some value ∧ value.length = n := by
  obtain ⟨body, values, rfl, hitems, rfl⟩ := h
  exact ⟨_, Literal.decode?_of_items hitems, String.length_ofList⟩

/-- After calls none of which has failed, the part of the source from the start of the pending
token to the cursor has the form of the mode. In a literal it is the opening mark and the items
that are counted, with a backslash behind them in an escape. Whether a call has failed or not,
an escape leads back to the literal that it is in. -/
theorem mode_corresponds (source : String) (file? : Option String) :
    (∀ cs : List Call, (ofSource source file?).Unfailed cs → ∃ text,
      slice? source.toList ((ofSource source file?).calls cs).start.offset
        ((ofSource source file?).calls cs).here.offset = some text ∧
      ((ofSource source file?).calls cs).Corresponds text) ∧
    ∀ (cs : List Call) (q : Quote), ((ofSource source file?).calls cs).mode = .escape q →
      ((ofSource source file?).calls cs).resume = .literal q := by
  constructor
  · intro cs h
    have hcounts := counts_calls h
    refine ⟨_, slice?_pending source file? cs, (shaped_calls source file? cs).pending, hcounts, ?_⟩
    intro q hq
    rw [hq] at hcounts
    exact cooked_of_counts hcounts
  · intro cs
    obtain ⟨hs, -⟩ := layout_calls source file? cs
    exact hs.resume

theorem mode_corresponds_after_escape :
    (ofSource "\"\\t" none).Unfailed [.step, .step, .step] ∧ ∃ t text,
      (ofSource "\"\\t" none).calls [.step, .step, .step] = t ∧ t.mode = .literal .double ∧
      slice? "\"\\t".toList t.start.offset t.here.offset = some text ∧ t.Corresponds text := by
  have hok : (ofSource "\"\\t" none).Unfailed [.step, .step, .step] :=
    ⟨by decide +kernel, by decide +kernel, by decide +kernel, trivial⟩
  have hmode : ((ofSource "\"\\t" none).calls [.step, .step, .step]).mode = .literal .double := by decide +kernel
  obtain ⟨text, htext, h⟩ := (mode_corresponds "\"\\t" none).1 _ hok
  exact ⟨hok, _, text, rfl, hmode, htext, h⟩

end Scanner

end NodLexis
