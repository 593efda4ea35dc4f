import NodLexis.Proofs.Numerals
import NodLexis.Proofs.ScannerCalls

/-! # A scanner over byte offsets

This scanner keeps the whole source and two places in it, the cursor and the start of
the pending token. Whatever it reads it cuts out of the source between two offsets, and
such a cut has no result unless its ends are in order and on character boundaries. The
same holds of the difference of two offsets. A scanner that has a result has therefore
never made a bad cut. After a token or a blank the start stays behind until the next
token is begun.
-/

namespace NodLexis

structure OffsetScanner where
  source : String
  file : String
  mode : Mode
  /-- The mode to go back to after an escape. -/
  resume : Mode
  /-- The cursor. -/
  here : Place
  /-- Where the last token was begun. -/
  start : Place
  /-- The complete items of the last literal, an escape counting once. -/
  items : Nat
  tokens : Array Token

/-- The distance between two offsets in order. -/
def distance? (start stop : Nat) : Option Nat := if start ≤ stop then some (stop - start) else none

namespace OffsetScanner
open SourceText CharacterClass Grammar Defect

variable {o : OffsetScanner} {before taken text rest ds : List Char} {c : Char}

def ofSource (source : String) (file? : Option String) : OffsetScanner where
  source := source
  file := file?.getD Scanner.defaultFile
  mode := .between
  resume := .between
  here := .origin
  start := .origin
  items := 0
  tokens := #[]

/-! ## Reading the source -/

def cut? (o : OffsetScanner) (start stop : Nat) : Option (List Char) := slice? o.source.toList start stop

/-- The text from the cursor to the end of the source. -/
def ahead? (o : OffsetScanner) : Option (List Char) := o.cut? o.here.offset o.source.utf8ByteSize

/-- The character at the cursor. -/
def current? (o : OffsetScanner) : Option (Option Char) := o.ahead?.map List.head?

/-- The character after the one at the cursor. -/
def second? (o : OffsetScanner) : Option (Option Char) := o.ahead?.map fun text => text.tail.head?

/-- The text from the start to the cursor. -/
def lexeme? (o : OffsetScanner) : Option String := (o.cut? o.start.offset o.here.offset).map String.ofList

/-- The text from the start to the cursor, together with the character there if a word
can go on with it. -/
def lexemeWithOffender? (o : OffsetScanner) : Option String :=
  o.current?.bind fun
    | some c =>
      if isWordChar c then (o.cut? o.start.offset (o.here.offset + c.utf8Size)).map String.ofList
      else o.lexeme?
    | none => o.lexeme?

/-! ## Moves -/

def more (o : OffsetScanner) : OffsetScanner × Progress := (o, .more)

def turn (o : OffsetScanner) (mode : Mode) : OffsetScanner := { o with mode }

def advance? (o : OffsetScanner) : Option OffsetScanner :=
  o.current?.map fun
    | some c => { o with here := o.here.next c }
    | none => o

def begin? (o : OffsetScanner) (mode : Mode) : Option OffsetScanner :=
  { o with start := o.here, mode }.advance?

def emit (o : OffsetScanner) (kind : TokenKind) (lexeme : String) : OffsetScanner :=
  let span : Span := ⟨⟨o.start.offset, o.file⟩, ⟨o.here.offset, o.file⟩⟩
  { o with
    mode := .between
    tokens := o.tokens.push ⟨kind, lexeme, o.start.line, o.start.column, span⟩ }

/-- Ends the pending token at the cursor. -/
def finish? (o : OffsetScanner) (kind : TokenKind) : Option OffsetScanner := o.lexeme?.map (o.emit kind)

def fail (o : OffsetScanner) (cause : Cause) (mode : Mode) : OffsetScanner × Progress :=
  (o.turn mode, .failed ⟨cause, mode, ⟨o.here.offset, o.file⟩, o.here.line, o.here.column⟩)

/-- What the end of the text cuts off in a mode. -/
def context : Mode → String
  | .escape _ => "escape sequence"
  | .literal q => q.context
  | _ => Quote.double.context

def earlyEof (o : OffsetScanner) : OffsetScanner × Progress := o.fail (.earlyEof (context o.mode)) o.mode

/-- Gives up with the pending text in the cause. -/
def reject? (o : OffsetScanner) (cause : String → Cause) : Option (OffsetScanner × Progress) :=
  o.lexemeWithOffender?.map fun lexeme => o.fail (cause lexeme) .error

/-! ## Steps by mode -/

def opening? (o : OffsetScanner) : Option Char → Option (OffsetScanner × Progress)
  | none => some (o.turn .eof, .done)
  | some c =>
    if c = '\n' then o.advance?.map fun t => (t.turn .newLine).more
    else if isBlank c then o.advance?.map fun t => (t.turn .between).more
    else if c.isDigit then (o.begin? .integer).map more
    else if c = '_' then (o.begin? .underscore).map more
    else if c.isAlpha then (o.begin? .identifier).map more
    else if c = '$' then (o.begin? .dollar).map more
    else if c = '.' then (o.begin? .dot).map more
    else if isOperatorSymbol c then (o.begin? .operator).map more
    else match Quote.ofMark? c, Punctuation.ofChar? c with
      | some q, _ => ({ o with items := 0 }.begin? (.literal q)).map more
      | none, some p => (o.begin? .between).bind fun t => (t.finish? (.punctuation p)).map more
      | none, none => some (o.fail (.unrecognisedCharacter c) .error)

def integer? (o : OffsetScanner) : Option Char → Option (OffsetScanner × Progress)
  | none => (o.finish? .intLiteral).map more
  | some c =>
    if c.isDigit then o.advance?.map more
    else if c = '.' then
      o.second?.bind fun second =>
        if second.any Char.isDigit then o.advance?.map fun t => (t.turn .float).more
        else (o.finish? .intLiteral).map more
    else if isWordStart c then o.reject? .malformedNumber
    else (o.finish? .intLiteral).map more

def float? (o : OffsetScanner) : Option Char → Option (OffsetScanner × Progress)
  | none => (o.finish? .floatLiteral).map more
  | some c =>
    if c.isDigit then o.advance?.map more
    else if isWordStart c then o.reject? .malformedNumber
    else (o.finish? .floatLiteral).map more

def underscore? (o : OffsetScanner) : Option Char → Option (OffsetScanner × Progress)
  | none => (o.finish? .underscore).map more
  | some c =>
    if isWordChar c then o.advance?.map fun t => (t.turn .identifier).more
    else (o.finish? .underscore).map more

/-- Ends the pending token with the kind that its text has. -/
def finishAs? (o : OffsetScanner) (kind : String → TokenKind) : Option (OffsetScanner × Progress) :=
  o.lexeme?.bind fun lexeme => (o.finish? (kind lexeme)).map more

/-- Reads on over a class of characters. -/
def readOn? (o : OffsetScanner) (p : Char → Bool) (kind : String → TokenKind) :
    Option Char → Option (OffsetScanner × Progress)
  | none => o.finishAs? kind
  | some c => if p c then o.advance?.map more else o.finishAs? kind

def identifier? (o : OffsetScanner) : Option Char → Option (OffsetScanner × Progress) :=
  o.readOn? isWordChar .ofWord

def operator? (o : OffsetScanner) : Option Char → Option (OffsetScanner × Progress) :=
  o.readOn? isOperatorSymbol .ofSymbol

def dollarEnd? (o : OffsetScanner) : Option (OffsetScanner × Progress) :=
  o.lexeme?.bind fun lexeme =>
    if lexeme = "$" then o.reject? .badLambdaArg else (o.finish? .lambdaArg).map more

def dollar? (o : OffsetScanner) : Option Char → Option (OffsetScanner × Progress)
  | none => o.dollarEnd?
  | some c =>
    if c.isDigit then o.advance?.map more
    else if isWordStart c then o.reject? .badLambdaArg
    else o.dollarEnd?

def dot? (o : OffsetScanner) : Option Char → Option (OffsetScanner × Progress)
  | some '.' => o.advance?.map fun t => (t.turn .doubleDot).more
  | _ => (o.finish? (.punctuation .dot)).map more

def doubleDot? (o : OffsetScanner) : Option Char → Option (OffsetScanner × Progress)
  | some '<' => o.advance?.bind fun t => (t.finish? (.punctuation .doubleDotLess)).map more
  | _ => (o.finish? (.punctuation .doubleDot)).map more

/-- Ends a literal behind its closing quote. -/
def closing? (o : OffsetScanner) : Quote → Option (OffsetScanner × Progress)
  | .double => (o.finish? .stringLiteral).map more
  | .single =>
    if o.items = 1 then (o.finish? .charLiteral).map more
    else o.lexeme?.map fun lexeme => o.fail (.badCharLiteral lexeme) .error

def literal? (o : OffsetScanner) (q : Quote) : Option Char → Option (OffsetScanner × Progress)
  | none => some o.earlyEof
  | some c =>
    if c = '\\' then o.advance?.map fun t => { t with resume := t.mode, mode := .escape q }.more
    else if c = q.mark then o.advance?.bind fun t => t.closing? q
    else o.advance?.map fun t => { t with items := t.items + 1 }.more

/-- The failure of an escape that starts at an offset behind its letter. -/
def badUnicodeEscape? (o : OffsetScanner) (sequenceStart : Nat) : Option (OffsetScanner × Progress) :=
  o.current?.bind fun current =>
    let stop := match current with
      | some c => o.here.offset + c.utf8Size
      | none => o.here.offset
    (o.cut? sequenceStart stop).map fun text =>
      o.fail (.badUnicodeEscape ("\\u" ++ String.ofList text)) o.mode

/-- Completes an escape with its last character, at the cursor. -/
def complete? (o : OffsetScanner) : Option (OffsetScanner × Progress) :=
  o.advance?.map fun t => { t with items := t.items + 1, mode := t.resume }.more

/-- One character of a code point: a digit to go on behind, or an end. -/
def digit? (o : OffsetScanner) (sequenceStart digitsStart : Nat) :
    Option (OffsetScanner ⊕ (OffsetScanner × Progress)) :=
  o.current?.bind fun
    | none => some (.inr o.earlyEof)
    | some c =>
      if c = '}' then
        (o.cut? digitsStart o.here.offset).bind fun digits =>
          if (Escape.ofHex? digits).isSome then o.complete?.map .inr
          else (o.badUnicodeEscape? sequenceStart).map .inr
      else if isHexDigit c then
        (distance? digitsStart o.here.offset).bind fun width =>
          if width < Escape.maxHexDigits then o.advance?.map .inl
          else (o.badUnicodeEscape? sequenceStart).map .inr
      else (o.badUnicodeEscape? sequenceStart).map .inr

/-- Behind each digit there is less room for more of them. -/
theorem room_lt_of_digit? {t : OffsetScanner} {sequenceStart digitsStart : Nat}
    (h : o.digit? sequenceStart digitsStart = some (.inl t)) :
    digitsStart + Escape.maxHexDigits - t.here.offset < digitsStart + Escape.maxHexDigits - o.here.offset := by
  have ends {r : Option (OffsetScanner × Progress)} : r.map Sum.inr ≠ some (.inl t) := by
    cases r <;> simp
  obtain ⟨current, hcurrent, h⟩ := Option.bind_eq_some_iff.mp h
  cases current with
  | none => simp at h
  | some c =>
    dsimp only at h
    split at h
    · obtain ⟨digits, -, h⟩ := Option.bind_eq_some_iff.mp h
      split at h <;> exact absurd h ends
    split at h
    · obtain ⟨width, hwidth, h⟩ := Option.bind_eq_some_iff.mp h
      split at h
      · rename_i hroom
        obtain ⟨hle, rfl⟩ : digitsStart ≤ o.here.offset ∧ o.here.offset - digitsStart = width := by
          simpa [distance?] using hwidth
        have hnext : o.advance? = some t := by simpa using h
        have hoffset : o.here.offset + c.utf8Size = t.here.offset := by
          rw [advance?, hcurrent, Option.map_some] at hnext
          rw [← Option.some.inj hnext, Place.offset_next]
        have := c.utf8Size_pos
        omega
      · exact absurd h ends
    · exact absurd h ends

/-- Reads the digits of a code point and the brace behind them. -/
def digits? (o : OffsetScanner) (sequenceStart digitsStart : Nat) : Option (OffsetScanner × Progress) :=
  match _h : o.digit? sequenceStart digitsStart with
  | none => none
  | some (.inl t) => t.digits? sequenceStart digitsStart
  | some (.inr r) => some r
termination_by digitsStart + Escape.maxHexDigits - o.here.offset
decreasing_by exact room_lt_of_digit? _h

/-- Reads a code point in braces. -/
def codePoint? (o : OffsetScanner) : Option (OffsetScanner × Progress) :=
  o.current?.bind fun
    | none => some o.earlyEof
    | some c =>
      if c = '{' then o.advance?.bind fun t => t.digits? o.here.offset t.here.offset
      else o.badUnicodeEscape? o.here.offset

def escape? (o : OffsetScanner) : Option Char → Option (OffsetScanner × Progress)
  | none => some o.earlyEof
  | some c =>
    if c = 'u' then o.advance?.bind codePoint?
    else if (Escape.simple? c).isSome then o.complete?
    else some (o.fail (.badEscape c) o.mode)

def step? (o : OffsetScanner) : Option (OffsetScanner × Progress) :=
  o.current?.bind fun current =>
    match o.mode with
    | .between | .newLine => o.opening? current
    | .integer => o.integer? current
    | .float => o.float? current
    | .literal q => o.literal? q current
    | .escape _ => o.escape? current
    | .identifier => o.identifier? current
    | .underscore => o.underscore? current
    | .dollar => o.dollar? current
    | .operator => o.operator? current
    | .dot => o.dot? current
    | .doubleDot => o.doubleDot? current
    | .error | .eof => some (o, .done)

/-- The bound on the steps that a run can still take. -/
def bound (o : OffsetScanner) : Nat :=
  2 * (o.ahead?.elim 0 List.length) + if o.mode.isBetween then 0 else 1

/-- Steps to the end of the text or to the first failure. A step that gets no closer to
the end could be repeated for ever, so it has no result either. -/
def run? (o : OffsetScanner) : Option (OffsetScanner × Option Failure) :=
  match o.step? with
  | none => none
  | some (t, .more) => if _h : t.bound < o.bound then t.run? else none
  | some (t, .done) => some (t, none)
  | some (t, .failed f) => some (t, some f)
termination_by o.bound

def call? (o : OffsetScanner) : Call → Option OffsetScanner
  | .step => o.step?.map Prod.fst
  | .run => o.run?.map Prod.fst

def calls? (o : OffsetScanner) (cs : List Call) : Option OffsetScanner := cs.foldlM call? o

/-! ## Reading around the cursor -/

/-- The source around the two places of a scanner: the text in front of the start, the
text from there to the cursor, and the text ahead. -/
structure Around (o : OffsetScanner) (before taken rest : List Char) : Prop where
  source : o.source.toList = before ++ (taken ++ rest)
  start : o.start = Place.origin.after before
  here : o.here = o.start.after taken

/-- The scanner with its cursor moved over a text. -/
def past (o : OffsetScanner) (text : List Char) : OffsetScanner := { o with here := o.here.after text }

theorem past_past (o : OffsetScanner) (s t : List Char) : (o.past s).past t = o.past (s ++ t) := by
  rw [past, past, past, Place.after_append]

theorem cut?_of_append {front mid back : List Char} (h : o.source.toList = front ++ (mid ++ back)) :
    o.cut? (byteLength front) (byteLength front + byteLength mid) = some mid := by
  rw [cut?, h, slice?_append]

namespace Around

theorem offset_start (h : o.Around before taken rest) : o.start.offset = byteLength before := by
  rw [h.start, Place.offset_origin_after]

theorem offset_here (h : o.Around before taken rest) :
    o.here.offset = byteLength before + byteLength taken := by
  rw [h.here, Place.offset_after, h.offset_start]

theorem source_eq (h : o.Around before taken rest) : o.source.toList = before ++ taken ++ rest := by
  rw [h.source, List.append_assoc]

theorem past (h : o.Around before taken (text ++ rest)) : (o.past text).Around before (taken ++ text) rest := by
  refine ⟨?_, h.start, ?_⟩
  · rw [List.append_assoc]
    exact h.source
  · rw [Place.after_append]
    exact congrArg (·.after text) h.here

theorem ahead?_eq (h : o.Around before taken rest) : o.ahead? = some rest := by
  have hsource : o.source.toList = (before ++ taken) ++ (rest ++ []) := by
    rw [List.append_nil, h.source_eq]
  have hsize : o.source.utf8ByteSize = byteLength (before ++ taken) + byteLength rest := by
    rw [← byteLength_toList, h.source_eq, byteLength_append]
  rw [ahead?, h.offset_here, ← byteLength_append, hsize, cut?_of_append hsource]

theorem current?_eq (h : o.Around before taken rest) : o.current? = some rest.head? := by
  rw [current?, h.ahead?_eq]
  rfl

theorem second?_eq (h : o.Around before taken rest) : o.second? = some rest.tail.head? := by
  rw [second?, h.ahead?_eq]
  rfl

theorem lexeme?_eq (h : o.Around before taken rest) : o.lexeme? = some (String.ofList taken) := by
  rw [lexeme?, h.offset_here, h.offset_start, cut?_of_append h.source]
  rfl

/-- The text from the start to the character at the cursor and with it. -/
theorem cut?_with_current (h : o.Around before taken (c :: rest)) :
    o.cut? o.start.offset (o.here.offset + c.utf8Size) = some (taken ++ [c]) := by
  have hsource : o.source.toList = before ++ ((taken ++ [c]) ++ rest) := by
    rw [h.source, List.append_cons taken]
  have hstop : o.here.offset + c.utf8Size = byteLength before + byteLength (taken ++ [c]) := by
    rw [h.offset_here, byteLength_append, Nat.add_assoc]
    rfl
  rw [h.offset_start, hstop, cut?_of_append hsource]

theorem advance?_eq (h : o.Around before taken (c :: rest)) : o.advance? = some (o.past [c]) := by
  rw [advance?, h.current?_eq]
  rfl

/-- What is taken or in front of the start does not matter for a token that is begun. -/
theorem begun (h : o.Around before taken rest) (mode : Mode) :
    { o with start := o.here, mode }.Around (before ++ taken) [] rest := by
  refine ⟨h.source_eq, ?_, rfl⟩
  rw [h.here, h.start, Place.after_append]

theorem begin?_eq (h : o.Around before taken (c :: rest)) (mode : Mode) :
    o.begin? mode = some ({ o with start := o.here, mode }.past [c]) := (h.begun mode).advance?_eq

theorem finish?_eq (h : o.Around before taken rest) (kind : TokenKind) :
    o.finish? kind = some (o.emit kind (String.ofList taken)) := by
  rw [finish?, h.lexeme?_eq]
  rfl

theorem lexemeWithOffender?_eq (h : o.Around before taken (c :: rest)) (hc : isWordChar c = true) :
    o.lexemeWithOffender? = some (String.ofList (taken ++ [c])) := by
  rw [lexemeWithOffender?, h.current?_eq]
  simp only [List.head?_cons, Option.bind_some, hc, if_true, h.cut?_with_current, Option.map_some]

theorem lexemeWithOffender?_of_barred (h : o.Around before taken rest) (hb : Barred isWordChar rest) :
    o.lexemeWithOffender? = some (String.ofList taken) := by
  rw [lexemeWithOffender?, h.current?_eq]
  cases rest with
  | nil => exact h.lexeme?_eq
  | cons c rest => simp [barred_cons.mp hb, h.lexeme?_eq]

end Around

/-! ## Reading escapes -/

section
variable {front : List Char} {sequenceStart : Nat}

/-- The failing text reaches from its start to behind the character at the cursor. -/
theorem badUnicodeEscape?_eq (h : o.Around before (front ++ text) (c :: rest)) :
    o.badUnicodeEscape? (byteLength before + byteLength front) =
      some (o.fail (.badUnicodeEscape (String.ofList ('\\' :: 'u' :: (text ++ [c])))) o.mode) := by
  have hsource : o.source.toList = (before ++ front) ++ ((text ++ [c]) ++ rest) := by
    rw [h.source]
    simp
  have hstop : o.here.offset + c.utf8Size = byteLength (before ++ front) + byteLength (text ++ [c]) := by
    rw [h.offset_here]
    simp [Nat.add_assoc]
  have htext : "\\u" ++ String.ofList (text ++ [c]) = String.ofList ('\\' :: 'u' :: (text ++ [c])) := by
    rw [← String.ofList_append]
    rfl
  rw [badUnicodeEscape?, h.current?_eq, List.head?_cons, Option.bind_some]
  dsimp only
  rw [hstop, ← byteLength_append, cut?_of_append hsource, Option.map_some, htext]

theorem complete?_eq (h : o.Around before taken (c :: rest)) :
    o.complete? = some ({ o.past [c] with items := o.items + 1, mode := o.resume }, .more) := by
  rw [complete?, h.advance?_eq]
  rfl

theorem digits?_of_inl {t : OffsetScanner} {digitsStart : Nat}
    (h : o.digit? sequenceStart digitsStart = some (.inl t)) :
    o.digits? sequenceStart digitsStart = t.digits? sequenceStart digitsStart := by
  rw [digits?]
  split <;> simp_all

theorem digits?_of_inr {r : Option (OffsetScanner × Progress)} {digitsStart : Nat}
    (h : o.digit? sequenceStart digitsStart = r.map .inr) : o.digits? sequenceStart digitsStart = r := by
  rw [digits?]
  cases r <;> split <;> simp_all

/-- Behind some digits their number is the distance from where they start. -/
theorem distance?_eq (h : o.Around before (front ++ ds) rest) (hds : ∀ c ∈ ds, isHexDigit c = true) :
    distance? (byteLength before + byteLength front) o.here.offset = some ds.length := by
  rw [distance?, h.offset_here, byteLength_append, Numerals.byteLength_of_hex hds, ← Nat.add_assoc,
    if_pos (Nat.le_add_right _ _), Nat.add_sub_cancel_left]

/-- Digits are passed over while there are no more than six of them. -/
theorem digits?_past (h : o.Around before (front ++ ds) (text ++ rest)) (hds : ∀ c ∈ ds, isHexDigit c = true)
    (htext : ∀ c ∈ text, isHexDigit c = true) (hlength : (ds ++ text).length ≤ Escape.maxHexDigits) :
    o.digits? sequenceStart (byteLength before + byteLength front) =
      (o.past text).digits? sequenceStart (byteLength before + byteLength front) := by
  induction text generalizing o ds with
  | nil => rfl
  | cons c text ih =>
    have hc : isHexDigit c = true := htext c (by simp)
    have hbrace : c ≠ '}' := by
      rintro rfl
      cases hc
    have hwidth : ds.length < Escape.maxHexDigits := by
      rw [List.length_append, List.length_cons] at hlength
      omega
    have hpast : (o.past [c]).Around before (front ++ (ds ++ [c])) (text ++ rest) := by
      rw [← List.append_assoc]
      exact Around.past h
    have hds' : ∀ d ∈ ds ++ [c], isHexDigit d = true := by
      intro d hd
      rcases List.mem_append.mp hd with hd | hd
      · exact hds d hd
      · rwa [List.mem_singleton.mp hd]
    have hdigit : o.digit? sequenceStart (byteLength before + byteLength front) = some (.inl (o.past [c])) := by
      rw [digit?, h.current?_eq, distance?_eq h hds, h.advance?_eq]
      simp [hbrace, hc, hwidth]
    rw [digits?_of_inl hdigit, ih hpast hds' (fun d hd => htext d (by simp [hd])) (by simpa using hlength),
      past_past]
    rfl

theorem digits?_nil (h : o.Around before taken []) (digitsStart : Nat) :
    o.digits? sequenceStart digitsStart = some o.earlyEof := by
  apply digits?_of_inr
  rw [digit?, h.current?_eq]
  rfl

/-- A character that is no digit, or one digit too many. -/
theorem digits?_offender (h : o.Around before (front ++ ds) (c :: rest)) (hds : ∀ c ∈ ds, isHexDigit c = true)
    (hc : c ≠ '}') (hstop : ds.length = 6 ∨ isHexDigit c = false) :
    o.digits? sequenceStart (byteLength before + byteLength front) = o.badUnicodeEscape? sequenceStart := by
  apply digits?_of_inr
  rw [digit?, h.current?_eq, distance?_eq h hds]
  simp only [List.head?_cons, Option.bind_some, hc, if_false]
  rcases hstop with hlength | hhex
  · simp [hlength, Escape.maxHexDigits]
  · simp [hhex]

theorem digits?_brace (h : o.Around before (front ++ ds) ('}' :: rest)) :
    o.digits? sequenceStart (byteLength before + byteLength front) =
      if (Escape.ofHex? ds).isSome then o.complete? else o.badUnicodeEscape? sequenceStart := by
  have hsource : o.source.toList = (before ++ front) ++ (ds ++ '}' :: rest) := by
    rw [h.source]
    simp
  have hdigits : o.cut? (byteLength before + byteLength front) o.here.offset = some ds := by
    rw [h.offset_here, byteLength_append, ← Nat.add_assoc, ← byteLength_append, cut?_of_append hsource]
  apply digits?_of_inr
  rw [digit?, h.current?_eq]
  simp only [List.head?_cons, Option.bind_some, if_true, hdigits]
  split <;> rfl

theorem escape?_letter (h : o.Around before taken ('u' :: rest)) :
    o.escape? (some 'u') = (o.past ['u']).codePoint? := by
  rw [escape?, if_pos rfl, h.advance?_eq]
  rfl

theorem codePoint?_brace (h : o.Around before taken ('{' :: rest)) :
    o.codePoint? = (o.past ['{']).digits? o.here.offset (o.past ['{']).here.offset := by
  rw [codePoint?, h.current?_eq, h.advance?_eq]
  rfl

/-- Behind the letter, the brace and some digits the rest of the code point is read. -/
theorem escape?_digits (h : o.Around before taken ('u' :: '{' :: (ds ++ rest)))
    (hds : ∀ c ∈ ds, isHexDigit c = true) (hlength : ds.length ≤ 6) :
    o.escape? (some 'u') = (o.past ('u' :: '{' :: ds)).digits? (byteLength before + byteLength (taken ++ ['u']))
        (byteLength before + byteLength (taken ++ ['u', '{'])) ∧
      (o.past ('u' :: '{' :: ds)).Around before (taken ++ ['u', '{'] ++ ds) rest := by
  have hletter : o.Around before taken (['u'] ++ '{' :: (ds ++ rest)) := h
  have hbrace : o.Around before taken (['u', '{'] ++ (ds ++ rest)) := h
  have hdigits : (o.past ['u', '{']).Around before (taken ++ ['u', '{'] ++ []) (ds ++ rest) := by
    rw [List.append_nil]
    exact hbrace.past
  constructor
  · calc o.escape? (some 'u')
      _ = (o.past ['u']).codePoint? := escape?_letter h
      _ = (o.past ['u', '{']).digits? (o.past ['u']).here.offset (o.past ['u', '{']).here.offset :=
        codePoint?_brace hletter.past
      _ = (o.past ['u', '{']).digits? (byteLength before + byteLength (taken ++ ['u']))
          (byteLength before + byteLength (taken ++ ['u', '{'])) := by
        rw [hletter.past.offset_here, hbrace.past.offset_here]
      _ = ((o.past ['u', '{']).past ds).digits? (byteLength before + byteLength (taken ++ ['u']))
          (byteLength before + byteLength (taken ++ ['u', '{'])) :=
        digits?_past hdigits (List.forall_mem_nil _) hds hlength
      _ = _ := by
        rw [past_past]
        rfl
  · rw [List.append_nil] at hdigits
    exact hdigits.past

end

/-- An escape that is complete is one more item. -/
theorem escape?_of_item {q : Quote} {value : Char} (h : o.Around before taken (text ++ rest))
    (hi : Item (Plain q) ('\\' :: text) value) :
    o.escape? (text ++ rest).head? =
      some ({ o.past text with items := o.items + 1, mode := o.resume }, .more) := by
  cases hi with
  | raw hraw => exact absurd rfl hraw.2
  | @simple letter value hsimple =>
    have hletter : letter ≠ 'u' := Literal.ne_u_of_mem_letterValues hsimple
    have hescape : o.escape? (some letter) = o.complete? := by
      rw [escape?, if_neg hletter, Literal.simple?_eq_some_iff.mpr hsimple]
      rfl
    exact hescape.trans (complete?_eq h)
  | @codePoint ds value hpoint =>
    have hopen : o.Around before taken ('u' :: '{' :: (ds ++ '}' :: rest)) := by simpa using h
    obtain ⟨hescape, hdigits⟩ := escape?_digits hopen hpoint.hex hpoint.short
    have hvalue : (Escape.ofHex? ds).isSome = true := by
      rw [ofHex?_eq_some_iff.mpr hpoint]
      rfl
    refine hescape.trans ?_
    rw [digits?_brace hdigits, if_pos hvalue, complete?_eq hdigits, past_past]
    rfl

/-- An escape that is wrong or cut off fails where it does. -/
theorem escape?_of_badEscape {q : Quote} {cause : Cause} (h : o.Around before taken (text ++ rest))
    (hm : o.mode = .escape q) (hb : BadEscape text rest cause) :
    o.escape? (text ++ rest).head? = some ((o.past text).fail cause (.escape q)) := by
  have hmode (text : List Char) : (o.past text).mode = .escape q := hm
  have hend (text : List Char) :
      (o.past text).earlyEof = (o.past text).fail (.earlyEof "escape sequence") (.escape q) := by
    rw [earlyEof, hmode]
    rfl
  -- The text of the cause starts behind the letter, the digits behind the brace.
  have hfront (ds : List Char) : taken ++ ['u', '{'] ++ ds = taken ++ ['u'] ++ '{' :: ds := by simp
  cases hb with
  | unfinished hu =>
    cases hu with
    | backslash => exact congrArg some (hend [])
    | letter =>
      have hletter : o.Around before taken (['u'] ++ []) := h
      refine (escape?_letter h).trans ?_
      rw [codePoint?, hletter.past.current?_eq, ← hend]
      rfl
    | digits short hex =>
      obtain ⟨hescape, hdigits⟩ := escape?_digits h hex short
      rw [← hend]
      exact hescape.trans (digits?_nil hdigits _)
  | @letter c rest hu hs =>
    have hescape : o.escape? (some c) = some (o.fail (.badEscape c) o.mode) := by
      rw [escape?, if_neg hu, Literal.simple?_eq_none_iff.mpr hs]
      rfl
    rw [hm] at hescape
    exact hescape
  | @brace c rest hc =>
    have hletter : o.Around before taken (['u'] ++ c :: rest) := h
    have hsequence : (o.past ['u']).Around before (taken ++ ['u'] ++ []) (c :: rest) := by
      rw [List.append_nil]
      exact hletter.past
    refine (escape?_letter h).trans ?_
    rw [codePoint?, hletter.past.current?_eq, List.head?_cons, Option.bind_some]
    dsimp only
    rw [if_neg hc, hletter.past.offset_here, badUnicodeEscape?_eq hsequence, hmode]
    rfl
  | @digit ds c rest short hex hc stop =>
    obtain ⟨hescape, hdigits⟩ := escape?_digits h hex short
    refine hescape.trans ?_
    rw [digits?_offender hdigits hex hc stop]
    rw [hfront] at hdigits
    rw [badUnicodeEscape?_eq hdigits, hmode]
    rfl
  | @value ds rest short hex hv =>
    obtain ⟨hescape, hdigits⟩ := escape?_digits h hex short
    have hnone : ¬ (Escape.ofHex? ds).isSome = true := by
      rw [ofHex?_eq_none_iff.mpr hv]
      exact Bool.false_ne_true
    refine hescape.trans ?_
    rw [digits?_brace hdigits, if_neg hnone]
    rw [hfront] at hdigits
    rw [badUnicodeEscape?_eq hdigits, hmode]
    rfl

end OffsetScanner

end NodLexis
