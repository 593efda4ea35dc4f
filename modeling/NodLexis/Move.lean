import NodLexis.Failure
import NodLexis.TokenKind

/-! # The moves of a scanner

A move is the decision what to do with the next characters, taken from the mode,
the pending text and the text ahead, and not yet carried out. No decision outside
of an escape looks further than the next character, except that a dot belongs to
a number only if a digit follows it.
-/

namespace NodLexis

inductive Move where
  /-- The text is at its end, and no token is pending. -/
  | stop
  /-- Nothing is left to do. -/
  | halt
  /-- Pass over one character. -/
  | skip (next : Mode)
  /-- Add one character to the pending text. -/
  | extend (next : Mode)
  /-- The pending text is a token. -/
  | close (kind : TokenKind)
  /-- The pending text is a token together with the next character. -/
  | closeOn (kind : TokenKind)
  /-- Complete an item of a literal. -/
  | item (width : Nat) (next : Mode)
  /-- Open an escape with its backslash. -/
  | backslash (next : Mode)
  /-- Give up after adding some characters to the pending text. -/
  | fail (width : Nat) (cause : Cause) (next : Mode)
  deriving DecidableEq

namespace Move
open CharacterClass

/-- The move where no token is pending. -/
def opening : List Char → Move
  | [] => .stop
  | c :: _ =>
    if c = '\n' then .skip .newLine
    else if isBlank c then .skip .between
    else if c.isDigit then .extend .integer
    else if c = '_' then .extend .underscore
    else if c.isAlpha then .extend .identifier
    else if c = '$' then .extend .dollar
    else if c = '.' then .extend .dot
    else if isOperatorSymbol c then .extend .operator
    else match Quote.ofMark? c, Punctuation.ofChar? c with
      | some q, _ => .extend (.literal q)
      | none, some p => .closeOn (.punctuation p)
      | none, none => .fail 0 (.unrecognisedCharacter c) .error

def integer (pending : String) : List Char → Move
  | [] => .close .intLiteral
  | c :: rest =>
    if c.isDigit then .extend .integer
    else if c = '.' ∧ rest.head?.any Char.isDigit then .extend .float
    else if isWordStart c then .fail 0 (.malformedNumber (pending.push c)) .error
    else .close .intLiteral

def float (pending : String) : List Char → Move
  | [] => .close .floatLiteral
  | c :: _ =>
    if c.isDigit then .extend .float
    else if isWordStart c then .fail 0 (.malformedNumber (pending.push c)) .error
    else .close .floatLiteral

def underscore : List Char → Move
  | [] => .close .underscore
  | c :: _ => if isWordChar c then .extend .identifier else .close .underscore

def identifier (pending : String) : List Char → Move
  | [] => .close (.ofWord pending)
  | c :: _ => if isWordChar c then .extend .identifier else .close (.ofWord pending)

/-- A dollar sign that no digit follows is no lambda argument. -/
def dollarEnd (pending : String) : Move :=
  if pending = "$" then .fail 0 (.badLambdaArg pending) .error else .close .lambdaArg

def dollar (pending : String) : List Char → Move
  | [] => dollarEnd pending
  | c :: _ =>
    if c.isDigit then .extend .dollar
    else if isWordStart c then .fail 0 (.badLambdaArg (pending.push c)) .error
    else dollarEnd pending

def operator (pending : String) : List Char → Move
  | [] => .close (.ofSymbol pending)
  | c :: _ => if isOperatorSymbol c then .extend .operator else .close (.ofSymbol pending)

def dot : List Char → Move
  | '.' :: _ => .extend .doubleDot
  | _ => .close (.punctuation .dot)

def doubleDot : List Char → Move
  | '<' :: _ => .closeOn (.punctuation .doubleDotLess)
  | _ => .close (.punctuation .doubleDot)

/-- The move at the closing quote. A character literal holds exactly one item. -/
def closing (q : Quote) (pending : String) (items : Nat) : Move :=
  match q with
  | .double => .closeOn .stringLiteral
  | .single =>
    if items = 1 then .closeOn .charLiteral
    else .fail 1 (.badCharLiteral (pending.push q.mark)) .error

def literal (q : Quote) (pending : String) (items : Nat) : List Char → Move
  | [] => .fail 0 (.earlyEof q.context) (.literal q)
  | c :: _ =>
    if c = '\\' then .backslash (.escape q)
    else if c = q.mark then closing q pending items
    else .item 1 (.literal q)

/-- The move after a backslash; a complete escape leads back to `resume`. -/
def escape (q : Quote) (resume : Mode) (rest : List Char) : Move :=
  match Escape.read rest with
  | .complete _ width => .item width resume
  | .cut width => .fail width (.earlyEof "escape sequence") (.escape q)
  | .malformed sequence width =>
    .fail width (.badUnicodeEscape (String.ofList ('\\' :: 'u' :: sequence))) (.escape q)
  | .unknown c => .fail 0 (.badEscape c) (.escape q)

/-- A move that does not end the run uses up a character, or else closes a token. -/
def Advances (mode : Mode) (rest : List Char) : Move → Prop
  | .stop | .halt | .fail _ _ _ => True
  | .skip _ | .extend _ | .closeOn _ | .backslash _ => rest ≠ []
  | .item width _ => 0 < width ∧ rest ≠ []
  | .close _ => mode.isBetween = false

variable {mode : Mode} {pending : String} {rest : List Char}

theorem advances_opening : (opening rest).Advances mode rest := by
  cases rest with
  | nil => trivial
  | cons c rest =>
    simp only [opening]
    repeat' split
    all_goals simp [Advances]

theorem advances_integer (h : mode.isBetween = false) :
    (integer pending rest).Advances mode rest := by
  cases rest with
  | nil => exact h
  | cons c rest =>
    simp only [integer]
    repeat' split
    all_goals simp [Advances, h]

theorem advances_float (h : mode.isBetween = false) :
    (float pending rest).Advances mode rest := by
  cases rest with
  | nil => exact h
  | cons c rest =>
    simp only [float]
    repeat' split
    all_goals simp [Advances, h]

theorem advances_underscore (h : mode.isBetween = false) :
    (underscore rest).Advances mode rest := by
  cases rest with
  | nil => exact h
  | cons c rest =>
    simp only [underscore]
    split <;> simp [Advances, h]

theorem advances_identifier (h : mode.isBetween = false) :
    (identifier pending rest).Advances mode rest := by
  cases rest with
  | nil => exact h
  | cons c rest =>
    simp only [identifier]
    split <;> simp [Advances, h]

theorem advances_dollarEnd (h : mode.isBetween = false) :
    (dollarEnd pending).Advances mode rest := by
  unfold dollarEnd
  split <;> simp [Advances, h]

theorem advances_dollar (h : mode.isBetween = false) :
    (dollar pending rest).Advances mode rest := by
  cases rest with
  | nil => exact advances_dollarEnd h
  | cons c rest =>
    simp only [dollar]
    repeat' split
    · simp [Advances]
    · trivial
    · exact advances_dollarEnd h

theorem advances_operator (h : mode.isBetween = false) :
    (operator pending rest).Advances mode rest := by
  cases rest with
  | nil => exact h
  | cons c rest =>
    simp only [operator]
    split <;> simp [Advances, h]

theorem advances_dot (h : mode.isBetween = false) : (dot rest).Advances mode rest := by
  unfold dot
  split <;> simp [Advances, h]

theorem advances_doubleDot (h : mode.isBetween = false) :
    (doubleDot rest).Advances mode rest := by
  unfold doubleDot
  split <;> simp [Advances, h]

theorem advances_literal {q : Quote} {items : Nat} :
    (literal q pending items rest).Advances mode rest := by
  cases rest with
  | nil => trivial
  | cons c rest =>
    simp only [literal, closing]
    repeat' split
    all_goals simp [Advances]

theorem advances_escape {q : Quote} {resume : Mode} :
    (escape q resume rest).Advances mode rest := by
  unfold escape
  split
  · rename_i h
    exact ⟨Escape.width_pos_of_read h, Escape.ne_nil_of_read h⟩
  all_goals trivial

end Move

end NodLexis
