import NodLexis.Journal
import NodLexis.Move

/-! # The scanner

A scanner holds the text still to be read, the pending text of the token that it
is in the middle of, and the tokens so far. A step chooses a move and carries it
out; a run takes steps to the end of the text or to a failure. A failure leaves a
scanner that can be stepped again.
-/

namespace NodLexis

structure Scanner where
  file : String
  mode : Mode
  /-- The mode to go back to after an escape. -/
  resume : Mode
  /-- Where `rest` starts. -/
  here : Place
  rest : List Char
  /-- Where `pending` starts. -/
  start : Place
  pending : String
  /-- The complete items of the pending literal, an escape counting once. -/
  items : Nat
  tokens : Array Token
  journal : Array Event

/-- What a step has to say. -/
inductive Progress where
  | more | done
  | failed (f : Failure)
  deriving DecidableEq

namespace Scanner

/-- The name of a text that is given none. -/
def defaultFile : String := "shell"

def ofSource (source : String) (file? : Option String) : Scanner where
  file := file?.getD defaultFile
  mode := .between
  resume := .between
  here := .origin
  rest := source.toList
  start := .origin
  pending := ""
  items := 0
  tokens := #[]
  journal := #[]

def record (s : Scanner) (e : Event) : Scanner := { s with journal := s.journal.push e }

/-- Passes over one character, so that the next token starts after it. -/
def skip (s : Scanner) : Scanner :=
  match s.rest with
  | [] => s
  | c :: rest => { s with here := s.here.next c, rest, start := s.here.next c }

/-- Adds one character to the pending text. -/
def take (s : Scanner) : Scanner :=
  match s.rest with
  | [] => s
  | c :: rest => { s with here := s.here.next c, rest, pending := s.pending.push c }

def takeMany : Nat → Scanner → Scanner
  | 0, s => s
  | n + 1, s => takeMany n s.take

def position (s : Scanner) : Position := ⟨s.here.offset, s.file⟩

/-- The pending text as a token. -/
def token (s : Scanner) (kind : TokenKind) : Token where
  kind
  lexeme := s.pending
  line := s.start.line
  column := s.start.column
  span := ⟨⟨s.start.offset, s.file⟩, s.position⟩

def emit (s : Scanner) (kind : TokenKind) : Scanner :=
  let t := s.token kind
  { s with
    mode := .between
    start := s.here
    pending := ""
    items := 0
    tokens := s.tokens.push t
    journal := s.journal.push (.emitted t) }

def failure (s : Scanner) (cause : Cause) : Failure where
  cause
  mode := s.mode
  position := s.position
  line := s.here.line
  column := s.here.column

def move (s : Scanner) : Move :=
  match s.mode with
  | .between | .newLine => .opening s.rest
  | .integer => .integer s.pending s.rest
  | .float => .float s.pending s.rest
  | .literal q => .literal q s.pending s.items s.rest
  | .escape q => .escape q s.resume s.rest
  | .identifier => .identifier s.pending s.rest
  | .underscore => .underscore s.rest
  | .dollar => .dollar s.pending s.rest
  | .operator => .operator s.pending s.rest
  | .dot => .dot s.rest
  | .doubleDot => .doubleDot s.rest
  | .error | .eof => .halt

def perform (s : Scanner) : Move → Scanner × Progress
  | .stop => ({ s with mode := .eof }, .done)
  | .halt => (s, .done)
  | .skip next => ({ s.skip with mode := next }, .more)
  | .extend next => ({ s.take with mode := next }, .more)
  | .close kind => (s.emit kind, .more)
  | .closeOn kind => (s.take.emit kind, .more)
  | .item width next =>
    let t := s.takeMany width
    ({ t with mode := next, items := t.items + 1 }, .more)
  | .backslash next =>
    let t := s.take
    ({ t with mode := next, resume := t.mode }, .more)
  | .fail width cause next =>
    let t := { s.takeMany width with mode := next }
    (t, .failed (t.failure cause))

def step (s : Scanner) : Scanner × Progress := s.perform s.move

/-- The bound on the steps that a run can still take: two for each character
ahead, for it may be looked at once more after it has closed a token, and one for
the pending token. -/
def bound (s : Scanner) : Nat := 2 * s.rest.length + if s.mode.isBetween then 0 else 1

@[simp] theorem rest_skip (s : Scanner) : s.skip.rest = s.rest.tail := by
  unfold skip; split <;> simp_all

@[simp] theorem rest_take (s : Scanner) : s.take.rest = s.rest.tail := by
  unfold take; split <;> simp_all

@[simp] theorem rest_takeMany (n : Nat) (s : Scanner) :
    (takeMany n s).rest = s.rest.drop n := by
  induction n generalizing s with
  | zero => simp [takeMany]
  | succ n ih => simp [takeMany, ih]

/-- Every move that a scanner chooses gets it ahead. -/
theorem advances_move (s : Scanner) : s.move.Advances s.mode s.rest := by
  unfold move
  split <;> rename_i h <;> rw [h]
  · exact Move.advances_opening
  · exact Move.advances_opening
  · exact Move.advances_integer rfl
  · exact Move.advances_float rfl
  · exact Move.advances_literal
  · exact Move.advances_escape
  · exact Move.advances_identifier rfl
  · exact Move.advances_underscore rfl
  · exact Move.advances_dollar rfl
  · exact Move.advances_operator rfl
  · exact Move.advances_dot rfl
  · exact Move.advances_doubleDot rfl
  · trivial
  · trivial

theorem bound_lt_of_length_lt {s t : Scanner} (h : t.rest.length < s.rest.length) :
    t.bound < s.bound := by
  unfold bound
  split <;> split <;> omega

theorem bound_emit_lt {s : Scanner} (h : s.mode.isBetween = false) (kind : TokenKind) :
    (s.emit kind).bound < s.bound := by
  simp [bound, emit, h, show Mode.between.isBetween = true from rfl]

theorem bound_perform_lt {s t : Scanner} {m : Move} (h : m.Advances s.mode s.rest)
    (hp : s.perform m = (t, .more)) : t.bound < s.bound := by
  cases m <;> simp only [perform, Prod.mk.injEq, reduceCtorEq, and_false, and_true] at hp <;>
    subst hp
  case close kind => exact bound_emit_lt h kind
  case item width next =>
    have := List.length_pos_iff.mpr h.2
    have := h.1
    apply bound_lt_of_length_lt
    simp only [rest_takeMany, List.length_drop]
    omega
  all_goals
    have := List.length_pos_iff.mpr h
    apply bound_lt_of_length_lt
    simp only [emit, rest_skip, rest_take, List.length_tail]
    omega

theorem bound_step_lt {s t : Scanner} (h : s.step = (t, .more)) : t.bound < s.bound :=
  bound_perform_lt s.advances_move h

/-- Steps to the end of the text or to the first failure. -/
def run (s : Scanner) : Scanner × Option Failure :=
  match _h : s.step with
  | (t, .more) => t.run
  | (t, .done) => (t, none)
  | (t, .failed f) => (t, some f)
termination_by s.bound
decreasing_by exact bound_step_lt _h

/-- Runs and notes the mode and the number of tokens after every step. -/
def trace (s : Scanner) (seen : Array (Mode × Nat)) :
    Scanner × Array (Mode × Nat) × Option Failure :=
  match _h : s.step with
  | (t, .more) => t.trace (seen.push (t.mode, t.tokens.size))
  | (t, .done) => (t, seen.push (t.mode, t.tokens.size), none)
  | (t, .failed f) => (t, seen.push (t.mode, t.tokens.size), some f)
termination_by s.bound
decreasing_by exact bound_step_lt _h

end Scanner

end NodLexis
