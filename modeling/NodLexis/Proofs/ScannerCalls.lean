import NodLexis.Proofs.ScannerRuns

/-! # Scanners driven from outside

A scanner may be stepped and run in any order, also after a failure. What every
step keeps holds after any calls. At every moment the source is laid out in front
of the scanner as the pieces that it has tokens for, a gap of blanks, the pending
text, and the text ahead.
-/

namespace NodLexis

/-- The two ways to get a scanner ahead. -/
inductive Call where
  | step | run
  deriving DecidableEq

namespace Mode

/-- A token is pending. -/
def isPending : Mode → Bool
  | .between | .newLine | .error | .eof => false
  | _ => true

theorem isPending_eq_false_of_isBetween {m : Mode} (h : m.isBetween = true) : m.isPending = false := by
  cases m with
  | between | newLine => rfl
  | _ => cases h

end Mode

namespace Move
open CharacterClass

/-- What a scanner may choose in a mode, with a mode to go back to and a text ahead. -/
def Allowed (mode resume : Mode) (rest : List Char) : Move → Prop
  | .stop => mode.isBetween = true ∧ rest = []
  | .halt => mode = .error ∨ mode = .eof
  | .skip next =>
    mode.isBetween = true ∧ next.isBetween = true ∧ ∃ c tail, rest = c :: tail ∧ isBlank c = true
  | .extend next => next.isPending = true ∧ ∀ q, next ≠ .escape q
  | .close _ => mode.isPending = true
  | .closeOn _ => True
  | .item _ next => ∃ q, next = .literal q ∨ mode = .escape q ∧ next = resume
  | .backslash next => ∃ q, mode = .literal q ∧ next = .escape q
  | .fail _ _ next => next = .error ∨ mode.isPending = true ∧ next = mode

variable {mode resume : Mode} {pending : String} {rest : List Char}

private theorem allowed_opening (h : mode.isBetween = true) : (opening rest).Allowed mode resume rest := by
  cases rest with
  | nil => exact ⟨h, rfl⟩
  | cons c rest =>
    simp only [opening]
    split
    · rename_i hc
      exact ⟨h, rfl, c, rest, rfl, hc ▸ rfl⟩
    · split
      · rename_i hb
        exact ⟨h, rfl, c, rest, rfl, hb⟩
      · repeat' split
        all_goals simp [Allowed, Mode.isPending]

private theorem allowed_dollarEnd : (dollarEnd pending).Allowed .dollar resume rest := by
  rw [dollarEnd]
  split
  · exact .inl rfl
  · rfl

private theorem allowed_dollar : (dollar pending rest).Allowed .dollar resume rest := by
  cases rest with
  | nil => exact allowed_dollarEnd
  | cons c rest =>
    simp only [dollar]
    repeat' split
    · simp [Allowed, Mode.isPending]
    · exact .inl rfl
    · exact allowed_dollarEnd

private theorem allowed_literal {q : Quote} {items : Nat} :
    (literal q pending items rest).Allowed (.literal q) resume rest := by
  cases rest with
  | nil => exact .inr ⟨rfl, rfl⟩
  | cons c rest =>
    simp only [literal, closing]
    repeat' split
    all_goals simp [Allowed]

private theorem allowed_escape {q : Quote} : (escape q resume rest).Allowed (.escape q) resume rest := by
  rw [escape]
  split
  · exact ⟨q, .inr ⟨rfl, rfl⟩⟩
  all_goals exact .inr ⟨rfl, rfl⟩

end Move

namespace Scanner
open Grammar

variable {s : Scanner} {rest gap : List Char} {pieces : List Piece}

theorem allowed_move (s : Scanner) : s.move.Allowed s.mode s.resume s.rest := by
  cases hm : s.mode <;> simp only [move, hm]
  case between => exact Move.allowed_opening rfl
  case newLine => exact Move.allowed_opening rfl
  case literal q => exact Move.allowed_literal
  case escape q => exact Move.allowed_escape
  case dollar => exact Move.allowed_dollar
  case error => exact .inl rfl
  case eof => exact .inr rfl
  -- The other modes read on over a class of characters, close the token, or fail.
  case integer | float | identifier | underscore | operator | dot | doubleDot =>
    simp only [Move.integer.eq_def, Move.float.eq_def, Move.identifier.eq_def, Move.underscore.eq_def,
      Move.operator.eq_def, Move.dot.eq_def, Move.doubleDot.eq_def]
    repeat' split
    all_goals simp [Move.Allowed, Mode.isPending]

def call (s : Scanner) : Call → Scanner
  | .step => s.step.1
  | .run => s.run.1

def calls (s : Scanner) (cs : List Call) : Scanner := cs.foldl call s

/-- What holds of a scanner and is kept by every step holds after any calls. -/
theorem calls_induction {P : Scanner → Prop} (hstep : ∀ s : Scanner, P s → P s.step.1) (h : P s)
    (cs : List Call) : P (s.calls cs) := by
  induction cs generalizing s with
  | nil => exact h
  | cons c cs ih =>
    apply ih
    cases c with
    | step => exact hstep s h
    | run => exact run_induction hstep h

theorem calls_append (s : Scanner) (cs ds : List Call) : s.calls (cs ++ ds) = (s.calls cs).calls ds :=
  List.foldl_append

theorem exists_calls_of_steps {t : Scanner} (h : Steps s t) : ∃ cs, s.calls cs = t := by
  induction h with
  | refl => exact ⟨[], rfl⟩
  | tail _ hg ih =>
    obtain ⟨cs, rfl⟩ := ih
    exact ⟨cs ++ [.step], by rw [calls_append]; exact congrArg Prod.fst hg⟩

/-! ## What lies behind a scanner -/

/-- The source as a scanner has taken it apart: some pieces, a gap, the pending
text, and the text ahead. -/
structure Layout (source : List Char) (file : String) (pieces : List Piece) (gap : List Char)
    (s : Scanner) : Prop where
  spelt : source = spell pieces (gap ++ (s.pending.toList ++ s.rest))
  solid : ∀ p ∈ pieces, Blank p.gap ∧ p.lexeme ≠ []
  blank : Blank gap
  tokens : s.tokens.toList = tokensFrom file .origin pieces
  file : s.file = file
  start : s.start = Place.origin.after (spell pieces gap)
  here : s.here = s.start.after s.pending.toList

/-- What the mode says about the pending text, the mode to go back to and the text
ahead. Nothing is said in the mode of an error, which may leave text pending or not. -/
structure Settled (s : Scanner) : Prop where
  idle : s.mode.isBetween = true ∨ s.mode = .eof → s.pending = ""
  pending : s.mode.isPending = true → s.pending ≠ ""
  resume : ∀ q, s.mode = .escape q → s.resume = .literal q
  ended : s.mode = .eof → s.rest = []

section
variable {source : List Char} {file : String}

theorem layout_ofSource (source : String) (file? : Option String) :
    (ofSource source file?).Layout source.toList (file?.getD defaultFile) [] [] := by
  constructor <;> simp [ofSource, spell, blank_nil, tokensFrom]

/-- The mode, the mode to go back to, the number of items and the journal have no
part in the layout. -/
theorem Layout.update (h : Layout source file pieces gap s) (mode resume : Mode) (items : Nat)
    (journal : Array Event) : Layout source file pieces gap { s with mode, resume, items, journal } :=
  ⟨h.spelt, h.solid, h.blank, h.tokens, h.file, h.start, h.here⟩

theorem Layout.takeMany (h : Layout source file pieces gap s) (n : Nat) :
    Layout source file pieces gap (s.takeMany n) := by
  obtain ⟨hspelt, hsolid, hblank, htokens, hfile, hstart, hhere⟩ := h
  rw [takeMany_eq]
  refine ⟨?_, hsolid, hblank, htokens, hfile, hstart, ?_⟩
  · simpa using hspelt
  · simp [hhere, Place.after_append]

theorem Layout.skip {c : Char} (h : Layout source file pieces gap s) (hp : s.pending = "")
    (hr : s.rest = c :: rest) (hc : CharacterClass.isBlank c = true) :
    Layout source file pieces (gap ++ [c]) s.skip := by
  obtain ⟨hspelt, hsolid, hblank, htokens, hfile, hstart, hhere⟩ := h
  have hs : s.here = s.start := by simpa [hp] using hhere
  have hplace : s.here.next c = Place.origin.after (spell pieces (gap ++ [c])) := by
    rw [hs, hstart, ← spell_append_tail pieces gap, ← spell_append_tail pieces (gap ++ [c]),
      ← List.append_assoc, Place.after_append _ _ [c]]
    rfl
  refine ⟨?_, hsolid, ?_, ?_, ?_, ?_, ?_⟩
  · simpa [Scanner.skip, hr, hp] using hspelt
  · intro d hd
    rcases List.mem_append.mp hd with hd | hd
    · exact hblank d hd
    · rwa [List.mem_singleton.mp hd]
  · simpa [Scanner.skip, hr] using htokens
  · simpa [Scanner.skip, hr] using hfile
  · simpa [Scanner.skip, hr] using hplace
  · simp [Scanner.skip, hr, hp]

/-- The pending text becomes the lexeme of one more piece. -/
theorem Layout.emit (h : Layout source file pieces gap s) (hp : s.pending ≠ "") (kind : TokenKind) :
    Layout source file (pieces ++ [⟨gap, kind, s.pending.toList⟩]) [] (s.emit kind) := by
  obtain ⟨hspelt, hsolid, hblank, htokens, hfile, hstart, hhere⟩ := h
  have htoken : s.token kind = tokenAt file s.start kind s.pending.toList := by
    simp [token, tokenAt, position, hhere, hfile]
  have hstart' : s.start = (Place.origin.after (spell pieces [])).after gap := by
    rw [hstart, ← spell_append_tail, Place.after_append]
  refine ⟨?_, ?_, blank_nil, ?_, hfile, ?_, ?_⟩
  · simpa [Scanner.emit, spell_append, spell] using hspelt
  · intro p hmem
    rcases List.mem_append.mp hmem with hmem | hmem
    · exact hsolid p hmem
    · rw [List.mem_singleton.mp hmem]
      exact ⟨hblank, by simpa using hp⟩
  · simp [Scanner.emit, htokens, tokensFrom_append, tokensFrom, htoken, hstart']
  · rw [spell_append, ← spell_append_tail]
    simp [Scanner.emit, spell, hhere, hstart', Place.after_append]
  · simp [Scanner.emit]

end

theorem settled_ofSource (source : String) (file? : Option String) :
    (ofSource source file?).Settled := by
  constructor <;> simp [ofSource, Mode.isPending]

theorem settled_of_between (hm : s.mode.isBetween = true) (hp : s.pending = "") : s.Settled := by
  constructor
  · exact fun _ => hp
  · intro h
    rw [Mode.isPending_eq_false_of_isBetween hm] at h
    cases h
  · intro q h
    rw [h] at hm
    cases hm
  · intro h
    rw [h] at hm
    cases hm

theorem settled_of_pending (hm : s.mode.isPending = true) (hp : s.pending ≠ "")
    (hr : ∀ q, s.mode = .escape q → s.resume = .literal q) : s.Settled := by
  refine ⟨?_, fun _ => hp, hr, ?_⟩
  · intro h
    rcases h with h | h
    · rw [Mode.isPending_eq_false_of_isBetween h] at hm
      cases hm
    · rw [h] at hm
      cases hm
  · intro h
    rw [h] at hm
    cases hm

theorem settled_of_error (hm : s.mode = .error) : s.Settled := by
  constructor <;> simp [hm, Mode.isBetween, Mode.isPending]

theorem mode_take (s : Scanner) : s.take.mode = s.mode := by
  rw [take]
  split <;> rfl

theorem pending_takeMany_ne {n : Nat} (h : s.pending ≠ "" ∨ 0 < n ∧ s.rest ≠ []) :
    (s.takeMany n).pending ≠ "" := by
  rw [takeMany_eq]
  intro he
  have hlist := congrArg String.toList he
  rcases h with h | h
  · simp_all
  · simp_all

theorem settled_step (h : s.Settled) : s.step.1.Settled := by
  obtain ⟨hidle, hpending, hresume, hended⟩ := h
  have hm := allowed_move s
  have ha := advances_move s
  rw [step]
  generalize s.move = m at hm ha
  cases m with
  | stop =>
    obtain ⟨hb, hr⟩ := hm
    exact ⟨fun _ => hidle (.inl hb), by simp [perform, Mode.isPending], by simp [perform], fun _ => hr⟩
  | halt => exact ⟨hidle, hpending, hresume, hended⟩
  | skip next =>
    obtain ⟨hb, hnext, c, tail, hr, -⟩ := hm
    apply settled_of_between hnext
    simpa [perform, skip, hr] using hidle (.inl hb)
  | extend next =>
    obtain ⟨hnext, hescape⟩ := hm
    apply settled_of_pending hnext
    · exact pending_takeMany_ne (n := 1) (.inr ⟨by omega, ha⟩)
    · intro q hq
      exact absurd hq (hescape q)
  | close kind => exact settled_of_between rfl rfl
  | closeOn kind => exact settled_of_between rfl rfl
  | item width next =>
    have hnext : ∃ q, next = .literal q := by
      obtain ⟨q, rfl | ⟨hq, rfl⟩⟩ := hm
      · exact ⟨q, rfl⟩
      · exact ⟨q, hresume q hq⟩
    obtain ⟨q, rfl⟩ := hnext
    exact settled_of_pending rfl (pending_takeMany_ne (.inr ha)) (by simp [perform])
  | backslash next =>
    obtain ⟨q, hq, rfl⟩ := hm
    apply settled_of_pending rfl
    · exact pending_takeMany_ne (n := 1) (.inr ⟨by omega, ha⟩)
    · intro q' hq'
      obtain rfl := Mode.escape.inj hq'
      simpa [perform, mode_take] using hq
  | fail width cause next =>
    rcases hm with rfl | ⟨hp, rfl⟩
    · exact settled_of_error rfl
    · have hnext : (s.perform (.fail width cause s.mode)).1.mode.isPending = true := hp
      apply settled_of_pending hnext
      · exact pending_takeMany_ne (.inl (hpending hp))
      · simpa [perform, takeMany_eq] using hresume

/-- A step keeps the layout, with one more piece when it emits a token. -/
theorem layout_step {source : List Char} {file : String} (hs : s.Settled)
    (h : ∃ pieces gap, Layout source file pieces gap s) :
    ∃ pieces gap, Layout source file pieces gap s.step.1 := by
  obtain ⟨pieces, gap, h⟩ := h
  have hm := allowed_move s
  have ha := advances_move s
  rw [step]
  generalize s.move = m at hm ha
  cases m with
  | stop => exact ⟨pieces, gap, h.update ..⟩
  | halt => exact ⟨pieces, gap, h⟩
  | skip next =>
    obtain ⟨hb, -, c, rest, hr, hc⟩ := hm
    exact ⟨pieces, gap ++ [c], (h.skip (hs.idle (.inl hb)) hr hc).update ..⟩
  | extend next => exact ⟨pieces, gap, (h.takeMany 1).update ..⟩
  | close kind => exact ⟨_, [], h.emit (hs.pending hm) kind⟩
  | closeOn kind =>
    have hp : (s.takeMany 1).pending ≠ "" := pending_takeMany_ne (.inr ⟨by omega, ha⟩)
    exact ⟨_, [], (h.takeMany 1).emit hp kind⟩
  | item width next => exact ⟨pieces, gap, (h.takeMany width).update ..⟩
  | backslash next => exact ⟨pieces, gap, (h.takeMany 1).update ..⟩
  | fail width cause next => exact ⟨pieces, gap, (h.takeMany width).update ..⟩

/-- After any calls the source is laid out in front of the scanner, and the mode
tells what is pending. -/
theorem layout_calls (source : String) (file? : Option String) (cs : List Call) :
    ((ofSource source file?).calls cs).Settled ∧
      ∃ pieces gap, Layout source.toList (file?.getD defaultFile) pieces gap
        ((ofSource source file?).calls cs) := by
  refine calls_induction (P := fun s => s.Settled ∧
    ∃ pieces gap, Layout source.toList (file?.getD defaultFile) pieces gap s) ?_ ?_ cs
  · rintro s ⟨hs, h⟩
    exact ⟨settled_step hs, layout_step hs h⟩
  · exact ⟨settled_ofSource source file?, [], [], layout_ofSource source file?⟩

end Scanner

end NodLexis
