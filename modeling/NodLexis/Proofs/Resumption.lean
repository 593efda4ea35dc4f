import NodLexis.Proofs.LiteralRuns
import NodLexis.Proofs.Places
import NodLexis.Proofs.ScannerCalls

/-! # Calls after a failure

A scanner may be called again after it has failed. Most failures leave it at rest. At the
end of the text and at an unknown letter after a backslash the same failure comes back
for ever. Only behind an ill-formed code point the scan may go on: the scanner stands at
the offending character and takes it for the one after the backslash.
-/

namespace NodLexis.Scanner
open Grammar Defect

variable {s t : Scanner} {f : Failure} {q : Quote} {read text rest tail : List Char} {c value : Char}
  {cause : Cause} {width : Nat} {next : Mode}

/-- The scanner after it has read some of the text ahead. -/
def past (s : Scanner) (text rest : List Char) : Scanner :=
  { s with here := s.here.after text, rest, pending := s.pending ++ String.ofList text }

/-- No call fails, and none gets the scanner any further. -/
structure Rests (s : Scanner) : Prop where
  calls : ∀ cs, s.calls cs = s
  step : s.step = (s, .done)
  run : s.run = (s, none)

/-- Every call fails in the same way, and none gets the scanner any further. -/
structure Stuck (s : Scanner) (f : Failure) : Prop where
  calls : ∀ cs, s.calls cs = s
  step : s.step = (s, .failed f)
  run : s.run = (s, some f)

theorem calls_eq_self (hstep : s.step.1 = s) (hrun : s.run.1 = s) (cs : List Call) : s.calls cs = s := by
  induction cs with
  | nil => rfl
  | cons c cs ih =>
    have hc : s.call c = s := by
      cases c with
      | step => exact hstep
      | run => exact hrun
    rw [calls, List.foldl_cons, hc]
    exact ih

theorem rests_of_step (h : s.step = (s, .done)) : s.Rests := by
  have hrun := run_of_done h
  exact ⟨calls_eq_self (congrArg Prod.fst h) (congrArg Prod.fst hrun), h, hrun⟩

theorem stuck_of_step (h : s.step = (s, .failed f)) : s.Stuck f := by
  have hrun := run_of_failed h
  exact ⟨calls_eq_self (congrArg Prod.fst h) (congrArg Prod.fst hrun), h, hrun⟩

theorem rests_of_ended (h : s.mode = .error ∨ s.mode = .eof) : s.Rests := by
  apply rests_of_step
  rcases h with h | h <;> simp [step, move, h, perform]

theorem takeMany_eq_past (hr : s.rest = text ++ rest) : s.takeMany text.length = s.past text rest := by
  rw [takeMany_eq, hr, List.take_left, List.drop_left]
  rfl

theorem past_nil (hr : s.rest = rest) : s.past [] rest = s := by
  simp [past, ← hr]

/-! ## Giving up -/

/-- Why a scanner gives up in a mode before a text: how much of the text it reads, the
cause, and the mode in which it is left. -/
inductive GivesUp : Mode → List Char → Nat → Cause → Mode → Prop where
  | defect {mode : Mode} {rest : List Char} {width : Nat} {cause : Cause}
      (h : cause.failureClass = .other) : GivesUp mode rest width cause .error
  | openLiteral (q : Quote) : GivesUp (.literal q) [] 0 (.earlyEof q.context) (.literal q)
  | escape (q : Quote) {read rest : List Char} {cause : Cause} (h : BadEscape read rest cause) :
      GivesUp (.escape q) (read ++ rest) read.length cause (.escape q)

private theorem givesUp_opening {mode : Mode} (h : Move.opening rest = .fail width cause next) :
    GivesUp mode rest width cause next := by
  unfold Move.opening at h
  repeat' split at h
  all_goals cases h
  exact .defect rfl

private theorem givesUp_literal {pending : String} {items : Nat}
    (h : Move.literal q pending items rest = .fail width cause next) :
    GivesUp (.literal q) rest width cause next := by
  unfold Move.literal at h
  split at h
  · cases h
    exact .openLiteral q
  · unfold Move.closing at h
    repeat' split at h
    all_goals cases h
    exact .defect rfl

private theorem givesUp_escape {resume : Mode} (h : Move.escape q resume rest = .fail width cause next) :
    GivesUp (.escape q) rest width cause next := by
  rcases item_or_badEscape (Plain q) rest with ⟨text, rest, value, rfl, hi⟩ | ⟨read, rest, cause', rfl, hb⟩
  · rw [escape_of_item hi] at h
    cases h
  · rw [escape_of_badEscape hb] at h
    cases h
    exact .escape q hb

private theorem givesUp_dollar {mode : Mode} {pending : String}
    (h : Move.dollar pending rest = .fail width cause next) : GivesUp mode rest width cause next := by
  simp only [Move.dollar.eq_def, Move.dollarEnd] at h
  repeat' split at h
  all_goals cases h
  all_goals exact .defect rfl

theorem givesUp_of_move (h : s.move = .fail width cause next) : GivesUp s.mode s.rest width cause next := by
  cases hm : s.mode <;> simp only [move, hm] at h
  case between | newLine => exact givesUp_opening h
  case literal q => exact givesUp_literal h
  case escape q => exact givesUp_escape h
  case dollar => exact givesUp_dollar h
  case error | eof => cases h
  -- The other modes give up on a malformed number only.
  case integer | float | identifier | underscore | operator | dot | doubleDot =>
    simp only [Move.integer.eq_def, Move.float.eq_def, Move.identifier.eq_def, Move.underscore.eq_def,
      Move.operator.eq_def, Move.dot.eq_def, Move.doubleDot.eq_def] at h
    repeat' split at h
    all_goals cases h
    all_goals exact .defect rfl

/-! ## Inside an escape -/

/-- What comes of some text behind a backslash: an item of the literal, or something
wrong. -/
inductive Escapes (q : Quote) (s : Scanner) (text : List Char) : Scanner × Progress → Prop where
  | complete {rest : List Char} {value : Char} (hr : s.rest = text ++ rest)
      (h : Item (Plain q) ('\\' :: text) value) :
      Escapes q s text ({ s.past text rest with mode := .literal q, items := s.items + 1 }, .more)
  | wrong {rest : List Char} {cause : Cause} (hr : s.rest = text ++ rest) (h : BadEscape text rest cause) :
      Escapes q s text
        (s.past text rest, .failed (failureAt s.file (s.here.after text) cause (.escape q)))

/-- A wrong escape is wrong again from where it was left, or else it is an ill-formed
code point, left before its offending character. -/
theorem again_of_badEscape (h : BadEscape read rest cause) :
    (BadEscape [] rest cause ∧ ∀ sequence, cause ≠ .badUnicodeEscape sequence) ∨
      ∃ sequence c tail, cause = .badUnicodeEscape sequence ∧ rest = c :: tail := by
  cases h with
  | unfinished h => exact .inl ⟨.unfinished .backslash, by simp⟩
  | letter hu h => exact .inl ⟨.letter hu h, by simp⟩
  | brace h => exact .inr ⟨_, _, _, rfl, rfl⟩
  | digit short hex hc stop => exact .inr ⟨_, _, _, rfl, rfl⟩
  | value short hex h => exact .inr ⟨_, _, _, rfl, rfl⟩

section escape
variable (hm : s.mode = .escape q)
include hm

theorem step_of_badEscape (hr : s.rest = text ++ rest) (h : BadEscape text rest cause) :
    s.step = (s.past text rest, .failed (failureAt s.file (s.here.after text) cause (.escape q))) := by
  have hmove : s.move = .fail text.length cause (.escape q) := by
    simp only [move, hm, hr, escape_of_badEscape h]
  simp only [step, hmove, perform, takeMany_eq_past hr, ← hm]
  rfl

theorem stuck_of_badEscape (h : BadEscape [] s.rest cause) :
    s.Stuck (failureAt s.file s.here cause (.escape q)) := by
  apply stuck_of_step
  have hstep := step_of_badEscape hm (List.nil_append _).symm h
  rwa [past_nil rfl] at hstep

variable (hresume : s.resume = .literal q)
include hresume

theorem step_of_item (hr : s.rest = text ++ rest) (h : Item (Plain q) ('\\' :: text) value) :
    s.step = ({ s.past text rest with mode := .literal q, items := s.items + 1 }, .more) := by
  have hmove : s.move = .item text.length (.literal q) := by
    simp only [move, hm, hr, hresume, escape_of_item h]
  simp only [step, hmove, perform, takeMany_eq_past hr]
  rfl

/-- From a letter for code points on a whole escape is tried. -/
theorem exists_escapes_step (hr : s.rest = 'u' :: tail) : ∃ text, Escapes q s ('u' :: text) s.step := by
  rcases item_or_badEscape (Plain q) ('u' :: tail) with ⟨text, rest, value, he, hi⟩ | ⟨text, rest, cause, he, hb⟩
  · match text with
    | [] =>
      cases hi with
      | raw h => exact absurd rfl h.2
    | c :: text =>
      obtain ⟨rfl, -⟩ := List.cons.inj he
      have hr' := hr.trans he
      exact ⟨text, step_of_item hm hresume hr' hi ▸ .complete hr' hi⟩
  · match text with
    | [] =>
      subst he
      cases hb with
      | letter hu _ => exact absurd rfl hu
    | c :: text =>
      obtain ⟨rfl, -⟩ := List.cons.inj he
      have hr' := hr.trans he
      exact ⟨text, step_of_badEscape hm hr' hb ▸ .wrong hr' hb⟩

end escape

/-! ## After a failure -/

/-- How a scanner goes on from the offending character of an ill-formed code point. -/
structure Retries (q : Quote) (c : Char) (tail : List Char) (f : Failure) (s : Scanner) : Prop where
  mode : s.mode = .escape q
  ahead : s.rest = c :: tail
  unknown : c ≠ 'u' → Escape.simple? c = none → s.Stuck { f with cause := .badEscape c }
  letter : (Escape.simple? c).isSome = true →
    s.step = ({ s.past [c] tail with mode := .literal q, items := s.items + 1 }, .more)
  codePoint : c = 'u' → ∃ text, Escapes q s ('u' :: text) s.step

theorem retries_of_escape (hm : s.mode = .escape q) (hresume : s.resume = .literal q) (hr : s.rest = c :: tail)
    (cause : Cause) : Retries q c tail (failureAt s.file s.here cause (.escape q)) s := by
  refine ⟨hm, hr, ?_, ?_, ?_⟩
  · intro hu hn
    have hb : BadEscape [] s.rest (.badEscape c) := hr ▸ .letter hu (Literal.simple?_eq_none_iff.mp hn)
    exact stuck_of_badEscape hm hb
  · intro hc
    obtain ⟨value, hvalue⟩ := Option.isSome_iff_exists.mp hc
    exact step_of_item hm hresume hr (.simple (Literal.simple?_eq_some_iff.mp hvalue))
  · rintro rfl
    exact exists_escapes_step hm hresume hr

/-- The ways in which a failure leaves a scanner, told by its mode and its cause. -/
inductive LeftBy (f : Failure) (t : Scanner) : Prop where
  | resting (hm : f.mode = .error) (hc : f.cause.failureClass = .other) (h : t.Rests)
  | stuck (hm : f.mode ≠ .error) (hc : ∀ sequence, f.cause ≠ .badUnicodeEscape sequence) (h : t.Stuck f)
  | retrying {q : Quote} {c : Char} {tail : List Char} {sequence : String} (hm : f.mode ≠ .error)
      (hc : f.cause = .badUnicodeEscape sequence) (h : Retries q c tail f t)

theorem leftBy_of_failed (hs : s.Settled) (h : s.step = (t, .failed f)) : LeftBy f t := by
  obtain ⟨width, cause, next, hmove, ht, rfl⟩ := exists_move_of_failed h
  have hg := givesUp_of_move hmove
  generalize hmode : s.mode = mode at hg
  generalize hrest : s.rest = rest at hg
  cases hg with
  | defect hc =>
    have herror : t.mode = .error := by rw [ht]
    exact .resting herror hc (rests_of_ended (.inl herror))
  | openLiteral q =>
    have hsame : t = s := by rw [ht, takeMany, ← hmode]
    have hliteral : t.mode = .literal q := by rw [ht]
    rw [← hsame] at h
    exact .stuck (by simp [failure, hliteral]) (by simp [failure]) (stuck_of_step h)
  | @escape q read rest cause hb =>
    have hpast : t = s.past read rest := by
      rw [ht, takeMany_eq_past hrest, ← hmode]
      rfl
    have hescape : t.mode = .escape q := by rw [ht]
    have hresume : t.resume = .literal q := by
      rw [hpast]
      exact hs.resume q hmode
    have hahead : t.rest = rest := by
      rw [hpast]
      rfl
    have hfailure : t.failure cause = failureAt t.file t.here cause (.escape q) := by
      rw [← hescape]
      rfl
    rw [hfailure]
    rcases again_of_badEscape hb with ⟨hb', hcause⟩ | ⟨sequence, c, tail, rfl, rfl⟩
    · exact .stuck (by simp [failureAt]) hcause (stuck_of_badEscape hescape (hahead ▸ hb'))
    · exact .retrying (by simp [failureAt]) rfl (retries_of_escape hescape hresume hahead _)

theorem LeftBy.rests (h : LeftBy f t) (hm : f.mode = .error) : t.Rests := by
  cases h with
  | resting _ _ h => exact h
  | stuck hn _ _ => exact absurd hm hn
  | retrying hn _ _ => exact absurd hm hn

theorem LeftBy.repeats (h : LeftBy f t)
    (hc : (∃ context, f.cause = .earlyEof context) ∨ ∃ c, f.cause = .badEscape c) : t.Stuck f := by
  cases h with
  | resting _ hother _ => rcases hc with ⟨context, hc⟩ | ⟨c, hc⟩ <;> rw [hc] at hother <;> cases hother
  | stuck _ _ h => exact h
  | retrying _ hn _ => rcases hc with ⟨context, hc⟩ | ⟨c, hc⟩ <;> rw [hc] at hn <;> cases hn

theorem LeftBy.retries {sequence : String} (h : LeftBy f t) (hc : f.cause = .badUnicodeEscape sequence) :
    ∃ q c tail, Retries q c tail f t := by
  cases h with
  | resting _ hother _ =>
    rw [hc] at hother
    cases hother
  | stuck _ hn _ => exact absurd hc (hn sequence)
  | retrying _ _ h => exact ⟨_, _, _, h⟩

theorem LeftBy.resumes {cs : List Call} (h : LeftBy f t) (hne : t.calls cs ≠ t) :
    ∃ sequence c tail, f.cause = .badUnicodeEscape sequence ∧ t.rest = c :: tail ∧
      (c = 'u' ∨ (Escape.simple? c).isSome = true) := by
  cases h with
  | resting _ _ h => exact absurd (h.calls cs) hne
  | stuck _ _ h => exact absurd (h.calls cs) hne
  | @retrying q c tail sequence _ hc h =>
    refine ⟨sequence, c, tail, hc, h.ahead, ?_⟩
    by_contra hn
    obtain ⟨hu, hletter⟩ := not_or.mp hn
    have hstuck := h.unknown hu (by simpa using hletter)
    exact hne (hstuck.calls cs)

/-- What a step of a scanner leaves behind when it fails. -/
structure Aftermath (s : Scanner) (f : Failure) (t : Scanner) : Prop where
  tokens : t.tokens = s.tokens
  mode : t.mode = f.mode
  place : t.here = f.place
  rests : f.mode = .error → t.Rests
  repeats : (∃ context, f.cause = .earlyEof context) ∨ (∃ c, f.cause = .badEscape c) → t.Stuck f
  retries : ∀ sequence, f.cause = .badUnicodeEscape sequence → ∃ q c tail, Retries q c tail f t
  resumes : ∀ cs, t.calls cs ≠ t → ∃ sequence c tail, f.cause = .badUnicodeEscape sequence ∧
    t.rest = c :: tail ∧ (c = 'u' ∨ (Escape.simple? c).isSome = true)

theorem aftermath_of_failed (hs : s.Settled) (h : s.step = (t, .failed f)) : Aftermath s f t := by
  have hleft := leftBy_of_failed hs h
  obtain ⟨width, cause, next, -, ht, rfl⟩ := exists_move_of_failed h
  have htokens : t.tokens = s.tokens := by rw [ht, takeMany_eq]
  exact ⟨htokens, rfl, rfl, hleft.rests, hleft.repeats, fun _ => hleft.retries, fun _ => hleft.resumes⟩

/-- Whatever calls led to a scanner, it rests at the end of the text, and a step that
fails leaves the tokens as they were and the cursor, the mode and all later calls as the
failure tells. -/
theorem aftermath_calls (source : String) (file? : Option String) (cs : List Call) :
    (((ofSource source file?).calls cs).mode = .eof → ((ofSource source file?).calls cs).Rests) ∧
      ∀ t f, ((ofSource source file?).calls cs).step = (t, .failed f) →
        Aftermath ((ofSource source file?).calls cs) f t := by
  obtain ⟨hs, -⟩ := layout_calls source file? cs
  constructor
  · intro heof
    exact rests_of_ended (.inr heof)
  · intro t f h
    exact aftermath_of_failed hs h

/-- A code point that breaks off at a letter for code points is read from there. -/
example : (ofSource "\"\\u\x7b12u\x7b41\x7d\"" none).run.2.map Failure.cause =
      some (.badUnicodeEscape "\\u\x7b12u") ∧
    ((ofSource "\"\\u\x7b12u\x7b41\x7d\"" none).calls [.run, .step]).mode = .literal .double := by
  decide +kernel

end NodLexis.Scanner
