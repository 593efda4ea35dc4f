import NodLexis.Proofs.Concatenation
import NodLexis.Proofs.ScannerCalls

/-! # Restarting behind a token

A scanner carries nothing over from one token into the next but its place and the tokens
so far. Behind a token it goes on in step with a fresh scanner of the text ahead: each
call of the one does what the same call of the other does, in shifted places. So what a
scan finds behind a token is what a scan of the text behind that token finds.
-/

namespace NodLexis
open SourceText Grammar Defect

/-- The outcome of a step when a text is put before the one that is scanned. -/
def Progress.shift (before : List Char) : Progress → Progress
  | .failed f => .failed (f.shift before)
  | p => p

namespace Scanner

/-- A scanner `t` does what `s` does, behind a text and some tokens. The mode to go back to
counts only inside an escape. -/
structure Placed (before : List Char) (ts : List Token) (s t : Scanner) : Prop where
  file : t.file = s.file
  mode : t.mode = s.mode
  rest : t.rest = s.rest
  pending : t.pending = s.pending
  items : t.items = s.items
  resume : ∀ q, s.mode = .escape q → s.resume = .literal q ∧ t.resume = .literal q
  line : 0 < s.here.line
  here : t.here = s.here.shift before
  start : t.start = s.start.shift before
  tokens : t.tokens.toList = ts ++ s.tokens.toList.map (Token.shift before)

variable {before : List Char} {ts : List Token} {s t : Scanner} {m : Mode} {r r' : Mode}

/-! ## The parts of a step -/

theorem Placed.move_eq (h : Placed before ts s t) : t.move = s.move := by
  cases hm : s.mode with
  | escape q =>
    obtain ⟨hs, ht⟩ := h.resume q hm
    simp only [move, h.mode, hm, h.rest, hs, ht]
  | _ => simp only [move, h.mode, hm, h.rest, h.pending, h.items]

theorem Placed.update {n n' : Nat} (h : Placed before ts s t) (m : Mode) (hn : n' = n)
    (hr : ∀ q, m = .escape q → r = .literal q ∧ r' = .literal q) :
    Placed before ts { s with mode := m, resume := r, items := n }
      { t with mode := m, resume := r', items := n' } :=
  ⟨h.file, rfl, h.rest, h.pending, hn, hr, h.line, h.here, h.start, h.tokens⟩

theorem Placed.skip (h : Placed before ts s t) : Placed before ts s.skip t.skip := by
  obtain ⟨hfile, hmode, hrest, hpending, hitems, hresume, hline, hhere, hstart, htokens⟩ := h
  rw [Scanner.skip, Scanner.skip, hrest]
  cases s.rest with
  | nil => exact ⟨hfile, hmode, hrest, hpending, hitems, hresume, hline, hhere, hstart, htokens⟩
  | cons c rest =>
    have hnext : t.here.next c = (s.here.next c).shift before := by rw [hhere, Place.next_shift hline]
    exact ⟨hfile, hmode, rfl, hpending, hitems, hresume, Place.line_pos_next hline c, hnext, hnext, htokens⟩

theorem Placed.takeMany (h : Placed before ts s t) (n : Nat) :
    Placed before ts (s.takeMany n) (t.takeMany n) := by
  obtain ⟨hfile, hmode, hrest, hpending, hitems, hresume, hline, hhere, hstart, htokens⟩ := h
  rw [takeMany_eq, takeMany_eq, hrest, hpending, hhere]
  exact ⟨hfile, hmode, rfl, rfl, hitems, hresume, Place.line_pos_after hline _,
    Place.after_shift hline _ _, hstart, htokens⟩

theorem Placed.token_eq (h : Placed before ts s t) (kind : TokenKind) :
    t.token kind = (s.token kind).shift before := by
  simp only [token, position, h.file, h.pending, h.here, h.start]
  rfl

theorem Placed.emit (h : Placed before ts s t) (kind : TokenKind) :
    Placed before ts (s.emit kind) (t.emit kind) := by
  refine ⟨h.file, rfl, h.rest, rfl, rfl, by simp [Scanner.emit], h.line, h.here, h.here, ?_⟩
  simp [Scanner.emit, h.tokens, h.token_eq]

theorem Placed.failure_eq (h : Placed before ts s t) (cause : Cause) :
    t.failure cause = (s.failure cause).shift before := by
  simp only [failure, position, h.file, h.mode, h.here]
  rfl

/-! ## Steps and runs -/

/-- A move that may be chosen does the same in both places. -/
theorem Placed.perform (h : Placed before ts s t) {move : Move} (ha : move.Allowed s.mode s.resume s.rest) :
    Placed before ts (s.perform move).1 (t.perform move).1 ∧
      (t.perform move).2 = (s.perform move).2.shift before := by
  cases move with
  | stop => exact ⟨h.update .eof h.items (fun _ hq => nomatch hq), rfl⟩
  | halt => exact ⟨h, rfl⟩
  | skip next =>
    obtain ⟨-, hnext, -⟩ := ha
    refine ⟨h.skip.update next h.skip.items ?_, rfl⟩
    intro q hq
    rw [hq] at hnext
    cases hnext
  | extend next =>
    obtain ⟨-, hescape⟩ := ha
    have htake := h.takeMany 1
    exact ⟨htake.update next htake.items fun q hq => absurd hq (hescape q), rfl⟩
  | close kind => exact ⟨h.emit kind, rfl⟩
  | closeOn kind => exact ⟨(h.takeMany 1).emit kind, rfl⟩
  | item width next =>
    obtain ⟨q, hq⟩ := ha
    have hnext : next = .literal q := by
      rcases hq with hq | ⟨hm, hq⟩
      · exact hq
      · exact hq.trans (h.resume q hm).1
    subst hnext
    have htake := h.takeMany width
    exact ⟨htake.update (.literal q) (congrArg (· + 1) htake.items) (fun _ hq => nomatch hq), rfl⟩
  | backslash next =>
    obtain ⟨q, hm, rfl⟩ := ha
    have htake := h.takeMany 1
    refine ⟨htake.update (.escape q) htake.items ?_, rfl⟩
    intro q' hq'
    obtain rfl := Mode.escape.inj hq'
    have hs : s.take.mode = .literal q := (mode_take s).trans hm
    exact ⟨hs, htake.mode.trans hs⟩
  | fail width cause next =>
    have htake := h.takeMany width
    have hleft : Placed before ts { s.takeMany width with mode := next } { t.takeMany width with mode := next } := by
      apply htake.update next htake.items
      intro q hq
      rcases ha with rfl | ⟨-, rfl⟩
      · cases hq
      · have hresume := h.resume q hq
        rwa [takeMany_eq, takeMany_eq]
    exact ⟨hleft, congrArg Progress.failed (hleft.failure_eq cause)⟩

theorem Placed.step (h : Placed before ts s t) :
    Placed before ts s.step.1 t.step.1 ∧ t.step.2 = s.step.2.shift before := by
  rw [Scanner.step, Scanner.step, h.move_eq]
  exact h.perform (allowed_move s)

theorem Placed.run (h : Placed before ts s t) :
    Placed before ts s.run.1 t.run.1 ∧ t.run.2 = s.run.2.map (Failure.shift before) := by
  induction hb : s.bound using Nat.strongRecOn generalizing s t with
  | ind n ih =>
    obtain ⟨hnext, hanswer⟩ := h.step
    cases hs : s.step with
    | mk s' p =>
      cases ht : t.step with
      | mk t' p' =>
        rw [hs, ht] at hnext hanswer
        obtain rfl : p' = p.shift before := hanswer
        cases p with
        | more =>
          rw [run_of_goes hs, run_of_goes ht]
          exact ih s'.bound (hb ▸ bound_step_lt hs) hnext rfl
        | done =>
          rw [run_of_done hs, run_of_done ht]
          exact ⟨hnext, rfl⟩
        | failed f =>
          rw [run_of_failed hs, run_of_failed ht]
          exact ⟨hnext, rfl⟩

theorem Placed.calls (h : Placed before ts s t) (cs : List Call) :
    Placed before ts (s.calls cs) (t.calls cs) := by
  induction cs generalizing s t with
  | nil => exact h
  | cons c cs ih =>
    apply ih
    cases c with
    | step => exact h.step.1
    | run => exact h.run.1

/-- Every further call of `t` does what the same call of `s` does, behind a text and some
tokens. -/
structure Mirrors (before : List Char) (ts : List Token) (s t : Scanner) : Prop where
  placed : ∀ cs, Placed before ts (s.calls cs) (t.calls cs)
  step : ∀ cs, (t.calls cs).step.2 = (s.calls cs).step.2.shift before
  run : ∀ cs, (t.calls cs).run.2 = (s.calls cs).run.2.map (Failure.shift before)

theorem Placed.mirrors (h : Placed before ts s t) : Mirrors before ts s t :=
  ⟨h.calls, fun cs => (h.calls cs).step.2, fun cs => (h.calls cs).run.2⟩

/-! ## Between two tokens -/

theorem items_step (hs : s.Settled) (h : s.mode.isBetween = true → s.items = 0) :
    s.step.1.mode.isBetween = true → s.step.1.items = 0 := by
  intro hnext
  have hm := allowed_move s
  rw [Scanner.step] at hnext ⊢
  generalize s.move = m at hm hnext ⊢
  cases m with
  | stop => cases hnext
  | halt => exact h hnext
  | skip next =>
    obtain ⟨hb, -, c, rest, hr, -⟩ := hm
    simpa [Scanner.perform, Scanner.skip, hr] using h hb
  | extend next =>
    obtain ⟨hpending, -⟩ := hm
    have hidle : next.isPending = false := Mode.isPending_eq_false_of_isBetween hnext
    rw [hidle] at hpending
    cases hpending
  | close kind => rfl
  | closeOn kind => rfl
  | item width next =>
    obtain ⟨q, rfl | ⟨hq, rfl⟩⟩ := hm
    · cases hnext
    · simp [Scanner.perform, hs.resume q hq, Mode.isBetween] at hnext
  | backslash next =>
    obtain ⟨q, -, rfl⟩ := hm
    cases hnext
  | fail width cause next =>
    rcases hm with rfl | ⟨hpending, rfl⟩
    · cases hnext
    · have hidle : s.mode.isPending = false := Mode.isPending_eq_false_of_isBetween hnext
      rw [hidle] at hpending
      cases hpending

theorem items_calls (source : String) (file? : Option String) (cs : List Call) :
    ((ofSource source file?).calls cs).mode.isBetween = true → ((ofSource source file?).calls cs).items = 0 := by
  have h : ((ofSource source file?).calls cs).Settled ∧ (((ofSource source file?).calls cs).mode.isBetween = true →
      ((ofSource source file?).calls cs).items = 0) := by
    refine calls_induction (P := fun s => s.Settled ∧ (s.mode.isBetween = true → s.items = 0)) ?_ ?_ cs
    · rintro s ⟨hs, hi⟩
      exact ⟨settled_step hs, items_step hs hi⟩
    · exact ⟨settled_ofSource source file?, fun _ => rfl⟩
  exact h.2

/-- Between two tokens a scanner stands as a fresh one does, behind the text and the tokens
so far. -/
theorem exists_placed_of_between {source : String} {file? : Option String} {cs : List Call}
    (h : ((ofSource source file?).calls cs).mode = .between) :
    ∃ before, source.toList = before ++ ((ofSource source file?).calls cs).rest ∧
      Placed before ((ofSource source file?).calls cs).tokens.toList
        (ofSource (String.ofList ((ofSource source file?).calls cs).rest) file?)
        ((ofSource source file?).calls cs) := by
  obtain ⟨hs, pieces, gap, hlayout⟩ := layout_calls source file? cs
  have hbetween : ((ofSource source file?).calls cs).mode.isBetween = true := by
    rw [h]
    rfl
  have hitems := items_calls source file? cs hbetween
  have hpending := hs.idle (.inl hbetween)
  generalize (ofSource source file?).calls cs = s at h hlayout hitems hpending
  have hstart : s.start = Place.origin.shift (spell pieces gap) := by
    rw [Place.shift_origin, hlayout.start]
  have hhere : s.here = Place.origin.shift (spell pieces gap) := by
    rw [hlayout.here, hpending, ← hstart]
    rfl
  refine ⟨spell pieces gap, ?_, hlayout.file, h, ?_, hpending, hitems, ?_, Nat.one_pos, hhere, hstart, ?_⟩
  · rw [hlayout.spelt, hpending, spell_append_right]
    rfl
  · simp [ofSource]
  · intro q hq
    cases hq
  · simp [ofSource]

end Scanner

namespace Restart
open Scanner

/-- The tokens that follow a token of a scan, and the failure of the scan, are those of a
scan of the text behind the token, shifted. Whatever calls led to a scanner between two
tokens, on every further call it does what a fresh scanner of the text ahead does. -/
theorem tokenize_restart (source : String) (file? : Option String) :
    (∀ (i : Nat) (t : Token), (tokenize source file?).tokens[i]? = some t →
      ∃ before after, cut? source.toList t.span.stop.offset = some (before, after) ∧
        (tokenize source file?).tokens.drop (i + 1) =
          (tokenize (String.ofList after) file?).tokens.map (Token.shift before) ∧
        (tokenize source file?).failure =
          (tokenize (String.ofList after) file?).failure.map (Failure.shift before)) ∧
    ∀ cs : List Call, ((ofSource source file?).calls cs).mode = .between →
      ∃ before, source.toList = before ++ ((ofSource source file?).calls cs).rest ∧
        Mirrors before ((ofSource source file?).calls cs).tokens.toList
          (ofSource (String.ofList ((ofSource source file?).calls cs).rest) file?)
          ((ofSource source file?).calls cs) := by
  constructor
  · intro i t h
    obtain ⟨pieces, gap, ahead, hcut⟩ := exists_cut source.toList
    rw [tokens_of_cut file? hcut] at h
    obtain ⟨front, p, back, rfl, rfl, rfl⟩ := exists_split_of_getElem? h
    obtain ⟨hspelt, hproper, -, -⟩ := hcut
    rw [List.append_cons] at hspelt hproper
    have hstop : ((Place.origin.after (spell front p.gap)).after p.lexeme).offset =
        byteLength (spell (front ++ [p]) []) := by
      rw [spell_concat, List.append_nil, ← Place.after_append, Place.offset_origin_after]
    have hcut : source.toList = spell (front ++ [p]) [] ++ spell back (gap ++ ahead) := by
      rw [hspelt, spell_append, spell_append_tail]
    have hrest : source.toList =
        spell (front ++ [p]) ([] ++ (String.ofList (spell back (gap ++ ahead))).toList) := by
      rw [String.toList_ofList, hspelt, spell_append, List.nil_append]
    have hfront : Proper (front ++ [p]) ([] ++ (String.ofList (spell back (gap ++ ahead))).toList) := by
      rw [String.toList_ofList, List.nil_append]
      exact (proper_append_iff.mp hproper).1
    obtain ⟨htokens, hfailure⟩ := Concatenation.tokenize_behind file? hrest hfront blank_nil
    refine ⟨_, _, cut?_eq_some_iff.mpr ⟨hcut, hstop.symm⟩, ?_, hfailure⟩
    rw [htokens, List.drop_left' (by simp)]
  · intro cs hm
    obtain ⟨before, hspelt, hplaced⟩ := exists_placed_of_between hm
    exact ⟨before, hspelt, hplaced.mirrors⟩

end Restart
end NodLexis
