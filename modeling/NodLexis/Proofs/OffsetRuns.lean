import NodLexis.Proofs.LiteralRuns
import NodLexis.Proofs.OffsetScanner

/-! # Runs over byte offsets

A scanner over byte offsets answers every step, run and sequence of calls, and it answers
as the scanner does that takes its text apart. The two share the mode, the cursor and the
tokens, and what the one holds as pending text the other one finds between its offsets.
-/

namespace NodLexis.OffsetScanner
open SourceText CharacterClass Grammar Defect

/-- A scanner over offsets in the same state as one that takes its text apart. -/
structure Follows (source : String) (o : OffsetScanner) (s : Scanner) (before taken : List Char) : Prop where
  source : o.source = source
  around : o.Around before taken s.rest
  file : o.file = s.file
  mode : o.mode = s.mode
  resume : o.resume = s.resume
  here : o.here = s.here
  tokens : o.tokens = s.tokens
  ready : s.mode.isBetween = true → s.Ready
  pending : s.mode.isPending = true → s.pending = String.ofList taken ∧ s.start = o.start
  items : ∀ q, s.mode = .literal q ∨ s.mode = .escape q → s.items = o.items
  back : ∀ q, s.mode = .escape q → s.resume = .literal q

/-- A result that says the same as a step of the other scanner. -/
def Answers (source : String) (r : Option (OffsetScanner × Progress)) (p : Scanner × Progress) : Prop :=
  ∃ o before taken, r = some (o, p.2) ∧ Follows source o p.1 before taken

variable {source : String} {o : OffsetScanner} {s : Scanner} {before taken text rest : List Char} {c : Char}
  {next : Mode} {q : Quote}

theorem isBetween_eq_false_of_isPending {m : Mode} (h : m.isPending = true) : m.isBetween = false := by
  cases m with
  | between | newLine => cases h
  | _ => rfl

theorem follows_ofSource (source : String) (file? : Option String) :
    Follows source (ofSource source file?) (Scanner.ofSource source file?) [] [] := by
  refine ⟨rfl, ⟨rfl, rfl, rfl⟩, rfl, rfl, rfl, rfl, rfl, fun _ => ⟨rfl, rfl, rfl, rfl⟩, ?_, ?_, ?_⟩
  · intro h
    cases h
  · rintro q (h | h) <;> cases h
  · intro q h
    cases h

namespace Follows

theorem ahead (h : Follows source o s before taken) (hr : s.rest = rest) : o.Around before taken rest := hr ▸ h.around

theorem past (h : Follows source o s before taken) (hp : s.mode.isPending = true) (hr : s.rest = text ++ rest) :
    Follows source (o.past text) (s.takeMany text.length) before (taken ++ text) := by
  have haround := (h.ahead hr).past
  obtain ⟨hsource, -, hfile, hmode, hresume, hhere, htokens, hready, hpending, hitems, hback⟩ := h
  rw [Scanner.takeMany_eq, hr]
  refine ⟨hsource, ?_, hfile, hmode, hresume, ?_, htokens, ?_, ?_, hitems, hback⟩
  · simpa using haround
  · simp [OffsetScanner.past, hhere]
  · intro hb
    have hidle := Mode.isPending_eq_false_of_isBetween hb
    rw [hp] at hidle
    cases hidle
  · intro _
    obtain ⟨hpending, hstart⟩ := hpending hp
    exact ⟨by simp [hpending], hstart⟩

/-- A pending text is kept in another mode. -/
theorem update (h : Follows source o s before taken) {mode mode' r r' : Mode} {m n : Nat} (hm : mode = mode')
    (hb : mode'.isBetween = false) (hp : mode'.isPending = true → s.mode.isPending = true) (hr : r = r')
    (hi : ∀ q, mode' = .literal q ∨ mode' = .escape q → n = m) (hq : ∀ q, mode' = .escape q → r' = .literal q) :
    Follows source { o with mode, resume := r, items := m } { s with mode := mode', resume := r', items := n }
      before taken := by
  obtain ⟨hsource, haround, hfile, -, -, hhere, htokens, -, hpending, -, -⟩ := h
  refine ⟨hsource, ⟨haround.source, haround.start, haround.here⟩, hfile, hm, hr, hhere, htokens, ?_, ?_, hi, hq⟩
  · intro hbetween
    rw [hb] at hbetween
    cases hbetween
  · exact fun hm => hpending (hp hm)

/-- In a mode outside of literals there is nothing to tell about items. -/
theorem turn (h : Follows source o s before taken) (hb : next.isBetween = false)
    (hp : next.isPending = true → s.mode.isPending = true) (hq : ∀ q, next ≠ .literal q ∧ next ≠ .escape q) :
    Follows source (o.turn next) { s with mode := next } before taken := by
  refine h.update rfl hb hp h.resume ?_ ?_
  · rintro q (hm | hm)
    · exact absurd hm (hq q).1
    · exact absurd hm (hq q).2
  · exact fun q hm => absurd hm (hq q).2

theorem emit (h : Follows source o s before taken) (hp : s.mode.isPending = true) (kind : TokenKind) :
    Follows source (o.emit kind (String.ofList taken)) (s.emit kind) before taken := by
  obtain ⟨hsource, haround, hfile, -, hresume, hhere, htokens, -, hpending, -, -⟩ := h
  obtain ⟨htext, hstart⟩ := hpending hp
  refine ⟨hsource, ⟨haround.source, haround.start, haround.here⟩, hfile, rfl, hresume, hhere, ?_,
    fun _ => ⟨rfl, rfl, rfl, rfl⟩, ?_, ?_, ?_⟩
  · simp [OffsetScanner.emit, Scanner.emit, Scanner.token, Scanner.position, htext, hstart, hfile, hhere, htokens]
  · intro hm
    cases hm
  · rintro q (hm | hm) <;> cases hm
  · intro q hm
    cases hm

theorem skip (h : Follows source o s before taken) (hb : s.mode.isBetween = true) (hr : s.rest = c :: rest)
    (hn : next.isBetween = true) :
    Follows source ((o.past [c]).turn next) { s.skip with mode := next } before (taken ++ [c]) := by
  have haround : o.Around before taken ([c] ++ rest) := h.ahead hr
  have hpast := haround.past
  obtain ⟨hsource, -, hfile, -, hresume, hhere, htokens, hready, -, -, -⟩ := h
  obtain ⟨-, -, hpending, hitems⟩ := hready hb
  have hskip : s.skip = { s with here := s.here.next c, rest, start := s.here.next c } := by
    simp [Scanner.skip, hr]
  have hnext : next.isPending = false := Mode.isPending_eq_false_of_isBetween hn
  rw [hskip]
  refine ⟨hsource, ⟨hpast.source, hpast.start, hpast.here⟩, hfile, rfl, hresume, congrArg (·.next c) hhere, htokens,
    fun _ => ⟨hn, rfl, hpending, hitems⟩, ?_, ?_, ?_⟩
  · intro hp
    rw [hnext] at hp
    cases hp
  · rintro q (rfl | rfl) <;> cases hnext
  · rintro q rfl
    cases hnext

/-- A ready scanner begins a token. -/
theorem begun (h : Follows source o s before taken) (hb : s.mode.isBetween = true) (hr : s.rest = c :: rest)
    (hn : next.isPending = true) (he : ∀ q, next ≠ .escape q) {items : Nat}
    (hi : ∀ q, next = .literal q → items = 0) :
    Follows source ({ o with items, start := o.here, mode := next }.past [c]) { s.take with mode := next }
      (before ++ taken) [c] := by
  have haround : o.Around before taken ([c] ++ rest) := h.ahead hr
  have hpast := (haround.begun next).past
  obtain ⟨hsource, -, hfile, -, hresume, hhere, htokens, hready, -, -, -⟩ := h
  obtain ⟨-, hstart, hpending, hitems⟩ := hready hb
  have htake : s.take = { s with here := s.here.next c, rest, pending := s.pending.push c } := by
    simp [Scanner.take, hr]
  rw [htake]
  refine ⟨hsource, ⟨hpast.source, hpast.start, hpast.here⟩, hfile, rfl, hresume, congrArg (·.next c) hhere, htokens,
    ?_, ?_, ?_, ?_⟩
  · intro hm
    rw [Mode.isPending_eq_false_of_isBetween hm] at hn
    cases hn
  · intro _
    refine ⟨?_, hstart.trans hhere.symm⟩
    rw [hpending]
    rfl
  · rintro q (hm | hm)
    · exact hitems.trans (hi q hm).symm
    · exact absurd hm (he q)
  · intro q hm
    exact absurd hm (he q)

end Follows

/-! ## Answers to the moves -/

section
variable (h : Follows source o s before taken)
include h

theorem answers_close (hp : s.mode.isPending = true) (kind : TokenKind) :
    Answers source ((o.finish? kind).map more) (s.perform (.close kind)) :=
  ⟨_, _, _, by rw [h.around.finish?_eq]; rfl, h.emit hp kind⟩

theorem past_one (hp : s.mode.isPending = true) (hr : s.rest = c :: rest) :
    o.advance? = some (o.past [c]) ∧ Follows source (o.past [c]) s.take before (taken ++ [c]) ∧
      s.take.mode.isPending = true :=
  ⟨(h.ahead hr).advance?_eq, h.past hp hr, by rw [Scanner.mode_take, hp]⟩

/-- Another mode of the same token. -/
theorem answers_extend (hp : s.mode.isPending = true) (hr : s.rest = c :: rest) (hn : next.isPending = true)
    (hq : ∀ q, next ≠ .literal q ∧ next ≠ .escape q) :
    Answers source (o.advance?.map fun t => (t.turn next).more) (s.perform (.extend next)) := by
  obtain ⟨hadvance, hpast, hpending⟩ := past_one h hp hr
  have hb : next.isBetween = false := isBetween_eq_false_of_isPending hn
  exact ⟨_, _, _, by rw [hadvance]; rfl, hpast.turn hb (fun _ => hpending) hq⟩

/-- One more character of the same token. -/
theorem answers_stay (hp : s.mode.isPending = true) (hr : s.rest = c :: rest) (hm : s.mode = next)
    (hq : ∀ q, next ≠ .literal q ∧ next ≠ .escape q) :
    Answers source (o.advance?.map more) (s.perform (.extend next)) := by
  have hn : next.isPending = true := hm ▸ hp
  have hturn : (o.past [c]).turn next = o.past [c] := by
    rw [← hm, ← h.mode]
    rfl
  have hextend := answers_extend h hp hr hn hq
  rw [(past_one h hp hr).1, Option.map_some, hturn] at hextend
  rw [(past_one h hp hr).1]
  exact hextend

theorem answers_fail {cause : Cause} (hn : next = .error ∨ next = s.mode ∧ s.mode.isPending = true) :
    Answers source (some (o.fail cause next)) (s.perform (.fail 0 cause next)) := by
  have hanswer : some (o.fail cause next) = some (o.turn next, (s.perform (.fail 0 cause next)).2) := by
    rw [fail, h.here, h.file]
    rfl
  refine ⟨o.turn next, before, taken, hanswer, ?_⟩
  rcases hn with rfl | ⟨rfl, hp⟩
  · exact h.turn rfl (by simp [Mode.isPending]) (by simp)
  · exact h.update rfl (isBetween_eq_false_of_isPending hp) id h.resume h.items h.back

theorem answers_reject (hp : s.mode.isPending = true) (hr : s.rest = c :: rest) (hc : isWordStart c = true)
    (cause : String → Cause) :
    Answers source (o.reject? cause) (s.perform (.fail 0 (cause (s.pending.push c)) .error)) := by
  have hpush : s.pending.push c = String.ofList (taken ++ [c]) := by
    rw [(h.pending hp).1, Scanner.push_ofList]
  rw [reject?, (h.ahead hr).lexemeWithOffender?_eq (isWordChar_of_isWordStart hc), hpush]
  exact answers_fail h (.inl rfl)

/-- A token that is begun. -/
theorem answers_begin (hb : s.mode.isBetween = true) (hr : s.rest = c :: rest) (hn : next.isPending = true)
    (he : ∀ q, next ≠ .escape q) {items : Nat} (hi : ∀ q, next = .literal q → items = 0) :
    Answers source (({ o with items }.begin? next).map more) (s.perform (.extend next)) := by
  have haround : { o with items }.Around before taken s.rest := ⟨h.around.source, h.around.start, h.around.here⟩
  rw [hr] at haround
  exact ⟨_, _, _, by rw [haround.begin?_eq]; rfl, h.begun hb hr hn he hi⟩

theorem answers_skip (hb : s.mode.isBetween = true) (hr : s.rest = c :: rest) (hn : next.isBetween = true) :
    Answers source (o.advance?.map fun t => (t.turn next).more) (s.perform (.skip next)) :=
  ⟨_, _, _, by rw [(h.ahead hr).advance?_eq]; rfl, h.skip hb hr hn⟩

/-- A character that is a token by itself. -/
theorem answers_single (hb : s.mode.isBetween = true) (hr : s.rest = c :: rest) (kind : TokenKind) :
    Answers source ((o.begin? .between).bind fun t => (t.finish? kind).map more) (s.perform (.closeOn kind)) := by
  have haround : o.Around before taken ([c] ++ rest) := h.ahead hr
  -- The token does not depend on the mode in which it is pending.
  have hbegun : Follows source ({ o with start := o.here, mode := .dot }.past [c]) { s.take with mode := .dot }
      (before ++ taken) [c] := h.begun hb hr rfl (by simp) (by simp)
  refine ⟨_, _, _, ?_, hbegun.emit rfl kind⟩
  rw [haround.begin?_eq, Option.bind_some, (haround.begun .between).past.finish?_eq]
  rfl

/-! ## Answers in the modes -/

theorem answers_opening (hb : s.mode.isBetween = true) :
    Answers source (o.opening? s.rest.head?) (s.perform (.opening s.rest)) := by
  cases hr : s.rest with
  | nil => exact ⟨_, _, _, rfl, h.turn rfl (by simp [Mode.isPending]) (by simp)⟩
  | cons c rest =>
    have begins {m : Mode} (hn : m.isPending = true) (hq : ∀ q, m ≠ .literal q ∧ m ≠ .escape q) :
        Answers source ((o.begin? m).map more) (s.perform (.extend m)) :=
      answers_begin h hb hr hn (fun q => (hq q).2) fun q hm => absurd hm (hq q).1
    simp only [opening?, Move.opening, List.head?_cons]
    iterate 2
      split
      · exact answers_skip h hb hr rfl
    -- Six classes of characters begin a token in a mode of their own.
    iterate 6
      split
      · exact begins rfl (by simp)
    cases Quote.ofMark? c with
    | some q => exact answers_begin h hb hr rfl (by simp) fun _ _ => rfl
    | none =>
      cases Punctuation.ofChar? c with
      | some p => exact answers_single h hb hr _
      | none => exact answers_fail h (.inl rfl)

theorem answers_integer (hm : s.mode = .integer) :
    Answers source (o.integer? s.rest.head?) (s.perform (.integer s.pending s.rest)) := by
  have hp : s.mode.isPending = true := by rw [hm]; rfl
  have hsecond := h.around.second?_eq
  cases hr : s.rest with
  | nil => exact answers_close h hp _
  | cons c rest =>
    rw [hr] at hsecond
    simp only [integer?, Move.integer, List.head?_cons, hsecond, Option.bind_some, List.tail_cons]
    split
    · exact answers_stay h hp hr hm (by simp)
    by_cases hdot : c = '.'
    · rw [if_pos hdot]
      have hstart : isWordStart '.' = false := rfl
      by_cases hd : rest.head?.any Char.isDigit = true
      · rw [if_pos hd, if_pos ⟨hdot, hd⟩]
        exact answers_extend h hp hr rfl (by simp)
      · simp only [hd, hdot, hstart, and_false, if_false, Bool.false_eq_true]
        exact answers_close h hp _
    · simp only [hdot, false_and, if_false]
      split
      · exact answers_reject h hp hr ‹_› .malformedNumber
      · exact answers_close h hp _

theorem answers_float (hm : s.mode = .float) :
    Answers source (o.float? s.rest.head?) (s.perform (.float s.pending s.rest)) := by
  have hp : s.mode.isPending = true := by rw [hm]; rfl
  cases hr : s.rest with
  | nil => exact answers_close h hp _
  | cons c rest =>
    simp only [float?, Move.float, List.head?_cons]
    split
    · exact answers_stay h hp hr hm (by simp)
    split
    · exact answers_reject h hp hr ‹_› .malformedNumber
    · exact answers_close h hp _

theorem answers_underscore (hm : s.mode = .underscore) :
    Answers source (o.underscore? s.rest.head?) (s.perform (.underscore s.rest)) := by
  have hp : s.mode.isPending = true := by rw [hm]; rfl
  cases hr : s.rest with
  | nil => exact answers_close h hp _
  | cons c rest =>
    simp only [underscore?, Move.underscore, List.head?_cons]
    split
    · exact answers_extend h hp hr rfl (by simp)
    · exact answers_close h hp _

theorem answers_closeAs (hp : s.mode.isPending = true) (kind : String → TokenKind) :
    Answers source (o.finishAs? kind) (s.perform (.close (kind s.pending))) := by
  rw [finishAs?, h.around.lexeme?_eq, (h.pending hp).1]
  exact answers_close h hp _

/-- A token that goes on with a class of characters and has the kind of its text. -/
theorem answers_readOn {p : Char → Bool} {kind : String → TokenKind} {m : Move} (hp : s.mode.isPending = true)
    (hm : s.mode = next) (hq : ∀ q, next ≠ .literal q ∧ next ≠ .escape q)
    (hend : s.rest = [] → m = .close (kind s.pending))
    (hmore : ∀ c rest, s.rest = c :: rest → m = if p c then .extend next else .close (kind s.pending)) :
    Answers source (o.readOn? p kind s.rest.head?) (s.perform m) := by
  cases hr : s.rest with
  | nil =>
    rw [hend hr]
    exact answers_closeAs h hp _
  | cons c rest =>
    rw [hmore c rest hr, List.head?_cons, readOn?]
    split
    · exact answers_stay h hp hr hm hq
    · exact answers_closeAs h hp _

theorem answers_identifier (hm : s.mode = .identifier) :
    Answers source (o.identifier? s.rest.head?) (s.perform (.identifier s.pending s.rest)) := by
  have hp : s.mode.isPending = true := by rw [hm]; rfl
  refine answers_readOn h hp hm (by simp) ?_ ?_
  · intro hr
    rw [hr, Move.identifier]
  · intro c rest hr
    rw [hr, Move.identifier]

theorem answers_operator (hm : s.mode = .operator) :
    Answers source (o.operator? s.rest.head?) (s.perform (.operator s.pending s.rest)) := by
  have hp : s.mode.isPending = true := by rw [hm]; rfl
  refine answers_readOn h hp hm (by simp) ?_ ?_
  · intro hr
    rw [hr, Move.operator]
  · intro c rest hr
    rw [hr, Move.operator]

theorem answers_dollarEnd (hp : s.mode.isPending = true) (hb : Barred isWordChar s.rest) :
    Answers source o.dollarEnd? (s.perform (.dollarEnd s.pending)) := by
  rw [dollarEnd?, h.around.lexeme?_eq, (h.pending hp).1, Option.bind_some, Move.dollarEnd]
  split
  · rw [reject?, h.around.lexemeWithOffender?_of_barred hb]
    exact answers_fail h (.inl rfl)
  · exact answers_close h hp _

theorem answers_dollar (hm : s.mode = .dollar) :
    Answers source (o.dollar? s.rest.head?) (s.perform (.dollar s.pending s.rest)) := by
  have hp : s.mode.isPending = true := by rw [hm]; rfl
  have hend : Barred isWordChar s.rest → Answers source o.dollarEnd? (s.perform (.dollarEnd s.pending)) :=
    answers_dollarEnd h hp
  cases hr : s.rest with
  | nil => exact hend (hr ▸ barred_nil)
  | cons c rest =>
    simp only [dollar?, Move.dollar, List.head?_cons]
    split
    · exact answers_stay h hp hr hm (by simp)
    split
    · exact answers_reject h hp hr ‹_› .badLambdaArg
    · refine hend (hr ▸ barred_cons.mpr ?_)
      simp_all [isWordChar, isWordStart, Char.isAlphanum]

theorem answers_dot (hm : s.mode = .dot) : Answers source (o.dot? s.rest.head?) (s.perform (.dot s.rest)) := by
  have hp : s.mode.isPending = true := by rw [hm]; rfl
  cases hr : s.rest with
  | nil => exact answers_close h hp _
  | cons c rest =>
    by_cases hc : c = '.'
    · subst hc
      exact answers_extend h hp hr rfl (by simp)
    · have hmove : Move.dot (c :: rest) = .close (.punctuation .dot) := by simp [Move.dot, hc]
      have hstep : o.dot? (some c) = (o.finish? (.punctuation .dot)).map more := by simp [dot?, hc]
      rw [List.head?_cons, hmove, hstep]
      exact answers_close h hp _

/-- A token that ends with the character at the cursor. -/
theorem answers_closeOn (hp : s.mode.isPending = true) (hr : s.rest = c :: rest) (kind : TokenKind) :
    Answers source (o.advance?.bind fun t => (t.finish? kind).map more) (s.perform (.closeOn kind)) := by
  obtain ⟨hadvance, hpast, hpending⟩ := past_one h hp hr
  refine ⟨_, _, _, ?_, hpast.emit hpending kind⟩
  rw [hadvance, Option.bind_some, hpast.around.finish?_eq]
  rfl

theorem answers_doubleDot (hm : s.mode = .doubleDot) :
    Answers source (o.doubleDot? s.rest.head?) (s.perform (.doubleDot s.rest)) := by
  have hp : s.mode.isPending = true := by rw [hm]; rfl
  cases hr : s.rest with
  | nil => exact answers_close h hp _
  | cons c rest =>
    by_cases hc : c = '<'
    · subst hc
      exact answers_closeOn h hp hr _
    · have hmove : Move.doubleDot (c :: rest) = .close (.punctuation .doubleDot) := by simp [Move.doubleDot, hc]
      have hstep : o.doubleDot? (some c) = (o.finish? (.punctuation .doubleDot)).map more := by
        simp [doubleDot?, hc]
      rw [List.head?_cons, hmove, hstep]
      exact answers_close h hp _

/-! ## Literals -/

/-- A failure with some more text read. -/
theorem answers_fail_past {cause : Cause} (hp : s.mode.isPending = true) (hr : s.rest = text ++ rest)
    (hn : next = .error ∨ next = s.mode) :
    Answers source (some ((o.past text).fail cause next)) (s.perform (.fail text.length cause next)) := by
  have hmode : (s.takeMany text.length).mode = s.mode := by rw [Scanner.takeMany_eq]
  have hfail : next = .error ∨ next = (s.takeMany text.length).mode ∧
      (s.takeMany text.length).mode.isPending = true := by
    rw [hmode]
    exact hn.imp_right fun he => ⟨he, hp⟩
  exact answers_fail (h.past hp hr) hfail

theorem answers_closing (hm : s.mode = .literal q) (hr : s.rest = q.mark :: rest) :
    Answers source (o.advance?.bind fun t => t.closing? q) (s.perform (.closing q s.pending s.items)) := by
  have hp : s.mode.isPending = true := by rw [hm]; rfl
  cases q with
  | double => exact answers_closeOn h hp hr _
  | single =>
    obtain ⟨hadvance, hpast, -⟩ := past_one h hp hr
    have hitems : s.items = (o.past [Quote.single.mark]).items := h.items _ (.inl hm)
    rw [hadvance, Option.bind_some, closing?, Move.closing, hitems]
    split
    · have hclose := answers_closeOn h hp hr .charLiteral
      rwa [hadvance] at hclose
    · have hpush : s.pending.push Quote.single.mark = String.ofList (taken ++ [Quote.single.mark]) := by
        rw [(h.pending hp).1, Scanner.push_ofList]
      rw [hpast.around.lexeme?_eq, hpush]
      exact answers_fail_past h hp hr (.inl rfl)

theorem answers_literal (hm : s.mode = .literal q) :
    Answers source (o.literal? q s.rest.head?) (s.perform (.literal q s.pending s.items s.rest)) := by
  have hp : s.mode.isPending = true := by rw [hm]; rfl
  cases hr : s.rest with
  | nil =>
    rw [List.head?_nil, literal?, earlyEof, h.mode, hm]
    exact answers_fail h (.inr ⟨hm.symm, hp⟩)
  | cons c rest =>
    obtain ⟨hadvance, hpast, hpending⟩ := past_one h hp hr
    have hmode : s.take.mode = .literal q := (Scanner.mode_take s).trans hm
    have hitems : s.take.items = (o.past [c]).items := hpast.items q (.inl hmode)
    simp only [literal?, Move.literal, List.head?_cons]
    rw [hadvance]
    split
    · refine ⟨_, _, _, rfl, hpast.update rfl rfl (fun _ => hpending) hpast.mode ?_ ?_⟩
      · exact fun _ _ => hitems
      · intro q' hq'
        rw [hmode, Mode.escape.inj hq']
    split
    · rename_i hc
      have hclosing := answers_closing h hm (hc ▸ hr)
      rwa [hadvance] at hclosing
    · refine ⟨_, _, _, rfl, hpast.update (hpast.mode.trans hmode) rfl (fun _ => hpending) hpast.resume ?_ ?_⟩
      · exact fun _ _ => congrArg (· + 1) hitems
      · intro q' hq'
        cases hq'

theorem answers_escape (hm : s.mode = .escape q) :
    Answers source (o.escape? s.rest.head?) (s.perform (.escape q s.resume s.rest)) := by
  have hp : s.mode.isPending = true := by rw [hm]; rfl
  rcases item_or_badEscape (Plain q) s.rest with ⟨text, rest, value, hr, hi⟩ | ⟨text, rest, cause, hr, hb⟩
  · have hpast := h.past hp hr
    have hmode : (s.takeMany text.length).mode = .escape q := by rw [Scanner.takeMany_eq, hm]
    have hliteral : s.resume = .literal q := h.back q hm
    rw [hr, escape?_of_item (h.ahead hr) hi, Scanner.escape_of_item hi]
    refine ⟨_, _, _, rfl, hpast.update h.resume (by rw [hliteral]; rfl) (fun _ => by rw [hmode]; rfl)
      hpast.resume ?_ ?_⟩
    · exact fun _ _ => congrArg (· + 1) (hpast.items q (.inr hmode))
    · intro q' hq'
      rw [hliteral] at hq'
      cases hq'
  · rw [hr, escape?_of_badEscape (h.ahead hr) (h.mode.trans hm) hb, Scanner.escape_of_badEscape hb]
    exact answers_fail_past h hp hr (.inr hm.symm)

/-! ## Steps, runs and calls -/

theorem answers_step : Answers source o.step? s.step := by
  rw [step?, h.around.current?_eq, Option.bind_some, Scanner.step, Scanner.move, h.mode]
  cases hm : s.mode with
  | between => exact answers_opening h (by rw [hm]; rfl)
  | newLine => exact answers_opening h (by rw [hm]; rfl)
  | integer => exact answers_integer h hm
  | float => exact answers_float h hm
  | literal q => exact answers_literal h hm
  | escape q => exact answers_escape h hm
  | identifier => exact answers_identifier h hm
  | underscore => exact answers_underscore h hm
  | dollar => exact answers_dollar h hm
  | operator => exact answers_operator h hm
  | dot => exact answers_dot h hm
  | doubleDot => exact answers_doubleDot h hm
  | error => exact ⟨_, _, _, rfl, h⟩
  | eof => exact ⟨_, _, _, rfl, h⟩

end

theorem bound_eq (h : Follows source o s before taken) : o.bound = s.bound := by
  rw [bound, h.around.ahead?_eq, h.mode]
  rfl

theorem follows_run (h : Follows source o s before taken) :
    ∃ t before taken, o.run? = some (t, s.run.2) ∧ Follows source t s.run.1 before taken := by
  induction hb : s.bound using Nat.strongRecOn generalizing o s before taken with
  | ind n ih =>
    obtain ⟨t, before', taken', hstep, ht⟩ := answers_step h
    rw [run?, hstep]
    cases hp : s.step with
    | mk u p =>
      rw [hp] at ht
      cases p with
      | more =>
        have hlt : u.bound < s.bound := Scanner.bound_step_lt hp
        have hless : t.bound < o.bound := by rwa [bound_eq ht, bound_eq h]
        dsimp only
        rw [Scanner.run_of_goes hp, dif_pos hless]
        exact ih u.bound (hb ▸ hlt) ht rfl
      | done => exact ⟨t, before', taken', by rw [Scanner.run_of_done hp], by rwa [Scanner.run_of_done hp]⟩
      | failed f =>
        exact ⟨t, before', taken', by rw [Scanner.run_of_failed hp], by rwa [Scanner.run_of_failed hp]⟩

theorem follows_call (h : Follows source o s before taken) (c : Call) :
    ∃ t before taken, o.call? c = some t ∧ Follows source t (s.call c) before taken := by
  cases c with
  | step =>
    obtain ⟨t, before', taken', hstep, ht⟩ := answers_step h
    exact ⟨t, before', taken', by rw [call?, hstep]; rfl, ht⟩
  | run =>
    obtain ⟨t, before', taken', hrun, ht⟩ := follows_run h
    exact ⟨t, before', taken', by rw [call?, hrun]; rfl, ht⟩

theorem follows_calls (h : Follows source o s before taken) (cs : List Call) :
    ∃ t before taken, o.calls? cs = some t ∧ Follows source t (s.calls cs) before taken := by
  induction cs generalizing o s before taken with
  | nil => exact ⟨o, before, taken, rfl, h⟩
  | cons c cs ih =>
    obtain ⟨t, before', taken', hcall, ht⟩ := follows_call h c
    obtain ⟨u, before'', taken'', hcalls, hu⟩ := ih ht
    refine ⟨u, before'', taken'', ?_, hu⟩
    rw [calls?, List.foldlM_cons, hcall]
    exact hcalls

end NodLexis.OffsetScanner
