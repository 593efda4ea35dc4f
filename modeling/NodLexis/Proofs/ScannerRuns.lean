import Mathlib.Logic.Relation
import NodLexis.Tokenize
import NodLexis.Proofs.Defect

/-! # Runs as sequences of steps

The scanner is deterministic, so the result of a run is found by following its
steps to one that ends it. A token is read from a scanner that is ready for it,
and every step on the way is one of four: it reads a character, closes the token,
closes it on a character, or fails.
-/

namespace NodLexis.Scanner
open Grammar Defect

/-- One step that leaves something to do. -/
def Goes (s t : Scanner) : Prop := s.step = (t, .more)

abbrev Steps : Scanner → Scanner → Prop := Relation.ReflTransGen Goes

variable {s t u : Scanner} {mode m : Mode} {text rest : List Char} {c : Char} {kind : TokenKind}

theorem run_of_goes (h : s.Goes t) : s.run = t.run := by
  rw [run]
  rw [Goes] at h
  split <;> simp_all

theorem run_of_done (h : s.step = (t, .done)) : s.run = (t, none) := by
  rw [run]
  split <;> simp_all

theorem run_of_failed {f : Failure} (h : s.step = (t, .failed f)) : s.run = (t, some f) := by
  rw [run]
  split <;> simp_all

theorem run_of_steps (h : Steps s t) : s.run = t.run := by
  induction h with
  | refl => rfl
  | tail _ hg ih => rw [ih, run_of_goes hg]

/-- What holds of a scanner and is kept by every step holds after a run. -/
theorem run_induction {P : Scanner → Prop} (hstep : ∀ s : Scanner, P s → P s.step.1) (h : P s) :
    P s.run.1 := by
  induction hb : s.bound using Nat.strongRecOn generalizing s with
  | ind n ih =>
    have hs := hstep s h
    cases hp : s.step with
    | mk t p =>
      rw [hp] at hs
      cases p with
      | more =>
        rw [run_of_goes hp]
        exact ih t.bound (hb ▸ bound_step_lt hp) hs rfl
      | done => rwa [run_of_done hp]
      | failed f => rwa [run_of_failed hp]

/-- A failed step carries out a move that gives up, and its failure is told from the
scanner that it leaves. -/
theorem exists_move_of_failed {f : Failure} (h : s.step = (t, .failed f)) :
    ∃ width cause next, s.move = .fail width cause next ∧
      t = { s.takeMany width with mode := next } ∧ f = t.failure cause := by
  rw [step] at h
  cases hm : s.move with
  | fail width cause next =>
    rw [hm, perform] at h
    obtain ⟨rfl, hf⟩ := Prod.mk.inj h
    exact ⟨width, cause, next, rfl, rfl, (Progress.failed.inj hf).symm⟩
  | _ =>
    rw [hm] at h
    cases (Prod.mk.inj h).2

/-- A run fails in the last of its steps. -/
theorem exists_steps_of_run_failed {f : Failure} (h : s.run = (t, some f)) :
    ∃ u, Steps s u ∧ u.step = (t, .failed f) := by
  induction hb : s.bound using Nat.strongRecOn generalizing s with
  | ind n ih =>
    cases hp : s.step with
    | mk s' p =>
      cases p with
      | more =>
        rw [run_of_goes hp] at h
        obtain ⟨u, hsteps, hu⟩ := ih s'.bound (hb ▸ bound_step_lt hp) h rfl
        exact ⟨u, .head hp hsteps, hu⟩
      | done =>
        rw [run_of_done hp] at h
        cases h
      | failed f' =>
        rw [run_of_failed hp] at h
        cases h
        exact ⟨s, .refl, hp⟩

theorem push_ofList (text : List Char) (c : Char) :
    (String.ofList text).push c = String.ofList (text ++ [c]) := by
  apply String.toList_inj.mp
  simp

/-! ## Scanners before, in and after a token -/

/-- No token is pending, and nothing is left over from the one before. -/
structure Ready (s : Scanner) : Prop where
  between : s.mode.isBetween = true
  start_eq : s.start = s.here
  pending_eq : s.pending = ""
  items_eq : s.items = 0

/-- The scanner after it has read some text of a token. -/
def reading (s : Scanner) (mode : Mode) (text rest : List Char) : Scanner :=
  { s with mode, here := s.here.after text, rest, pending := String.ofList text }

/-- The scanner with another mode to go back to and another number of items, which
only a literal changes. -/
def noting (s : Scanner) (resume : Mode) (items : Nat) : Scanner := { s with resume, items }

/-- The scanner ready again, with some more tokens. -/
def reached (s : Scanner) (mode : Mode) (text rest : List Char) (ts : List Token) : Scanner :=
  { s with
    mode, rest
    here := s.here.after text
    start := s.here.after text
    pending := ""
    items := 0
    tokens := s.tokens ++ ts.toArray
    journal := s.journal ++ (ts.map Event.emitted).toArray }

@[simp] theorem here_reached (ts : List Token) :
    (s.reached mode text rest ts).here = s.here.after text := rfl

@[simp] theorem file_reached (ts : List Token) : (s.reached mode text rest ts).file = s.file := rfl

@[simp] theorem toList_tokens_reached (ts : List Token) :
    (s.reached mode text rest ts).tokens.toList = s.tokens.toList ++ ts := by simp [reached]

@[simp] theorem here_noting (r : Mode) (n : Nat) : (s.noting r n).here = s.here := rfl

@[simp] theorem file_noting (r : Mode) (n : Nat) : (s.noting r n).file = s.file := rfl

@[simp] theorem noting_reached (r : Mode) (ts : List Token) :
    (s.reached mode text rest ts).noting r 0 = (s.noting r 0).reached mode text rest ts := rfl

@[simp] theorem noting_noting (r r' : Mode) (n n' : Nat) :
    (s.noting r n).noting r' n' = s.noting r' n' := rfl

theorem noting_self (hs : s.items = 0) : s.noting s.resume 0 = s := by rw [noting, ← hs]

theorem ready_reached (s : Scanner) (h : mode.isBetween = true) (text rest : List Char)
    (ts : List Token) : (s.reached mode text rest ts).Ready := ⟨h, rfl, rfl, rfl⟩

theorem reached_self (hs : s.Ready) : s.reached s.mode [] s.rest [] = s := by
  obtain ⟨-, hstart, hpending, hitems⟩ := hs
  cases s
  simp_all [reached]

theorem reading_self (hs : s.Ready) : s.reading s.mode [] s.rest = s := by
  have hp : String.ofList [] = s.pending := hs.pending_eq.symm
  rw [reading, hp]
  rfl

theorem reached_reached (a b r₁ r₂ : List Char) (ts us : List Token) :
    (s.reached mode a r₁ ts).reached m b r₂ us = s.reached m (a ++ b) r₂ (ts ++ us) := by
  simp [reached, Place.after_append]

theorem move_of_between (h : s.mode.isBetween = true) : s.move = .opening s.rest := by
  rw [move]
  split <;> simp_all [Mode.isBetween]

theorem goes_skip (hs : s.Ready) (hr : s.rest = c :: rest) (h : Move.opening (c :: rest) = .skip m) :
    s.Goes (s.reached m [c] rest []) := by
  have hm := move_of_between hs.between
  rw [hr, h] at hm
  simp [Goes, step, hm, perform, skip, hr, reached, hs.pending_eq, hs.items_eq]

theorem goes_open (hs : s.Ready) (hr : s.rest = c :: rest) (h : Move.opening (c :: rest) = .extend m) :
    s.Goes (s.reading m [c] rest) := by
  have hm := move_of_between hs.between
  rw [hr, h] at hm
  simp [Goes, step, hm, perform, take, hr, reading, hs.pending_eq]

theorem goes_extend (h : (s.reading mode text (c :: rest)).move = .extend m) :
    (s.reading mode text (c :: rest)).Goes (s.reading m (text ++ [c]) rest) := by
  simp only [Goes, step, h, perform]
  simp [take, reading, Place.after_append]

theorem goes_close (hs : s.start = s.here) (h : (s.reading mode text rest).move = .close kind) :
    (s.reading mode text rest).Goes
      (s.reached .between text rest [tokenAt s.file s.here kind text]) := by
  simp only [Goes, step, h, perform]
  simp [emit, token, position, reading, reached, tokenAt, hs]

theorem goes_closeOn (hs : s.start = s.here) (h : (s.reading mode text (c :: rest)).move = .closeOn kind) :
    (s.reading mode text (c :: rest)).Goes
      (s.reached .between (text ++ [c]) rest [tokenAt s.file s.here kind (text ++ [c])]) := by
  simp only [Goes, step, h, perform]
  simp [take, emit, token, position, reading, reached, tokenAt, hs, Place.after_append]

theorem takeMany_eq (n : Nat) (s : Scanner) :
    s.takeMany n =
      { s with
        here := s.here.after (s.rest.take n)
        rest := s.rest.drop n
        pending := s.pending ++ String.ofList (s.rest.take n) } := by
  induction n generalizing s with
  | zero => simp [takeMany]
  | succ n ih =>
    rw [takeMany, ih, take]
    split
    · rename_i h
      simp [h]
    · rename_i c rest h
      have hp : s.pending.push c ++ String.ofList (rest.take n) =
          s.pending ++ String.ofList (c :: rest.take n) := by
        apply String.toList_inj.mp
        simp
      simp [h, hp]

theorem takeMany_reading (more : List Char) :
    takeMany more.length (s.reading mode text (more ++ rest)) = s.reading mode (text ++ more) rest := by
  have hp : String.ofList text ++ String.ofList more = String.ofList (text ++ more) := by
    apply String.toList_inj.mp
    simp
  rw [takeMany_eq]
  simp only [reading, List.take_left, List.drop_left, hp, Place.after_append]

theorem step_fail (more : List Char) {cause : Cause}
    (h : (s.reading mode text (more ++ rest)).move = .fail more.length cause m) :
    (s.reading mode text (more ++ rest)).step = (s.reading m (text ++ more) rest,
      .failed (failureAt s.file (s.here.after (text ++ more)) cause m)) := by
  simp only [step, h, perform, takeMany_reading]
  rfl

/-- A mode that reads on over a class of characters reads a whole run of it. -/
theorem steps_extend {p : Char → Bool} (text run : List Char) (hrun : ∀ c ∈ run, p c = true)
    (h : ∀ (text : List Char) (c : Char) (rest : List Char), p c = true →
      (s.reading mode text (c :: rest)).move = .extend mode) :
    Steps (s.reading mode text (run ++ rest)) (s.reading mode (text ++ run) rest) := by
  induction run generalizing text with
  | nil => simpa using Relation.ReflTransGen.refl
  | cons c run ih =>
    have hg : (s.reading mode text (c :: (run ++ rest))).Goes
        (s.reading mode (text ++ [c]) (run ++ rest)) :=
      goes_extend (h text c (run ++ rest) (hrun c (by simp)))
    have ht : Steps (s.reading mode (text ++ [c]) (run ++ rest))
        (s.reading mode (text ++ [c] ++ run) rest) :=
      ih (text ++ [c]) fun d hd => hrun d (by simp [hd])
    rw [List.append_assoc] at ht
    exact .head hg ht

/-! ## The two ways through a token -/

/-- The scanner gets past a lexeme, with one more token. -/
def Emits (s : Scanner) (kind : TokenKind) (text rest : List Char) : Prop :=
  ∃ r, Steps s ((s.noting r 0).reached .between text rest [tokenAt s.file s.here kind text])

/-- The scanner fails with some text read, and has no more tokens than before. -/
def Fails (s : Scanner) (read rest : List Char) (cause : Cause) (mode : Mode) : Prop :=
  ∃ t r n, Steps s t ∧ t.step = ((s.noting r n).reading mode read rest,
    .failed (failureAt s.file (s.here.after read) cause mode))

theorem emits_of_steps
    (h : Steps s (s.reached .between text rest [tokenAt s.file s.here kind text])) :
    s.Emits kind text rest := ⟨s.resume, h⟩

theorem emits_of_close (hs : s.Ready) (h : Steps s (s.reading mode text rest))
    (hm : (s.reading mode text rest).move = .close kind) : s.Emits kind text rest :=
  emits_of_steps (h.tail (goes_close hs.start_eq hm))

theorem emits_of_closeOn (hs : s.Ready) (h : Steps s (s.reading mode text (c :: rest)))
    (hm : (s.reading mode text (c :: rest)).move = .closeOn kind) :
    s.Emits kind (text ++ [c]) rest :=
  emits_of_steps (h.tail (goes_closeOn hs.start_eq hm))

theorem fails_of_move {cause : Cause} (h : Steps s (s.reading mode text rest))
    (hm : (s.reading mode text rest).move = .fail 0 cause m) : s.Fails text rest cause m := by
  have hf := step_fail [] hm
  rw [List.append_nil] at hf
  exact ⟨_, s.resume, s.items, h, hf⟩

end NodLexis.Scanner
