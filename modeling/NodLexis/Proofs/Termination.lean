import NodLexis.Proofs.Concatenation
import NodLexis.Proofs.Resumption

/-! # Progress and termination

A step that leaves something to do reads on, or else closes a token where it stands, after
which the next step has to read on. So the steps of a scanner come to an end, after no more
than two for each character and one. No step takes back what an earlier one has found:
the tokens only grow, and as long as no call has failed, a run from anywhere on the way ends
as a run from the start.
-/

namespace NodLexis
open SourceText Grammar Defect

/-- The failure that a step reports. -/
def Progress.failure? : Progress → Option Failure
  | .failed f => some f
  | _ => none

namespace Scanner

variable {s t : Scanner} {n k : Nat}

/-- Some characters are read on the way from one scanner to another. -/
def Consumes (s t : Scanner) : Prop :=
  ∃ read, read ≠ [] ∧ s.rest = read ++ t.rest ∧ t.here = s.here.after read

/-- One token is found on the way, and the earlier ones are kept. -/
def Appends (s t : Scanner) : Prop := ∃ token, t.tokens = s.tokens.push token

/-- One token is found where the scanner stands, and none is pending any more. -/
def Closes (s t : Scanner) : Prop :=
  t.mode = .between ∧ t.rest = s.rest ∧ t.here = s.here ∧ Appends s t

/-! ## One step -/

theorem consumes_takeMany (hn : 0 < n) (hr : s.rest ≠ []) : Consumes s (s.takeMany n) := by
  rw [takeMany_eq]
  refine ⟨s.rest.take n, ?_, (List.take_append_drop n s.rest).symm, rfl⟩
  intro h
  rcases List.take_eq_nil_iff.mp h with h | h
  · omega
  · exact hr h

theorem consumes_skip (hr : s.rest ≠ []) : Consumes s s.skip := by
  obtain ⟨c, rest, hr⟩ := List.exists_cons_of_ne_nil hr
  rw [skip, hr]
  exact ⟨[c], by simp, hr, rfl⟩

/-- A step that leaves something to do reads on or closes a token. -/
theorem consumes_or_closes (h : s.Goes t) : Consumes s t ∨ Closes s t := by
  have ha := advances_move s
  rw [Goes, step] at h
  generalize s.move = m at h ha
  cases m with
  | stop => cases (Prod.mk.inj h).2
  | halt => cases (Prod.mk.inj h).2
  | fail width cause next => cases (Prod.mk.inj h).2
  | skip next =>
    obtain ⟨rfl, -⟩ := Prod.mk.inj h
    exact .inl (consumes_skip ha)
  | extend next =>
    obtain ⟨rfl, -⟩ := Prod.mk.inj h
    exact .inl (consumes_takeMany Nat.one_pos ha)
  | close kind =>
    obtain ⟨rfl, -⟩ := Prod.mk.inj h
    exact .inr ⟨rfl, rfl, rfl, s.token kind, rfl⟩
  | closeOn kind =>
    obtain ⟨rfl, -⟩ := Prod.mk.inj h
    exact .inl (consumes_takeMany Nat.one_pos ha)
  | item width next =>
    obtain ⟨rfl, -⟩ := Prod.mk.inj h
    exact .inl (consumes_takeMany ha.1 ha.2)
  | backslash next =>
    obtain ⟨rfl, -⟩ := Prod.mk.inj h
    exact .inl (consumes_takeMany Nat.one_pos ha)

theorem tokens_skip (s : Scanner) : s.skip.tokens = s.tokens := by
  rw [skip]
  split <;> rfl

theorem tokens_takeMany (n : Nat) (s : Scanner) : (s.takeMany n).tokens = s.tokens := by
  rw [takeMany_eq]

/-- No step finds more than one token or changes an earlier one. -/
theorem tokens_step (s : Scanner) : s.step.1.tokens = s.tokens ∨ Appends s s.step.1 := by
  rw [step]
  cases s.move with
  | stop => exact .inl rfl
  | halt => exact .inl rfl
  | skip next => exact .inl (tokens_skip s)
  | extend next => exact .inl (tokens_takeMany 1 s)
  | close kind => exact .inr ⟨s.token kind, rfl⟩
  | closeOn kind => exact .inr ⟨s.take.token kind, congrArg (Array.push · _) (tokens_takeMany 1 s)⟩
  | item width next => exact .inl (tokens_takeMany width s)
  | backslash next => exact .inl (tokens_takeMany 1 s)
  | fail width cause next => exact .inl (tokens_takeMany width s)

/-! ## All steps -/

/-- The scanner after some steps. -/
def stepped (s : Scanner) (k : Nat) : Scanner := s.calls (List.replicate k .step)

/-- After some steps the next one is the last of a run. -/
structure EndsAfter (s : Scanner) (k : Nat) : Prop where
  going : ∀ j < k, (s.stepped j).step.2 = .more
  ended : (s.stepped k).step.2 ≠ .more
  run : s.run = ((s.stepped k).step.1, (s.stepped k).step.2.failure?)

theorem stepped_succ (s : Scanner) (k : Nat) : s.stepped (k + 1) = s.step.1.stepped k := rfl

theorem endsAfter_zero (h : s.step.2 ≠ .more) : s.EndsAfter 0 := by
  refine ⟨fun j hj => absurd hj (Nat.not_lt_zero j), h, ?_⟩
  cases hp : s.step with
  | mk t p =>
    have hnow : (s.stepped 0).step = (t, p) := hp
    rw [hnow]
    cases p with
    | more => exact absurd (congrArg Prod.snd hp) h
    | done => exact run_of_done hp
    | failed f => exact run_of_failed hp

theorem EndsAfter.succ (hg : s.Goes t) (h : t.EndsAfter k) : s.EndsAfter (k + 1) := by
  have ht : s.step.1 = t := congrArg Prod.fst hg
  obtain ⟨hgoing, hended, hrun⟩ := h
  refine ⟨?_, ?_, ?_⟩
  · intro j hj
    cases j with
    | zero => exact congrArg Prod.snd hg
    | succ j =>
      rw [stepped_succ, ht]
      exact hgoing j (by omega)
  · rwa [stepped_succ, ht]
  · rw [stepped_succ, ht, run_of_goes hg, hrun]

/-- The steps of a scanner come to an end within their bound, which each of them lowers. -/
theorem exists_endsAfter (s : Scanner) : ∃ k ≤ s.bound, s.EndsAfter k := by
  induction hb : s.bound using Nat.strongRecOn generalizing s with
  | ind n ih =>
    by_cases hmore : s.step.2 = .more
    · have hg : s.Goes s.step.1 := Prod.ext rfl hmore
      have hlt : s.step.1.bound < n := hb ▸ bound_step_lt hg
      obtain ⟨k, hk, h⟩ := ih s.step.1.bound hlt s.step.1 rfl
      exact ⟨k + 1, by omega, h.succ hg⟩
    · exact ⟨0, Nat.zero_le n, endsAfter_zero hmore⟩

theorem bound_ofSource (source : String) (file? : Option String) :
    (ofSource source file?).bound = 2 * source.length := by
  simp [bound, ofSource, Mode.isBetween, String.length_toList]

/-! ## Calls that do not fail -/

/-- The failure that a call reports. -/
def callFailure (s : Scanner) : Call → Option Failure
  | .step => s.step.2.failure?
  | .run => s.run.2

/-- No call of a sequence fails. -/
def Unfailed (s : Scanner) : List Call → Prop
  | [] => True
  | c :: cs => s.callFailure c = none ∧ (s.call c).Unfailed cs

theorem rests_of_done (h : s.step = (t, .done)) : t.Rests := by
  have hm := allowed_move s
  rw [step] at h
  generalize s.move = m at h hm
  cases m with
  | stop =>
    obtain ⟨rfl, -⟩ := Prod.mk.inj h
    exact rests_of_ended (.inr rfl)
  | halt =>
    obtain ⟨rfl, -⟩ := Prod.mk.inj h
    exact rests_of_ended hm
  | _ => cases (Prod.mk.inj h).2

/-- A run that does not fail leaves nothing to do. -/
theorem rests_of_run (h : s.run.2 = none) : s.run.1.Rests := by
  obtain ⟨k, -, -, hended, hrun⟩ := s.exists_endsAfter
  rw [hrun] at h ⊢
  cases hp : (s.stepped k).step with
  | mk t p =>
    rw [hp] at h hended
    cases p with
    | more => exact absurd rfl hended
    | done => exact rests_of_done hp
    | failed f => cases h

/-- After a call that does not fail a run ends as it would have ended before. -/
theorem run_call {c : Call} (h : s.callFailure c = none) : (s.call c).run = s.run := by
  cases c with
  | run =>
    have hrests := rests_of_run h
    exact hrests.run.trans (Prod.ext rfl h.symm)
  | step =>
    change s.step.1.run = s.run
    cases hp : s.step with
    | mk t p =>
      cases p with
      | more => exact (run_of_goes hp).symm
      | done => exact (rests_of_done hp).run.trans (run_of_done hp).symm
      | failed f =>
        rw [callFailure, hp] at h
        cases h

theorem run_calls {cs : List Call} (h : s.Unfailed cs) : (s.calls cs).run = s.run := by
  induction cs generalizing s with
  | nil => rfl
  | cons c cs ih =>
    obtain ⟨hc, hcs⟩ := h
    exact (ih hcs).trans (run_call hc)

/-- What holds of a scanner and is kept by every step that does not fail holds after a run
that does not fail. -/
theorem run_induction_unfailed {P : Scanner → Prop}
    (hstep : ∀ s : Scanner, P s → s.step.2.failure? = none → P s.step.1) (h : P s) (hrun : s.run.2 = none) :
    P s.run.1 := by
  induction hb : s.bound using Nat.strongRecOn generalizing s with
  | ind n ih =>
    cases hp : s.step with
    | mk t p =>
      have ht := hstep s h
      rw [hp] at ht
      cases p with
      | more =>
        rw [run_of_goes hp] at hrun ⊢
        exact ih t.bound (hb ▸ bound_step_lt hp) (ht rfl) hrun rfl
      | done =>
        rw [run_of_done hp]
        exact ht rfl
      | failed f =>
        rw [run_of_failed hp] at hrun
        cases hrun

theorem calls_induction_unfailed {P : Scanner → Prop}
    (hstep : ∀ s : Scanner, P s → s.step.2.failure? = none → P s.step.1) (h : P s) {cs : List Call}
    (hcs : s.Unfailed cs) : P (s.calls cs) := by
  induction cs generalizing s with
  | nil => exact h
  | cons c cs ih =>
    obtain ⟨hc, hcs⟩ := hcs
    apply ih _ hcs
    cases c with
    | step => exact hstep s h hc
    | run => exact run_induction_unfailed hstep h hc

/-- A run keeps the tokens that it starts with. -/
theorem tokens_prefix_run (s : Scanner) : s.tokens.toList <+: s.run.1.tokens.toList := by
  apply run_induction (P := fun t => s.tokens.toList <+: t.tokens.toList) _ (List.prefix_refl _)
  intro t ht
  rcases tokens_step t with h | ⟨token, h⟩
  · rwa [h]
  · rw [h, Array.toList_push]
    exact ht.trans (List.prefix_append _ _)

end Scanner

namespace Termination
open Scanner

/-- On a source of `n` characters a fresh scanner is done or fails at the latest with the
step number `2 * n + 1`, and so does the scan. In every state a step that leaves something
to do reads on or closes one token where it stands, and none finds more than one token or
changes an earlier one. After any calls that do not fail, the tokens are the first ones of
the scan, and a run ends in everything as a run from the start. -/
theorem progress_and_termination (source : String) (file? : Option String) :
    (∃ k ≤ 2 * source.length, (ofSource source file?).EndsAfter k ∧
      (tokenize source file?).tokens = ((ofSource source file?).stepped k).step.1.tokens.toList ∧
      (tokenize source file?).failure = ((ofSource source file?).stepped k).step.2.failure?) ∧
    (∀ (cs : List Call) (s : Scanner), (ofSource source file?).calls cs = s →
      (∀ t, s.Goes t → Consumes s t ∨ Closes s t) ∧
        (s.step.1.tokens = s.tokens ∨ Appends s s.step.1)) ∧
    ∀ cs : List Call, (ofSource source file?).Unfailed cs →
      ((ofSource source file?).calls cs).tokens.toList <+: (tokenize source file?).tokens ∧
        ((ofSource source file?).calls cs).run = (ofSource source file?).run := by
  obtain ⟨htokens, hfailure⟩ := Concatenation.run_ofSource source file?
  refine ⟨?_, ?_, ?_⟩
  · obtain ⟨k, hk, hends⟩ := exists_endsAfter (ofSource source file?)
    rw [bound_ofSource] at hk
    rw [hends.run] at htokens hfailure
    exact ⟨k, hk, hends, htokens.symm, hfailure.symm⟩
  · intro cs s _
    exact ⟨fun t => consumes_or_closes, tokens_step s⟩
  · intro cs h
    have hrun := run_calls h
    have hkept := tokens_prefix_run ((ofSource source file?).calls cs)
    rw [hrun, htokens] at hkept
    exact ⟨hkept, hrun⟩

end Termination

end NodLexis
