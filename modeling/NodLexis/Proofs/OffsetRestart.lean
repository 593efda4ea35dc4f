import NodLexis.Proofs.OffsetRuns
import NodLexis.Proofs.Restart

/-! # Restarting over byte offsets

A scanner over byte offsets keeps the start and the item count of a token when the token is
complete, and the mode to go back to after its last escape. All three are written anew before
they are read again. So between two tokens such a scanner goes on in step with a fresh one of
the text ahead, although the two differ.
-/

namespace NodLexis.OffsetScanner
open SourceText

/-- A scanner `p` has what `o` has, behind a text and some tokens, and answers as `o` does. The
start, the items and the mode to go back to may differ. -/
structure Echoes (before : List Char) (ts : List Token) (o p : OffsetScanner) : Prop where
  file : p.file = o.file
  mode : p.mode = o.mode
  here : p.here = o.here.shift before
  tokens : p.tokens.toList = ts ++ o.tokens.toList.map (Token.shift before)
  step : ∃ o' p' answer, o.step? = some (o', answer) ∧ p.step? = some (p', answer.shift before)
  run : ∃ o' p' failure?, o.run? = some (o', failure?) ∧ p.run? = some (p', failure?.map (Failure.shift before))

variable {source source' : String} {o p : OffsetScanner} {s t : Scanner} {ts : List Token}
  {before front front' taken taken' : List Char}

/-- Two scanners answer alike when those do that they follow. -/
theorem echoes_of_placed (ho : Follows source o s front taken) (hp : Follows source' p t front' taken')
    (h : Scanner.Placed before ts s t) : Echoes before ts o p := by
  obtain ⟨o', _, _, hostep, -⟩ := answers_step ho
  obtain ⟨p', _, _, hpstep, -⟩ := answers_step hp
  obtain ⟨o'', _, _, horun, -⟩ := follows_run ho
  obtain ⟨p'', _, _, hprun, -⟩ := follows_run hp
  rw [h.step.2] at hpstep
  rw [h.run.2] at hprun
  refine ⟨?_, ?_, ?_, ?_, ⟨o', p', _, hostep, hpstep⟩, ⟨o'', p'', _, horun, hprun⟩⟩
  · rw [hp.file, ho.file, h.file]
  · rw [hp.mode, ho.mode, h.mode]
  · rw [hp.here, ho.here, h.here]
  · rw [hp.tokens, ho.tokens, h.tokens]

theorem echoes_calls (ho : Follows source o s front taken) (hp : Follows source' p t front' taken')
    (h : Scanner.Placed before ts s t) (cs : List Call) :
    ∃ o' p', o.calls? cs = some o' ∧ p.calls? cs = some p' ∧ Echoes before ts o' p' := by
  obtain ⟨o', _, _, hocalls, ho'⟩ := follows_calls ho cs
  obtain ⟨p', _, _, hpcalls, hp'⟩ := follows_calls hp cs
  exact ⟨o', p', hocalls, hpcalls, echoes_of_placed ho' hp' (h.calls cs)⟩

/-- Whatever calls led to a scanner between two tokens, its cursor splits the source, and on every
further call it does what a fresh scanner of the text behind the cursor does. -/
theorem calls?_between (source : String) (file? : Option String) (cs : List Call) :
    ∃ p, (ofSource source file?).calls? cs = some p ∧
      (p.mode = .between → ∃ before after, SourceText.cut? source.toList p.here.offset = some (before, after) ∧
        ∀ cs', ∃ o' p', (ofSource (String.ofList after) file?).calls? cs' = some o' ∧
          p.calls? cs' = some p' ∧ Echoes before p.tokens.toList o' p') := by
  obtain ⟨p, _, _, hcalls, hp⟩ := follows_calls (follows_ofSource source file?) cs
  refine ⟨p, hcalls, ?_⟩
  intro hm
  obtain ⟨before, hspelt, hplaced⟩ := Scanner.exists_placed_of_between (hp.mode.symm.trans hm)
  have hoffset : p.here.offset = byteLength before := by
    rw [hp.here, hplaced.here]
    exact (congrArg Place.offset (Place.shift_origin before)).trans (Place.offset_origin_after before)
  refine ⟨before, _, cut?_eq_some_iff.mpr ⟨hspelt, hoffset.symm⟩, ?_⟩
  rw [hp.tokens]
  exact echoes_calls (follows_ofSource _ file?) hp hplaced

/-- Behind the literal the scanner still has its start and its item. -/
example : ((ofSource "'a' b" none).calls? [.step, .step, .step]).map
    (fun p => (p.mode, p.start.offset, p.here.offset, p.items)) = some (.between, 0, 3, 1) := by
  decide +kernel

end NodLexis.OffsetScanner
