import NodLexis.Proofs.Outcome
import NodLexis.Proofs.Places
import NodLexis.Proofs.ScannerCalls

/-! # Tracking of lines and columns

A scanner counts lines and columns one character at a time, and the line view computes
them from a source and an offset alone. The two agree at the cursor, at the start of
every token and at the place of every failure, whatever calls led there.
-/

namespace NodLexis.Tracking
open SourceText SourceLine Grammar Defect Scanner

/-- A place whose offset is on a character boundary of a source or at its end, and
whose line and column are those that the line view shows there. -/
structure Tracked (source : String) (p : Place) : Prop where
  boundary : ∃ before after, source.toList = before ++ after ∧ byteLength before = p.offset
  view : ∃ text, lineAt? source p.offset = some ⟨p.line, text, p.column⟩

variable {source : String} {file : String} {file? : Option String} {gap : List Char} {pieces : List Piece}
  {s t : Scanner} {f : Failure}

theorem tracked_after {before after : List Char} (h : source.toList = before ++ after) :
    Tracked source (Place.origin.after before) := by
  have hview := lineAt?_byteLength h
  rw [Place.origin_after_eq]
  exact ⟨⟨before, after, h, rfl⟩, _, hview⟩

theorem tracked_tokensFrom {tail : List Char} (h : source.toList = spell pieces tail) :
    ∀ t ∈ tokensFrom file .origin pieces, Tracked source t.place := by
  intro t ht
  obtain ⟨p, -, front, back, hs, rfl⟩ := exists_of_mem_tokensFrom [] tail ht
  exact tracked_after (h.trans hs)

/-- A scanner whose cursor and tokens are tracked. -/
structure ScannerTracked (source : String) (s : Scanner) : Prop where
  cursor : Tracked source s.here
  tokens : ∀ t ∈ s.tokens.toList, Tracked source t.place

theorem scannerTracked_of_layout (h : Layout source.toList file pieces gap s) : ScannerTracked source s := by
  constructor
  · have hspelt : source.toList = spell pieces gap ++ s.pending.toList ++ s.rest := by
      rw [h.spelt, spell_append_right, List.append_assoc]
    rw [h.here, h.start, ← Place.after_append]
    exact tracked_after hspelt
  · rw [h.tokens]
    exact tracked_tokensFrom h.spelt

theorem scannerTracked_calls (source : String) (file? : Option String) (cs : List Call) :
    ScannerTracked source ((ofSource source file?).calls cs) := by
  obtain ⟨-, pieces, gap, h⟩ := layout_calls source file? cs
  exact scannerTracked_of_layout h

/-- A failed step leaves the cursor where it failed. -/
theorem place_of_failed (h : s.step = (t, .failed f)) : f.place = t.here := by
  obtain ⟨width, cause, next, -, -, rfl⟩ := exists_move_of_failed h
  rfl

theorem tracked_of_failed {cs : List Call} (h : ((ofSource source file?).calls cs).step = (t, .failed f)) :
    Tracked source f.place := by
  have ht : (ofSource source file?).calls (cs ++ [.step]) = t := by
    rw [calls_append]
    exact congrArg Prod.fst h
  rw [place_of_failed h, ← ht]
  exact (scannerTracked_calls source file? _).cursor

theorem tracked_of_run_failed {cs : List Call} (h : ((ofSource source file?).calls cs).run = (t, some f)) :
    Tracked source f.place := by
  obtain ⟨u, hsteps, hu⟩ := exists_steps_of_run_failed h
  obtain ⟨ds, rfl⟩ := exists_calls_of_steps hsteps
  rw [← calls_append] at hu
  exact tracked_of_failed hu

theorem tracked_of_tokenize_failed (h : (tokenize source file?).failure = some f) : Tracked source f.place := by
  obtain ⟨pieces, gap, ahead, hcut⟩ := exists_cut source.toList
  obtain ⟨read, rest, cause, mode, rfl, -, rfl⟩ := exists_shape_of_failure hcut h
  have hspelt : source.toList = spell pieces gap ++ read ++ rest := by
    rw [hcut.spelt, spell_append_right, List.append_assoc]
  exact tracked_after hspelt

/-- After any calls of a scanner, failed ones among them, the cursor and the tokens have
the line and the column that the line view shows at their offsets, and so has every
failure of a step, of a run and of a scan. -/
theorem tracked_calls (source : String) (file? : Option String) :
    (∀ cs : List Call, ScannerTracked source ((ofSource source file?).calls cs) ∧
      ∀ f, ((ofSource source file?).calls cs).step.2 = .failed f ∨
        ((ofSource source file?).calls cs).run.2 = some f → Tracked source f.place) ∧
    (∀ t ∈ (tokenize source file?).tokens, Tracked source t.place) ∧
    ∀ f, (tokenize source file?).failure = some f → Tracked source f.place := by
  refine ⟨?_, ?_, ?_⟩
  · intro cs
    refine ⟨scannerTracked_calls source file? cs, ?_⟩
    rintro f (hstep | hrun)
    · exact tracked_of_failed (Prod.ext rfl hstep)
    · exact tracked_of_run_failed (Prod.ext rfl hrun)
  · obtain ⟨pieces, gap, ahead, h⟩ := exists_cut source.toList
    rw [tokens_of_cut file? h]
    exact tracked_tokensFrom h.spelt
  · intro f hf
    exact tracked_of_tokenize_failed hf

end NodLexis.Tracking
