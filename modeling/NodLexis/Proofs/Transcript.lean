import NodLexis.Proofs.ByteOffsets
import NodLexis.Proofs.Outcome
import NodLexis.Proofs.ScannerCalls

/-! # The journal as a transcript

A scanner writes down every token when it finds it, and nothing else. From one moment to
a later one the journal therefore grows by the events of the new tokens, in their order,
whether a call has failed in between or not. The journal of a whole scan has three more
sorts of events: its beginning, its failure if it has one, and its end.
-/

namespace NodLexis

/-- An event as it is shown to a reader. -/
def Event.shown (e : Event) : String × String := (e.level.name, e.text)

namespace Scanner
open SourceText

/-- On the way from one scanner to another some tokens are found, and the journal tells of
these and of nothing else. -/
structure Writes (s t : Scanner) (ts : List Token) : Prop where
  file : t.file = s.file
  tokens : t.tokens.toList = s.tokens.toList ++ ts
  journal : t.journal.toList = s.journal.toList ++ ts.map .emitted

variable {s t u : Scanner} {ts us : List Token}

theorem writes_nil (hf : t.file = s.file) (ht : t.tokens = s.tokens) (hj : t.journal = s.journal) :
    s.Writes t [] := by
  refine ⟨hf, ?_, ?_⟩
  · rw [ht, List.append_nil]
  · rw [hj, List.map_nil, List.append_nil]

theorem Writes.trans (h : s.Writes t ts) (h' : t.Writes u us) : s.Writes u (ts ++ us) := by
  refine ⟨h'.file.trans h.file, ?_, ?_⟩
  · rw [h'.tokens, h.tokens, List.append_assoc]
  · rw [h'.journal, h.journal, List.map_append, List.append_assoc]

theorem writes_skip (s : Scanner) (mode : Mode) : s.Writes { s.skip with mode } [] := by
  rw [skip]
  split <;> exact writes_nil rfl rfl rfl

theorem writes_takeMany (s : Scanner) (n : Nat) (mode resume : Mode) (items : Nat) :
    s.Writes { s.takeMany n with mode, resume, items } [] := by
  rw [takeMany_eq]
  exact writes_nil rfl rfl rfl

theorem writes_emit (s : Scanner) (kind : TokenKind) : s.Writes (s.emit kind) [s.token kind] := by
  refine ⟨rfl, ?_, ?_⟩
  · exact Array.toList_push
  · exact Array.toList_push

theorem writes_step (s : Scanner) : ∃ ts, s.Writes s.step.1 ts := by
  rw [step]
  cases s.move with
  | stop => exact ⟨[], writes_nil rfl rfl rfl⟩
  | halt => exact ⟨[], writes_nil rfl rfl rfl⟩
  | skip next => exact ⟨[], writes_skip s next⟩
  | extend next => exact ⟨[], writes_takeMany s 1 next _ _⟩
  | close kind => exact ⟨_, writes_emit s kind⟩
  | closeOn kind => exact ⟨_, (writes_takeMany s 1 _ _ _).trans (writes_emit s.take kind)⟩
  | item width next => exact ⟨[], writes_takeMany s width next _ _⟩
  | backslash next => exact ⟨[], writes_takeMany s 1 next _ _⟩
  | fail width cause next => exact ⟨[], writes_takeMany s width next _ _⟩

/-- What a step writes makes what any steps write. -/
theorem exists_writes_step (h : ∃ ts, s.Writes t ts) : ∃ ts, s.Writes t.step.1 ts := by
  obtain ⟨ts, h⟩ := h
  obtain ⟨us, h'⟩ := writes_step t
  exact ⟨ts ++ us, h.trans h'⟩

theorem writes_run (s : Scanner) : ∃ ts, s.Writes s.run.1 ts :=
  run_induction (P := fun t => ∃ ts, s.Writes t ts) (fun _ => exists_writes_step)
    ⟨[], writes_nil rfl rfl rfl⟩

theorem writes_calls (s : Scanner) (cs : List Call) : ∃ ts, s.Writes (s.calls cs) ts :=
  calls_induction (P := fun t => ∃ ts, s.Writes t ts) (fun _ => exists_writes_step)
    ⟨[], writes_nil rfl rfl rfl⟩ cs

/-- As long as a scanner has written down nothing else, its journal tells of its tokens. -/
theorem Writes.journal_eq (h : s.Writes t ts) (ht : s.tokens = #[]) (hj : s.journal = #[]) :
    t.journal.toList = t.tokens.toList.map .emitted := by
  rw [h.journal, h.tokens, ht, hj]
  rfl

/-- What a recorded run adds to the journal, told from the tokens that it finds and from its
failure. -/
theorem journal_runRecorded (s : Scanner) : ∃ ts,
    s.runRecorded.1.tokens.toList = s.tokens.toList ++ ts ∧
      s.runRecorded.1.journal.toList = s.journal.toList ++
        ([.started s.file (byteLength s.rest)] ++ ts.map .emitted ++
          s.runRecorded.2.toList.map (.failed s.file) ++ [.finished s.file (s.tokens.toList ++ ts).length]) := by
  obtain ⟨ts, hfile, htokens, hjournal⟩ := writes_run (s.record (.started s.file (byteLength s.rest)))
  rw [runRecorded]
  generalize (s.record (.started s.file (byteLength s.rest))).run = result at hfile htokens hjournal
  obtain ⟨t, failure⟩ := result
  have hsize : t.tokens.size = (s.tokens.toList ++ ts).length := congrArg List.length htokens
  refine ⟨ts, ?_, ?_⟩
  · cases failure <;> exact htokens
  · cases failure <;> simp_all [record]

end Scanner

open Scanner

/-- A scan writes down its beginning, its tokens in their order, its failure if there is
one, and its end, and nothing else. A scanner that is driven from outside writes down its
tokens and nothing else, after any calls. -/
theorem journal_transcribes (source : String) (file? : Option String) :
    (tokenize source file?).journal.map Event.shown =
      [("DEBUG", "tokenizing " ++ fileName file? ++ " (" ++ toString source.utf8ByteSize ++ " bytes)")] ++
        (tokenize source file?).tokens.map (fun t => ("TRACE", t.display)) ++
        (tokenize source file?).failure.toList.map (fun f =>
          ("DEBUG", "tokenizing " ++ fileName file? ++ " failed: " ++ f.display)) ++
        [("DEBUG", "produced " ++ toString (tokenize source file?).tokens.length ++ " tokens for " ++
          fileName file?)] ∧
    ∀ cs : List Call, ((ofSource source file?).calls cs).journal.toList.map Event.shown =
      ((ofSource source file?).calls cs).tokens.toList.map fun t => ("TRACE", t.display) := by
  constructor
  · obtain ⟨ts, htokens, hjournal⟩ := journal_runRecorded (ofSource source file?)
    have hts : (tokenize source file?).tokens = ts := htokens
    have hevents : (tokenize source file?).journal = [.started (fileName file?) source.utf8ByteSize] ++
        ts.map .emitted ++ (tokenize source file?).failure.toList.map (.failed (fileName file?)) ++
        [.finished (fileName file?) ts.length] := by
      rw [← SourceText.byteLength_toList]
      exact hjournal
    rw [hevents, hts]
    simp only [List.map_append, List.map_map]
    rfl
  · intro cs
    obtain ⟨ts, h⟩ := writes_calls (ofSource source file?) cs
    rw [h.journal_eq rfl rfl, List.map_map]
    rfl

end NodLexis
