import NodLexis.Proofs.Coverage

/-! # Failures and defects

A scan fails exactly when a defect stands where the next token would start, and
the failure is the one of that defect. Where the next token would start is told by
the tokens alone: at the first character after the last of them that is no blank.
-/

namespace NodLexis.FailureShape
open SourceText CharacterClass Grammar Defect Coverage

variable {read read' rest rest' : List Char} {cause cause' : Cause} {mode mode' : Mode}

private theorem failure_of_shape (h : Shape read rest cause mode) :
    (tokenize (String.ofList (read ++ rest)) none).failure =
      some (failureAt (fileName none) (Place.origin.after read) cause mode) := by
  have hspell : (String.ofList (read ++ rest)).toList = spell [] ([] ++ (read ++ rest)) := String.toList_ofList
  exact (tokenize_of_shape hspell trivial blank_nil h).2

/-- No text starts with two defects. -/
theorem shape_unique (h : Shape read rest cause mode) (h' : Shape read' rest' cause' mode')
    (he : read ++ rest = read' ++ rest') : read = read' ∧ cause = cause' ∧ mode = mode' := by
  have hfailure := failure_of_shape h
  rw [he, failure_of_shape h'] at hfailure
  have heq := Option.some.inj hfailure
  have hlength : byteLength read = byteLength read' := by
    rw [← Place.offset_origin_after, ← Place.offset_origin_after]
    exact congrArg (fun f => f.position.offset) heq.symm
  have hcut : cut? (read ++ rest) (byteLength read) = some (read, rest) := cut?_eq_some_iff.mpr ⟨rfl, rfl⟩
  have hcut' : cut? (read' ++ rest') (byteLength read') = some (read', rest') :=
    cut?_eq_some_iff.mpr ⟨rfl, rfl⟩
  rw [he, hlength, hcut'] at hcut
  refine ⟨?_, (congrArg Failure.cause heq).symm, (congrArg Failure.mode heq).symm⟩
  exact (congrArg Prod.fst (Option.some.inj hcut)).symm

end NodLexis.FailureShape
