/-! # Sets of characters given by ranges of code points -/

namespace NodLexis.CodePointRanges

/-- A character is in the set when one of the closed ranges holds its code point. -/
def holds (ranges : List (Nat × Nat)) (c : Char) : Bool :=
  ranges.any fun (low, high) => decide (low ≤ c.toNat) && decide (c.toNat ≤ high)

theorem holds_iff {ranges : List (Nat × Nat)} {c : Char} :
    holds ranges c = true ↔ ∃ r ∈ ranges, r.1 ≤ c.toNat ∧ c.toNat ≤ r.2 := by
  simp [holds]

end NodLexis.CodePointRanges
