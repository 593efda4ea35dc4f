import Mathlib.Data.List.Forall2
import Mathlib.Data.Nat.Digits.Defs
import NodLexis.Escape

/-! # What escapes are worth

Escapes are worth what two tables say: one of the letters that may stand behind a backslash, with
their characters, and one of the digits of base sixteen, small and capital, in the order of their
values. A numeral is worth the sum of its digits at their positions. The letters and digits that
are read have the values of these tables.
-/

namespace NodLexis

namespace Literal

/-- The letters that stand for a character after a backslash, and these characters. -/
def letterValues : List (Char × Char) :=
  [('n', '\n'), ('t', '\t'), ('r', '\r'), ('0', '\x00'), ('\\', '\\'), ('"', '"'), ('\'', '\'')]

variable {letter value value' : Char}

theorem simple?_eq_some_iff : Escape.simple? letter = some value ↔ (letter, value) ∈ letterValues := by
  constructor
  · intro h
    unfold Escape.simple? at h
    split at h <;> cases h <;> decide
  · intro h
    simp only [letterValues, List.mem_cons, Prod.mk.injEq, List.not_mem_nil, or_false] at h
    rcases h with ⟨rfl, rfl⟩ | ⟨rfl, rfl⟩ | ⟨rfl, rfl⟩ | ⟨rfl, rfl⟩ | ⟨rfl, rfl⟩ | ⟨rfl, rfl⟩ | ⟨rfl, rfl⟩ <;> rfl

theorem simple?_eq_none_iff : Escape.simple? letter = none ↔ ∀ value, (letter, value) ∉ letterValues := by
  rw [Option.eq_none_iff_forall_ne_some]
  exact forall_congr' fun _ => not_congr simple?_eq_some_iff

/-- A letter stands for one character. -/
theorem letterValues_unique (h : (letter, value) ∈ letterValues) (h' : (letter, value') ∈ letterValues) :
    value = value' :=
  Option.some.inj ((simple?_eq_some_iff.mpr h).symm.trans (simple?_eq_some_iff.mpr h'))

/-- The letter of code points stands for no character by itself. -/
theorem ne_u_of_mem_letterValues (h : (letter, value) ∈ letterValues) : letter ≠ 'u' := by
  rintro rfl
  cases simple?_eq_some_iff.mpr h

end Literal

namespace Escape
open CharacterClass

def smallDigits : List Char :=
  ['0', '1', '2', '3', '4', '5', '6', '7', '8', '9', 'a', 'b', 'c', 'd', 'e', 'f']

def capitalDigits : List Char :=
  ['0', '1', '2', '3', '4', '5', '6', '7', '8', '9', 'A', 'B', 'C', 'D', 'E', 'F']

/-- The character is the digit for a number below sixteen. -/
def Digit (c : Char) (d : Nat) : Prop := smallDigits[d]? = some c ∨ capitalDigits[d]? = some c

instance (c : Char) (d : Nat) : Decidable (Digit c d) := inferInstanceAs (Decidable (_ ∨ _))

/-- The text has a digit for each of some numbers, the most significant in front, which are worth
`n` together. -/
def Numeral (text : List Char) (n : Nat) : Prop :=
  ∃ ds, List.Forall₂ Digit text ds ∧ Nat.ofDigits 16 ds.reverse = n

variable {c : Char} {d n m : Nat} {ds : List Nat} {text : List Char}

/-! ## Digits -/

namespace Digit

theorem mem (h : Digit c d) : c ∈ smallDigits ++ capitalDigits := by
  rw [List.mem_append]
  exact h.imp List.mem_of_getElem? List.mem_of_getElem?

theorem lt (h : Digit c d) : d < 16 := by
  rcases h with h | h
  · exact (List.getElem?_eq_some_iff.mp h).1
  · exact (List.getElem?_eq_some_iff.mp h).1

/-- A digit is an ASCII character and no sign. -/
theorem ascii (h : Digit c d) : c ≠ '+' ∧ c ≠ '-' ∧ c.toNat < 0x80 := by
  have key : ((smallDigits ++ capitalDigits).all fun c => c != '+' && c != '-' && c.toNat < 0x80) = true := rfl
  simpa [and_assoc] using List.all_eq_true.mp key c h.mem

end Digit

theorem utf8Size_of_isHexDigit (h : isHexDigit c = true) : c.utf8Size = 1 := by
  rw [Char.utf8Size_eq_one_iff]
  unfold isHexDigit hexDigitValue? at h
  split at h
  · rename_i hd
    simp only [Char.isDigit, Bool.and_eq_true, decide_eq_true_eq] at hd
    exact UInt32.le_trans hd.2 (by decide)
  split at h
  · rename_i hd
    exact UInt32.le_trans hd.2 (by decide)
  split at h
  · rename_i hd
    exact UInt32.le_trans hd.2 (by decide)
  · cases h

theorem digit_of_hexDigitValue? (h : hexDigitValue? c = some d) : Digit c d := by
  have key : ∀ n < 0x80, ∀ d ∈ hexDigitValue? (Char.ofNat n), Digit (Char.ofNat n) d := by decide
  have hsize : c.utf8Size = 1 := utf8Size_of_isHexDigit (Option.isSome_of_eq_some h)
  have hascii : c.toNat < 0x80 := Nat.lt_succ_of_le (Char.utf8Size_eq_one_iff.mp hsize)
  have hc := key c.toNat hascii d
  rw [Char.ofNat_toNat] at hc
  exact hc h

theorem hexDigitValue?_eq_some_iff : hexDigitValue? c = some d ↔ Digit c d := by
  refine ⟨digit_of_hexDigitValue?, ?_⟩
  intro h
  have key : ∀ d < 16, smallDigits[d]?.bind hexDigitValue? = some d ∧
      capitalDigits[d]?.bind hexDigitValue? = some d := by decide
  obtain ⟨hsmall, hcapital⟩ := key d h.lt
  rcases h with h | h
  · rwa [h] at hsmall
  · rwa [h] at hcapital

theorem isHexDigit_iff : isHexDigit c = true ↔ ∃ d, Digit c d := by
  rw [isHexDigit, Option.isSome_iff_exists]
  exact exists_congr fun _ => hexDigitValue?_eq_some_iff

/-! ## Numerals -/

/-- What each character of a text counts as a digit. -/
def digitValues (text : List Char) : List Nat := text.map fun c => (hexDigitValue? c).getD 0

theorem forall₂_digit_iff :
    List.Forall₂ Digit text ds ↔ (∀ c ∈ text, isHexDigit c = true) ∧ digitValues text = ds := by
  constructor
  · intro h
    induction h with
    | nil => exact ⟨by simp, rfl⟩
    | @cons c d text ds hd _ ih =>
      refine ⟨List.forall_mem_cons.mpr ⟨isHexDigit_iff.mpr ⟨d, hd⟩, ih.1⟩, ?_⟩
      rw [digitValues, List.map_cons, hexDigitValue?_eq_some_iff.mpr hd, ← ih.2]
      rfl
  · rintro ⟨hex, rfl⟩
    induction text with
    | nil => exact .nil
    | cons c text ih =>
      rw [List.forall_mem_cons] at hex
      obtain ⟨d, hd⟩ := isHexDigit_iff.mp hex.1
      have hvalue : digitValues (c :: text) = d :: digitValues text := by
        rw [digitValues, List.map_cons, hexDigitValue?_eq_some_iff.mpr hd]
        rfl
      rw [hvalue]
      exact .cons hd (ih hex.2)

theorem hexValue_eq_ofDigits (text : List Char) : hexValue text = Nat.ofDigits 16 (digitValues text).reverse := by
  rw [Nat.ofDigits_eq_foldr, List.foldr_reverse, digitValues, List.foldl_map, hexValue]
  simp only [Nat.add_comm, Nat.cast_id]

theorem numeral_iff : Numeral text n ↔ (∀ c ∈ text, isHexDigit c = true) ∧ hexValue text = n := by
  simp only [Numeral, forall₂_digit_iff, and_assoc, exists_and_left, exists_eq_left', hexValue_eq_ofDigits]

theorem digits_lt (h : List.Forall₂ Digit text ds) : ∀ d ∈ ds, d < 16 := by
  induction h with
  | nil => simp
  | cons hd _ ih => exact List.forall_mem_cons.mpr ⟨hd.lt, ih⟩

namespace Numeral

theorem lt (h : Numeral text n) : n < 16 ^ text.length := by
  obtain ⟨ds, hds, rfl⟩ := h
  rw [hds.length_eq, ← List.length_reverse]
  refine Nat.ofDigits_lt_base_pow_length (by decide) ?_
  intro d hd
  exact digits_lt hds d (List.mem_reverse.mp hd)

theorem unique (h : Numeral text n) (h' : Numeral text m) : n = m :=
  (numeral_iff.mp h).2.symm.trans (numeral_iff.mp h').2

end Numeral

end Escape

end NodLexis
