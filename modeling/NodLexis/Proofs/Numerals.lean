import NodLexis.Proofs.ByteOffsets
import NodLexis.Proofs.Grammar

/-! # Numerals

Decimal and hexadecimal numerals as they are written. Their characters are digits, each one byte
wide, so neither a separator nor a control character occurs in one. A number can be read off its decimal numeral, and
the hexadecimal numeral of a code point is one that an escape reads.
-/

namespace NodLexis.Numerals
open CharacterClass Grammar SourceText

variable {c : Char} {digits : List Char} {n b : Nat}

theorem exists_digitChar_of_mem_toDigits (hb : 1 < b) (h : c ∈ Nat.toDigits b n) :
    ∃ d < b, c = d.digitChar := by
  induction n using Nat.strongRecOn with
  | ind n ih =>
    rcases Nat.lt_or_ge n b with hn | hn
    · rw [Nat.toDigits_of_lt_base hn, List.mem_singleton] at h
      exact ⟨n, hn, h⟩
    · rw [Nat.toDigits_of_base_le hb hn, List.mem_append, List.mem_singleton] at h
      rcases h with h | h
      · exact ih (n / b) (Nat.div_lt_self (by omega) hb) h
      · exact ⟨n % b, Nat.mod_lt n (by omega), h⟩

theorem isControl_of_mem_toDigits (hb : 1 < b) (hmax : b ≤ 16) (h : c ∈ Nat.toDigits b n) :
    Unprintable.isControl c = false := by
  have key : ∀ d < 16, Unprintable.isControl d.digitChar = false := by decide
  obtain ⟨d, hd, rfl⟩ := exists_digitChar_of_mem_toDigits hb h
  exact key d (Nat.lt_of_lt_of_le hd hmax)

/-! ## Decimal numerals -/

theorem toList_toString (n : Nat) : (toString n).toList = Nat.toDigits 10 n := by
  rw [show toString n = n.repr from rfl, Nat.toList_repr]

theorem toString_injective {m n : Nat} (h : (toString m).toList = (toString n).toList) : m = n := by
  rw [toList_toString, toList_toString] at h
  have hvalue := congrArg (fun digits => Nat.ofDigitChars 10 digits 0) h
  rwa [Nat.ofDigitChars_toDigits (by decide) (by decide), Nat.ofDigitChars_toDigits (by decide) (by decide)] at hvalue

theorem isDigit_of_mem_toString (h : c ∈ (toString n).toList) : c.isDigit = true := by
  rw [toList_toString] at h
  exact Nat.isDigit_of_mem_toDigits (by decide) (by decide) h

theorem isControl_of_mem_toString (h : c ∈ (toString n).toList) : Unprintable.isControl c = false := by
  rw [toList_toString] at h
  exact isControl_of_mem_toDigits (by decide) (by decide) h

theorem notMem_toString (h : c.isDigit = false) : c ∉ (toString n).toList := by
  intro hc
  rw [isDigit_of_mem_toString hc] at h
  cases h

/-! ## Hexadecimal numerals -/

theorem byteLength_of_hex (h : ∀ c ∈ digits, isHexDigit c = true) : byteLength digits = digits.length :=
  byteLength_eq_length fun c hc => Escape.utf8Size_of_isHexDigit (h c hc)

theorem hexDigitValue?_digitChar (h : n < 16) : hexDigitValue? n.digitChar = some n := by
  have key : ∀ n < 16, hexDigitValue? n.digitChar = some n := by decide
  exact key n h

theorem isHexDigit_of_mem_toDigits (h : c ∈ Nat.toDigits 16 n) : isHexDigit c = true := by
  obtain ⟨d, hd, rfl⟩ := exists_digitChar_of_mem_toDigits (by decide) h
  rw [isHexDigit, hexDigitValue?_digitChar hd]
  rfl

theorem hexValue_concat (digits : List Char) (c : Char) :
    Escape.hexValue (digits ++ [c]) = 16 * Escape.hexValue digits + (hexDigitValue? c).getD 0 := by
  rw [Escape.hexValue, List.foldl_append]
  rfl

theorem hexValue_toDigits (n : Nat) : Escape.hexValue (Nat.toDigits 16 n) = n := by
  induction n using Nat.strongRecOn with
  | ind n ih =>
    rcases Nat.lt_or_ge n 16 with hn | hn
    · rw [Nat.toDigits_of_lt_base hn, ← List.nil_append [n.digitChar], hexValue_concat,
        hexDigitValue?_digitChar hn]
      exact Nat.zero_add n
    · rw [Nat.toDigits_of_base_le (by decide) hn, hexValue_concat, ih (n / 16) (by omega),
        hexDigitValue?_digitChar (Nat.mod_lt n (by decide)), Option.getD_some]
      exact Nat.div_add_mod n 16

/-- The shortest numeral of a code point has at most six digits. -/
theorem codePoint_toDigits (c : Char) : CodePoint (Nat.toDigits 16 c.toNat) c where
  nonempty := Nat.toDigits_ne_nil
  short := by
    have hvalid : c.toNat.isValidChar := c.valid
    rw [Nat.length_toDigits_le_iff (by decide) (by decide)]
    simp only [Nat.isValidChar] at hvalid
    omega
  names := Escape.numeral_iff.mpr ⟨fun _ => isHexDigit_of_mem_toDigits, hexValue_toDigits c.toNat⟩

end NodLexis.Numerals
