import Mathlib.Data.Nat.Digits.Lemmas
import NodLexis.Proofs.Numerals

/-! # Code points in base sixteen

The digits between the braces of an escape are a numeral in base sixteen, each of them small or
capital. They name the character with this code point, if there is one: the numbers of surrogates
and those behind the last code point name nothing. The value of six digits fits in an unsigned
integer of 32 bits, so a reader that checks every product and every sum in such an integer finds
the same characters.
-/

namespace NodLexis.Escape
open CharacterClass Grammar SourceText

/-- The text has some zeros and then the digits of `n`, which start with no zero. -/
def Padded (text : List Char) (n : Nat) : Prop :=
  ∃ zeros, List.Forall₂ Digit text (List.replicate zeros 0 ++ (Nat.digits 16 n).reverse)

/-- A text that names no character. -/
inductive Refused : List Char → Prop where
  | empty : Refused []
  | long {text : List Char} (h : 6 < text.length) : Refused text
  | foreign {text : List Char} {c : Char} (hc : c ∈ text) (h : ∀ d, ¬ Digit c d) : Refused text
  | surrogate {text : List Char} {n : Nat} (h : Numeral text n) (hn : 0xd800 ≤ n ∧ n ≤ 0xdfff) : Refused text
  | beyond {text : List Char} {n : Nat} (h : Numeral text n) (hn : 0x10ffff < n) : Refused text

variable {c : Char} {d n : Nat} {ds : List Nat} {text : List Char}

/-! ## Leading zeros -/

theorem Numeral.padded (h : Numeral text n) : Padded text n := by
  have hlength : (Nat.digits 16 n).length ≤ text.length := (Nat.digits_length_le_iff (by decide) n).mpr h.lt
  obtain ⟨ds, hds, hvalue⟩ := h
  obtain ⟨zeros, hzeros⟩ := Nat.exists_eq_add_of_le (hds.length_eq ▸ hlength)
  -- As many digits with the same value are the same digits.
  have hdigits : ds.reverse = Nat.digits 16 n ++ List.replicate zeros 0 := by
    refine Nat.ofDigits_inj_of_len_eq (b := 16) (by decide) ?_ ?_ ?_ ?_
    · rw [List.length_reverse, List.length_append, List.length_replicate, hzeros]
    · exact fun d hd => digits_lt hds d (List.mem_reverse.mp hd)
    · refine List.forall_mem_append.mpr ⟨fun d hd => Nat.digits_lt_base (by decide) hd, ?_⟩
      intro d hd
      rw [List.eq_of_mem_replicate hd]
      decide
    · rw [hvalue, Nat.ofDigits_append_replicate_zero, Nat.ofDigits_digits]
  refine ⟨zeros, ?_⟩
  rwa [← List.reverse_replicate, ← List.reverse_append, ← hdigits, List.reverse_reverse]

theorem numeral_iff_padded : Numeral text n ↔ Padded text n := by
  refine ⟨Numeral.padded, ?_⟩
  rintro ⟨zeros, h⟩
  refine ⟨_, h, ?_⟩
  rw [List.reverse_append, List.reverse_reverse, List.reverse_replicate, Nat.ofDigits_append_replicate_zero,
    Nat.ofDigits_digits]

/-! ## Named characters -/

theorem ofHex?_eq_some_iff_numeral :
    ofHex? text = some c ↔ text ≠ [] ∧ text.length ≤ 6 ∧ Numeral text c.toNat := by
  rw [ofHex?_eq_some_iff]
  constructor
  · exact fun h => ⟨h.nonempty, h.short, h.names⟩
  · exact fun ⟨nonempty, short, names⟩ => ⟨nonempty, short, names⟩

theorem refused_of_none (h : ofHex? text = none) : Refused text := by
  by_cases hempty : text = []
  · exact hempty ▸ .empty
  by_cases hlong : 6 < text.length
  · exact .long hlong
  by_cases hhex : ∀ c ∈ text, isHexDigit c = true
  · have hnumeral : Numeral text (hexValue text) := numeral_iff.mpr ⟨hhex, rfl⟩
    have hinvalid : ¬ (hexValue text).isValidChar := by
      intro hvalid
      have hsome := ofHex?_eq_some_iff_numeral.mpr
        ⟨hempty, Nat.le_of_not_lt hlong, (toNat_ofNat hvalid).symm ▸ hnumeral⟩
      rw [h] at hsome
      cases hsome
    rw [Nat.isValidChar] at hinvalid
    by_cases hsurrogate : hexValue text ≤ 0xdfff
    · exact .surrogate hnumeral (by omega)
    · exact .beyond hnumeral (by omega)
  · push Not at hhex
    obtain ⟨c, hc, hforeign⟩ := hhex
    exact .foreign hc fun d hd => hforeign (isHexDigit_iff.mpr ⟨d, hd⟩)

theorem none_of_refused (h : Refused text) : ofHex? text = none := by
  rw [Option.eq_none_iff_forall_ne_some]
  intro c hc
  obtain ⟨hempty, hshort, hnumeral⟩ := ofHex?_eq_some_iff_numeral.mp hc
  have hvalid : c.toNat.isValidChar := c.valid
  rw [Nat.isValidChar] at hvalid
  cases h with
  | empty => exact hempty rfl
  | long h => omega
  | foreign hmem hforeign =>
    obtain ⟨d, hd⟩ := isHexDigit_iff.mp ((numeral_iff.mp hnumeral).1 _ hmem)
    exact hforeign d hd
  | surrogate h hn =>
    obtain rfl := h.unique hnumeral
    omega
  | beyond h hn =>
    obtain rfl := h.unique hnumeral
    omega

/-! ## Integers of 32 bits -/

/-- Why a text is no unsigned integer. -/
inductive UnsignedFault where
  | empty | foreign | overflow
  deriving DecidableEq

/-- A number as an integer of 32 bits, if it fits. -/
def fit (n : Nat) : Except UnsignedFault UInt32 :=
  if n < UInt32.size then .ok (.ofNat n) else .error .overflow

/-- One more digit behind an integer. The product and the sum have to fit. -/
def pushDigit (w : UInt32) (c : Char) : Except UnsignedFault UInt32 :=
  match hexDigitValue? c with
  | none => .error .foreign
  | some d => do
    let product ← fit (16 * w.toNat)
    fit (product.toNat + d)

/-- Reads an unsigned integer in base sixteen. A plus sign may stand in front. -/
def readUnsigned : List Char → Except UnsignedFault UInt32
  | [] => .error .empty
  | ['+'] => .error .foreign
  | '+' :: text => text.foldlM pushDigit 0
  | text => text.foldlM pushDigit 0

/-- The character whose code point the digits spell, by way of an integer of 32 bits. The bytes of
the text are counted here. -/
def ofUnsigned? (text : List Char) : Option Char :=
  if text = [] ∨ maxHexDigits < byteLength text ∨ ¬ text.all isHexDigit then none
  else (readUnsigned text).toOption.bind fun w => ofCodePoint? w.toNat

/-- An intermediate number that does not fit stays too large when it is multiplied and added to. -/
theorem fit_bind_fit {k : Nat} (hk : 0 < k) (n d : Nat) :
    (fit n >>= fun w => fit (k * w.toNat + d)) = fit (k * n + d) := by
  by_cases hn : n < UInt32.size
  · have hfit : fit n = .ok (.ofNat n) := if_pos hn
    have hvalue : (UInt32.ofNat n).toNat = n := UInt32.toNat_ofNat_of_lt' hn
    rw [hfit]
    change fit (k * (UInt32.ofNat n).toNat + d) = fit (k * n + d)
    rw [hvalue]
  · have hle : n ≤ k * n := Nat.le_mul_of_pos_left n hk
    rw [fit, fit, if_neg hn, if_neg (by omega)]
    rfl

theorem pushDigit_eq (w : UInt32) (h : Digit c d) : pushDigit w c = fit (16 * w.toNat + d) := by
  have hsum := fit_bind_fit Nat.one_pos (16 * w.toNat) d
  simp only [Nat.one_mul] at hsum
  rw [pushDigit, hexDigitValue?_eq_some_iff.mpr h]
  exact hsum

/-- The checks on the way find out whether the whole value fits. The induction goes over the last
digit, which is the last one that is read. -/
theorem foldlM_pushDigit (hex : ∀ c ∈ text, isHexDigit c = true) :
    text.foldlM pushDigit 0 = fit (hexValue text) := by
  induction text using List.reverseRecOn with
  | nil => rfl
  | append_singleton text c ih =>
    obtain ⟨htext, hc⟩ := List.forall_mem_append.mp hex
    obtain ⟨d, hd⟩ := isHexDigit_iff.mp (hc c List.mem_cons_self)
    have hpush : (pushDigit · c) = fun w => fit (16 * w.toNat + d) := funext fun w => pushDigit_eq w hd
    rw [List.foldlM_append, ih htext, Numerals.hexValue_concat, hexDigitValue?_eq_some_iff.mpr hd, Option.getD_some,
      ← fit_bind_fit (by decide), ← hpush]
    simp only [List.foldlM_cons, List.foldlM_nil, bind_pure]

theorem readUnsigned_of_numeral (hne : text ≠ []) (h : Numeral text n) : readUnsigned text = fit n := by
  obtain ⟨hex, rfl⟩ := numeral_iff.mp h
  rw [← foldlM_pushDigit hex]
  cases text with
  | nil => exact absurd rfl hne
  | cons c text =>
    obtain ⟨d, hd⟩ := isHexDigit_iff.mp (hex c List.mem_cons_self)
    have hsign : c ≠ '+' := hd.ascii.1
    rw [readUnsigned]
    · simp
    · simp [hsign]
    · simp [hsign]

/-- Six digits are worth less than the twenty-fourth power of two. -/
theorem exists_readUnsigned (hne : text ≠ []) (hshort : byteLength text ≤ maxHexDigits)
    (hex : ∀ c ∈ text, isHexDigit c = true) : ∃ w, readUnsigned text = .ok w ∧ w.toNat = hexValue text := by
  have hnumeral : Numeral text (hexValue text) := numeral_iff.mpr ⟨hex, rfl⟩
  have hlength : text.length ≤ 6 := (length_le_byteLength text).trans hshort
  have hpow : 16 ^ text.length ≤ 16 ^ 6 := Nat.pow_le_pow_right (by decide) hlength
  have hfits : hexValue text < UInt32.size := by
    have hlt := hnumeral.lt
    simp only [UInt32.size]
    omega
  refine ⟨.ofNat (hexValue text), ?_, UInt32.toNat_ofNat_of_lt' hfits⟩
  rw [readUnsigned_of_numeral hne hnumeral, fit, if_pos hfits]

theorem ofUnsigned?_eq_ofHex? (text : List Char) : ofUnsigned? text = ofHex? text := by
  by_cases h : text ≠ [] ∧ text.length ≤ maxHexDigits ∧ text.all isHexDigit
  · have hex : ∀ c ∈ text, isHexDigit c = true := List.all_eq_true.mp h.2.2
    have hbytes : byteLength text ≤ maxHexDigits := (Numerals.byteLength_of_hex hex).trans_le h.2.1
    obtain ⟨w, hread, hvalue⟩ := exists_readUnsigned h.1 hbytes hex
    rw [ofUnsigned?, if_neg (by simp [h.1, hbytes, h.2.2]), hread, ofHex?, if_pos h, ← hvalue]
    rfl
  · have hbytes := length_le_byteLength text
    rw [ofHex?, if_neg h, ofUnsigned?, if_pos]
    by_contra hguard
    simp only [not_or, not_not, Nat.not_lt] at hguard
    exact h ⟨hguard.1, hbytes.trans hguard.2.1, hguard.2.2⟩

/-- The reader alone would pass over a sign in front of the digits. -/
example : readUnsigned ['+', '4', '1'] = .ok 0x41 ∧ ofUnsigned? ['+', '4', '1'] = none := by decide

/-- One to six digits name the character whose code point they are worth, and nothing else names
one: a text is refused for its length, for a character that is no digit, as any sign or character
beyond ASCII, or for its value. So a character is named by the digits of its code point in either
case, with zeros in front, and two names of it are worth the same. By way of an integer of 32 bits
the same characters are named, and the digits that get to it never overflow. -/
theorem ofHex?_names_by_value :
    (∀ text c, ofHex? text = some c ↔ text ≠ [] ∧ text.length ≤ 6 ∧ Numeral text c.toNat) ∧
    (∀ text, ofHex? text = none ↔ Refused text) ∧
    (∀ text, ∀ c ∈ text, c = '+' ∨ c = '-' ∨ 0x80 ≤ c.toNat → ofHex? text = none) ∧
    (∀ text c, ofHex? text = some c ↔ text ≠ [] ∧ text.length ≤ 6 ∧ Padded text c.toNat) ∧
    (∀ c : Char, ofHex? (Nat.toDigits 16 c.toNat) = some c) ∧
    (∀ text text' c c' n n', ofHex? text = some c → ofHex? text' = some c' →
      Numeral text n → Numeral text' n' → (c = c' ↔ n = n')) ∧
    (∀ text, ofUnsigned? text = ofHex? text) ∧
    ∀ text, text ≠ [] → byteLength text ≤ maxHexDigits → (∀ c ∈ text, isHexDigit c = true) →
      ∃ w, readUnsigned text = .ok w ∧ Numeral text w.toNat := by
  refine ⟨fun _ _ => ofHex?_eq_some_iff_numeral, fun _ => ⟨refused_of_none, none_of_refused⟩, ?_, ?_, ?_, ?_,
    ofUnsigned?_eq_ofHex?, ?_⟩
  · intro text c hc hforeign
    refine none_of_refused (.foreign hc ?_)
    intro d hd
    obtain ⟨hplus, hminus, hascii⟩ := hd.ascii
    rcases hforeign with h | h | h
    · exact hplus h
    · exact hminus h
    · omega
  · intro text c
    rw [ofHex?_eq_some_iff_numeral, numeral_iff_padded]
  · intro c
    exact ofHex?_eq_some_iff.mpr (Numerals.codePoint_toDigits c)
  · intro text text' c c' n n' h h' hn hn'
    rw [hn.unique (ofHex?_eq_some_iff_numeral.mp h).2.2, hn'.unique (ofHex?_eq_some_iff_numeral.mp h').2.2,
      Char.toNat_inj]
  · intro text hne hshort hex
    obtain ⟨w, hread, hvalue⟩ := exists_readUnsigned hne hshort hex
    exact ⟨w, hread, numeral_iff.mpr ⟨hex, hvalue.symm⟩⟩

theorem ofHex?_names_by_value_mixed_cases :
    Padded ['0', 'a', 'B', 'c', 'D'] ('\uabcd').toNat ∧ ofHex? ['0', 'a', 'B', 'c', 'D'] = some '\uabcd' := by
  have h : Padded ['0', 'a', 'B', 'c', 'D'] ('\uabcd').toNat := ⟨1, by decide⟩
  exact ⟨h, (ofHex?_names_by_value.2.2.2.1 _ _).mpr ⟨by simp, by decide, h⟩⟩

end NodLexis.Escape
