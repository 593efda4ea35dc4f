/-! # Source text measured in bytes

A source is a list of characters, while offsets into it count the bytes of its
UTF-8 form. `cut?` is the one way to turn an offset into a place in the list: it
refuses an offset beyond the end and one inside a character.
-/

namespace NodLexis.SourceText

def byteLength (text : List Char) : Nat := text.foldr (fun c n => c.utf8Size + n) 0

/-- The text before and the text from a byte offset. -/
def cut? : List Char → Nat → Option (List Char × List Char)
  | text, 0 => some ([], text)
  | [], _ + 1 => none
  | c :: text, offset =>
    if c.utf8Size ≤ offset then
      (cut? text (offset - c.utf8Size)).map fun (before, after) => (c :: before, after)
    else none

/-- The text of a byte range whose ends are in order and on character boundaries. -/
def slice? (text : List Char) (start stop : Nat) : Option (List Char) :=
  if start ≤ stop then
    (cut? text start).bind fun (_, after) => (cut? after (stop - start)).map Prod.fst
  else none

@[simp] theorem byteLength_nil : byteLength [] = 0 := rfl

@[simp] theorem byteLength_cons (c : Char) (text : List Char) :
    byteLength (c :: text) = c.utf8Size + byteLength text := rfl

@[simp] theorem byteLength_append (s t : List Char) :
    byteLength (s ++ t) = byteLength s + byteLength t := by
  induction s with
  | nil => simp
  | cons c s ih =>
    rw [List.cons_append, byteLength_cons, byteLength_cons, ih]
    omega

theorem byteLength_eq_zero_iff {text : List Char} : byteLength text = 0 ↔ text = [] := by
  cases text with
  | nil => simp
  | cons c text =>
    have := c.utf8Size_pos
    simp only [byteLength_cons, reduceCtorEq, iff_false]
    omega

@[simp] theorem cut?_zero (text : List Char) : cut? text 0 = some ([], text) := by
  cases text <;> rfl

/-- A cut succeeds exactly at the byte lengths of the initial pieces of the text. -/
theorem cut?_eq_some_iff {text before after : List Char} {offset : Nat} :
    cut? text offset = some (before, after) ↔
      text = before ++ after ∧ byteLength before = offset := by
  induction text generalizing offset before with
  | nil =>
    cases offset with
    | zero => cases before <;> simp [eq_comm]
    | succ n =>
      simp only [cut?, reduceCtorEq, false_iff, not_and]
      intro h
      obtain ⟨rfl, -⟩ := List.append_eq_nil_iff.mp h.symm
      simp
  | cons c text ih =>
    cases offset with
    | zero =>
      rw [cut?_zero]
      cases before with
      | nil => simp [eq_comm]
      | cons d before =>
        have := d.utf8Size_pos
        simp
        omega
    | succ n =>
      rw [cut?]
      · cases before with
        | nil =>
          split <;> simp
        | cons d before =>
          have := d.utf8Size_pos
          split
          · rename_i hle
            simp only [Option.map_eq_some_iff, Prod.mk.injEq, List.cons.injEq, Prod.exists,
              List.cons_append, byteLength_cons]
            constructor
            · rintro ⟨b, a, h, ⟨rfl, rfl⟩, rfl⟩
              obtain ⟨h₁, h₂⟩ := ih.mp h
              exact ⟨⟨rfl, h₁⟩, by omega⟩
            · rintro ⟨⟨rfl, h₁⟩, h₂⟩
              exact ⟨before, after, ih.mpr ⟨h₁, by omega⟩, ⟨rfl, rfl⟩, rfl⟩
          · rename_i hle
            simp only [reduceCtorEq, List.cons_append, List.cons.injEq, byteLength_cons,
              false_iff, not_and]
            rintro ⟨rfl, -⟩
            omega
      · simp

/-- A slice at the byte lengths of the texts around it. -/
theorem slice?_append (before text after : List Char) :
    slice? (before ++ (text ++ after)) (byteLength before) (byteLength before + byteLength text) =
      some text := by
  have hbefore : cut? (before ++ (text ++ after)) (byteLength before) = some (before, text ++ after) :=
    cut?_eq_some_iff.mpr ⟨rfl, rfl⟩
  have htext : cut? (text ++ after) (byteLength text) = some (text, after) :=
    cut?_eq_some_iff.mpr ⟨rfl, rfl⟩
  simp [slice?, hbefore, htext]

end NodLexis.SourceText
