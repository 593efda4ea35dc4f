import NodLexis.CodePointRanges

/-! # White space

The Unicode property White_Space. It decides what is cut off the end of a
displayed line; what separates tokens is the smaller class of blanks.
-/

namespace NodLexis.WhiteSpace

def ranges : List (Nat × Nat) :=
  [(0x9, 0xd), (0x20, 0x20), (0x85, 0x85), (0xa0, 0xa0), (0x1680, 0x1680),
    (0x2000, 0x200a), (0x2028, 0x2029), (0x202f, 0x202f), (0x205f, 0x205f),
    (0x3000, 0x3000)]

def isWhiteSpace (c : Char) : Bool := CodePointRanges.holds ranges c

def trimEnd (text : List Char) : List Char :=
  (text.reverse.dropWhile isWhiteSpace).reverse

/-- What is cut off the end. -/
def trailing (text : List Char) : List Char := (text.reverse.takeWhile isWhiteSpace).reverse

theorem trimEnd_append_trailing (text : List Char) : trimEnd text ++ trailing text = text := by
  rw [trimEnd, trailing, ← List.reverse_append, List.takeWhile_append_dropWhile, List.reverse_reverse]

theorem isWhiteSpace_of_mem_trailing {text : List Char} {c : Char} (h : c ∈ trailing text) :
    isWhiteSpace c = true :=
  List.all_eq_true.mp List.all_takeWhile c (List.mem_reverse.mp h)

theorem getLast?_trimEnd (text : List Char) : ∀ c ∈ (trimEnd text).getLast?, isWhiteSpace c = false := by
  intro c h
  rw [trimEnd, List.getLast?_reverse] at h
  have hhead := List.head?_dropWhile_not isWhiteSpace text.reverse
  rw [h] at hhead
  simpa using hhead

end NodLexis.WhiteSpace
