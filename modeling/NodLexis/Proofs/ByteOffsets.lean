import NodLexis.SourceText

/-! # Byte offsets of a string

Cuts and slices of a text are taken character by character. On the characters of a
string they succeed exactly where its UTF-8 bytes may be cut, at the offsets between two
characters or at an end.
-/

namespace NodLexis.SourceText

variable {text before after mid : List Char} {source : String} {start stop offset : Nat}

theorem byteLength_eq_utf8ByteSize (text : List Char) :
    byteLength text = (String.ofList text).utf8ByteSize := by
  induction text with
  | nil => rfl
  | cons c text ih =>
    rw [byteLength_cons, ih, String.ofList_cons, String.utf8ByteSize_append, String.utf8ByteSize_singleton]

theorem byteLength_toList (source : String) : byteLength source.toList = source.utf8ByteSize := by
  rw [byteLength_eq_utf8ByteSize, String.ofList_toList]

/-- A character has at least one byte. -/
theorem length_le_byteLength (text : List Char) : text.length ≤ byteLength text := by
  induction text with
  | nil => exact Nat.le_refl 0
  | cons c text ih =>
    have := c.utf8Size_pos
    rw [List.length_cons, byteLength_cons]
    omega

theorem byteLength_eq_length (h : ∀ c ∈ text, c.utf8Size = 1) : byteLength text = text.length := by
  induction text with
  | nil => rfl
  | cons c text ih =>
    rw [byteLength_cons, h c (by simp), ih fun d hd => h d (by simp [hd]), Nat.add_comm]
    rfl

/-- The offsets between two characters are the byte lengths of the initial pieces. -/
theorem isValid_iff_exists_append :
    String.Pos.Raw.IsValid source ⟨offset⟩ ↔
      ∃ before after, source.toList = before ++ after ∧ byteLength before = offset := by
  rw [String.Pos.Raw.isValid_iff_exists_append]
  constructor
  · rintro ⟨front, back, rfl, hoffset⟩
    exact ⟨front.toList, back.toList, String.toList_append,
      (byteLength_toList front).trans (congrArg String.Pos.Raw.byteIdx hoffset).symm⟩
  · rintro ⟨before, after, hsource, rfl⟩
    refine ⟨String.ofList before, String.ofList after, ?_, ?_⟩
    · rw [← String.ofList_append, ← hsource, String.ofList_toList]
    · rw [byteLength_eq_utf8ByteSize]
      rfl

theorem isSome_cut?_iff :
    (cut? source.toList offset).isSome = true ↔ String.Pos.Raw.IsValid source ⟨offset⟩ := by
  rw [isValid_iff_exists_append, Option.isSome_iff_exists, Prod.exists]
  simp only [cut?_eq_some_iff]

/-- Of two beginnings of a text the shorter one begins the longer one. -/
theorem exists_append_of_byteLength_le {rest tail longer : List Char} (h : longer ++ rest = text ++ tail)
    (hle : byteLength text ≤ byteLength longer) : ∃ mid, longer = text ++ mid ∧ mid ++ rest = tail := by
  rcases List.append_eq_append_iff.mp h with ⟨mid, rfl, rfl⟩ | ⟨mid, rfl, rfl⟩
  · have hmid : mid = [] := by
      rw [byteLength_append] at hle
      exact byteLength_eq_zero_iff.mp (by omega)
    exact ⟨[], by simp [hmid], by simp [hmid]⟩
  · exact ⟨mid, rfl, rfl⟩

theorem slice?_eq_some_iff :
    slice? text start stop = some mid ↔
      ∃ before after, text = before ++ (mid ++ after) ∧ byteLength before = start ∧
        start + byteLength mid = stop := by
  constructor
  · intro h
    unfold slice? at h
    split at h
    · rename_i hle
      obtain ⟨⟨before, rest⟩, hstart, hrest⟩ := Option.bind_eq_some_iff.mp h
      obtain ⟨⟨mid', after⟩, hstop, rfl⟩ := Option.map_eq_some_iff.mp hrest
      obtain ⟨rfl, rfl⟩ := cut?_eq_some_iff.mp hstart
      obtain ⟨rfl, hlength⟩ := cut?_eq_some_iff.mp hstop
      exact ⟨before, after, rfl, rfl, by rw [hlength]; omega⟩
    · cases h
  · rintro ⟨before, after, rfl, rfl, rfl⟩
    exact slice?_append before mid after

/-- A slice exists exactly when its ends are in order and each between two characters. -/
theorem isSome_slice?_iff :
    (slice? source.toList start stop).isSome = true ↔
      start ≤ stop ∧ String.Pos.Raw.IsValid source ⟨start⟩ ∧ String.Pos.Raw.IsValid source ⟨stop⟩ := by
  rw [isValid_iff_exists_append, isValid_iff_exists_append, Option.isSome_iff_exists]
  simp only [slice?_eq_some_iff]
  constructor
  · rintro ⟨mid, before, after, hsource, rfl, rfl⟩
    refine ⟨Nat.le_add_right _ _, ⟨before, mid ++ after, hsource, rfl⟩, before ++ mid, after, ?_, ?_⟩
    · rw [hsource, List.append_assoc]
    · rw [byteLength_append]
  · rintro ⟨hle, ⟨before, rest, hstart, rfl⟩, before', after, hstop, rfl⟩
    obtain ⟨mid, rfl, hrest⟩ := exists_append_of_byteLength_le (hstop.symm.trans hstart) hle
    exact ⟨mid, before, after, by rw [hstart, ← hrest], rfl, (byteLength_append before mid).symm⟩

-- The second character has two bytes, so that there is no cut behind the first of them.
example : slice? "aéb".toList 1 3 = some ['é'] ∧ slice? "aéb".toList 1 2 = none := by decide

end NodLexis.SourceText
