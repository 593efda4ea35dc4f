import NodLexis.Proofs.LiteralGrammar
import NodLexis.Proofs.Numerals

/-! # The displayed token

Quoted text is a string literal that denotes the text. Its items end at the first mark that is not
escaped, so the text between the marks cannot be taken for what is displayed behind it, and the
display of a token tells everything that is in it. No control character is left in a display.
-/

namespace NodLexis
open Grammar

/-! ## Items in front of a mark -/

namespace Literal

variable {item text body body' values values' rest rest' : List Char} {value : Char} {q : Quote}

theorem item_starts_unmarked (h : Item (Plain q) item value) : item ++ text ≠ q.mark :: rest := by
  have hmark : q.mark ≠ '\\' := by cases q <;> decide
  intro heq
  cases h with
  | raw h => exact h.1 (List.cons.inj heq).1
  | simple => exact hmark (List.cons.inj heq).1.symm
  | codePoint => exact hmark (List.cons.inj heq).1.symm

/-- Items end at the first mark that is no part of an item. -/
theorem items_unique (h : Items (Plain q) body values) (h' : Items (Plain q) body' values')
    (heq : body ++ q.mark :: rest = body' ++ q.mark :: rest') : values = values' ∧ rest = rest' := by
  have hplain : ∀ c, Plain q c → Unescaped c := fun _ hc => hc.2
  induction h generalizing body' values' with
  | nil =>
    cases h' with
    | nil => exact ⟨rfl, (List.cons.inj heq).2⟩
    | cons head' _ =>
      rw [List.append_assoc] at heq
      exact absurd heq.symm (item_starts_unmarked head')
  | cons head _ ih =>
    rw [List.append_assoc] at heq
    cases h' with
    | nil => exact absurd heq (item_starts_unmarked head)
    | cons head' tail' =>
      rw [List.append_assoc] at heq
      obtain ⟨rfl, rfl⟩ := item_unique (item_mono hplain head) (item_mono hplain head') heq
      obtain ⟨rfl, hrest⟩ := ih tail' (List.append_cancel_left heq)
      exact ⟨rfl, hrest⟩

end Literal

/-- A text without control characters, which stays on one line. -/
def Visible (text : List Char) : Prop := ∀ c ∈ text, Unprintable.isControl c = false

theorem visible_of_all {text : List Char} (h : (text.all fun c => !Unprintable.isControl c) = true) :
    Visible text := by
  intro c hc
  simpa using List.all_eq_true.mp h c hc

/-! ## Quoted text -/

namespace Quoting

variable {c d : Char}

theorem mem_letterValues_of_shortForm? (h : shortForm? c = some d) : (d, c) ∈ Literal.letterValues := by
  unfold shortForm? at h
  iterate 4
    split at h
    · rename_i hc
      rw [hc, ← Option.some.inj h]
      decide
  cases h

theorem item_written (c : Char) : Item (Plain .double) (written '"' c) c := by
  unfold written
  split
  · rename_i hc
    rcases hc with rfl | rfl <;> exact .simple (by decide)
  · rename_i hc
    split
    · rename_i letter h
      exact .simple (mem_letterValues_of_shortForm? h)
    split
    · exact .codePoint (Numerals.codePoint_toDigits c)
    · exact .raw (not_or.mp hc)

theorem items_written (text : List Char) : Items (Plain .double) (text.flatMap (written '"')) text := by
  induction text with
  | nil => exact .nil
  | cons c text ih => exact .cons (item_written c) ih

/-- Quoted text is a string literal of the language, which denotes the text. -/
theorem decode?_quoted (text : String) : Literal.decode? (quoted text) = some text := by
  have h := Literal.decode?_of_items (items_written text.toList)
  rwa [String.ofList_toList] at h

theorem visible_codePointForm (c : Char) : Visible (codePointForm c) := by
  have hdigits : Visible (Nat.toDigits 16 c.toNat) := fun _ =>
    Numerals.isControl_of_mem_toDigits (by decide) (by decide)
  exact forall_mem_concat (List.forall_mem_append.mpr ⟨visible_of_all rfl, hdigits⟩) rfl

theorem visible_written (c : Char) : Visible (written '"' c) := by
  unfold written
  split
  · rename_i hc
    rcases hc with rfl | rfl <;> exact visible_of_all rfl
  split
  · rename_i letter h
    have hletters : (Literal.letterValues.all fun p => !Unprintable.isControl p.1) = true := rfl
    have hletter := List.all_eq_true.mp hletters _ (mem_letterValues_of_shortForm? h)
    exact List.forall_mem_cons.mpr ⟨rfl, List.forall_mem_singleton.mpr (by simpa using hletter)⟩
  split
  · exact visible_codePointForm c
  · rename_i hprintable
    refine List.forall_mem_singleton.mpr (Bool.eq_false_iff.mpr ?_)
    exact fun hc => hprintable (Unprintable.isUnprintable_of_isControl hc)

end Quoting

/-! ## Names of kinds -/

namespace TokenKind

theorem ofName?_name (k : TokenKind) : ofName? k.name = some k := by
  have key : ∀ k ∈ all, ofName? k.name = some k := by decide +kernel
  exact key k k.mem_all

theorem name_injective : Function.Injective name := by
  intro j k h
  have hj := ofName?_name j
  rw [h, ofName?_name k] at hj
  exact (Option.some.inj hj).symm

theorem of_mem_name {k : TokenKind} {c : Char} (h : c ∈ k.name.toList) :
    c ≠ '(' ∧ Unprintable.isControl c = false := by
  have key : ∀ k ∈ all, k.name.toList.all (fun c => c != '(' && !Unprintable.isControl c) = true := by
    decide +kernel
  simpa using List.all_eq_true.mp (key k k.mem_all) c h

theorem paren_notMem_name (k : TokenKind) : '(' ∉ k.name.toList := fun h => (of_mem_name h).1 rfl

theorem visible_name (k : TokenKind) : Visible k.name.toList := fun _ h => (of_mem_name h).2

end TokenKind

/-! ## Displayed tokens -/

namespace Token

variable {t t' : Token}

theorem toList_display (t : Token) :
    t.display.toList = t.kind.name.toList ++ '(' :: '"' :: (t.lexeme.toList.flatMap (Quoting.written '"') ++
      '"' :: (") at ".toList ++ ((toString t.line).toList ++ ':' :: (toString t.column).toList))) := by
  simp [display, Quoting.quoted]

theorem visible_display (t : Token) : Visible t.display.toList := by
  have hlexeme : Visible (t.lexeme.toList.flatMap (Quoting.written '"')) := by
    intro c hc
    obtain ⟨d, -, hd⟩ := List.mem_flatMap.mp hc
    exact Quoting.visible_written d c hd
  have hnumeral (n : Nat) : Visible (toString n).toList := fun _ => Numerals.isControl_of_mem_toString
  have hword : Visible ") at ".toList := visible_of_all (by decide)
  simp only [toList_display, Visible, List.forall_mem_append, List.forall_mem_cons]
  exact ⟨t.kind.visible_name, rfl, rfl, hlexeme, rfl, hword, hnumeral t.line, rfl, hnumeral t.column⟩

theorem parts_of_display (h : t.display = t'.display) :
    t.kind = t'.kind ∧ t.lexeme = t'.lexeme ∧ t.line = t'.line ∧ t.column = t'.column := by
  have htexts := congrArg String.toList h
  rw [toList_display, toList_display] at htexts
  obtain ⟨hname, hquoted⟩ := append_cons_unique t.kind.paren_notMem_name t'.kind.paren_notMem_name htexts
  obtain ⟨hlexeme, hplace⟩ := Literal.items_unique (q := .double) (Quoting.items_written _)
    (Quoting.items_written _) (List.cons.inj hquoted).2
  obtain ⟨hline, hcolumn⟩ := append_cons_unique (Numerals.notMem_toString rfl) (Numerals.notMem_toString rfl)
    (List.append_cancel_left hplace)
  exact ⟨TokenKind.name_injective (String.toList_inj.mp hname), String.toList_inj.mp hlexeme,
    Numerals.toString_injective hline, Numerals.toString_injective hcolumn⟩

/-- Two tokens are displayed alike only if they agree in their kind, text, line and column. The
display stays on one line. -/
theorem display_lossless (t t' : Token) :
    (t.display = t'.display ↔
      t.kind = t'.kind ∧ t.lexeme = t'.lexeme ∧ t.line = t'.line ∧ t.column = t'.column) ∧
    ∀ c ∈ t.display.toList, c ≠ '\n' ∧ c ≠ '\r' ∧ Unprintable.isControl c = false := by
  refine ⟨⟨parts_of_display, ?_⟩, ?_⟩
  · rintro ⟨hkind, hlexeme, hline, hcolumn⟩
    rw [display, display, hkind, hlexeme, hline, hcolumn]
  · intro c hc
    have hcontrol := visible_display t c hc
    refine ⟨?_, ?_, hcontrol⟩
    all_goals
      rintro rfl
      cases hcontrol

end Token

end NodLexis
