import NodLexis.Escape

/-! # Quoted literals

A literal is a text between two equal quotes, its escapes still unresolved.
Decoding takes the quotes off and resolves the escapes. It reads the text for
itself, so that a literal can be decoded wherever it comes from; a quote inside
needs no backslash there.
-/

namespace NodLexis

/-- The two quotes: double for strings and single for characters. -/
inductive Quote where
  | double | single
  deriving DecidableEq

namespace Quote

def mark : Quote → Char
  | .double => '"'
  | .single => '\''

/-- What a text inside this quote is called. -/
def context : Quote → String
  | .double => "string literal"
  | .single => "char literal"

def ofMark? : Char → Option Quote
  | '"' => some .double
  | '\'' => some .single
  | _ => none

@[simp] theorem ofMark?_mark (q : Quote) : ofMark? q.mark = some q := by
  cases q <;> rfl

theorem ofMark?_eq_some_iff {c : Char} {q : Quote} : ofMark? c = some q ↔ c = q.mark := by
  constructor
  · intro h
    unfold ofMark? at h
    split at h <;> cases h <;> rfl
  · rintro rfl
    simp

end Quote

namespace Literal

/-- Resolves the escapes of a text. -/
def unescape? : List Char → Option (List Char)
  | [] => some []
  | '\\' :: 'u' :: '{' :: text =>
    match _h : text.dropWhile (· != '}') with
    | [] => none
    | _ :: rest => do
      let c ← Escape.ofHex? (text.takeWhile (· != '}'))
      return c :: (← unescape? rest)
  | '\\' :: letter :: text => do
    let c ← Escape.simple? letter
    return c :: (← unescape? text)
  | '\\' :: [] => none
  | c :: text => do return c :: (← unescape? text)
termination_by text => text.length
decreasing_by
  · have := (List.dropWhile_sublist (· != '}') (l := text)).length_le
    simp_all
    omega
  all_goals simp only [List.length_cons]; omega

/-- The text that a quoted literal denotes. -/
def decode? (lexeme : String) : Option String :=
  match lexeme.toList with
  | [] => none
  | mark :: text =>
    if (Quote.ofMark? mark).isSome ∧ text.getLast? = some mark then
      (unescape? text.dropLast).map String.ofList
    else none

end Literal

end NodLexis
