/-! # Keywords

The reserved words of the language. The table of words is the inverse of
`ofWord?`, which is how a scanned word is told from an identifier.
-/

namespace NodLexis

inductive Keyword where
  | asKw | attrKw | breakKw | caseKw | catchKw | classKw
  | continueKw | delKw | doKw | elseKw | enumKw | falseKw
  | forKw | funcKw | genKw | getKw | guardKw | ifKw
  | inKw | infixKw | initKw | inlineKw | leftKw | letKw
  | loopKw | matchKw | mutKw | namespaceKw | postfixKw | prefixKw
  | protocolKw | pubKw | returnKw | rightKw | selfKw | setKw
  | staticKw | throwKw | throwsKw | trueKw | tryKw | useKw
  | whileKw | yieldKw
  deriving DecidableEq

namespace Keyword

/-- The keywords in the order of their words. -/
def all : List Keyword :=
  [.asKw, .attrKw, .breakKw, .caseKw, .catchKw, .classKw, .continueKw, .delKw, .doKw,
    .elseKw, .enumKw, .falseKw, .forKw, .funcKw, .genKw, .getKw, .guardKw, .ifKw, .inKw,
    .infixKw, .initKw, .inlineKw, .leftKw, .letKw, .loopKw, .matchKw, .mutKw, .namespaceKw,
    .postfixKw, .prefixKw, .protocolKw, .pubKw, .returnKw, .rightKw, .selfKw, .setKw,
    .staticKw, .throwKw, .throwsKw, .trueKw, .tryKw, .useKw, .whileKw, .yieldKw]

def word : Keyword → String
  | .asKw => "as" | .attrKw => "attr" | .breakKw => "break" | .caseKw => "case"
  | .catchKw => "catch" | .classKw => "class" | .continueKw => "continue" | .delKw => "del"
  | .doKw => "do" | .elseKw => "else" | .enumKw => "enum" | .falseKw => "false"
  | .forKw => "for" | .funcKw => "func" | .genKw => "gen" | .getKw => "get"
  | .guardKw => "guard" | .ifKw => "if" | .inKw => "in" | .infixKw => "infix"
  | .initKw => "init" | .inlineKw => "inline" | .leftKw => "left" | .letKw => "let"
  | .loopKw => "loop" | .matchKw => "match" | .mutKw => "mut" | .namespaceKw => "namespace"
  | .postfixKw => "postfix" | .prefixKw => "prefix" | .protocolKw => "protocol" | .pubKw => "pub"
  | .returnKw => "return" | .rightKw => "right" | .selfKw => "self" | .setKw => "set"
  | .staticKw => "static" | .throwKw => "throw" | .throwsKw => "throws" | .trueKw => "true"
  | .tryKw => "try" | .useKw => "use" | .whileKw => "while" | .yieldKw => "yield"

def name : Keyword → String
  | .asKw => "As" | .attrKw => "Attr" | .breakKw => "Break" | .caseKw => "Case"
  | .catchKw => "Catch" | .classKw => "Class" | .continueKw => "Continue" | .delKw => "Del"
  | .doKw => "Do" | .elseKw => "Else" | .enumKw => "Enum" | .falseKw => "False"
  | .forKw => "For" | .funcKw => "Func" | .genKw => "Gen" | .getKw => "Get"
  | .guardKw => "Guard" | .ifKw => "If" | .inKw => "In" | .infixKw => "Infix"
  | .initKw => "Init" | .inlineKw => "Inline" | .leftKw => "Left" | .letKw => "Let"
  | .loopKw => "Loop" | .matchKw => "Match" | .mutKw => "Mut" | .namespaceKw => "Namespace"
  | .postfixKw => "Postfix" | .prefixKw => "Prefix" | .protocolKw => "Protocol" | .pubKw => "Pub"
  | .returnKw => "Return" | .rightKw => "Right" | .selfKw => "SelfKw" | .setKw => "Set"
  | .staticKw => "Static" | .throwKw => "Throw" | .throwsKw => "Throws" | .trueKw => "True"
  | .tryKw => "Try" | .useKw => "Use" | .whileKw => "While" | .yieldKw => "Yield"

/-- The keyword that a word spells. -/
def ofWord? (word : String) : Option Keyword := all.find? fun k => k.word == word

theorem mem_all (k : Keyword) : k ∈ all := by
  cases k <;> decide

/-- No two keywords are spelt alike. -/
theorem word_injective {j k : Keyword} (h : j.word = k.word) : j = k := by
  have key : ∀ j ∈ all, ∀ k ∈ all, j.word = k.word → j = k := by decide +kernel
  exact key j (mem_all j) k (mem_all k) h

theorem ofWord?_eq_some_iff {word : String} {k : Keyword} :
    ofWord? word = some k ↔ k.word = word := by
  constructor
  · intro h
    simpa using List.find?_some h
  · rintro rfl
    cases h : ofWord? k.word with
    | none => exact absurd (beq_self_eq_true k.word) (List.find?_eq_none.mp h k (mem_all k))
    | some j => exact congrArg some (word_injective (by simpa using List.find?_some h))

end Keyword

end NodLexis
