import NodLexis.Keyword
import NodLexis.Operator
import NodLexis.Punctuation

/-! # Kinds of token

A kind is a literal form, a name form, an operator, a piece of punctuation or a
keyword. Some keywords have modified forms, written with a modifier directly
after the word. A scan yields the plain keyword and leaves it to a parser to
form the modified kind.
-/

namespace NodLexis

inductive Modifier where
  | optional | ampersand | exclamation
  deriving DecidableEq

namespace Modifier

def ofChar? : Char → Option Modifier
  | '?' => some .optional
  | '&' => some .ampersand
  | '!' => some .exclamation
  | _ => none

def suffix : Modifier → String
  | .optional => "Opt"
  | .ampersand => "Amp"
  | .exclamation => "Excl"

end Modifier

/-- The pairs of a keyword and a modifier that form a kind of their own. -/
inductive ModifiedKeyword where
  | delOpt | getOpt | inOpt | initOpt | initAmp | letOpt
  | letAmp | pubOpt | setOpt | throwsOpt | tryOpt | tryExcl
  deriving DecidableEq

namespace ModifiedKeyword

def all : List ModifiedKeyword :=
  [.delOpt, .getOpt, .inOpt, .initOpt, .initAmp, .letOpt, .letAmp, .pubOpt, .setOpt,
    .throwsOpt, .tryOpt, .tryExcl]

def base : ModifiedKeyword → Keyword
  | .delOpt => .delKw | .getOpt => .getKw | .inOpt => .inKw
  | .initOpt | .initAmp => .initKw
  | .letOpt | .letAmp => .letKw
  | .pubOpt => .pubKw | .setOpt => .setKw | .throwsOpt => .throwsKw
  | .tryOpt | .tryExcl => .tryKw

def modifier : ModifiedKeyword → Modifier
  | .initAmp | .letAmp => .ampersand
  | .tryExcl => .exclamation
  | _ => .optional

def name (m : ModifiedKeyword) : String := m.base.name ++ m.modifier.suffix

/-- The modified form of a keyword, where the language has one. -/
def ofParts? (k : Keyword) (m : Modifier) : Option ModifiedKeyword :=
  all.find? fun f => f.base == k && f.modifier == m

theorem mem_all (m : ModifiedKeyword) : m ∈ all := by
  cases m <;> decide

theorem ofParts?_base_modifier (m : ModifiedKeyword) :
    ofParts? m.base m.modifier = some m := by
  cases m <;> rfl

end ModifiedKeyword

inductive TokenKind where
  | lambdaArg | identifier | intLiteral | floatLiteral | charLiteral | stringLiteral
  | generalOperator | underscore
  | operator (o : Operator)
  | punctuation (p : Punctuation)
  | keyword (k : Keyword)
  | modified (m : ModifiedKeyword)
  /-- The kind of no text; a scan yields no such token. -/
  | errorToken
  deriving DecidableEq

namespace TokenKind

def all : List TokenKind :=
  [.lambdaArg, .identifier, .intLiteral, .floatLiteral, .charLiteral, .stringLiteral,
    .generalOperator, .underscore] ++ Operator.all.map .operator ++
    Punctuation.all.map .punctuation ++ Keyword.all.map .keyword ++
    ModifiedKeyword.all.map .modified ++ [.errorToken]

def name : TokenKind → String
  | .lambdaArg => "LambdaArg"
  | .identifier => "Identifier"
  | .intLiteral => "IntLiteral"
  | .floatLiteral => "FloatLiteral"
  | .charLiteral => "CharLiteral"
  | .stringLiteral => "StringLiteral"
  | .generalOperator => "GeneralOperator"
  | .underscore => "Underscore"
  | .operator o => o.name
  | .punctuation p => p.name
  | .keyword k => k.name
  | .modified m => m.name
  | .errorToken => "ErrorToken"

/-- The kind of a scanned word: a keyword where it spells one. -/
def ofWord (word : String) : TokenKind :=
  match Keyword.ofWord? word with
  | some k => .keyword k
  | none => .identifier

/-- The kind of a run of operator characters. -/
def ofSymbol (symbol : String) : TokenKind :=
  match Operator.ofSymbol? symbol with
  | some o => .operator o
  | none => .generalOperator

def ofName? (name : String) : Option TokenKind := all.find? fun k => k.name == name

/-- Keywords, plain or modified. -/
def isKeyword : TokenKind → Bool
  | .keyword _ | .modified _ => true
  | _ => false

/-- Operators of the language and of programs, and punctuation with them. -/
def isOperator : TokenKind → Bool
  | .operator _ | .punctuation _ | .generalOperator => true
  | _ => false

/-- The kinds whose text denotes a value, the two truth values among them. -/
def isLiteral : TokenKind → Bool
  | .lambdaArg | .intLiteral | .floatLiteral | .charLiteral | .stringLiteral => true
  | .keyword .trueKw | .keyword .falseKw => true
  | _ => false

/-- The kind formed from a keyword and the modifier character after it. -/
def withModifier? : TokenKind → Char → Option TokenKind
  | .keyword k, c => do
    let m ← Modifier.ofChar? c
    return .modified (← ModifiedKeyword.ofParts? k m)
  | _, _ => none

/-- How far the text of a kind may be reused in a declared operator; nothing is
said of kinds that are no symbols. -/
def reuse? : TokenKind → Option ReuseRule
  | .operator o => some o.reuse
  | .punctuation _ | .underscore => some .reserved
  | _ => none

theorem mem_all (k : TokenKind) : k ∈ all := by
  cases k <;>
    simp [all, Operator.mem_all, Punctuation.mem_all, Keyword.mem_all, ModifiedKeyword.mem_all]

end TokenKind

end NodLexis
