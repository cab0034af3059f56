/- The tokens of a JSON text. -/
import SyntaxReport.Json.Value
import SyntaxReport.Text.Utf8

namespace SyntaxReport.Json

inductive Token
  | openArray | closeArray | openObject | closeObject | comma | colon
  /-- A value of a single token that is no text. -/
  | literal (value : Json)
  /-- Quoted text, or `none` where it has half of a surrogate pair. -/
  | text (value : Option String)

/-- The place of a lexer in a token. Units and letters come latest first. -/
inductive Mode
  | between
  | word (letters : List Char)
  | quoted (units : List Nat)
  | escaped (units : List Nat)
  | hex (units : List Nat) (digits : Nat) (value : Nat)

structure Lexer where
  mode : Mode
  /-- The finished tokens, latest first. -/
  tokens : List Token

namespace Lexer

def isHigh (u : Nat) : Bool := 0xD800 ≤ u && u < 0xDC00

def isLow (u : Nat) : Bool := 0xDC00 ≤ u && u < 0xE000

/-- The characters of a list of scalar values and surrogates, if every surrogate has its
other half. -/
def joinUnits : List Nat → Option (List Char)
  | [] => some []
  | [u] => (Utf8.scalar? 0 u).map ([·])
  | u :: v :: rest =>
    if isHigh u && isLow v then do
      let c ← Utf8.scalar? 0 (0x10000 + (u - 0xD800) * 0x400 + (v - 0xDC00))
      (joinUnits rest).map (c :: ·)
    else do
      let c ← Utf8.scalar? 0 u
      (joinUnits (v :: rest)).map (c :: ·)

/-- The text of some units that come latest first. -/
def textOf (units : List Nat) : Option String := (joinUnits units.reverse).map String.ofList

/-- What follows the integer part of a number. -/
def afterInteger? : List Char → Option (List Char)
  | '0' :: rest => some rest
  | c :: rest => if c.isDigit then some (rest.dropWhile Char.isDigit) else none
  | [] => none

def afterDigits? : List Char → Option (List Char)
  | [] => none
  | c :: rest => if c.isDigit then some (rest.dropWhile Char.isDigit) else none

def afterFraction? : List Char → Option (List Char)
  | '.' :: rest => afterDigits? rest
  | rest => some rest

def afterExponent? : List Char → Option (List Char)
  | c :: rest =>
    if c = 'e' ∨ c = 'E' then
      match rest with
      | '+' :: rest | '-' :: rest => afterDigits? rest
      | rest => afterDigits? rest
    else some (c :: rest)
  | [] => some []

def isNumber (word : List Char) : Bool :=
  let unsigned := match word with
    | '-' :: rest => rest
    | rest => rest
  (afterInteger? unsigned >>= afterFraction? >>= afterExponent?) == some []

def naturalOf (digits : List Char) : Nat :=
  digits.foldl (fun n c => n * 10 + (c.toNat - '0'.toNat)) 0

def valueOf? (word : List Char) : Option Json :=
  if word = "null".toList then some .null
  else if word = "true".toList then some (.bool true)
  else if word = "false".toList then some (.bool false)
  else if isNumber word then
    if word.all Char.isDigit then some (.nat (naturalOf word)) else some .foreign
  else none

def isWordLetter (c : Char) : Bool := c.isAlphanum || c = '-' || c = '+' || c = '.'

def stepBetween (tokens : List Token) (c : Char) : Option Lexer :=
  match c with
  | '[' => some ⟨.between, .openArray :: tokens⟩
  | ']' => some ⟨.between, .closeArray :: tokens⟩
  | '\x7b' => some ⟨.between, .openObject :: tokens⟩
  | '\x7d' => some ⟨.between, .closeObject :: tokens⟩
  | ',' => some ⟨.between, .comma :: tokens⟩
  | ':' => some ⟨.between, .colon :: tokens⟩
  | '"' => some ⟨.quoted [], tokens⟩
  | ' ' | '\t' | '\n' | '\r' => some ⟨.between, tokens⟩
  | c => if isWordLetter c then some ⟨.word [c], tokens⟩ else none

def escapeOf? : Char → Option Char
  | '"' => some '"'
  | '\\' => some '\\'
  | '/' => some '/'
  | 'b' => some '\x08'
  | 'f' => some '\x0c'
  | 'n' => some '\n'
  | 'r' => some '\r'
  | 't' => some '\t'
  | _ => none

def hexDigit? (c : Char) : Option Nat :=
  if c.isDigit then some (c.toNat - '0'.toNat)
  else if 'a' ≤ c ∧ c ≤ 'f' then some (c.toNat - 'a'.toNat + 10)
  else if 'A' ≤ c ∧ c ≤ 'F' then some (c.toNat - 'A'.toNat + 10)
  else none

def step (s : Lexer) (c : Char) : Option Lexer :=
  match s.mode with
  | .between => stepBetween s.tokens c
  | .word letters =>
    if isWordLetter c then some ⟨.word (c :: letters), s.tokens⟩
    else do
      let value ← valueOf? letters.reverse
      stepBetween (.literal value :: s.tokens) c
  | .quoted units =>
    if c = '"' then some ⟨.between, .text (textOf units) :: s.tokens⟩
    else if c = '\\' then some ⟨.escaped units, s.tokens⟩
    else if c.toNat < 0x20 then none
    else some ⟨.quoted (c.toNat :: units), s.tokens⟩
  | .escaped units =>
    if c = 'u' then some ⟨.hex units 0 0, s.tokens⟩
    else (escapeOf? c).map fun e => ⟨.quoted (e.toNat :: units), s.tokens⟩
  | .hex units digits value => do
    let d ← hexDigit? c
    if digits = 3 then some ⟨.quoted ((value * 16 + d) :: units), s.tokens⟩
    else some ⟨.hex units (digits + 1) (value * 16 + d), s.tokens⟩

def finish? (s : Lexer) : Option (List Token) :=
  match s.mode with
  | .between => some s.tokens.reverse
  | .word letters => do
    let value ← valueOf? letters.reverse
    some (Token.literal value :: s.tokens).reverse
  | _ => none

end Lexer

/-- The tokens of a text. A character that fits no token spoils the whole. -/
def tokens? (text : List Char) : Option (List Token) :=
  text.foldlM Lexer.step ⟨.between, []⟩ >>= Lexer.finish?

end SyntaxReport.Json
