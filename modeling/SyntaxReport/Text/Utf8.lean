/- UTF-8: the bytes of a text, and the only text with given bytes, if there is one. -/
namespace SyntaxReport

abbrev Bytes := List UInt8

namespace Utf8

/-- The byte with `top` as its upper bits and the low six bits of `n` below them. -/
def continuation (n : Nat) : UInt8 := UInt8.ofNat (0x80 + n % 64)

def encodeChar (c : Char) : Bytes :=
  let n := c.toNat
  if n < 0x80 then [UInt8.ofNat n]
  else if n < 0x800 then [UInt8.ofNat (0xC0 + n / 64), continuation n]
  else if n < 0x10000 then
    [UInt8.ofNat (0xE0 + n / 4096), continuation (n / 64), continuation n]
  else
    [UInt8.ofNat (0xF0 + n / 262144), continuation (n / 4096), continuation (n / 64),
      continuation n]

def encode (text : List Char) : Bytes := text.flatMap encodeChar

def payload? (b : UInt8) : Option Nat :=
  if b.toNat / 64 = 2 then some (b.toNat % 64) else none

/-- The character of a scalar value that needs at least `least`.
A surrogate, a value past the last character and an overlong form have none. -/
def scalar? (least n : Nat) : Option Char :=
  if least ≤ n ∧ n.isValidChar then some (Char.ofNat n) else none

def two? (a b : UInt8) : Option Char := do
  if a.toNat / 32 = 6 then scalar? 0x80 ((a.toNat % 32) * 64 + (← payload? b)) else none

def three? (a b c : UInt8) : Option Char := do
  if a.toNat / 16 = 14 then
    scalar? 0x800 (((a.toNat % 16) * 64 + (← payload? b)) * 64 + (← payload? c))
  else none

def four? (a b c d : UInt8) : Option Char := do
  if a.toNat / 8 = 30 then
    scalar? 0x10000
      ((((a.toNat % 8) * 64 + (← payload? b)) * 64 + (← payload? c)) * 64 + (← payload? d))
  else none

/-- The text with these bytes. The first byte alone says how long its sequence is. -/
def decode? : Bytes → Option (List Char)
  | [] => some []
  | a :: s =>
    if a.toNat < 0x80 then (decode? s).map (Char.ofNat a.toNat :: ·)
    else match s with
      | [] => none
      | b :: s =>
        if a.toNat < 0xE0 then do
          let x ← two? a b
          (decode? s).map (x :: ·)
        else match s with
          | [] => none
          | c :: s =>
            if a.toNat < 0xF0 then do
              let x ← three? a b c
              (decode? s).map (x :: ·)
            else match s with
              | [] => none
              | d :: s => do
                let x ← four? a b c d
                (decode? s).map (x :: ·)

end Utf8

def bytesOf (text : String) : Bytes := Utf8.encode text.toList

end SyntaxReport
