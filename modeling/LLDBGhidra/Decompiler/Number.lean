import Mathlib.Data.BitVec

/-
  Numbers in texts, as the C library and its streams read
  them.

  Main declarations:
    * `strtoull`
    * `streamUnsigned`
    * `streamSigned`
-/

------------------------------------------------------------
-- Digits
------------------------------------------------------------

namespace LLDBGhidra

def hexDigit?
    (char : Char) : Option Nat :=
  if '0' ≤ char ∧ char ≤ '9' then
    some (char.toNat - '0'.toNat)
  else if 'a' ≤ char ∧ char ≤ 'f' then
    some (char.toNat - 'a'.toNat + 10)
  else if 'A' ≤ char ∧ char ≤ 'F' then
    some (char.toNat - 'A'.toNat + 10)
  else
    none

/- `isspace` in the C locale. -/
def isSpace
    (char : Char) : Bool :=
  char = ' ' || char = '\t' || char = '\n' ||
    char = Char.ofNat 11 || char = Char.ofNat 12 || char = '\r'

/- The digits of a number in the given base, and the rest. -/
def takeDigits
    (base : Nat)
    (text : List Char) : List Nat × List Char :=
  let isDigit := fun char =>
    match hexDigit? char with
    | none => false
    | some digit => digit < base
  ((text.takeWhile isDigit).filterMap hexDigit?,
    text.dropWhile isDigit)

/- The base of a number, and the number without its prefix. -/
def detectBase
    (text : List Char) : Nat × List Char :=
  match text with
  | '0' :: x :: digit :: rest =>
      if (x = 'x' ∨ x = 'X') ∧ (hexDigit? digit).isSome then
        (16, digit :: rest)
      else
        (8, text)
  | '0' :: _ => (8, text)
  | _ => (10, text)

end LLDBGhidra

------------------------------------------------------------
-- Numbers
------------------------------------------------------------

namespace LLDBGhidra

/- What `strtoull` returns; `stop` is none without a number. -/
structure Strtoull where
  value : BitVec 64
  stop : Option (List Char)
  erange : Bool
deriving DecidableEq, Repr

/-
  `strtoull` with base 0.  A number that is too large comes
  out as the largest one, and a sign negates the result.
-/
def strtoull
    (str : List Char) : Strtoull :=
  let text := str.dropWhile isSpace
  let negative := text.head? = some '-'
  let unsigned :=
    match text with
    | '-' :: rest => rest
    | '+' :: rest => rest
    | _ => text
  let number := detectBase unsigned
  let digits := takeDigits number.1 number.2
  let value :=
    digits.1.foldl
      (fun total digit => total * number.1 + digit) 0
  if digits.1 = [] then
    ⟨0, none, false⟩
  else if 2 ^ 64 ≤ value then
    ⟨BitVec.allOnes 64, some digits.2, true⟩
  else if negative then
    ⟨-BitVec.ofNat 64 value, some digits.2, false⟩
  else
    ⟨BitVec.ofNat 64 value, some digits.2, false⟩

/- An unsigned number from a stream without a fixed base. -/
def streamUnsigned
    (text : String) : BitVec 64 :=
  (strtoull text.toList).value

/- The number that starts a text without a sign. -/
def leadingNumber
    (text : List Char) : Option Nat :=
  let number := detectBase text
  let digits := takeDigits number.1 number.2
  if digits.1 = [] then
    none
  else
    some (digits.1.foldl
      (fun total digit => total * number.1 + digit) 0)

/-
  A signed number from such a stream: what is out of range
  comes out as the nearest number in range.
-/
def streamSigned
    (text : String) : BitVec 64 :=
  let trimmed := text.toList.dropWhile isSpace
  let unsigned :=
    match trimmed with
    | '-' :: rest => rest
    | '+' :: rest => rest
    | _ => trimmed
  match leadingNumber unsigned with
  | none => 0
  | some value =>
      if trimmed.head? = some '-' then
        if 2 ^ 63 < value then
          BitVec.intMin 64
        else
          -BitVec.ofNat 64 value
      else if 2 ^ 63 ≤ value then
        BitVec.intMax 64
      else
        BitVec.ofNat 64 value

end LLDBGhidra
