import Mathlib.Data.List.DropRight
import Mathlib.Data.Rat.Defs
import Frtb.Library.JsonText
import Mathlib.Data.Nat.Digits.Defs

/-!
# Numbers and texts of the language

`Number(text)`, `String(number)` and `JSON.stringify` of a string, with exact
rationals for the numbers. A text that spells no finite number reads as none.
-/

namespace NumberText

open JsonText

/-- The white space that `Number` trims. -/
def isTrimmed (c : Char) : Bool :=
  isSpace c || c = '\x0b' || c = '\x0c' || c = '\u00a0' || c = '\u1680' || c = '\u2028' ||
    c = '\u2029' || c = '\u202f' || c = '\u205f' || c = '\u3000' || c = '\ufeff' ||
    ('\u2000' ≤ c ∧ c ≤ '\u200a')

def trim (cs : List Char) : List Char := (cs.dropWhile isTrimmed).rdropWhile isTrimmed

/-- Digits with an optional point, at least one digit in all, and an exponent. -/
def readDecimal (cs : List Char) : Option ℚ := do
  let whole := cs.takeWhile Char.isDigit
  let rest := cs.dropWhile Char.isDigit
  let (frac, rest) := match rest with
    | '.' :: r => (r.takeWhile Char.isDigit, r.dropWhile Char.isDigit)
    | r => ([], r)
  if whole.isEmpty ∧ frac.isEmpty then none
  else do
    let (exponent, rest) ← readExponent rest
    if rest.isEmpty then
      some (digitsValue (whole ++ frac) / (10 : ℚ) ^ frac.length * (10 : ℚ) ^ exponent)
    else none

def readRadix (radix : ℕ) (cs : List Char) : Option ℚ :=
  if cs.isEmpty then none
  else do
    let digits ← cs.mapM hexDigit
    if digits.all (· < radix) then
      some ((digits.foldl (fun n d => n * radix + d) 0 : ℕ) : ℚ)
    else none

/-- The radix that the letter after a leading zero announces. -/
def radixOf (c : Char) : Option ℕ :=
  if c = 'x' ∨ c = 'X' then some 16
  else if c = 'o' ∨ c = 'O' then some 8
  else if c = 'b' ∨ c = 'B' then some 2
  else none

def readSigned (cs : List Char) : Option ℚ :=
  match cs with
  | [] => some 0
  | c :: rest =>
    if c = '-' then (readDecimal rest).map (- ·)
    else if c = '+' then readDecimal rest
    else readDecimal (c :: rest)

/-- `Number(text)` when it is finite. -/
def toNumber (text : String) : Option ℚ :=
  let cs := trim text.toList
  match cs.head?, (cs.drop 1).head?.bind radixOf with
  | some c, some radix => if c = '0' then readRadix radix (cs.drop 2) else readSigned cs
  | _, _ => readSigned cs

/-- How often ten goes into `n`, at most `fuel` times, and what is left. -/
def stripTens : ℕ → ℕ → ℕ × ℕ
  | 0, n => (n, 0)
  | fuel + 1, n =>
    if n % 10 = 0 then
      let (m, e) := stripTens fuel (n / 10)
      (m, e + 1)
    else (n, 0)

/-- The text of digits with the decimal point after `point` of them. -/
def placePoint (digits : List Char) (point : ℤ) : List Char :=
  let k : ℤ := digits.length
  if k ≤ point ∧ point ≤ 21 then digits ++ List.replicate (point - k).toNat '0'
  else if 0 < point ∧ point ≤ 21 then
    digits.take point.toNat ++ '.' :: digits.drop point.toNat
  else if -6 < point ∧ point ≤ 0 then '0' :: '.' :: List.replicate (-point).toNat '0' ++ digits
  else
    let exponent := (if point - 1 < 0 then "-" else "+") ++ toString (point - 1).natAbs
    (match digits with
      | [d] => [d]
      | d :: ds => d :: '.' :: ds
      | [] => []) ++ 'e' :: exponent.toList

/-- `String(number)`. The denominator of a decimal divides a power of ten
whose exponent is at most the denominator's bit length. -/
def showNumber (q : ℚ) : String :=
  if q = 0 then "0"
  else
    let places := q.den.log2
    let scaled := (q.num.natAbs * 10 ^ places) / q.den
    let (digits, tens) := stripTens (Nat.toDigits 10 scaled).length scaled
    let shown := Nat.toDigits 10 digits
    let point : ℤ := shown.length + tens - places
    (if q < 0 then "-" else "") ++ String.ofList (placePoint shown point)

def escapeChar (c : Char) : List Char :=
  if c = '"' then ['\\', '"']
  else if c = '\\' then ['\\', '\\']
  else if c = '\x08' then ['\\', 'b']
  else if c = '\x0c' then ['\\', 'f']
  else if c = '\n' then ['\\', 'n']
  else if c = '\r' then ['\\', 'r']
  else if c = '\t' then ['\\', 't']
  else if c.toNat < 0x20 then
    ['\\', 'u', '0', '0'] ++ (if c.toNat < 0x10 then ['0'] else []) ++ Nat.toDigits 16 c.toNat
  else [c]

/-- `JSON.stringify` of a string. -/
def quote (text : String) : String :=
  String.ofList ('"' :: text.toList.flatMap escapeChar ++ ['"'])

/-- `JSON.stringify` of an array, given the texts of its items. -/
def bracket (items : List String) : String := "[" ++ ",".intercalate items ++ "]"

example : toNumber " 12.50 " = some (25 / 2) := by decide +kernel

example : showNumber (-25 / 2) = "-12.5" := by decide +kernel

end NumberText
