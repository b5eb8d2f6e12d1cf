import Frtb.Library.AssocMaps

/-!
# JSON values and JSON text

Numbers are exact: a decimal literal denotes the rational it spells. An object
keeps its members in text order; reading it as a map resolves a repeated name
in favour of the later member, as `JSON.parse` does. The reader takes fuel,
and a text of `n` characters never needs more than `n + 1` of it.
-/

namespace JsonText

open AssocMaps

inductive Json where
  | null
  | bool (b : Bool)
  | num (q : ℚ)
  | str (s : String)
  | arr (items : List Json)
  | obj (members : List (String × Json))

/-- The own properties of an object, one value a name. -/
abbrev Props := Assoc String Json

/-- Properties that the spread `{...v}` copies: the members of an object, the
indexed items of an array or the indexed characters of a string. -/
def Json.spread : Json → List (String × Json)
  | .obj members => members
  | .arr items => items.zipIdx.map (fun p => (Nat.repr p.2, p.1))
  | .str s => s.toList.zipIdx.map (fun p => (Nat.repr p.2, .str (String.singleton p.1)))
  | _ => []

def isSpace (c : Char) : Bool :=
  c = ' ' || c = '\n' || c = '\r' || c = '\t'

def skipSpace (cs : List Char) : List Char := cs.dropWhile isSpace

/-- Consume one expected character after white space. -/
def expect (c : Char) (cs : List Char) : Option (List Char) :=
  match skipSpace cs with
  | d :: rest => if d = c then some rest else none
  | [] => none

def hexDigit (c : Char) : Option Nat :=
  if c.isDigit then some (c.toNat - '0'.toNat)
  else if 'a' ≤ c ∧ c ≤ 'f' then some (c.toNat - 'a'.toNat + 10)
  else if 'A' ≤ c ∧ c ≤ 'F' then some (c.toNat - 'A'.toNat + 10)
  else none

def hexFour : List Char → Option (Nat × List Char)
  | a :: b :: c :: d :: rest => do
    let a ← hexDigit a
    let b ← hexDigit b
    let c ← hexDigit c
    let d ← hexDigit d
    some (((a * 16 + b) * 16 + c) * 16 + d, rest)
  | _ => none

def simpleEscape : Char → Option Char
  | '"' => some '"'
  | '\\' => some '\\'
  | '/' => some '/'
  | 'b' => some '\x08'
  | 'f' => some '\x0c'
  | 'n' => some '\n'
  | 'r' => some '\r'
  | 't' => some '\t'
  | _ => none

/-- A code unit, joined with the low surrogate after a high one. A surrogate
standing alone has no scalar value and reads as U+FFFD. -/
def readUnit (unit : Nat) (cs : List Char) : Char × List Char :=
  if 0xd800 ≤ unit ∧ unit ≤ 0xdbff then
    match cs with
    | '\\' :: 'u' :: rest =>
      match hexFour rest with
      | some (low, rest') =>
        if 0xdc00 ≤ low ∧ low ≤ 0xdfff then
          (Char.ofNat (0x10000 + (unit - 0xd800) * 0x400 + (low - 0xdc00)), rest')
        else ('\ufffd', cs)
      | none => ('\ufffd', cs)
    | _ => ('\ufffd', cs)
  else if 0xdc00 ≤ unit ∧ unit ≤ 0xdfff then ('\ufffd', cs)
  else (Char.ofNat unit, cs)

/-- The characters up to the closing quotation mark. -/
def readChars : Nat → List Char → Option (List Char × List Char)
  | 0, _ => none
  | _, [] => none
  | _ + 1, '"' :: rest => some ([], rest)
  | fuel + 1, '\\' :: 'u' :: rest => do
    let (unit, rest) ← hexFour rest
    let (c, rest) := readUnit unit rest
    let (cs, rest) ← readChars fuel rest
    some (c :: cs, rest)
  | fuel + 1, '\\' :: e :: rest => do
    let c ← simpleEscape e
    let (cs, rest) ← readChars fuel rest
    some (c :: cs, rest)
  | _ + 1, ['\\'] => none
  | fuel + 1, c :: rest =>
    if c.toNat < 0x20 then none
    else do
      let (cs, rest) ← readChars fuel rest
      some (c :: cs, rest)

def readString (fuel : Nat) (cs : List Char) : Option (String × List Char) := do
  let cs ← expect '"' cs
  let (chars, rest) ← readChars fuel cs
  some (String.ofList chars, rest)

def digitsValue (ds : List Char) : Nat :=
  ds.foldl (fun n c => n * 10 + (c.toNat - '0'.toNat)) 0

/-- The fraction part of a literal and the power of ten it divides by. -/
def readFraction : List Char → Option (List Char × List Char)
  | '.' :: rest =>
    let ds := rest.takeWhile Char.isDigit
    if ds.isEmpty then none else some (ds, rest.dropWhile Char.isDigit)
  | cs => some ([], cs)

def readExponent (cs : List Char) : Option (ℤ × List Char) :=
  match cs with
  | e :: rest =>
    if e = 'e' ∨ e = 'E' then
      let (sign, rest) : ℤ × List Char := match rest with
        | '+' :: r => (1, r)
        | '-' :: r => (-1, r)
        | r => (1, r)
      let ds := rest.takeWhile Char.isDigit
      if ds.isEmpty then none
      else some (sign * digitsValue ds, rest.dropWhile Char.isDigit)
    else some (0, cs)
  | [] => some (0, [])

/-- A number literal: no leading zeros, no bare sign, no bare point. -/
def readNumber (cs : List Char) : Option (ℚ × List Char) := do
  let (sign, cs) : ℚ × List Char := match cs with
    | '-' :: r => (-1, r)
    | r => (1, r)
  let whole := cs.takeWhile Char.isDigit
  if whole.isEmpty ∨ (whole.length > 1 ∧ whole.head? = some '0') then none
  else do
    let (frac, rest) ← readFraction (cs.dropWhile Char.isDigit)
    let (exponent, rest) ← readExponent rest
    let mantissa : ℚ := digitsValue (whole ++ frac) / (10 : ℚ) ^ frac.length
    some (sign * mantissa * (10 : ℚ) ^ exponent, rest)

/-- Items between the opening bracket and the closing one, read with `value`. -/
def readItems {α : Type} (value : List Char → Option (α × List Char)) (close : Char) :
    Nat → List Char → Option (List α × List Char)
  | 0, _ => none
  | fuel + 1, cs => do
    let (item, rest) ← value cs
    match skipSpace rest with
    | c :: rest =>
      if c = ',' then do
        let (items, rest) ← readItems value close fuel rest
        some (item :: items, rest)
      else if c = close then some ([item], rest)
      else none
    | [] => none

/-- A bracketed list, possibly empty. -/
def readList {α : Type} (value : List Char → Option (α × List Char)) (close : Char)
    (fuel : Nat) (cs : List Char) : Option (List α × List Char) :=
  match expect close cs with
  | some rest => some ([], rest)
  | none => readItems value close fuel cs

def readMember (fuel : Nat) (value : List Char → Option (Json × List Char))
    (cs : List Char) : Option ((String × Json) × List Char) := do
  let (name, rest) ← readString fuel cs
  let rest ← expect ':' rest
  let (v, rest) ← value rest
  some ((name, v), rest)

def readWord (word : String) (v : Json) (cs : List Char) : Option (Json × List Char) :=
  (cs.dropPrefix? word.toList).map (fun rest => (v, rest))

def readValue : Nat → List Char → Option (Json × List Char)
  | 0, _ => none
  | fuel + 1, cs =>
    match skipSpace cs with
    | [] => none
    | c :: rest =>
      if c = '\x7b' then
        (readList (readMember fuel (readValue fuel)) '\x7d' fuel rest).map
          (fun p => (.obj p.1, p.2))
      else if c = '[' then
        (readList (readValue fuel) ']' fuel rest).map (fun p => (.arr p.1, p.2))
      else if c = '"' then
        (readString fuel (c :: rest)).map (fun p => (.str p.1, p.2))
      else if c = 't' then readWord "true" (.bool true) (c :: rest)
      else if c = 'f' then readWord "false" (.bool false) (c :: rest)
      else if c = 'n' then readWord "null" .null (c :: rest)
      else (readNumber (c :: rest)).map (fun p => (.num p.1, p.2))

/-- `JSON.parse`: one value and nothing but white space after it. A text that
is not JSON has no value, where the source throws a `SyntaxError`. -/
def parse (text : String) : Option Json :=
  match readValue (text.length + 1) text.toList with
  | some (v, rest) => if (skipSpace rest).isEmpty then some v else none
  | none => none

end JsonText
