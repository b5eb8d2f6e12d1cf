import Mathlib.Data.List.Lex
import Mathlib.Order.Lattice

/-!
# Comparing strings by code unit

JavaScript compares strings by their UTF-16 code units, which is not the order of
their characters: one outside the basic plane sorts by its surrogates.
-/

namespace CodeUnits

/-- The UTF-16 code units of one character. -/
def unitsOf (c : Char) : List Nat :=
  if c.toNat < 0x10000 then [c.toNat]
  else [0xD800 + (c.toNat - 0x10000) / 0x400, 0xDC00 + (c.toNat - 0x10000) % 0x400]

def units (s : String) : List Nat := s.toList.flatMap unitsOf

/-- The `<=` of two strings. -/
def le (a b : String) : Bool := decide (units a ≤ units b)

end CodeUnits
