import ObjectWire.Bytes

/-!
# Decimals

A decimal is an integer of any size and a scale; its value is `unscaled * 10 ^ (-scale)`.  Decimals
are equal when both parts are, so `1.0` and `1.00` differ.
-/

namespace ObjectWire

/-- An exact decimal number. -/
structure Decimal where
  unscaled : Int
  /-- Number of digits after the point; a negative scale stands for trailing zeros. -/
  scale : Int32
deriving DecidableEq, Repr, Inhabited

namespace Decimal

/-- The decimal of an integer. -/
def ofInt (n : Int) : Decimal := ⟨n, 0⟩

/-- Whether the number is below zero. -/
def isNegative (d : Decimal) : Bool := d.unscaled < 0

end Decimal

end ObjectWire
