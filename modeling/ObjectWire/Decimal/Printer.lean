import ObjectWire.Decimal.Basic

/-!
# Decimals as text

A decimal is printed without exponent.  With a positive scale that many digits stand after the point
and at least one before it; with a negative scale the digits are followed by zeros, except that zero
itself is always a single digit.
-/

namespace ObjectWire.Decimal

/-- Decimal digits of a number, without superfluous zeros. -/
def digits (n : Nat) : List Char := Nat.toDigits 10 n

/-- Digits with a point before the last `scale` of them, filled up with zeros where they are too
    few. -/
def pointed (ds : List Char) (scale : Nat) : List Char :=
  if scale < ds.length then
    ds.take (ds.length - scale) ++ '.' :: ds.drop (ds.length - scale)
  else '0' :: '.' :: (List.replicate (scale - ds.length) '0' ++ ds)

/-- The number of a decimal without its sign. -/
def printUnsigned (n : Nat) (scale : Int) : List Char :=
  if scale ≤ 0 then
    digits n ++ List.replicate (if n = 0 then 0 else scale.natAbs) '0'
  else pointed (digits n) scale.toNat

/-- A decimal as text. -/
def print (d : Decimal) : List Char :=
  (if d.isNegative then ['-'] else []) ++ printUnsigned d.unscaled.natAbs d.scale.toInt

instance : ToString Decimal := ⟨fun d => String.ofList d.print⟩

end ObjectWire.Decimal
