import ObjectWire.Decimal.Basic

/-!
# Decimal literals

A literal is an optional sign, digits, optionally a point and more digits, and optionally an exponent:
the letter `e` or `E`, an optional sign, and digits.  The digits before or after the point may be
missing, but not both.  The exponent and the resulting scale have to fit 32 bits.
-/

namespace ObjectWire.Decimal

/-- The number written by decimal digits. -/
def ofDigits (ds : List Char) : Nat := ds.foldl (fun n c => 10 * n + (c.toNat - 48)) 0

/-- Whether a character is a sign. -/
def isSign (c : Char) : Bool := c = '+' || c = '-'

/-- Whether a character starts an exponent. -/
def isExponentMark (c : Char) : Bool := c = 'e' || c = 'E'

/-- A number with the sign in front of its digits, if the text starts with one. -/
def applySign (text : List Char) (n : Nat) : Int :=
  if text.head? = some '-' then -(n : Int) else n

/-- An integer as a 32-bit word, if it fits. -/
def word? (n : Int) : Option Int32 :=
  if -2147483648 ≤ n ∧ n ≤ 2147483647 then some (Int32.ofInt n) else none

/-- The exponent written by what follows its mark: at most one sign, then at least one digit. -/
def exponent? (text : List Char) : Option Int32 :=
  let ds := if text.head?.any isSign then text.drop 1 else text
  if ds.isEmpty || !ds.all Char.isDigit then none else word? (applySign text (ofDigits ds))

/-- The digits before the point, with their sign, and those after it. -/
def splitPoint (mantissa : List Char) : List Char × List Char :=
  (mantissa.takeWhile (· ≠ '.'), (mantissa.dropWhile (· ≠ '.')).drop 1)

/-- The unscaled integer of a mantissa and its number of digits after the point. -/
def mantissa? (mantissa : List Char) : Option (Int × Nat) :=
  let (whole, fraction) := splitPoint mantissa
  let ds := whole.dropWhile isSign
  if ds.isEmpty && fraction.isEmpty then none
  else if !(ds ++ fraction).all Char.isDigit then none
  else if 1 < whole.length - ds.length then none
  else some (applySign whole (ofDigits (ds ++ fraction)), fraction.length)

/-- The decimal a literal stands for. -/
def parse (text : List Char) : Option Decimal := do
  let exponent ←
    match text.dropWhile (!isExponentMark ·) with
    | [] => some 0
    | _ :: rest => exponent? rest
  let (unscaled, places) ← mantissa? (text.takeWhile (!isExponentMark ·))
  let places ← word? places
  let scale ← word? (places.toInt - exponent.toInt)
  return ⟨unscaled, scale⟩

/-- The decimal a literal stands for, or the reason why there is none. -/
def ofLiteral (text : String) : Except String Decimal :=
  match parse text.toList with
  | some d => .ok d
  | none => .error ("invalid decimal literal: " ++ text)

end ObjectWire.Decimal
