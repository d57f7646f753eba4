import Mathlib.Data.List.Basic
import Mathlib.Data.List.Induction
import Mathlib.Data.Nat.Digits.Defs
import ObjectWire.Decimal.Parser

/-!
# Decimal literals as syntax

A `Literal` is a decimal literal taken apart: `[sign] digits [. digits] [(e|E) [sign] digits]`, where the
digits before or after the point may be missing but not both.  `Literal.text` writes it down,
`Literal.unscaled` and `Literal.scale` say which decimal it stands for, and `Literal.Fits` says when its
exponent and its scale are words of 32 bits.
-/

namespace ObjectWire.Decimal

/-- A decimal digit. -/
abbrev Digit := Fin 10

namespace Digit

/-- The character of a digit. -/
def char (d : Digit) : Char := Nat.digitChar d

/-- The characters of digits. -/
def text (ds : List Digit) : List Char := ds.map char

/-- The number that digits write, the most significant one first. -/
def number (ds : List Digit) : Nat := Nat.ofDigits 10 (ds.map Fin.val).reverse

@[simp] theorem length_text (ds : List Digit) : (text ds).length = ds.length := List.length_map char

@[simp] theorem text_append (ds ds' : List Digit) : text (ds ++ ds') = text ds ++ text ds' :=
  List.map_append

@[simp] theorem text_eq_nil_iff {ds : List Digit} : text ds = [] ↔ ds = [] := List.map_eq_nil_iff

/-- Different digits are written differently. -/
theorem text_injective : Function.Injective text :=
  List.map_injective_iff.mpr fun d d' => by revert d d'; decide

/-- Each digit is written as a digit. -/
theorem isDigit_char (d : Digit) : (char d).isDigit = true := by
  revert d
  decide

/-- No digit is a character of another kind: a sign, a point or an exponent mark. -/
theorem char_ne (d : Digit) {c : Char} (h : c.isDigit = false) : char d ≠ c := by
  rintro rfl
  exact Bool.false_ne_true (h.symm.trans (isDigit_char d))

/-- Nothing but digits stands in the text of digits. -/
theorem isDigit_of_mem {ds : List Digit} {c : Char} (h : c ∈ text ds) : c.isDigit = true := by
  obtain ⟨d, -, rfl⟩ := List.mem_map.mp h
  exact isDigit_char d

/-- Each character that is a digit is written for one. -/
theorem exists_char {c : Char} (h : c.isDigit = true) : ∃ d, char d = c := by
  obtain ⟨hlow, hhigh⟩ : 48 ≤ c.toNat ∧ c.toNat ≤ 57 := Char.isDigit_iff_toNat.mp h
  have hlt : c.toNat - 48 < 10 := by omega
  refine ⟨⟨c.toNat - 48, hlt⟩, Char.toNat_inj.mp ?_⟩
  rw [char, Nat.toNat_digitChar_of_lt_ten hlt]
  omega

/-- Text made of digits only is the text of some digits. -/
theorem exists_text {cs : List Char} (h : ∀ c ∈ cs, c.isDigit = true) : ∃ ds, text ds = cs := by
  induction cs with
  | nil => exact ⟨[], rfl⟩
  | cons c cs ih =>
    obtain ⟨hc, hcs⟩ := List.forall_mem_cons.mp h
    obtain ⟨d, rfl⟩ := exists_char hc
    obtain ⟨ds, rfl⟩ := ih hcs
    exact ⟨d :: ds, rfl⟩

/-- The parser reads digits as the number they write. -/
theorem ofDigits_text (ds : List Digit) : ofDigits (text ds) = number ds := by
  induction ds using List.reverseRecOn with
  | nil => rfl
  | append_singleton ds d ih =>
    have hd : (char d).toNat - 48 = d := Nat.toNat_digitChar_sub_48_of_lt_ten d.isLt
    rw [number, List.map_append, List.reverse_append, List.map_singleton, List.reverse_singleton,
      List.singleton_append, Nat.ofDigits_cons, ← number, ← ih, text_append, ofDigits, List.foldl_append,
      ← ofDigits, Nat.add_comm]
    simp only [text, List.map_cons, List.map_nil, List.foldl_cons, List.foldl_nil, hd]

end Digit

/-- A sign. -/
inductive Sign where
  | plus
  | minus
deriving DecidableEq, Repr

namespace Sign

/-- The character of a sign. -/
def char : Sign → Char
  | plus => '+'
  | minus => '-'

/-- The text of a sign that may be missing. -/
def text (s : Option Sign) : List Char := s.toList.map char

/-- A number with a sign in front of it. -/
def apply (s : Option Sign) (n : Nat) : Int := if s = some minus then -(n : Int) else n

end Sign

/-- An exponent: its mark, a sign, and at least one digit. -/
structure Exponent where
  capital : Bool
  sign : Option Sign
  digits : List Digit
  digits_ne_nil : digits ≠ []
deriving DecidableEq, Repr

namespace Exponent

/-- The letter in front of an exponent. -/
def mark (e : Exponent) : Char := if e.capital then 'E' else 'e'

def text (e : Exponent) : List Char := e.mark :: (Sign.text e.sign ++ Digit.text e.digits)

def value (e : Exponent) : Int := Sign.apply e.sign (Digit.number e.digits)

end Exponent

/-- A decimal literal.  Without fraction it has no point; a point may also stand before no digits. -/
structure Literal where
  sign : Option Sign
  whole : List Digit
  fraction : Option (List Digit)
  exponent : Option Exponent
  some_digit : whole ≠ [] ∨ fraction.getD [] ≠ []
deriving DecidableEq, Repr

/-- Whether an integer is a word of 32 bits. -/
def IsWord (n : Int) : Prop := -2 ^ 31 ≤ n ∧ n < 2 ^ 31

instance (n : Int) : Decidable (IsWord n) := inferInstanceAs (Decidable (_ ∧ _))

namespace Literal

/-- The text of a fraction that may be missing, with its point. -/
def pointText : Option (List Digit) → List Char
  | none => []
  | some ds => '.' :: Digit.text ds

variable (l : Literal)

/-- The digits after the point. -/
def places : List Digit := l.fraction.getD []

/-- The text up to the exponent. -/
def mantissa : List Char := Sign.text l.sign ++ Digit.text l.whole ++ pointText l.fraction

def text : List Char := l.mantissa ++ l.exponent.elim [] Exponent.text

/-- The integer written by all digits up to the exponent. -/
def unscaled : Int := Sign.apply l.sign (Digit.number (l.whole ++ l.places))

/-- The exponent, zero if there is none. -/
def power : Int := l.exponent.elim 0 Exponent.value

def scale : Int := l.places.length - l.power

/-- The exponent, the number of digits after the point and the scale are words. -/
def Fits : Prop := IsWord l.power ∧ IsWord l.places.length ∧ IsWord l.scale

instance : Decidable l.Fits := inferInstanceAs (Decidable (_ ∧ _ ∧ _))

end Literal

end ObjectWire.Decimal
