import Mathlib.Algebra.Field.Rat
import Mathlib.Data.List.Basic
import ObjectWire.Decimal.Printer
import ObjectWire.Proofs.Decimal.Reading

/-!
# Decimals are read back from their text

The text of a decimal is a literal without exponent, with a minus in front of negative numbers, at least
one digit before the point, no zero that could be left out there, and as many digits after the point as
the scale says (`exists_literal`).  Read back, it is the decimal itself, or the integer that it stands for
if its scale is negative.
-/

namespace ObjectWire.Decimal

/-- The number that a decimal stands for. -/
def value (d : Decimal) : ℚ := d.unscaled * 10 ^ (-d.scale.toInt)

/-! ## Digits -/

theorem digits_ne_nil (n : Nat) : digits n ≠ [] := Nat.toDigits_ne_nil

/-- Only zero starts with a zero. -/
theorem eq_zero_of_head?_digits {n : Nat} (h : (digits n).head? = some '0') : n = 0 := by
  induction n using Nat.strongRecOn with
  | _ n ih =>
    rw [digits, Nat.toDigits_eq_if (by decide)] at h
    split at h
    · simpa using h
    · next hn =>
      rw [List.head?_append_of_ne_nil _ Nat.toDigits_ne_nil] at h
      have hquotient := ih (n / 10) (by omega) h
      omega

/-- A number is printed by decimal digits alone. -/
theorem isDigit_of_mem_digits {n : Nat} {c : Char} (h : c ∈ digits n) : c.isDigit = true :=
  Nat.isDigit_of_mem_toDigits (by decide) (by decide) h

/-- Zeros in front of the digits of a number say nothing, zeros behind them multiply it. -/
theorem ofDigits_padded (n before behind : Nat) :
    ofDigits (List.replicate before '0' ++ digits n ++ List.replicate behind '0') = n * 10 ^ behind := by
  have hread (ds : List Char) : ofDigits ds = Nat.ofDigitChars 10 ds 0 := rfl
  rw [hread, Nat.ofDigitChars_append, Nat.ofDigitChars_append, Nat.ofDigitChars_replicate_zero,
    Nat.ofDigitChars_replicate_zero, Nat.mul_zero, digits, Nat.ofDigitChars_ten_toDigits, Nat.mul_comm]

/-! ## The text without its sign -/

/-- Digits before and behind the point that show a number at a scale. -/
structure Shows (whole places : List Char) (n : Nat) (scale : Int) : Prop where
  isDigit : ∀ c ∈ whole ++ places, c.isDigit = true
  whole_ne_nil : whole ≠ []
  no_leading_zero : whole.head? = some '0' → whole = ['0']
  length_places : places.length = scale.toNat
  ofDigits_eq : ofDigits (whole ++ places) = n * 10 ^ (-scale).toNat

/-- Without places, a number is followed by the zeros that its scale asks for; zero is not. -/
theorem shows_integer (n : Nat) {scale : Int} (h : scale ≤ 0) :
    Shows (digits n ++ List.replicate (if n = 0 then 0 else scale.natAbs) '0') [] n scale where
  isDigit c hc := by
    rw [List.append_nil, List.mem_append] at hc
    obtain hc | hc := hc
    · exact isDigit_of_mem_digits hc
    · rw [List.eq_of_mem_replicate hc]
      rfl
  whole_ne_nil := List.append_ne_nil_of_left_ne_nil (digits_ne_nil n) _
  no_leading_zero hzero := by
    rw [List.head?_append_of_ne_nil _ (digits_ne_nil n)] at hzero
    rw [eq_zero_of_head?_digits hzero]
    rfl
  length_places := by
    rw [Int.toNat_of_nonpos h]
    rfl
  ofDigits_eq := by
    have hread := ofDigits_padded n 0 (if n = 0 then 0 else scale.natAbs)
    rw [List.replicate_zero, List.nil_append] at hread
    rw [List.append_nil, hread]
    -- A zero is printed without further zeros, and they would not change it.
    by_cases hn : n = 0
    · rw [hn, Nat.zero_mul, Nat.zero_mul]
    · rw [if_neg hn, show (-scale).toNat = scale.natAbs by omega]

/-- Enough digits are split by the point. -/
theorem shows_split (n : Nat) {scale : Nat} (hpos : 0 < scale) (h : scale < (digits n).length) :
    Shows ((digits n).take ((digits n).length - scale)) ((digits n).drop ((digits n).length - scale))
      n scale where
  isDigit c hc := by
    rw [List.take_append_drop] at hc
    exact isDigit_of_mem_digits hc
  whole_ne_nil hnil := by
    have hlen := congrArg List.length hnil
    rw [List.length_take, List.length_nil] at hlen
    omega
  no_leading_zero hzero := by
    rw [List.head?_take, if_neg (by omega)] at hzero
    -- Zero has a single digit, which the point cannot split.
    rw [eq_zero_of_head?_digits hzero] at h
    exact absurd h (by simp [digits]; omega)
  length_places := by
    rw [List.length_drop, Int.toNat_natCast]
    omega
  ofDigits_eq := by
    have hread := ofDigits_padded n 0 0
    rw [List.replicate_zero, List.nil_append, List.append_nil] at hread
    rw [List.take_append_drop, hread, Int.toNat_of_nonpos (by omega)]

/-- Too few digits are filled up with zeros, and one more stands before the point. -/
theorem shows_padded (n : Nat) {scale : Nat} (h : ¬scale < (digits n).length) :
    Shows ['0'] (List.replicate (scale - (digits n).length) '0' ++ digits n) n scale where
  isDigit c hc := by
    rw [← List.append_assoc, List.mem_append] at hc
    obtain hc | hc := hc
    · rw [List.singleton_append, ← List.replicate_succ] at hc
      rw [List.eq_of_mem_replicate hc]
      rfl
    · exact isDigit_of_mem_digits hc
  whole_ne_nil := List.cons_ne_nil _ _
  no_leading_zero _ := rfl
  length_places := by
    rw [List.length_append, List.length_replicate, Int.toNat_natCast]
    omega
  ofDigits_eq := by
    -- The zero before the point is one more of those that are put in front.
    have hread := ofDigits_padded n (scale - (digits n).length + 1) 0
    rw [List.replicate_zero, List.append_nil, List.replicate_succ, List.cons_append] at hread
    rw [List.singleton_append, hread, Int.toNat_of_nonpos (by omega)]

/-- The text of a number is digits that show it, with a point if the scale asks for places. -/
theorem printUnsigned_shows (n : Nat) (scale : Int) :
    ∃ whole places, Shows whole places n scale ∧
      printUnsigned n scale = whole ++ if 0 < scale then '.' :: places else [] := by
  by_cases hscale : scale ≤ 0
  · refine ⟨_, _, shows_integer n hscale, ?_⟩
    rw [printUnsigned, if_pos hscale, if_neg (Int.not_lt.mpr hscale), List.append_nil]
  · have hpos := Int.not_le.mp hscale
    obtain ⟨k, rfl⟩ := Int.eq_ofNat_of_zero_le (Int.le_of_lt hpos)
    rw [printUnsigned, if_neg hscale, Int.toNat_natCast, pointed]
    by_cases hsplit : k < (digits n).length
    · refine ⟨_, _, shows_split n (by omega) hsplit, ?_⟩
      rw [if_pos hsplit, if_pos hpos]
    · refine ⟨_, _, shows_padded n hsplit, ?_⟩
      rw [if_neg hsplit, if_pos hpos]
      rfl

example : printUnsigned 5 3 = "0.005".toList := by decide

/-! ## The text as a literal -/

/-- The sign of a number below zero. -/
def printedSign (n : Int) : Option Sign := if n < 0 then some .minus else none

/-- A minus is printed in front of negative numbers, and nothing in front of others. -/
theorem text_printedSign (d : Decimal) :
    Sign.text (printedSign d.unscaled) = if d.isNegative then ['-'] else [] := by
  unfold printedSign isNegative
  by_cases h : d.unscaled < 0
  · simp [h, Sign.text, Sign.char]
  · simp [h, Sign.text]

/-- The sign that is printed gives the number its sign back, also with zeros behind it. -/
theorem apply_printedSign (n : Int) (k : Nat) :
    Sign.apply (printedSign n) (n.natAbs * k) = n * k := by
  unfold printedSign Sign.apply
  by_cases h : n < 0
  · have habs : (n.natAbs : Int) = -n := Int.ofNat_natAbs_of_nonpos (Int.le_of_lt h)
    simp only [if_pos h, if_true, Nat.cast_mul, habs]
    ring
  · have habs : (n.natAbs : Int) = n := Int.natAbs_of_nonneg (Int.not_lt.mp h)
    simp [if_neg h, habs]

/-- The text of a decimal, part by part. -/
theorem exists_literal (d : Decimal) :
    ∃ l : Literal, l.text = d.print ∧ l.exponent = none ∧ l.sign = printedSign d.unscaled ∧
      l.whole ≠ [] ∧ (l.whole.head? = some 0 → l.whole = [0]) ∧
      (l.fraction.isSome = true ↔ 0 < d.scale.toInt) ∧
      l.places.length = d.scale.toInt.toNat ∧
      l.unscaled = d.unscaled * 10 ^ (-d.scale.toInt).toNat := by
  obtain ⟨whole, places, hshows, hprint⟩ := printUnsigned_shows d.unscaled.natAbs d.scale.toInt
  obtain ⟨ws, rfl⟩ := Digit.exists_text (List.forall_mem_append.mp hshows.isDigit).1
  obtain ⟨ps, rfl⟩ := Digit.exists_text (List.forall_mem_append.mp hshows.isDigit).2
  have hwhole : ws ≠ [] := mt Digit.text_eq_nil_iff.mpr hshows.whole_ne_nil
  have hlength : ps.length = d.scale.toInt.toNat := (Digit.length_text ps).symm.trans hshows.length_places
  -- The point is printed if there are digits to come behind it.
  obtain ⟨fraction, hpoint, hsome, hplaces⟩ : ∃ fraction : Option (List Digit),
      (Literal.pointText fraction = if 0 < d.scale.toInt then '.' :: Digit.text ps else []) ∧
      (fraction.isSome = true ↔ 0 < d.scale.toInt) ∧ fraction.getD [] = ps := by
    by_cases hscale : 0 < d.scale.toInt
    · exact ⟨some ps, by rw [if_pos hscale]; rfl, by simp [hscale], rfl⟩
    · rw [Int.toNat_of_nonpos (Int.not_lt.mp hscale)] at hlength
      exact ⟨none, by rw [if_neg hscale]; rfl, by simp [hscale], (List.length_eq_zero_iff.mp hlength).symm⟩
  subst hplaces
  refine ⟨⟨printedSign d.unscaled, ws, fraction, none, .inl hwhole⟩, ?_, rfl, rfl, hwhole, fun hzero => ?_,
    hsome, hlength, ?_⟩
  · rw [print, ← text_printedSign, hprint, ← hpoint, Literal.text, Literal.mantissa]
    simp
  · have hhead : (Digit.text ws).head? = some '0' := by
      rw [Digit.text, List.head?_map, hzero]
      rfl
    exact Digit.text_injective (hshows.no_leading_zero hhead)
  · have hvalue := hshows.ofDigits_eq
    rw [← Digit.text_append, Digit.ofDigits_text] at hvalue
    rw [Literal.unscaled, Literal.places, hvalue, apply_printedSign]
    simp

/-- Zeros behind the digits are worth as much as a negative scale. -/
theorem value_eq (d : Decimal) {scale : Int32} (hscale : scale.toInt = d.scale.toInt.toNat) :
    value ⟨d.unscaled * 10 ^ (-d.scale.toInt).toNat, scale⟩ = d.value := by
  simp only [value, hscale]
  obtain h | h := Int.le_total 0 d.scale.toInt
  · rw [Int.toNat_of_nonneg h, Int.toNat_of_nonpos (by omega), pow_zero, mul_one]
  · have hpower : -d.scale.toInt = ((-d.scale.toInt).toNat : Int) := (Int.toNat_of_nonneg (by omega)).symm
    rw [Int.toNat_of_nonpos h, hpower, zpow_natCast, Int.toNat_natCast]
    push_cast
    ring

/-- Read back from its text, a decimal with a scale of zero or more is the same, and another one is the
    integer it stands for; so it always stands for the same number.  The text is a literal without exponent,
    with a minus iff the number is negative and never a plus.  It has digits before the point, which start
    with a zero only if that is all, and a point iff the scale is positive, with as many digits behind it. -/
theorem ofLiteral_toString (d : Decimal) :
    (∃ d', ofLiteral (toString d) = .ok d' ∧ d'.value = d.value ∧
      (0 ≤ d.scale.toInt → d' = d) ∧
      (d.scale.toInt < 0 → d' = ⟨d.unscaled * 10 ^ (-d.scale.toInt).toNat, 0⟩)) ∧
    ∃ l : Literal, l.text = (toString d).toList ∧ l.exponent = none ∧
      l.sign = (if d.unscaled < 0 then some .minus else none) ∧
      l.whole ≠ [] ∧ (l.whole.head? = some 0 → l.whole = [0]) ∧
      (l.fraction.isSome = true ↔ 0 < d.scale.toInt) ∧
      (0 < d.scale.toInt → l.places.length = d.scale.toInt) := by
  obtain ⟨l, htext, hexponent, hsign, hwhole, hzero, hpoint, hplaces, hunscaled⟩ := exists_literal d
  have hprint : l.text = (toString d).toList := htext.trans String.toList_ofList.symm
  have hhigh := d.scale.toInt_lt
  have hpower : l.power = 0 := by rw [Literal.power, hexponent, Option.elim_none]
  have hscale : l.scale = d.scale.toInt.toNat := by rw [Literal.scale, hpower, hplaces, Int.sub_zero]
  -- The scale is cut to zero at least, so that it is a word of 32 bits still.
  have hword : IsWord d.scale.toInt.toNat := by
    unfold IsWord
    omega
  obtain ⟨scale, hw⟩ := isWord_iff.mp hword
  have hfits : l.Fits := by
    refine ⟨?_, by rwa [hplaces], by rwa [hscale]⟩
    rw [hpower]
    exact isWord_iff.mpr ⟨0, rfl⟩
  have hread : ofLiteral (toString d) = .ok ⟨d.unscaled * 10 ^ (-d.scale.toInt).toNat, scale⟩ :=
    ofLiteral_eq_ok_iff.mpr
      (parse_eq_some_iff.mpr ⟨l, hprint, hfits, hunscaled.symm, hw.trans hscale.symm⟩)
  refine ⟨⟨_, hread, value_eq d hw, fun h => ?_, fun h => ?_⟩, l, hprint, hexponent, hsign, hwhole, hzero,
    hpoint, fun h => ?_⟩
  · rw [Int.toNat_of_nonneg h, Int32.toInt_inj] at hw
    rw [hw, Int.toNat_of_nonpos (by omega), pow_zero, mul_one]
  · rw [Int.toNat_of_nonpos (Int.le_of_lt h)] at hw
    rw [Int32.toInt_inj.mp (hw.trans Int32.toInt_zero.symm)]
  · rw [hplaces, Int.toNat_of_nonneg (Int.le_of_lt h)]

theorem ofLiteral_toString_sample :
    ofLiteral (toString (⟨-15, -2⟩ : Decimal)) = .ok ⟨-1500, 0⟩ ∧
      ofLiteral (toString (⟨-5, 3⟩ : Decimal)) = .ok ⟨-5, 3⟩ := by
  obtain ⟨⟨d, hread, -, -, hnegative⟩, -⟩ := ofLiteral_toString ⟨-15, -2⟩
  obtain ⟨⟨d', hread', -, hsame, -⟩, -⟩ := ofLiteral_toString ⟨-5, 3⟩
  rw [hread, hread', hnegative (by decide), hsame (by decide)]
  exact ⟨rfl, rfl⟩

end ObjectWire.Decimal
