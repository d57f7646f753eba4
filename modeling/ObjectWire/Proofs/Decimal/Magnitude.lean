import Mathlib.Algebra.Order.Ring.Nat
import Mathlib.Data.List.Induction
import Mathlib.Data.Nat.Bitwise
import Mathlib.Tactic.Ring
import ObjectWire.Decimal.Magnitude
import ObjectWire.Proofs.LittleEndian

/-!
# The two readings of a magnitude

A string of bytes is a sign, its topmost bit, and a number, all bits below that one.  Sign, number and
length determine the string (`eq_of_bits`).  Reading a magnitude takes the two apart
(`ofMagnitude_eq`); writing a decimal chooses the least length that has room for the number
(`magnitudeWidth_le_iff`).  So writing and reading are inverse to each other, up to the strings that are
longer than necessary and the zero with a sign.
-/

namespace ObjectWire.Decimal

/-- The number whose bytes are given, most significant first. -/
def bigEndian (bs : Bytes) : Nat := bs.foldl (fun n b => 256 * n + b.toNat) 0

/-- The top bit of the first byte. -/
def signBit (bs : Bytes) : Bool := bs.head?.any (0x80 ≤ ·)

/-- The number in the bits below the topmost one. -/
def unsignedBits (bs : Bytes) : Nat := bigEndian bs % 2 ^ (8 * bs.length - 1)

/-- A string that is not empty, is no zero with a sign, and does not start with a byte that could be
    left out. -/
def IsCanonical (bs : Bytes) : Prop :=
  bs ≠ [] ∧ bs ≠ [0x80] ∧
    ∀ first next rest, bs = first :: next :: rest → first = 0x00 ∨ first = 0x80 → 0x80 ≤ next

/-! ## Bytes as numbers -/

/-- Most significant first is least significant first in reverse. -/
theorem bigEndian_eq_decode (bs : Bytes) : bigEndian bs = LittleEndian.decode bs.reverse := by
  induction bs using List.reverseRecOn with
  | nil => rfl
  | append_singleton bs b ih =>
    rw [List.reverse_append, List.reverse_singleton, List.singleton_append, LittleEndian.decode, ← ih]
    simp only [bigEndian, List.foldl_append, List.foldl_cons, List.foldl_nil]
    omega

/-- A number of so many bytes is less than the first that needs one more. -/
theorem bigEndian_lt (bs : Bytes) : bigEndian bs < 256 ^ bs.length := by
  rw [bigEndian_eq_decode, ← List.length_reverse]
  exact LittleEndian.decode_lt bs.reverse

/-- A number read already moves up by one byte for each byte to come. -/
private theorem foldl_bigEndian (bs : Bytes) (n : Nat) :
    bs.foldl (fun n b => 256 * n + b.toNat) n = n * 256 ^ bs.length + bigEndian bs := by
  induction bs generalizing n with
  | nil => simp [bigEndian]
  | cons b bs ih =>
    have hself : bigEndian (b :: bs) = b.toNat * 256 ^ bs.length + bigEndian bs := by
      simp only [bigEndian, List.foldl_cons, Nat.mul_zero, Nat.zero_add]
      exact ih b.toNat
    rw [List.foldl_cons, ih, hself, List.length_cons, Nat.pow_succ]
    ring

/-- The first byte counts as many times as the bytes behind it can tell. -/
theorem bigEndian_cons (b : UInt8) (bs : Bytes) :
    bigEndian (b :: bs) = b.toNat * 256 ^ bs.length + bigEndian bs := by
  rw [← foldl_bigEndian, bigEndian, List.foldl_cons, Nat.mul_zero, Nat.zero_add]

/-- Strings of one length that read as the same number are equal. -/
theorem bigEndian_inj {bs bs' : Bytes} (hlen : bs.length = bs'.length)
    (h : bigEndian bs = bigEndian bs') : bs = bs' := by
  rw [bigEndian_eq_decode, bigEndian_eq_decode] at h
  have hbs := LittleEndian.encode_decode bs.reverse
  rw [h, List.length_reverse, hlen, ← List.length_reverse, LittleEndian.encode_decode] at hbs
  exact (List.reverse_inj.mp hbs).symm

/-- With a remainder less than the unit the quotient decides. -/
private theorem mul_add_lt_iff {r p : Nat} (h : r < p) (x y : Nat) : x * p + r < y * p ↔ x < y := by
  constructor
  · intro hlt
    apply Nat.lt_of_mul_lt_mul_right (a := p)
    omega
  · intro hlt
    calc x * p + r < x * p + p := Nat.add_lt_add_left h _
      _ = (x + 1) * p := (Nat.succ_mul x p).symm
      _ ≤ y * p := Nat.mul_le_mul_right p hlt

/-- The bits below the topmost one of so many bytes and one. -/
theorem two_pow_bits (n : Nat) : 2 ^ (8 * (n + 1) - 1) = 128 * 256 ^ n := by
  rw [show 8 * (n + 1) - 1 = 7 + 8 * n by omega, Nat.pow_add, Nat.pow_mul]

/-- The first byte has only seven bits of the number. -/
theorem unsignedBits_cons (b : UInt8) (bs : Bytes) :
    unsignedBits (b :: bs) = b.toNat % 128 * 256 ^ bs.length + bigEndian bs := by
  have hrest := bigEndian_lt bs
  have hb : b.toNat = 128 * (b.toNat / 128) + b.toNat % 128 := by omega
  have hlow : b.toNat % 128 * 256 ^ bs.length + bigEndian bs < 128 * 256 ^ bs.length :=
    (mul_add_lt_iff hrest _ _).mpr (Nat.mod_lt _ (by decide))
  have hsplit : b.toNat * 256 ^ bs.length + bigEndian bs =
      b.toNat % 128 * 256 ^ bs.length + bigEndian bs + 128 * 256 ^ bs.length * (b.toNat / 128) := by
    conv_lhs => rw [hb]
    ring
  rw [unsignedBits, List.length_cons, two_pow_bits, bigEndian_cons, hsplit, Nat.add_mul_mod_self_left,
    Nat.mod_eq_of_lt hlow]

/-- The sign is the topmost bit of the first byte. -/
theorem signBit_cons (b : UInt8) (bs : Bytes) : signBit (b :: bs) = decide (128 ≤ b.toNat) := by
  simp [signBit, UInt8.le_iff_toNat_le]

/-- Sign, number and length determine a string. -/
theorem eq_of_bits {bs bs' : Bytes} (hlen : bs.length = bs'.length) (hsign : signBit bs = signBit bs')
    (hbits : unsignedBits bs = unsignedBits bs') : bs = bs' := by
  cases bs with
  | nil => exact (List.length_eq_zero_iff.mp hlen.symm).symm
  | cons b bs =>
    cases bs' with
    | nil => exact absurd hlen (by simp)
    | cons b' bs' =>
      have hlen' : bs.length = bs'.length := by simpa using hlen
      apply bigEndian_inj hlen
      rw [signBit_cons, signBit_cons, decide_eq_decide] at hsign
      rw [unsignedBits_cons, unsignedBits_cons, hlen'] at hbits
      have hb := b.toNat_lt
      have hb' := b'.toNat_lt
      -- The topmost bit is the part of the first byte that the number leaves out.
      have htop : b.toNat / 128 = b'.toNat / 128 := by omega
      rw [bigEndian_cons, bigEndian_cons, hlen', ← Nat.div_add_mod b.toNat 128,
        ← Nat.div_add_mod b'.toNat 128, htop, Nat.add_mul, Nat.add_mul, Nat.add_assoc, Nat.add_assoc,
        hbits]

/-! ## The top bit of a byte -/

private theorem toNat_and_low (b : UInt8) : (b &&& 0x7F).toNat = b.toNat % 128 := by
  rw [UInt8.toNat_and]
  exact Nat.and_two_pow_sub_one_eq_mod b.toNat 7

/-- The topmost bit tells the bytes from 128 on. -/
private theorem and_top_ne_zero (b : UInt8) : b &&& 0x80 ≠ 0 ↔ 128 ≤ b.toNat := by
  have hb := b.toNat_lt
  have hbit : (b &&& 0x80).toNat = (b.toNat.testBit 7).toNat * 128 := by
    rw [UInt8.toNat_and]
    exact Nat.and_two_pow b.toNat 7
  rw [ne_eq, ← UInt8.toNat_inj, hbit, Nat.testBit_eq_decide_div_mod_eq]
  by_cases h : b.toNat / 128 % 2 = 1
  · simp [h]
    omega
  · simp [h]
    omega

/-- A sign is put where the number left room for it. -/
private theorem toNat_withSign (negative : Bool) {b : UInt8} (h : b.toNat < 128) :
    (withSign negative b).toNat = (if negative then 128 else 0) + b.toNat := by
  cases negative with
  | false => simp [withSign]
  | true =>
    have hor := Nat.two_pow_add_eq_or_of_lt (i := 7) h 1
    simp only [withSign, if_true, UInt8.toNat_or]
    rw [Nat.or_comm]
    exact hor.symm

/-! ## Reading -/

/-- Reading takes a string apart into its sign and its number. -/
theorem ofMagnitude_eq (scale : Int32) (m : Bytes) :
    ofMagnitude scale m =
      ⟨if signBit m then -(unsignedBits m : Int) else unsignedBits m, scale⟩ := by
  cases m with
  | nil => simp [ofMagnitude, signBit, unsignedBits, bigEndian]
  | cons first rest =>
    have hread : LittleEndian.decode ((first &&& 0x7F) :: rest).reverse = unsignedBits (first :: rest) := by
      rw [← bigEndian_eq_decode, bigEndian_cons, toNat_and_low, unsignedBits_cons]
    simp only [ofMagnitude, hread, and_top_ne_zero, signBit_cons, decide_eq_true_iff]

/-! ## Writing -/

/-- A number has so many binary digits at most as it is below a power of two. -/
theorem bitLength_le_iff (n k : Nat) : bitLength n ≤ k ↔ n < 2 ^ k := by
  unfold bitLength
  split
  · next h => simp [h]
  · next h => rw [Nat.succ_le_iff, Nat.log2_lt h]

theorem magnitudeWidth_pos (n : Nat) : 0 < magnitudeWidth n := Nat.succ_pos _

/-- The width of a number is the least that has room for it beside a sign. -/
theorem magnitudeWidth_le_iff (n : Nat) {len : Nat} (hlen : 0 < len) :
    magnitudeWidth n ≤ len ↔ n < 2 ^ (8 * len - 1) := by
  rw [← bitLength_le_iff]
  unfold magnitudeWidth
  omega

/-- Written at its width, a number leaves the topmost bit clear. -/
theorem encode_magnitudeWidth (n : Nat) :
    ∃ first rest, (LittleEndian.encode (magnitudeWidth n) n).reverse = first :: rest ∧
      rest.length + 1 = magnitudeWidth n ∧ first.toNat < 128 ∧ bigEndian (first :: rest) = n := by
  have hwidth := magnitudeWidth_pos n
  have hfits := (magnitudeWidth_le_iff n hwidth).mp (Nat.le_refl _)
  have hlen : (LittleEndian.encode (magnitudeWidth n) n).reverse.length = magnitudeWidth n := by
    rw [List.length_reverse, LittleEndian.length_encode]
  -- The number fits with a bit to spare, so it is read back without being cut.
  have hread : bigEndian (LittleEndian.encode (magnitudeWidth n) n).reverse = n := by
    rw [bigEndian_eq_decode, List.reverse_reverse, LittleEndian.decode_encode, Nat.mod_eq_of_lt]
    calc n < 2 ^ (8 * magnitudeWidth n - 1) := hfits
      _ ≤ 2 ^ (8 * magnitudeWidth n) := Nat.pow_le_pow_right (by decide) (Nat.sub_le _ _)
      _ = 256 ^ magnitudeWidth n := Nat.pow_mul 2 8 _
  cases hbytes : (LittleEndian.encode (magnitudeWidth n) n).reverse with
  | nil =>
    rw [hbytes] at hlen
    exact absurd hlen (Nat.ne_of_lt hwidth)
  | cons first rest =>
    rw [hbytes] at hlen hread
    refine ⟨first, rest, rfl, hlen, ?_, hread⟩
    -- The bit to spare is the topmost one of the first byte.
    rw [← hlen, List.length_cons, two_pow_bits, ← hread, bigEndian_cons] at hfits
    exact (mul_add_lt_iff (bigEndian_lt rest) _ _).mp hfits

/-- What is written is as wide as the number needs, and holds its sign and its absolute value. -/
theorem magnitude_parts (d : Decimal) :
    d.magnitude.length = magnitudeWidth d.unscaled.natAbs ∧
      signBit d.magnitude = d.isNegative ∧ unsignedBits d.magnitude = d.unscaled.natAbs := by
  obtain ⟨first, rest, hbytes, hlen, hfirst, hread⟩ := encode_magnitudeWidth d.unscaled.natAbs
  have hmagnitude : d.magnitude = withSign d.isNegative first :: rest := by
    simp only [magnitude, hbytes]
  have hsign := toNat_withSign d.isNegative hfirst
  -- The sign takes the topmost bit of the first byte, which the number left free.
  rw [hmagnitude]
  refine ⟨hlen, ?_, ?_⟩
  · rw [signBit_cons, hsign]
    cases d.isNegative
    · simpa using hfirst
    · simp
  · rw [unsignedBits_cons, hsign, ← hread, bigEndian_cons]
    congr 2
    cases d.isNegative
    · simpa using hfirst
    · simpa using hfirst

/-! ## Both ways -/

/-- A decimal is read back from what it is written as. -/
theorem ofMagnitude_magnitude (d : Decimal) : ofMagnitude d.scale d.magnitude = d := by
  obtain ⟨-, hsign, hbits⟩ := magnitude_parts d
  rw [ofMagnitude_eq, hsign, hbits]
  have hvalue : (if d.isNegative then -(d.unscaled.natAbs : Int) else d.unscaled.natAbs) = d.unscaled := by
    by_cases h : d.unscaled < 0
    · rw [isNegative, decide_eq_true h, if_pos rfl]
      omega
    · rw [isNegative, decide_eq_false h, if_neg Bool.false_ne_true]
      omega
  rw [hvalue]

/-- A string never is too short for the number in it. -/
theorem magnitudeWidth_unsignedBits_le {m : Bytes} (hm : m ≠ []) :
    magnitudeWidth (unsignedBits m) ≤ m.length :=
  (magnitudeWidth_le_iff _ (List.length_pos_iff.mpr hm)).mpr (Nat.mod_lt _ (Nat.two_pow_pos _))

/-- A string of two bytes or more could be shorter iff its first byte holds nothing but a sign and the
    second leaves room for it. -/
theorem magnitudeWidth_lt_iff (first next : UInt8) (rest : Bytes) :
    magnitudeWidth (unsignedBits (first :: next :: rest)) < (first :: next :: rest).length ↔
      (first = 0x00 ∨ first = 0x80) ∧ next < 0x80 := by
  have hrest := bigEndian_lt rest
  have hfirst : first = 0x00 ∨ first = 0x80 ↔ first.toNat % 128 = 0 := by
    have h := first.toNat_lt
    rw [← UInt8.toNat_inj, ← UInt8.toNat_inj]
    change first.toNat = 0 ∨ first.toNat = 128 ↔ _
    omega
  rw [List.length_cons, Nat.lt_succ_iff, magnitudeWidth_le_iff _ (by simp), List.length_cons, two_pow_bits,
    unsignedBits_cons, bigEndian_cons, List.length_cons, hfirst, UInt8.lt_iff_toNat_lt]
  by_cases hzero : first.toNat % 128 = 0
  · rw [hzero, Nat.zero_mul, Nat.zero_add, mul_add_lt_iff hrest]
    simp
  · -- Then the first byte alone is more than a shorter string could hold.
    have hone : 256 ^ (rest.length + 1) ≤ first.toNat % 128 * 256 ^ (rest.length + 1) :=
      Nat.le_mul_of_pos_left _ (Nat.pos_of_ne_zero hzero)
    rw [Nat.pow_succ] at hone ⊢
    simp only [hzero, false_and, iff_false]
    omega

/-- The canonical strings are those as short as their number allows, less the zero with a sign. -/
theorem isCanonical_iff (m : Bytes) :
    IsCanonical m ↔ m ≠ [] ∧ (signBit m = true → unsignedBits m ≠ 0) ∧
      m.length = magnitudeWidth (unsignedBits m) := by
  match m with
  | [] => simp [IsCanonical]
  | [b] =>
    have hlen : [b].length = magnitudeWidth (unsignedBits [b]) :=
      Nat.le_antisymm (magnitudeWidth_pos _) (magnitudeWidth_unsignedBits_le (List.cons_ne_nil b []))
    have hbits : unsignedBits [b] = b.toNat % 128 := by simp [unsignedBits_cons, bigEndian]
    have hzero : b ≠ 0x80 ↔ (128 ≤ b.toNat → b.toNat % 128 ≠ 0) := by
      have hb := b.toNat_lt
      rw [ne_eq, ← UInt8.toNat_inj]
      change ¬b.toNat = 128 ↔ _
      omega
    rw [← hlen, hbits, signBit_cons, decide_eq_true_iff, ← hzero]
    simp [IsCanonical]
  | first :: next :: rest =>
    have hwidth := magnitudeWidth_unsignedBits_le (List.cons_ne_nil first (next :: rest))
    have hless := magnitudeWidth_lt_iff first next rest
    have hcanonical : IsCanonical (first :: next :: rest) ↔
        ¬((first = 0x00 ∨ first = 0x80) ∧ next < 0x80) := by
      constructor
      · rintro ⟨-, -, h⟩ ⟨hfirst, hnext⟩
        exact absurd (h first next rest rfl hfirst) (UInt8.not_le.mpr hnext)
      · intro h
        refine ⟨List.cons_ne_nil _ _, by simp, ?_⟩
        rintro _ _ _ ⟨⟩ hfirst
        exact UInt8.not_lt.mp fun hnext => h ⟨hfirst, hnext⟩
    rw [hcanonical, ← hless]
    constructor
    · intro h
      have hlen := Nat.le_antisymm (Nat.not_lt.mp h) hwidth
      refine ⟨List.cons_ne_nil _ _, fun _ hzero => ?_, hlen⟩
      -- Zero needs one byte only.
      rw [hzero] at hlen
      exact absurd hlen (by simp [magnitudeWidth, bitLength])
    · rintro ⟨-, -, hlen⟩
      exact Nat.not_lt.mpr (Nat.le_of_eq hlen)

/-- What was read is written as it was iff it was canonical. -/
theorem magnitude_ofMagnitude_iff (scale : Int32) (m : Bytes) :
    (ofMagnitude scale m).magnitude = m ↔ IsCanonical m := by
  obtain ⟨hlen, hsign, hbits⟩ := magnitude_parts (ofMagnitude scale m)
  have hnumber : (ofMagnitude scale m).unscaled.natAbs = unsignedBits m := by
    rw [ofMagnitude_eq]
    cases signBit m <;> simp
  -- A zero has no sign as a decimal, whatever its bytes say.
  have hnegative : (ofMagnitude scale m).isNegative = (signBit m && decide (unsignedBits m ≠ 0)) := by
    rw [ofMagnitude_eq, isNegative]
    cases signBit m with
    | false => simp
    | true => simp [Nat.pos_iff_ne_zero]
  rw [hnumber] at hlen hbits
  rw [hnegative] at hsign
  rw [isCanonical_iff]
  constructor
  · intro h
    rw [h] at hlen hsign
    refine ⟨?_, fun hs => ?_, hlen⟩
    · exact List.length_pos_iff.mp (hlen ▸ magnitudeWidth_pos _)
    · rw [hs, Bool.true_and] at hsign
      exact of_decide_eq_true hsign.symm
  · rintro ⟨-, hzero, hwidth⟩
    apply eq_of_bits (hlen.trans hwidth.symm) _ hbits
    rw [hsign]
    cases hs : signBit m with
    | false => rfl
    | true => simpa using hzero hs

/-- A decimal is read back from its magnitude.  The magnitude's topmost bit is the sign, all others are the
    absolute value, and no shorter string has room for it; of the same length there is no other one.  Of all
    strings, the canonical ones are those that are written as they were read. -/
theorem magnitude_canonical (d : Decimal) (scale : Int32) (m : Bytes) :
    ofMagnitude d.scale d.magnitude = d ∧
      d.magnitude ≠ [] ∧
      (signBit d.magnitude = true ↔ d.unscaled < 0) ∧
      unsignedBits d.magnitude = d.unscaled.natAbs ∧
      (m ≠ [] → unsignedBits m = d.unscaled.natAbs → d.magnitude.length ≤ m.length) ∧
      (m.length = d.magnitude.length → signBit m = signBit d.magnitude →
        unsignedBits m = d.unscaled.natAbs → m = d.magnitude) ∧
      ((ofMagnitude scale m).magnitude = m ↔ IsCanonical m) := by
  obtain ⟨hlen, hsign, hbits⟩ := magnitude_parts d
  -- Length, sign bit and number of what is written are known; the rest compares other bytes with these.
  refine ⟨ofMagnitude_magnitude d, ?_, ?_, hbits, fun hm h => ?_, fun hlen hsign h => ?_,
    magnitude_ofMagnitude_iff scale m⟩
  · exact List.length_pos_iff.mp (hlen ▸ magnitudeWidth_pos _)
  · rw [hsign, isNegative, decide_eq_true_iff]
  · rw [hlen, ← h]
    exact magnitudeWidth_unsignedBits_le hm
  · exact eq_of_bits hlen hsign (h.trans hbits.symm)

theorem magnitude_canonical_sample :
    ofMagnitude 2 [0x80, 0x80] = ⟨-128, 2⟩ ∧
      (magnitude ⟨-128, 2⟩).length ≤ [0x00, 0x00, 0x80].length ∧
      (ofMagnitude 2 [0x00, 0x00, 0x80]).magnitude ≠ [0x00, 0x00, 0x80] := by
  obtain ⟨hread, -, -, -, hshort, -, hcanonical⟩ :=
    magnitude_canonical ⟨-128, 2⟩ 2 [0x00, 0x00, 0x80]
  refine ⟨hread, hshort (by decide) (by decide), fun h => ?_⟩
  exact absurd ((hcanonical.mp h).2.2 _ _ _ rfl (.inl rfl)) (by decide)

end ObjectWire.Decimal
