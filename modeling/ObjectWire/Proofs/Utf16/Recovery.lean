import ObjectWire.Proofs.Utf16

/-!
# Units back from their bytes

Written one by one, the units come back whatever they are: a unit's first byte tells how many bytes it has
(`unitsOf?_unitBytes`), so a reader of one, two and three bytes undoes the encoding
(`unitsOf?_bytes`).  Standard UTF-8 has no form for half of a pair.  There the question mark stands for
exactly the surrogates without a partner (`mended`), and all else comes back.
-/

namespace ObjectWire.Utf16

/-! ## Reading units one by one -/

/-- Whether a byte continues a sequence: its top bits are `10`. -/
def isTail (b : UInt8) : Bool := b.toNat / 64 == 2

/-- The units of bytes in which each unit has a sequence of its own.  A first byte that starts no sequence of
    up to three bytes, and a sequence that is cut off, are refused. -/
def unitsOf? : Bytes → Option (List UInt16)
  | [] => some []
  | a :: rest =>
    if a.toNat < 0x80 then (unitsOf? rest).map (UInt16.ofNat a.toNat :: ·)
    else if a.toNat / 32 = 6 then
      match rest with
      | b :: rest =>
        if isTail b then
          (unitsOf? rest).map (UInt16.ofNat (a.toNat % 32 * 64 + b.toNat % 64) :: ·)
        else none
      | [] => none
    else if a.toNat / 16 = 14 then
      match rest with
      | b :: c :: rest =>
        if isTail b && isTail c then
          (unitsOf? rest).map
            (UInt16.ofNat (a.toNat % 16 * 4096 + b.toNat % 64 * 64 + c.toNat % 64) :: ·)
        else none
      | _ => none
    else none

theorem toNat_byte {n : Nat} (h : n < 256) : (UInt8.ofNat n).toNat = n := UInt8.toNat_ofNat_of_lt h

/-- Six bits behind the marker `10` make a byte that continues a sequence. -/
theorem isTail_byte {n : Nat} (h : n < 64) : isTail (UInt8.ofNat (n + 128)) = true := by
  rw [isTail, toNat_byte (by omega), beq_iff_eq]
  omega

section

variable {a b c : UInt8} (rest : Bytes)

/-- A byte below 128 is a unit of its own. -/
theorem unitsOf?_one (h : a.toNat < 0x80) :
    unitsOf? (a :: rest) = (unitsOf? rest).map (UInt16.ofNat a.toNat :: ·) := by
  rw [unitsOf?.eq_def]
  exact if_pos h

/-- Five bits and six make a unit of two bytes. -/
theorem unitsOf?_two (h : a.toNat / 32 = 6) (hb : isTail b = true) :
    unitsOf? (a :: b :: rest) =
      (unitsOf? rest).map (UInt16.ofNat (a.toNat % 32 * 64 + b.toNat % 64) :: ·) := by
  rw [unitsOf?.eq_def]
  simp only [if_neg (show ¬a.toNat < 0x80 by omega), h, hb, ↓reduceIte]

/-- Four bits and twice six make a unit of three bytes. -/
theorem unitsOf?_three (h : a.toNat / 16 = 14) (hb : isTail b = true) (hc : isTail c = true) :
    unitsOf? (a :: b :: c :: rest) =
      (unitsOf? rest).map
        (UInt16.ofNat (a.toNat % 16 * 4096 + b.toNat % 64 * 64 + c.toNat % 64) :: ·) := by
  rw [unitsOf?.eq_def]
  simp only [if_neg (show ¬a.toNat < 0x80 by omega), if_neg (show ¬a.toNat / 32 = 6 by omega), h, hb, hc,
    Bool.and_self, ↓reduceIte]

end

/-- The bytes of a unit delimit themselves, whatever stands behind them. -/
theorem unitsOf?_unitBytes (u : UInt16) (rest : Bytes) :
    unitsOf? (unitBytes u ++ rest) = (unitsOf? rest).map (u :: ·) := by
  have hu := u.toNat_lt
  have hback {n : Nat} (h : n = u.toNat) : UInt16.ofNat n = u := by rw [h, UInt16.ofNat_toNat]
  -- One, two or three bytes, by the size of the unit; the first byte tells which.
  unfold unitBytes
  simp only
  split
  case isTrue hone =>
    have hfirst : (UInt8.ofNat u.toNat).toNat = u.toNat := toNat_byte (by omega)
    rw [List.singleton_append, unitsOf?_one rest (by omega), hfirst, UInt16.ofNat_toNat]
  case isFalse hone =>
  split
  case isTrue htwo =>
    have hfirst : (UInt8.ofNat (u.toNat / 64 + 192)).toNat = u.toNat / 64 + 192 := toNat_byte (by omega)
    have hlast : (UInt8.ofNat (u.toNat % 64 + 128)).toNat = u.toNat % 64 + 128 := toNat_byte (by omega)
    rw [List.cons_append, List.singleton_append, unitsOf?_two rest (by omega) (isTail_byte (by omega)), hfirst,
      hlast, hback (by omega)]
  case isFalse htwo =>
    have hfirst : (UInt8.ofNat (u.toNat / 4096 + 224)).toNat = u.toNat / 4096 + 224 := toNat_byte (by omega)
    have hmiddle : (UInt8.ofNat (u.toNat / 64 % 64 + 128)).toNat = u.toNat / 64 % 64 + 128 :=
      toNat_byte (by omega)
    have hlast : (UInt8.ofNat (u.toNat % 64 + 128)).toNat = u.toNat % 64 + 128 := toNat_byte (by omega)
    rw [List.cons_append, List.cons_append, List.singleton_append,
      unitsOf?_three rest (by omega) (isTail_byte (by omega)) (isTail_byte (by omega)), hfirst, hmiddle, hlast,
      hback (by omega)]

/-- So all units come back, surrogates with and without a partner as well. -/
theorem unitsOf?_bytes (units : List UInt16) : unitsOf? (bytes units .v2) = some units := by
  induction units with
  | nil => rfl
  | cons u us ih => rw [bytes_v2_cons, unitsOf?_unitBytes, ih, Option.map_some]

/-! ## Surrogates without a partner -/

/-- Whether the unit at a place is a surrogate without a partner: a high one with no low one right behind it,
    or a low one with no high one right before it. -/
def isLoneAt (units : List UInt16) (i : Nat) : Bool :=
  units[i]?.any fun u =>
    isHigh u && !units[i + 1]?.any isLow || isLow u && !(0 < i && units[i - 1]?.any isHigh)

/-- The units with a question mark for every surrogate without a partner. -/
def mended (units : List UInt16) : List UInt16 :=
  units.mapIdx fun i u => if isLoneAt units i then 0x3F else u

/-- No surrogate is both high and low. -/
theorem isLow_eq_false_of_isHigh {u : UInt16} (h : isHigh u = true) : isLow u = false := by
  rw [← Bool.not_eq_true, isLow_iff]
  rw [isHigh_iff] at h
  omega

section

variable {u v : UInt16} {us : List UInt16}

theorem isLoneAt_cons_zero : isLoneAt (u :: us) 0 = (isHigh u && !us.head?.any isLow || isLow u) := by
  simp [isLoneAt, List.head?_eq_getElem?]

/-- Behind a unit that takes no partner every unit has the partner that it has without it. -/
theorem isLoneAt_cons_succ (h : isHigh u = true → ∀ v ∈ us.head?, isLow v = false) (i : Nat) :
    isLoneAt (u :: us) (i + 1) = isLoneAt us i := by
  cases i with
  | succ i => simp [isLoneAt]
  | zero =>
    cases us with
    | nil => rfl
    | cons v us =>
      cases hhigh : isHigh u with
      | false => simp [isLoneAt, hhigh]
      | true => simp [isLoneAt, hhigh, h hhigh v rfl]

theorem mended_cons (h : ∀ i, isLoneAt (u :: us) (i + 1) = isLoneAt us i) :
    mended (u :: us) = (if isLoneAt (u :: us) 0 then 0x3F else u) :: mended us := by
  simp only [mended, List.mapIdx_cons, h]

/-- A unit that is no surrogate is kept. -/
theorem mended_plain (hu : isSurrogate u = false) : mended (u :: us) = u :: mended us := by
  obtain ⟨hhigh, hlow⟩ := Bool.or_eq_false_iff.mp hu
  rw [mended_cons (isLoneAt_cons_succ (by simp [hhigh])), isLoneAt_cons_zero, hhigh, hlow]
  rfl

/-- A surrogate without its partner becomes a question mark. -/
theorem mended_lone (hu : isSurrogate u = true)
    (hlone : isHigh u = true → ∀ v ∈ us.head?, isLow v = false) :
    mended (u :: us) = 0x3F :: mended us := by
  have hfirst : isLoneAt (u :: us) 0 = true := by
    rw [isLoneAt_cons_zero]
    cases hhigh : isHigh u with
    | false => simpa [isSurrogate, hhigh] using hu
    | true => cases us <;> simp_all
  rw [mended_cons (isLoneAt_cons_succ hlone), if_pos hfirst]

/-- A pair is kept as it is. -/
theorem mended_pair (hu : isHigh u = true) (hv : isLow v = true) :
    mended (u :: v :: us) = u :: v :: mended us := by
  have hvhigh : isHigh v = false := by
    rw [← Bool.not_eq_true]
    intro hhigh
    simp [isLow_eq_false_of_isHigh hhigh] at hv
  have hfirst : isLoneAt (u :: v :: us) 0 = false := by
    simp [isLoneAt_cons_zero, hv, isLow_eq_false_of_isHigh hu]
  have hsecond : isLoneAt (u :: v :: us) 1 = false := by simp [isLoneAt, hu, hvhigh]
  have hbehind (i : Nat) : isLoneAt (u :: v :: us) (i + 1 + 1) = isLoneAt us i := by
    rw [← isLoneAt_cons_succ (u := v) (by simp [hvhigh]) i]
    rfl
  simp [mended, List.mapIdx_cons, hfirst, hsecond, hbehind]

end

/-! ## Text back to units -/

theorem ofChar_of_not_isSupplementary {c : Char} (h : isSupplementary c = false) :
    ofChar c = [UInt16.ofNat c.toNat] := by
  rw [ofChar, h, if_neg Bool.false_ne_true]

/-- A character of the basic plane is one unit. -/
theorem ofChar_plain {u : UInt16} (h : isSurrogate u = false) : ofChar (Char.ofNat u.toNat) = [u] := by
  have hu := u.toNat_lt
  have hcode := toNat_ofUnit h
  rw [ofChar_of_not_isSupplementary, hcode, UInt16.ofNat_toNat]
  rw [← Bool.not_eq_true, isSupplementary_iff, hcode]
  omega

/-- The character of a pair has the pair as its units. -/
theorem ofChar_pair {u v : UInt16} (hu : isHigh u = true) (hv : isLow v = true) :
    ofChar (pair u v) = [u, v] := by
  rw [isHigh_iff] at hu
  rw [isLow_iff] at hv
  have hcode : (pair u v).toNat = 0x10000 + (u.toNat - 0xD800) * 0x400 + (v.toNat - 0xDC00) :=
    toNat_ofNat (by unfold Nat.isValidChar; omega)
  have hhigh : 0xD800 + ((pair u v).toNat - 0x10000) / 0x400 = u.toNat := by omega
  have hlow : 0xDC00 + ((pair u v).toNat - 0x10000) % 0x400 = v.toNat := by omega
  rw [ofChar, if_pos (isSupplementary_iff.mpr (by omega)), hhigh, hlow, UInt16.ofNat_toNat,
    UInt16.ofNat_toNat]

/-- The text of any units, taken back to units, loses only the surrogates without a partner. -/
theorem ofText_decode (units : List UInt16) :
    ofText ((decode units).map (·.getD '?')) = mended units := by
  induction units using units_induction with
  | nil => rfl
  | plain u us hu ih =>
    rw [decode_plain hu, List.map_cons, ofText_cons, ih, mended_plain hu, Option.getD_some, ofChar_plain hu,
      List.singleton_append]
  | pair u v us hu hv ih =>
    rw [decode_pair hu hv, List.map_cons, ofText_cons, ih, mended_pair hu hv, Option.getD_some,
      ofChar_pair hu hv, List.cons_append, List.singleton_append]
  | lone u us hu hlone ih =>
    rw [decode_lone hu hlone, List.map_cons, ofText_cons, ih, mended_lone hu hlone, Option.getD_none]
    rfl

/-- The UTF-8 form of a text is read back by a reader that refuses all that is not well-formed. -/
theorem utf8Decode?_utf8 (cs : List Char) : (utf8 cs).toByteArray.utf8Decode? = some cs.toArray :=
  List.utf8Decode?_utf8Encode

/-- Both encodings are recoverable.  Written one by one the units come back exactly, so different units have
    different bytes.  As standard UTF-8 they are always well-formed, and the text read back has the same units
    but for a question mark where a surrogate had no partner. -/
theorem bytes_recoverable (units : List UInt16) :
    unitsOf? (bytes units .v2) = some units ∧
      (∀ other, bytes other .v2 = bytes units .v2 ↔ other = units) ∧
      ∃ text, (bytes units .v1).toByteArray.utf8Decode? = some text ∧
        ofText text.toList = mended units := by
  refine ⟨unitsOf?_bytes units, fun other => ⟨fun h => ?_, fun h => by rw [h]⟩, _, utf8Decode?_utf8 _, ?_⟩
  · have hread := unitsOf?_bytes other
    rw [h, unitsOf?_bytes] at hread
    exact (Option.some_inj.mp hread).symm
  · exact ofText_decode units

/-- Of two high surrogates before a low one the second has a partner, and of two low ones behind a high one
    the first. -/
example : mended [0xD83D, 0xD83D, 0xDE00, 0xDE00, 0xD83D] = [0x3F, 0xD83D, 0xDE00, 0x3F, 0x3F] := by decide

end ObjectWire.Utf16
