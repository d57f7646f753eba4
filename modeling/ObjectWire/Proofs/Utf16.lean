import ObjectWire.Text.Utf16

/-!
# One text, three encoders

A text becomes bytes as it stands, through its units taken as characters, or through its units one by one.
On the units of a text the first two agree, since decoding undoes `ofText` (`decode_ofText`); on units that
are no surrogates the last two agree, unit by unit (`utf8EncodeChar_eq_unitBytes`).  A surrogate is longer
on its own than as half of a pair or as a question mark (`length_bytes_v1_add`), so it always tells the two
encodings apart.
-/

namespace ObjectWire.Utf16

/-! ## Units -/

theorem isHigh_iff {u : UInt16} : isHigh u = true ↔ 0xD800 ≤ u.toNat ∧ u.toNat ≤ 0xDBFF := by
  simp [isHigh, UInt16.le_iff_toNat_le]

theorem isLow_iff {u : UInt16} : isLow u = true ↔ 0xDC00 ≤ u.toNat ∧ u.toNat ≤ 0xDFFF := by
  simp [isLow, UInt16.le_iff_toNat_le]

theorem isSurrogate_iff {u : UInt16} : isSurrogate u = true ↔ 0xD800 ≤ u.toNat ∧ u.toNat ≤ 0xDFFF := by
  rw [isSurrogate, Bool.or_eq_true, isHigh_iff, isLow_iff]
  omega

theorem not_isSurrogate_iff {u : UInt16} : isSurrogate u = false ↔ u.toNat < 0xD800 ∨ 0xDFFF < u.toNat := by
  rw [← Bool.not_eq_true, isSurrogate_iff]
  omega

theorem isSupplementary_iff {c : Char} : isSupplementary c = true ↔ 0x10000 ≤ c.toNat :=
  decide_eq_true_iff

/-! ## Characters -/

theorem ofText_cons (c : Char) (cs : List Char) : ofText (c :: cs) = ofChar c ++ ofText cs := rfl

theorem utf8_cons (c : Char) (cs : List Char) : utf8 (c :: cs) = String.utf8EncodeChar c ++ utf8 cs := rfl

theorem toNat_ofNat {n : Nat} (h : n.isValidChar) : (Char.ofNat n).toNat = n := by
  rw [Char.ofNat, dif_pos h]
  rfl

/-- A unit that is no surrogate is the unit of a character. -/
theorem toNat_ofUnit {u : UInt16} (h : isSurrogate u = false) : (Char.ofNat u.toNat).toNat = u.toNat := by
  have hu := u.toNat_lt
  rw [not_isSurrogate_iff] at h
  exact toNat_ofNat (by unfold Nat.isValidChar; omega)

/-- The unit of a character that is not supplementary. -/
theorem unit_of_not_isSupplementary {c : Char} (h : isSupplementary c = false) :
    (UInt16.ofNat c.toNat).toNat = c.toNat ∧ isSurrogate (UInt16.ofNat c.toNat) = false := by
  rw [← Bool.not_eq_true, isSupplementary_iff] at h
  have hunit : (UInt16.ofNat c.toNat).toNat = c.toNat := UInt16.toNat_ofNat_of_lt (show _ < 65536 by omega)
  have hvalid : c.toNat < 0xD800 ∨ 0xDFFF < c.toNat ∧ c.toNat < 0x110000 := c.valid
  refine ⟨hunit, not_isSurrogate_iff.mpr ?_⟩
  omega

/-- The units of a supplementary character are a high and a low surrogate, a pair that stands for it. -/
theorem ofChar_of_isSupplementary {c : Char} (h : isSupplementary c = true) :
    ∃ high low, ofChar c = [high, low] ∧ isHigh high = true ∧ isLow low = true ∧ pair high low = c := by
  have hvalid : c.toNat < 0xD800 ∨ 0xDFFF < c.toNat ∧ c.toNat < 0x110000 := c.valid
  have hsup := isSupplementary_iff.mp h
  -- Ten bits go into each half, and the halves stay within 16 bits.
  have hhigh : (UInt16.ofNat (0xD800 + (c.toNat - 0x10000) / 0x400)).toNat =
      0xD800 + (c.toNat - 0x10000) / 0x400 := UInt16.toNat_ofNat_of_lt (show _ < 65536 by omega)
  have hlow : (UInt16.ofNat (0xDC00 + (c.toNat - 0x10000) % 0x400)).toNat =
      0xDC00 + (c.toNat - 0x10000) % 0x400 := UInt16.toNat_ofNat_of_lt (show _ < 65536 by omega)
  refine ⟨_, _, if_pos h, isHigh_iff.mpr ?_, isLow_iff.mpr ?_, ?_⟩
  · omega
  · omega
  · have hcode : 0x10000 + (0xD800 + (c.toNat - 0x10000) / 0x400 - 0xD800) * 0x400 +
        (0xDC00 + (c.toNat - 0x10000) % 0x400 - 0xDC00) = c.toNat := by omega
    rw [pair, hhigh, hlow, hcode, Char.ofNat_toNat]

/-! ## Decoding -/

/-- A pair of surrogates is one character. -/
theorem decode_pair {u v : UInt16} (hu : isHigh u = true) (hv : isLow v = true) (us : List UInt16) :
    decode (u :: v :: us) = some (pair u v) :: decode us := by
  rw [decode, hu, hv]
  rfl

/-- A unit that is no surrogate is the character of its number. -/
theorem decode_plain {u : UInt16} (hu : isSurrogate u = false) (us : List UInt16) :
    decode (u :: us) = some (Char.ofNat u.toNat) :: decode us := by
  have hhigh : isHigh u = false := (Bool.or_eq_false_iff.mp hu).1
  cases us with
  | nil => simp [decode, hu]
  | cons v us => simp [decode, hu, hhigh]

/-- A surrogate without its partner is no character. -/
theorem decode_lone {u : UInt16} {us : List UInt16} (hu : isSurrogate u = true)
    (hlone : isHigh u = true → ∀ v ∈ us.head?, isLow v = false) :
    decode (u :: us) = none :: decode us := by
  cases us with
  | nil => simp [decode, hu]
  | cons v us =>
    have hpair : (isHigh u && isLow v) = false := by
      cases hhigh : isHigh u with
      | false => rfl
      | true => exact hlone hhigh v rfl
    simp [decode, hu, hpair]

/-- Units one decoding step at a time: no surrogate, a pair, or a surrogate without a partner. -/
@[elab_as_elim]
theorem units_induction {motive : List UInt16 → Prop} (nil : motive [])
    (plain : ∀ u us, isSurrogate u = false → motive us → motive (u :: us))
    (pair : ∀ u v us, isHigh u = true → isLow v = true → motive us → motive (u :: v :: us))
    (lone : ∀ u us, isSurrogate u = true → (isHigh u = true → ∀ v ∈ us.head?, isLow v = false) →
      motive us → motive (u :: us)) (us : List UInt16) : motive us := by
  -- The cases are those in which `decode` tells units apart.
  fun_induction decode us with
  | case1 => exact nil
  | case2 u =>
    cases hu : isSurrogate u with
    | false => exact plain u [] hu nil
    | true => exact lone u [] hu (fun _ => nofun) nil
  | case3 u v us h ih =>
    obtain ⟨hhigh, hlow⟩ := Bool.and_eq_true_iff.mp h
    exact pair u v us hhigh hlow ih
  | case4 u v us h ih =>
    cases hu : isSurrogate u with
    | false => exact plain u (v :: us) hu ih
    | true =>
      refine lone u (v :: us) hu (fun hhigh w hw => ?_) ih
      obtain rfl := Option.some_inj.mp hw
      simpa [hhigh] using h

/-- Decoding gives back the text whose units they are. -/
theorem decode_ofText (cs : List Char) : decode (ofText cs) = cs.map some := by
  induction cs with
  | nil => rfl
  | cons c cs ih =>
    rw [ofText_cons, List.map_cons, ← ih]
    cases hsup : isSupplementary c with
    | true =>
      obtain ⟨high, low, hunits, hhigh, hlow, hpair⟩ := ofChar_of_isSupplementary hsup
      rw [hunits, List.cons_append, List.singleton_append, decode_pair hhigh hlow, hpair]
    | false =>
      obtain ⟨hunit, hplain⟩ := unit_of_not_isSupplementary hsup
      rw [ofChar, hsup, if_neg Bool.false_ne_true, List.singleton_append, decode_plain hplain, hunit,
        Char.ofNat_toNat]

/-! ## Bytes -/

/-- A unit that is no surrogate has the bytes of its character. -/
theorem utf8EncodeChar_eq_unitBytes {u : UInt16} (h : isSurrogate u = false) :
    String.utf8EncodeChar (Char.ofNat u.toNat) = unitBytes u := by
  have hu := u.toNat_lt
  have hcode : (Char.ofNat u.toNat).val.toNat = u.toNat := toNat_ofUnit h
  unfold String.utf8EncodeChar unitBytes
  simp only [hcode]
  split
  · rfl
  split
  · rw [Nat.mod_eq_of_lt (show u.toNat / 64 < 32 by omega)]
  · rw [if_pos (show u.toNat ≤ 0xFFFF by omega), Nat.mod_eq_of_lt (show u.toNat / 4096 < 16 by omega)]

/-- Text without supplementary characters has the bytes of its units. -/
theorem utf8_eq_flatMap_unitBytes {cs : List Char} (h : cs.any isSupplementary = false) :
    utf8 cs = (ofText cs).flatMap unitBytes := by
  induction cs with
  | nil => rfl
  | cons c cs ih =>
    rw [List.any_cons, Bool.or_eq_false_iff] at h
    obtain ⟨hunit, hplain⟩ := unit_of_not_isSupplementary h.1
    rw [utf8_cons, ih h.2, ofText_cons, ofChar, h.1, if_neg Bool.false_ne_true, List.singleton_append,
      List.flatMap_cons, ← utf8EncodeChar_eq_unitBytes hplain, hunit, Char.ofNat_toNat]

section

variable (us : List UInt16)

theorem bytes_v1 : bytes us .v1 = utf8 ((decode us).map (·.getD '?')) := rfl

/-- In the first encoding a pair has the bytes of its character. -/
theorem bytes_v1_pair {u v : UInt16} (hu : isHigh u = true) (hv : isLow v = true) :
    bytes (u :: v :: us) .v1 = String.utf8EncodeChar (pair u v) ++ bytes us .v1 := by
  rw [bytes_v1, bytes_v1, decode_pair hu hv, List.map_cons, utf8_cons, Option.getD_some]

/-- Units that are no surrogates have their own bytes in both encodings. -/
theorem bytes_v1_plain {u : UInt16} (hu : isSurrogate u = false) :
    bytes (u :: us) .v1 = unitBytes u ++ bytes us .v1 := by
  rw [bytes_v1, bytes_v1, decode_plain hu, List.map_cons, utf8_cons, Option.getD_some,
    utf8EncodeChar_eq_unitBytes hu]

/-- In the first encoding a lone surrogate is a question mark. -/
theorem bytes_v1_lone {u : UInt16} (hu : isSurrogate u = true)
    (hlone : isHigh u = true → ∀ v ∈ us.head?, isLow v = false) :
    bytes (u :: us) .v1 = 0x3F :: bytes us .v1 := by
  rw [bytes_v1, bytes_v1, decode_lone hu hlone, List.map_cons, utf8_cons, Option.getD_none]
  rfl

/-- In the second encoding each unit has its own bytes, whatever stands beside it. -/
theorem bytes_v2_cons (u : UInt16) : bytes (u :: us) .v2 = unitBytes u ++ bytes us .v2 := rfl

end

/-- The two encodings agree on units without surrogates. -/
theorem bytes_v1_eq_v2 {us : List UInt16} (h : ∀ u ∈ us, isSurrogate u = false) :
    bytes us .v1 = bytes us .v2 := by
  induction us with
  | nil => rfl
  | cons u us ih =>
    obtain ⟨hu, hus⟩ := List.forall_mem_cons.mp h
    rw [bytes_v1_plain us hu, bytes_v2_cons, ih hus]

/-- A surrogate on its own takes three bytes. -/
theorem length_unitBytes_of_isSurrogate {u : UInt16} (h : isSurrogate u = true) : (unitBytes u).length = 3 := by
  rw [isSurrogate_iff] at h
  unfold unitBytes
  simp only
  rw [if_neg (by omega), if_neg (by omega)]
  rfl

/-- The first encoding saves a byte at least for every surrogate. -/
theorem length_bytes_v1_add (us : List UInt16) :
    (bytes us .v1).length + us.countP isSurrogate ≤ (bytes us .v2).length := by
  induction us using units_induction with
  | nil => exact Nat.le_refl 0
  | plain u us hu ih =>
    rw [bytes_v1_plain us hu, bytes_v2_cons, List.countP_cons_of_neg (by simp [hu]), List.length_append,
      List.length_append]
    omega
  | pair u v us hu hv ih =>
    -- Four bytes for the character, three for each of its halves.
    have hfour := (pair u v).utf8Size_le_four
    have hu' : isSurrogate u = true := by rw [isSurrogate, hu, Bool.true_or]
    have hv' : isSurrogate v = true := by rw [isSurrogate, hv, Bool.or_true]
    rw [bytes_v1_pair us hu hv, bytes_v2_cons, bytes_v2_cons, List.countP_cons_of_pos hu',
      List.countP_cons_of_pos hv', List.length_append, List.length_append, List.length_append,
      String.length_utf8EncodeChar, length_unitBytes_of_isSurrogate hu', length_unitBytes_of_isSurrogate hv']
    omega
  | lone u us hu hlone ih =>
    rw [bytes_v1_lone us hu hlone, bytes_v2_cons, List.countP_cons_of_pos hu, List.length_cons,
      List.length_append, length_unitBytes_of_isSurrogate hu]
    omega

/-- A text has the bytes of its units under either encoding, and if it has no supplementary character, these
    are its UTF-8 form also where every unit is written on its own.  On units of any kind the encodings agree
    iff none is a surrogate. -/
theorem textBytes_eq_bytes (text : String) (units : List UInt16) :
    (∀ e, textBytes text e = bytes (ofText text.toList) e) ∧
      (text.toList.any isSupplementary = false →
        utf8 text.toList = bytes (ofText text.toList) .v2) ∧
      ((∀ u ∈ units, isSurrogate u = false) → bytes units .v1 = bytes units .v2) ∧
      ((∃ u ∈ units, isSurrogate u = true) → bytes units .v1 ≠ bytes units .v2) := by
  refine ⟨fun e => ?_, utf8_eq_flatMap_unitBytes, bytes_v1_eq_v2, fun hsome heq => ?_⟩
  · cases e with
    | v1 =>
      rw [bytes_v1, decode_ofText, List.map_map]
      exact congrArg utf8 (List.map_id _).symm
    | v2 =>
      cases hany : text.toList.any isSupplementary with
      | true => exact if_pos hany
      | false =>
        rw [textBytes, hany, if_neg Bool.false_ne_true]
        exact utf8_eq_flatMap_unitBytes hany
  · -- Each surrogate takes a different room in the two encodings, and always more in the second one.
    have hlen := length_bytes_v1_add units
    have hpos : 0 < units.countP isSurrogate := List.countP_pos_iff.mpr hsome
    rw [heq] at hlen
    omega

theorem textBytes_eq_bytes_sample :
    textBytes "a😀" .v2 = bytes [0x61, 0xD83D, 0xDE00] .v2 ∧
      utf8 "aé".toList = bytes [0x61, 0xE9] .v2 ∧
      bytes [0x61, 0xFFFD] .v1 = bytes [0x61, 0xFFFD] .v2 ∧
      bytes [0x61, 0xD83D, 0xDE00] .v1 ≠ bytes [0x61, 0xD83D, 0xDE00] .v2 := by
  obtain ⟨htext, -, -, hdiffer⟩ := textBytes_eq_bytes "a😀" [0x61, 0xD83D, 0xDE00]
  obtain ⟨-, hshort, hagree, -⟩ := textBytes_eq_bytes "aé" [0x61, 0xFFFD]
  refine ⟨htext .v2, hshort (by decide), hagree ?_, hdiffer ⟨0xD83D, by simp, rfl⟩⟩
  rintro u (_ | ⟨_, _ | ⟨_, ⟨⟩⟩⟩)
  · rfl
  · rfl

end ObjectWire.Utf16
