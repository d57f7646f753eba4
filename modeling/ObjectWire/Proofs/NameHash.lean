import Mathlib.Algebra.BigOperators.Fin
import Mathlib.Tactic.Ring
import ObjectWire.Proofs.NameCase
import ObjectWire.Proofs.Utf16

/-!
# Ids of names as polynomials

The bytes of an ASCII name, lower-cased one by one, are the units of its lower-case form, so both ways to
hash a name agree (`ofBytes_eq_general`).  The id of a name is therefore always the hash of the units of its
lower-case form.  Cutting the hash to 32 bits at each unit comes to cutting it once at the end
(`toInt_ofUnits`), and without any cut it is a polynomial in 31 with the units as coefficients
(`horner_eq`).
-/

namespace ObjectWire

/-- Whether all characters are ASCII. -/
def IsAscii (cs : List Char) : Prop := ∀ c ∈ cs, c.toNat < 128

instance (cs : List Char) : Decidable (IsAscii cs) := List.decidableBAll _ cs

/-- What holds of the first 128 characters one by one holds of any ASCII character. -/
theorem forall_ascii {p : Char → Prop} (hp : ∀ n < 128, p (Char.ofNat n)) {c : Char} (h : c.toNat < 128) :
    p c := by
  have hc := hp c.toNat h
  rwa [Char.ofNat_toNat] at hc

/-- An ASCII text is lower-cased character by character. -/
theorem Lowercase.ofRest_ascii (before : List Char) {cs : List Char} (h : IsAscii cs) :
    ofRest before cs = cs.map Char.toLower := by
  induction cs generalizing before with
  | nil => rfl
  | cons c cs ih =>
    obtain ⟨hc, hcs⟩ := List.forall_mem_cons.mp h
    -- Without a capital sigma, no character looks at its neighbours.
    have hsigma := forall_ascii (p := fun c => c ≠ '\u03A3') (by decide +kernel) hc
    have hchar := forall_ascii (p := fun c => ofChar c = [c.toLower]) (by decide +kernel) hc
    rw [ofRest, if_neg hsigma, hchar, ih (c :: before) hcs]
    rfl

/-- An ASCII character is one unit. -/
theorem Utf16.ofText_ascii {cs : List Char} (h : IsAscii cs) :
    ofText cs = cs.map fun c => UInt16.ofNat c.toNat := by
  induction cs with
  | nil => rfl
  | cons c cs ih =>
    obtain ⟨hc, hcs⟩ := List.forall_mem_cons.mp h
    have hchar := forall_ascii (p := fun c => ofChar c = [UInt16.ofNat c.toNat]) (by decide +kernel) hc
    rw [ofText_cons, hchar, ih hcs]
    rfl

namespace NameId

theorem isAscii_toLower {cs : List Char} (h : IsAscii cs) : IsAscii (cs.map Char.toLower) := by
  intro c hc
  obtain ⟨c, hmem, rfl⟩ := List.mem_map.mp hc
  exact forall_ascii (p := fun c => c.toLower.toNat < 128) (by decide +kernel) (h c hmem)

/-- The two ways to hash an ASCII name agree. -/
theorem ofBytes_eq_general {cs : List Char} (h : IsAscii cs) :
    ofBytes (cs.map fun c => UInt8.ofNat c.toNat) = general cs := by
  -- Both hashes take the same number from each character.
  have hdigit : ∀ hash : Int32, ∀ c ∈ cs,
      hash * 31 + Int32.ofNat (lowerByte (UInt8.ofNat c.toNat)).toNat =
        hash * 31 + Int32.ofNat (UInt16.ofNat c.toLower.toNat).toNat := by
    intro hash c hc
    have hbyte := forall_ascii (p := fun c =>
      (lowerByte (UInt8.ofNat c.toNat)).toNat = (UInt16.ofNat c.toLower.toNat).toNat)
      (by decide +kernel) (h c hc)
    rw [hbyte]
  rw [general, Lowercase.ofText, Lowercase.ofRest_ascii [] h, Utf16.ofText_ascii (isAscii_toLower h),
    ofBytes, ofUnits, List.foldl_map, List.foldl_map, List.foldl_map]
  exact List.foldl_ext _ _ _ hdigit

/-- The units of the lower-case form of a name. -/
def units (name : String) : List UInt16 := Utf16.ofText (Lowercase.ofText name.toList)

/-- Whichever way a name is hashed, its id is the hash of these units. -/
theorem ofName_eq (name : String) : ofName name = ofUnits (units name) := by
  unfold ofName
  split
  · next hascii =>
    refine ofBytes_eq_general fun c hc => ?_
    exact of_decide_eq_true (List.all_eq_true.mp hascii c hc)
  · rfl

/-- ASCII names put together have the units of both, one for each character. -/
theorem units_append {a b : String} (ha : IsAscii a.toList) (hb : IsAscii b.toList) :
    units (a ++ b) = units a ++ units b ∧ (units b).length = b.length := by
  -- An ASCII character is a unit of its own, before and after it is lower-cased.
  have hunits : ∀ {cs}, IsAscii cs →
      Utf16.ofText (Lowercase.ofText cs) = cs.map fun c => UInt16.ofNat c.toLower.toNat := by
    intro cs h
    rw [Lowercase.ofText, Lowercase.ofRest_ascii [] h, Utf16.ofText_ascii (isAscii_toLower h),
      List.map_map]
    rfl
  have hab : IsAscii (a ++ b).toList := by
    rw [String.toList_append]
    exact List.forall_mem_append.mpr ⟨ha, hb⟩
  rw [units, units, units, hunits hab, hunits ha, hunits hb, String.toList_append, List.map_append,
    List.length_map, String.length_toList]
  exact ⟨rfl, rfl⟩

/-- The hash of some units without a limit to its size. -/
def horner (start : Nat) (us : List UInt16) : Nat := us.foldl (fun hash u => hash * 31 + u.toNat) start

/-- The hash is cut to 32 bits at each unit, or once at the end. -/
theorem foldl_units (start : Nat) (us : List UInt16) :
    us.foldl (fun hash u => hash * 31 + Int32.ofNat u.toNat) (Int32.ofNat start) =
      Int32.ofNat (horner start us) := by
  induction us generalizing start with
  | nil => rfl
  | cons u us ih =>
    have hstep : Int32.ofNat start * 31 + Int32.ofNat u.toNat = Int32.ofNat (start * 31 + u.toNat) := by
      rw [Int32.ofNat_add, Int32.ofNat_mul]
      rfl
    rw [List.foldl_cons, hstep, ih]
    rfl

/-- The hash is cut to 32 bits at every unit, but to cut it once at the end comes to the same. -/
theorem toInt_ofUnits (us : List UInt16) : (ofUnits us).toInt = (horner 0 us : Int).bmod (2 ^ 32) := by
  have hfold : ofUnits us = Int32.ofNat (horner 0 us) := foldl_units 0 us
  rw [hfold, Int32.toInt_ofNat']
  rfl

/-- The polynomial in 31 that has the units as coefficients, the first with the highest power. -/
def polynomial (us : List UInt16) : Nat := ∑ i : Fin us.length, us[i].toNat * 31 ^ (us.length - 1 - i)

theorem polynomial_cons (u : UInt16) (us : List UInt16) :
    polynomial (u :: us) = u.toNat * 31 ^ us.length + polynomial us := by
  refine (Fin.sum_univ_succ _).trans (congrArg (u.toNat * 31 ^ us.length + ·) ?_)
  refine Finset.sum_congr rfl fun i _ => ?_
  have hpower : us.length + 1 - 1 - i.succ.val = us.length - 1 - i.val := by
    rw [Fin.val_succ]
    omega
  exact congrArg (us[i].toNat * 31 ^ ·) hpower

/-- What the hash starts with counts as one more coefficient before those of the units. -/
theorem horner_eq (start : Nat) (us : List UInt16) :
    horner start us = start * 31 ^ us.length + polynomial us := by
  induction us generalizing start with
  | nil => rw [horner, List.foldl_nil, List.length_nil, pow_zero, mul_one]; rfl
  | cons u us ih =>
    calc horner start (u :: us)
      _ = (start * 31 + u.toNat) * 31 ^ us.length + polynomial us := ih (start * 31 + u.toNat)
      _ = start * 31 ^ (us.length + 1) + (u.toNat * 31 ^ us.length + polynomial us) := by ring
      _ = start * 31 ^ (u :: us).length + polynomial (u :: us) := by rw [polynomial_cons]; rfl

/-- Units behind a name move its coefficients up by as many powers of 31. -/
theorem polynomial_append (us vs : List UInt16) :
    polynomial (us ++ vs) = polynomial us * 31 ^ vs.length + polynomial vs := by
  have happend : horner 0 (us ++ vs) = horner (horner 0 us) vs := List.foldl_append
  have hzero : ∀ ws, horner 0 ws = polynomial ws := fun ws => by rw [horner_eq, zero_mul, zero_add]
  rw [← hzero (us ++ vs), happend, hzero, horner_eq]

/-- What is cut before it is added up may as well be cut at the end alone. -/
theorem bmod_mul_add (x y z : Int) (n : Nat) :
    (x.bmod n * z + y.bmod n).bmod n = (x * z + y).bmod n := by
  rw [Int.add_bmod_bmod, ← Int.bmod_add_bmod, Int.bmod_mul_bmod, Int.bmod_add_bmod]

/-- The id of a name is a polynomial in 31 cut to 32 bits. -/
theorem toInt_ofName (name : String) :
    (ofName name).toInt = (polynomial (units name) : Int).bmod (2 ^ 32) := by
  rw [ofName_eq, toInt_ofUnits, horner_eq, zero_mul, zero_add]

/-- The bytes of an ASCII name are hashed to what the units of its lower-case form are hashed to, so names
    that differ only in the case of ASCII letters have equal ids.  The id of any name is the sum of the `n`
    units of its lower-case form, unit `i` times 31 to the power `n - 1 - i`, modulo `2 ^ 32` and with a
    sign.  So the id of an ASCII name behind another follows from the two ids. -/
theorem ofName_polynomial :
    (∀ name : String, IsAscii name.toList →
      ofBytes (name.toList.map fun c => UInt8.ofNat c.toNat) =
        ofUnits (Utf16.ofText (Lowercase.ofText name.toList))) ∧
    (∀ a b : String, a.toList.map Char.toLower = b.toList.map Char.toLower → ofName a = ofName b) ∧
    (∀ name : String,
      let us := Utf16.ofText (Lowercase.ofText name.toList)
      (ofName name).toInt =
        ((∑ i : Fin us.length, us[i].toNat * 31 ^ (us.length - 1 - i) : Nat) : Int).bmod (2 ^ 32)) ∧
    ∀ a b : String, IsAscii a.toList → IsAscii b.toList →
      (ofName (a ++ b)).toInt =
        ((ofName a).toInt * 31 ^ b.length + (ofName b).toInt).bmod (2 ^ 32) := by
  refine ⟨fun name => ofBytes_eq_general, fun a b => ofName_congr, toInt_ofName, fun a b ha hb => ?_⟩
  -- The polynomial of the whole, cut once at the end, is that of the parts, each cut before.
  obtain ⟨hunits, hlength⟩ := units_append ha hb
  rw [toInt_ofName (a ++ b), toInt_ofName a, toInt_ofName b, hunits, polynomial_append, hlength,
    Nat.cast_add, Nat.cast_mul, Nat.cast_pow, Nat.cast_ofNat, bmod_mul_add]

/-- Two spellings of one name, a name whose last letter becomes two and whose sum is cut, and a name made of
    two. -/
theorem ofName_polynomial_sample :
    ofBytes [65, 98] = ofUnits (Utf16.ofText (Lowercase.ofText "Ab".toList)) ∧
      ofName "Ab" = ofName "aB" ∧
      (ofName "Type\u0130").toInt = 3436165240 - 2 ^ 32 ∧
      (ofName ("LongTypeName" ++ "OfAField")).toInt =
        ((ofName "LongTypeName").toInt * 31 ^ 8 + (ofName "OfAField").toInt).bmod (2 ^ 32) := by
  obtain ⟨hbytes, hcase, hsum, happend⟩ := ofName_polynomial
  exact ⟨hbytes "Ab" (by decide), hcase "Ab" "aB" (by decide),
    (hsum "Type\u0130").trans (by decide +kernel),
    happend "LongTypeName" "OfAField" (by decide) (by decide)⟩

end NameId

end ObjectWire
