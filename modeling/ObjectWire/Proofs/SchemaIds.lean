import Mathlib.Algebra.Group.Nat.Defs
import Mathlib.Data.List.Basic
import ObjectWire.Schema

/-!
# Schema ids as hashes

Mixing a byte into a hash can be undone, since the multiplier is odd (`unmix_mix`, `mix_unmix`).  So folding in
a field permutes the ids (`bijective_push`), as does folding in any list of fields, and two layouts that
have different ids keep different ones however many fields both get.  The id of a layout is FNV-1a over the
bytes of its field ids (`ofFields_eq`), the variant that mixes a byte in before it multiplies.
-/

namespace ObjectWire

open Function (Bijective)

/-- A fold of permutations is a permutation. -/
theorem bijective_foldl {α β : Type} {f : α → β → α} (h : ∀ b, Bijective (f · b)) (bs : List β) :
    Bijective fun a => bs.foldl f a := by
  induction bs with
  | nil => exact Function.bijective_id
  | cons b bs ih => exact ih.comp (h b)

namespace Fnv

/-- The hash FNV-1a of 32 bits: each byte is mixed in, then the hash is multiplied by the prime. -/
def hash1a (bytes : Bytes) : UInt32 :=
  bytes.foldl (fun hash b => (hash ^^^ b.toUInt32) * 0x01000193) 0x811C9DC5

/-- The hash FNV-1 of 32 bits, which multiplies first and then mixes the byte in. -/
def hash1 (bytes : Bytes) : UInt32 :=
  bytes.foldl (fun hash b => hash * 0x01000193 ^^^ b.toUInt32) 0x811C9DC5

/-- The two hashes of the letter a. -/
example : hash1a [0x61] = 0xE40C292C ∧ hash1 [0x61] = 0x050C5D7E := by decide

end Fnv

namespace SchemaId

/-- The multiplier's inverse modulo `2 ^ 32`. -/
def primeInverse : UInt32 := 0x359C449B

/-- Takes the byte that was mixed in last out of a hash. -/
def unmix (hash : UInt32) (b : UInt8) : UInt32 := hash * primeInverse ^^^ b.toUInt32

/-- The multiplication is undone first, as the multiplier has an inverse, and then the byte is taken out. -/
theorem unmix_mix (hash : UInt32) (b : UInt8) : unmix (mix hash b) b = hash := by
  have hinverse : prime * primeInverse = 1 := by decide
  rw [unmix, mix, UInt32.mul_assoc, hinverse, UInt32.mul_one, UInt32.xor_assoc, UInt32.xor_self,
    UInt32.xor_zero]

theorem mix_unmix (hash : UInt32) (b : UInt8) : mix (unmix hash b) b = hash := by
  have hinverse : primeInverse * prime = 1 := by decide
  rw [mix, unmix, UInt32.xor_assoc, UInt32.xor_self, UInt32.xor_zero, UInt32.mul_assoc, hinverse,
    UInt32.mul_one]

/-- Whatever the byte, to mix it in is a permutation of the hashes. -/
theorem bijective_mix (b : UInt8) : Bijective (mix · b) :=
  Function.bijective_iff_has_inverse.mpr
    ⟨(unmix · b), fun hash => unmix_mix hash b, fun hash => mix_unmix hash b⟩

/-- A field is folded in through the unsigned form of the id. -/
theorem push_eq_comp (fieldId : Int32) : (push · fieldId) =
    UInt32.toInt32 ∘ (fun hash => (Word.bytes fieldId).foldl mix hash) ∘ Int32.toUInt32 := by
  funext id
  rw [Function.comp_apply, Function.comp_apply, push]

/-- Folding in a field permutes the ids. -/
theorem bijective_push (fieldId : Int32) : Bijective (push · fieldId) := by
  -- An id is the hash read as a signed number, so going in and out changes nothing.
  have hout : Bijective UInt32.toInt32 := Function.bijective_iff_has_inverse.mpr
    ⟨Int32.toUInt32, UInt32.toUInt32_toInt32, Int32.toInt32_toUInt32⟩
  have hin : Bijective Int32.toUInt32 := Function.bijective_iff_has_inverse.mpr
    ⟨UInt32.toInt32, Int32.toInt32_toUInt32, UInt32.toUInt32_toInt32⟩
  rw [push_eq_comp]
  exact hout.comp ((bijective_foldl bijective_mix (Word.bytes fieldId)).comp hin)

/-- Common fields behind two layouts leave their ids equal or different, as they are. -/
theorem ofFields_append_inj (a b c : List Int32) :
    ofFields (a ++ c) = ofFields (b ++ c) ↔ ofFields a = ofFields b := by
  have happend : ∀ fieldIds, ofFields (fieldIds ++ c) = c.foldl push (ofFields fieldIds) :=
    fun _ => List.foldl_append
  rw [happend, happend]
  exact (bijective_foldl bijective_push c).injective.eq_iff

/-- Fields folded in one by one are their bytes mixed in one by one. -/
theorem foldl_push (id : Int32) (fieldIds : List Int32) :
    fieldIds.foldl push id = ((fieldIds.flatMap Word.bytes).foldl mix id.toUInt32).toInt32 := by
  induction fieldIds generalizing id with
  | nil => exact (Int32.toInt32_toUInt32 id).symm
  | cons fieldId fieldIds ih =>
    rw [List.foldl_cons, ih, push, UInt32.toUInt32_toInt32, List.flatMap_cons, List.foldl_append]

/-- To fold in ids one by one is to fold in all their bytes. -/
theorem ofFields_eq (fieldIds : List Int32) :
    ofFields fieldIds = (Fnv.hash1a (fieldIds.flatMap Word.bytes)).toInt32 := foldl_push seed fieldIds

/-- A byte of a word, taken out by a shift. -/
theorem toUInt32_byte (x : UInt32) {shift : UInt32} (h : shift.toNat < 32) :
    (UInt8.ofNat (x.toNat / 2 ^ shift.toNat)).toUInt32 = (x >>> shift) &&& 0xFF := by
  have hmask : (0xFF : UInt32).toNat = 2 ^ 8 - 1 := rfl
  apply UInt32.toNat_inj.mp
  rw [UInt8.toNat_toUInt32, UInt8.toNat_ofNat', UInt32.toNat_and, UInt32.toNat_shiftRight,
    Nat.mod_eq_of_lt h, Nat.shiftRight_eq_div_pow, hmask, Nat.and_two_pow_sub_one_eq_mod]

/-- Folding in a field goes over its bytes by shifting it. -/
theorem push_eq_shifts (id fieldId : Int32) :
    push id fieldId = ([0, 8, 16, 24].foldl (fun (hash shift : UInt32) =>
      (hash ^^^ (fieldId.toUInt32 >>> shift) &&& 0xFF) * prime) id.toUInt32).toInt32 := by
  -- The bytes come from dividing by powers of two; as words, these are masked shifts.
  have hbytes : Word.bytes fieldId = [0, 8, 16, 24].map fun shift : UInt32 =>
      UInt8.ofNat (fieldId.toUInt32.toNat / 2 ^ shift.toNat) := by
    show LittleEndian.encode 4 fieldId.toUInt32.toNat = _
    simp [LittleEndian.encode, Nat.div_div_eq_div_mul]
  have hmix : ∀ hash : UInt32, ∀ shift ∈ ([0, 8, 16, 24] : List UInt32),
      mix hash (UInt8.ofNat (fieldId.toUInt32.toNat / 2 ^ shift.toNat)) =
        (hash ^^^ (fieldId.toUInt32 >>> shift) &&& 0xFF) * prime := by
    intro hash shift hshift
    have hlt : ([0, 8, 16, 24] : List UInt32).all (·.toNat < 32) = true := by decide
    rw [mix, toUInt32_byte fieldId.toUInt32 (of_decide_eq_true (List.all_eq_true.mp hlt shift hshift))]
  rw [push, hbytes, List.foldl_map]
  exact congrArg UInt32.toInt32 (List.foldl_ext _ _ _ hmix)

/-- Folding in a field, which goes over its bytes by shifting it, permutes the ids.  So two layouts that end
    in the same fields have equal ids exactly if they have equal ids without those.  The id of a layout is
    FNV-1a over the bytes of its field ids, one behind the other. -/
theorem push_permutes :
    (∀ fieldId : Int32,
      (∀ id, push id fieldId = ([0, 8, 16, 24].foldl (fun (hash shift : UInt32) =>
        (hash ^^^ (fieldId.toUInt32 >>> shift) &&& 0xFF) * prime) id.toUInt32).toInt32) ∧
      Bijective (push · fieldId)) ∧
    (∀ a b c : List Int32, (⟨a ++ c⟩ : Schema).id = (⟨b ++ c⟩ : Schema).id ↔
      (⟨a⟩ : Schema).id = (⟨b⟩ : Schema).id) ∧
    ∀ fieldIds : List Int32,
      (⟨fieldIds⟩ : Schema).id = (Fnv.hash1a (fieldIds.flatMap Word.bytes)).toInt32 :=
  ⟨fun fieldId => ⟨fun id => push_eq_shifts id fieldId, bijective_push fieldId⟩, ofFields_append_inj,
    ofFields_eq⟩

/-- The id of a layout is not FNV-1 over those bytes: the field id with the bytes 1, 2, 3 and 4 tells the two
    hashes apart. -/
theorem id_ne_fnv1 :
    (⟨[0x04030201]⟩ : Schema).id ≠ (Fnv.hash1 (Word.bytes (0x04030201 : Int32))).toInt32 := by decide

end SchemaId

end ObjectWire
