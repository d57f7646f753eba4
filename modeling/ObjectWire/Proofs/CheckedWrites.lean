import ObjectWire.Encode.Array
import ObjectWire.Proofs.TapeView

/-!
# Checked writes are all or nothing

A checked write looks at its argument, makes room once, and then puts strings of bytes one after the other
where the room is: a `Plan`.  If the room is just what the strings take up (`Plan.Exact`), nothing can go wrong
once it is made, so the write either leaves the tape as it was or fills the room and touches nothing else
(`Plan.run_error`, `Plan.run_ok`).  Every encoder of a single value, the head of every value with others inside
and every checked write of a tape goes by such a plan (`CheckedWrite.follows_plan`), with the room that it asks
for.  Only the head of a proxy is measured after its tag is written, and so goes by a plan just where its
interfaces are not too many (`Encode.proxyHead_eq`).
-/

namespace ObjectWire

open ObjectWire.Action

namespace Tape

/-- Where there is room, bytes go over those at the cursor, and the cursor behind them. -/
theorem run_put {bs : Bytes} {t : Tape} (h : t.cursor + bs.length ≤ t.capacity) :
    (put bs).run t =
      (.ok (), { t with storage := overwrite t.storage t.cursor bs, cursor := t.cursor + bs.length }) :=
  if_pos h

/-- Strings of bytes put one behind the other are one string put at once. -/
theorem overwrite_append (b : ByteArray) (offset : Nat) (as bs : Bytes) :
    overwrite b offset (as ++ bs) = overwrite (overwrite b offset as) (offset + as.length) bs := by
  induction as generalizing b offset with
  | nil => rfl
  | cons a as ih =>
    rw [List.cons_append, overwrite, ih, overwrite, List.length_cons, Nat.add_assoc, Nat.add_comm 1]

/-- Where there is room for all, strings put one after the other are put as one. -/
theorem run_forEach_put {parts : List Bytes} {t : Tape}
    (h : t.cursor + parts.flatten.length ≤ t.capacity) :
    (forEach put parts).run t = (put parts.flatten).run t := by
  induction parts generalizing t with
  | nil => exact (run_put h).symm
  | cons bs parts ih =>
    rw [List.flatten_cons, List.length_append, ← Nat.add_assoc] at h
    have hsize : (overwrite t.storage t.cursor bs).size = t.storage.size := size_overwrite _ _ _
    -- The first string leaves the room of the others.
    have hroom : t.cursor + bs.length + parts.flatten.length ≤
        (overwrite t.storage t.cursor bs).size := by
      rw [hsize]
      exact h
    rw [forEach, run_bind, run_put (by omega)]
    simp only
    rw [ih hroom, run_put hroom, List.flatten_cons, run_put (by rwa [List.length_append, ← Nat.add_assoc]),
      overwrite_append, List.length_append, ← Nat.add_assoc]

/-- Room for all the strings is room for each of them in its turn, so they can be put at once. -/
theorem reserve_forEach_put {n : Nat} {parts : List Bytes} (h : parts.flatten.length ≤ n) :
    (reserve n >>= fun _ => forEach put parts) = (reserve n >>= fun _ => put parts.flatten) := by
  apply Action.ext
  intro t
  rw [run_bind, run_bind]
  split
  next t₁ hreserve =>
    obtain ⟨hgrown, hroom⟩ := reserve_grown hreserve
    exact run_forEach_put (by rw [hgrown.cursor]; omega)
  · rfl

end Tape

/-- What a checked write does. -/
structure Plan where
  /-- Why the argument is refused, before anything else happens. -/
  refusal : Option Stop
  /-- The number of bytes that room is made for. -/
  room : Nat
  /-- What is then put without a check, one string after the other. -/
  parts : List Bytes

namespace Plan

/-- Refuses, or makes room once and puts the strings there. -/
def run (p : Plan) : Action Tape Unit :=
  match p.refusal with
  | some e => stop e
  | none => do
    Tape.reserve p.room
    forEach Tape.put p.parts

/-- The strings take up just the room that is made for them. -/
def Exact (p : Plan) : Prop := p.refusal = none → p.parts.flatten.length = p.room

variable {p : Plan}

/-- A plan that refuses its argument does nothing else. -/
theorem run_of_refusal {e : Stop} (h : p.refusal = some e) : p.run = stop e := by rw [run, h]

/-- Otherwise it makes room and fills it. -/
theorem run_of_none (hexact : p.Exact) (h : p.refusal = none) :
    p.run = (Tape.reserve p.room >>= fun _ => Tape.put p.parts.flatten) := by
  rw [run, h]
  exact Tape.reserve_forEach_put (Nat.le_of_eq (hexact h))

/-- Nothing but the refusal and the room can stop a write with exact room. -/
theorem run_ok_iff (hexact : p.Exact) (t : Tape) :
    (p.run.run t).1 = .ok () ↔ p.refusal = none ∧ ((Tape.reserve p.room).run t).1 = .ok () := by
  cases hrefusal : p.refusal with
  | some e => simp [run_of_refusal hrefusal, stop, Action.run]
  | none =>
    rw [run_of_none hexact hrefusal, run_bind]
    split
    next t₁ hreserve =>
      obtain ⟨hgrown, hroom⟩ := Tape.reserve_grown hreserve
      rw [Tape.run_put (by rw [hgrown.cursor, hexact hrefusal]; exact hroom)]
      simp [hreserve]
    next hreserve => simp [hreserve]

/-- A write that fails leaves the tape as it was. -/
theorem run_error (hexact : p.Exact) {t t' : Tape} {e : Stop} (h : p.run.run t = (.error e, t')) :
    t' = t := by
  cases hrefusal : p.refusal with
  | some e =>
    rw [run_of_refusal hrefusal] at h
    exact (Prod.mk.inj h).2.symm
  | none =>
    rw [run_of_none hexact hrefusal, run_bind] at h
    split at h
    -- Behind the room that was made the parts fit, so it is not they that fail.
    next t₁ hreserve =>
      obtain ⟨hgrown, hroom⟩ := Tape.reserve_grown hreserve
      rw [Tape.run_put (by rw [hgrown.cursor, hexact hrefusal]; exact hroom)] at h
      cases (Prod.mk.inj h).1
    next hreserve =>
      obtain ⟨-, rfl⟩ := Prod.mk.inj h
      exact (Tape.reserve_error hreserve).1

/-- A write that succeeds fills the room made for it. -/
theorem run_ok (hexact : p.Exact) {t t' : Tape} (h : p.run.run t = (.ok (), t')) :
    t.Appended t' p.parts.flatten ∧ t'.cursor = t.cursor + p.room ∧ t'.cursor ≤ t'.capacity := by
  have hnone : p.refusal = none := ((run_ok_iff hexact t).mp (by rw [h])).1
  rw [run_of_none hexact hnone] at h
  obtain ⟨_, t₁, hreserve, hput⟩ := (yields_bind ..).mp h
  obtain ⟨hgrown, hroom⟩ := Tape.reserve_grown hreserve
  have happended := Tape.put_appended hput
  have hcursor := happended.cursor
  rw [hgrown.cursor, hexact hnone] at hcursor
  refine ⟨.of_grown hgrown happended, hcursor, ?_⟩
  rw [hcursor]
  exact Nat.le_trans hroom happended.capacity

/-- The plan with a length looked at before all else. -/
def measured (what : String) (length : Nat) (p : Plan) : Plan :=
  { p with
    refusal := match wireLength what length with
      | .ok _ => p.refusal
      | .error e => some (.error e) }

/-- A length looked at first is one more reason to refuse. -/
theorem measured_refusal {what : String} {length : Nat} :
    (p.measured what length).refusal = none ↔ length ≤ maxWireLength ∧ p.refusal = none := by
  by_cases h : length ≤ maxWireLength <;> simp [measured, wireLength, h]

end Plan

/-- The action goes by a plan with exact room. -/
structure Action.Follows (x : Action Tape Unit) (p : Plan) : Prop where
  run_eq : x = p.run
  exact : p.Exact

/-- Room, and bytes that take up just as much. -/
theorem Action.Follows.put {room : Nat} {parts : List Bytes} {bs : Bytes} (hparts : parts.flatten = bs)
    (hroom : bs.length = room) :
    (Tape.reserve room >>= fun _ => Tape.put bs).Follows ⟨none, room, parts⟩ := by
  subst hparts
  have hexact : Plan.Exact ⟨none, room, parts⟩ := fun _ => hroom
  exact ⟨(Plan.run_of_none hexact rfl).symm, hexact⟩

/-- A checked write of bytes goes by the plan that has just their room. -/
theorem Action.Follows.write (bs : Bytes) : (Tape.write bs).Follows ⟨none, bs.length, [bs]⟩ :=
  .put List.flatten_singleton rfl

/-- A length is looked at before all else. -/
theorem Action.Follows.measured {what : String} {length : Nat} {k : Int32 → Action Tape Unit} {p : Plan}
    (hk : (k (Int32.ofNat length)).Follows p) :
    (ofExcept (wireLength what length) >>= k).Follows (p.measured what length) := by
  cases hlength : wireLength what length with
  | error e => exact ⟨by rw [Plan.measured, hlength]; rfl, by simp [Plan.Exact, Plan.measured, hlength]⟩
  | ok n =>
    obtain ⟨-, rfl⟩ := wireLength_ok hlength
    rw [Plan.measured, hlength]
    exact hk

/-- A write that makes sure of its room: an encoder of a single value, with a null for none where there may
    be no value, the head of a value with others inside, or a checked write of a tape. -/
inductive CheckedWrite : Type 1 where
  | null
  | byte (v : UInt8)
  | short (v : Int16)
  | int (v : Int32)
  | long (v : Int64)
  | float (v : Single)
  | double (v : Double)
  | char (v : UInt16)
  | bool (v : Bool)
  | string (encoding : StringEncoding) (v : Option String)
  | utf16 (encoding : StringEncoding) (v : Option (List UInt16))
  | uuid (v : Option Uuid)
  | date (v : Option Instant)
  | timestamp (v : Option Instant)
  | time (v : Option SqlTime)
  | decimal (v : Option Decimal)
  | encoded (v : Option EncodedObject)
  | arrayHeader (tag : UInt8) (length : Nat)
  | handle (distance : Int32)
  | binaryEnumHead (typeId : Int32)
  | collectionHead (size : Int32) (kind : UInt8)
  | mapHead (size : Int32) (kind : UInt8)
  | word {α : Type} [Word α] (x : α)
  | words {α : Type} [Word α] (xs : List α)
  | bytes (bs : Bytes)
  | range (bs : Bytes) (offset length : Nat)

namespace CheckedWrite

open Encode

/-- What the write does. -/
def run : CheckedWrite → Action Tape Unit
  | null => Encode.null
  | byte v => Encode.byte v
  | short v => Encode.short v
  | int v => Encode.int v
  | long v => Encode.long v
  | float v => Encode.float v
  | double v => Encode.double v
  | char v => Encode.char v
  | bool v => Encode.bool v
  | string encoding v => orNull (Encode.string encoding) v
  | utf16 encoding v => orNull (Encode.utf16 encoding) v
  | uuid v => orNull Encode.uuid v
  | date v => orNull Encode.date v
  | timestamp v => orNull Encode.timestamp v
  | time v => orNull Encode.time v
  | decimal v => orNull Encode.decimal v
  | encoded v => orNull Encode.encoded v
  | arrayHeader tag length => Encode.arrayHeader tag length
  | handle distance => Encode.handle distance
  | binaryEnumHead typeId => Encode.binaryEnumHead typeId
  | collectionHead size kind => Encode.collectionHead size kind
  | mapHead size kind => Encode.mapHead size kind
  | @word _ _ x => Tape.writeWord x
  | @words _ _ xs => Tape.writeWords xs
  | bytes bs => Tape.write bs
  | range bs offset length => Tape.writeRange bs offset length

/-- The plan of a null. -/
def nullPlan : Plan := ⟨none, 1, [[Tag.null.code]]⟩

/-- The plan of a text that is already in bytes. -/
def textPlan (bs : Bytes) : Plan :=
  .measured "string" bs.length
    ⟨none, 5 + bs.length, [[Tag.string.code], Word.bytes (Int32.ofNat bs.length), bs]⟩

/-- What is refused, how much room is made, and what is put there. -/
def plan : CheckedWrite → Plan
  | null => nullPlan
  | byte v => ⟨none, 2, [[Tag.byte.code], Word.bytes v]⟩
  | short v => ⟨none, 3, [[Tag.short.code], Word.bytes v]⟩
  | int v => ⟨none, 5, [[Tag.int.code], Word.bytes v]⟩
  | long v => ⟨none, 9, [[Tag.long.code], Word.bytes v]⟩
  | float v => ⟨none, 5, [[Tag.float.code], Word.bytes v]⟩
  | double v => ⟨none, 9, [[Tag.double.code], Word.bytes v]⟩
  | char v => ⟨none, 3, [[Tag.char.code], Word.bytes v]⟩
  | bool v => ⟨none, 2, [[Tag.bool.code], Word.bytes v]⟩
  | string encoding v => v.elim nullPlan fun v => textPlan (Utf16.textBytes v encoding)
  | utf16 encoding v => v.elim nullPlan fun v => textPlan (Utf16.bytes v encoding)
  | uuid v => v.elim nullPlan fun v => ⟨none, 17, [[Tag.uuid.code], Word.bytes v.most, Word.bytes v.least]⟩
  | date v => v.elim nullPlan fun v => ⟨none, 9, [[Tag.date.code], Word.bytes v.millis]⟩
  | timestamp v => v.elim nullPlan fun v =>
    ⟨none, 13, [[Tag.timestamp.code], Word.bytes v.millis, Word.bytes v.nanosOfMilli]⟩
  | time v => v.elim nullPlan fun v => ⟨none, 9, [[Tag.time.code], Word.bytes v.millis]⟩
  | decimal v => v.elim nullPlan fun v =>
    .measured "decimal magnitude" v.magnitude.length
      ⟨none, 9 + v.magnitude.length,
        [[Tag.decimal.code], Word.bytes v.scale, Word.bytes (Int32.ofNat v.magnitude.length), v.magnitude]⟩
  | encoded v => v.elim nullPlan fun v =>
    .measured "binary object" v.bytes.length <| .measured "binary object start" v.start
      ⟨none, 9 + v.bytes.length,
        [[Tag.binaryObject.code], Word.bytes (Int32.ofNat v.bytes.length), v.bytes,
          Word.bytes (Int32.ofNat v.start)]⟩
  | arrayHeader tag length =>
    .measured "array" length ⟨none, 5, [[tag], Word.bytes (Int32.ofNat length)]⟩
  | handle distance => ⟨none, 5, [[Tag.handle.code], Word.bytes distance]⟩
  | binaryEnumHead typeId => ⟨none, 5, [[Tag.binaryEnum.code], Word.bytes typeId]⟩
  | collectionHead size kind => ⟨none, 6, [[Tag.collection.code], Word.bytes size, [kind]]⟩
  | mapHead size kind => ⟨none, 6, [[Tag.map.code], Word.bytes size, [kind]]⟩
  | @word α _ x => ⟨none, Word.width α, [Word.bytes x]⟩
  | @words α _ xs =>
    ⟨if Tape.maxPosition < xs.length * Word.width α then
        some (.error (.sink (.capacityOverflow Tape.maxPosition)))
      else none,
      xs.length * Word.width α, xs.map Word.bytes⟩
  | bytes bs => ⟨none, bs.length, [bs]⟩
  | range bs offset length =>
    ⟨if offset + length ≤ bs.length then none else some .outOfRange, length,
      [(bs.drop offset).take length]⟩

/-- A tag and its payload, if the room is for both. -/
theorem follows_tagged {tag : Tag} {payload : Bytes} {room : Nat} {parts : List Bytes}
    (hparts : parts.flatten = tag.code :: payload) (hroom : payload.length + 1 = room) :
    (tagged tag payload).Follows ⟨none, room, parts⟩ := by
  subst hroom
  exact .put hparts rfl

/-- A null goes by its plan. -/
theorem follows_null : Encode.null.Follows nullPlan := follows_tagged rfl rfl

/-- What may be a null goes by the plan of whichever it is. -/
theorem follows_orNull {α : Type} {write : α → Action Tape Unit} {plan : α → Plan}
    (h : ∀ a, (write a).Follows (plan a)) (v : Option α) :
    (orNull write v).Follows (v.elim nullPlan plan) := by
  cases v with
  | none => exact follows_null
  | some a => exact h a

/-- A text makes room for its tag, its length and its bytes. -/
theorem follows_textBytes (bs : Bytes) : (Encode.textBytes bs).Follows (textPlan bs) := by
  refine .measured (follows_tagged (by simp) ?_)
  simp [Word.width]
  omega

/-- A decimal makes room for its tag, its scale, and its magnitude with the length of that. -/
theorem follows_decimal (v : Decimal) : (Encode.decimal v).Follows (decimal (some v)).plan := by
  refine .measured (follows_tagged (by simp) ?_)
  simp [Word.width]
  omega

/-- An object encoded before makes room for its bytes, and for nine more. -/
theorem follows_encoded (v : EncodedObject) : (Encode.encoded v).Follows (encoded (some v)).plan := by
  refine .measured (.measured (follows_tagged (by simp) ?_))
  simp [Word.width]
  omega

/-- Many words are refused where their bytes are more than positions can count. -/
theorem follows_words {α : Type} [Word α] (xs : List α) : (Tape.writeWords xs).Follows (words xs).plan := by
  unfold Tape.writeWords plan
  by_cases hlong : Tape.maxPosition < xs.length * Word.width α
  · simp only [if_pos hlong]
    exact ⟨rfl, nofun⟩
  · simp only [if_neg hlong, List.flatMap_def]
    exact .put rfl (by rw [← List.flatMap_def, Word.length_flatMap_bytes])

/-- A range of bytes is refused where it is not inside them. -/
theorem follows_range (bs : Bytes) (offset length : Nat) :
    (Tape.writeRange bs offset length).Follows (range bs offset length).plan := by
  unfold Tape.writeRange plan
  by_cases hrange : offset + length ≤ bs.length
  · have hlength : ((bs.drop offset).take length).length = length := by
      rw [List.length_take, List.length_drop]
      omega
    have hwrite := Follows.write ((bs.drop offset).take length)
    simp only [if_pos hrange]
    rwa [hlength] at hwrite
  · simp only [if_neg hrange]
    exact ⟨rfl, nofun⟩

/-- Every checked write goes by its plan. -/
theorem follows_plan (w : CheckedWrite) : w.run.Follows w.plan := by
  -- The fixed widths are read off the payloads; texts, decimals and arrays measure theirs.
  cases w with
  | string encoding v => exact follows_orNull (fun v => follows_textBytes _) v
  | utf16 encoding v => exact follows_orNull (fun v => follows_textBytes _) v
  | uuid v => exact follows_orNull (fun v => follows_tagged (by simp) rfl) v
  | date v => exact follows_orNull (fun v => follows_tagged rfl rfl) v
  | timestamp v => exact follows_orNull (fun v => follows_tagged (by simp) rfl) v
  | time v => exact follows_orNull (fun v => follows_tagged rfl rfl) v
  | decimal v => exact follows_orNull follows_decimal v
  | encoded v => exact follows_orNull follows_encoded v
  | arrayHeader tag length => exact .measured (.put rfl rfl)
  | word x =>
    have hwrite := Follows.write (Word.bytes x)
    rwa [Word.length_bytes] at hwrite
  | words xs => exact follows_words xs
  | bytes bs => exact .write bs
  | range bs offset length => exact follows_range bs offset length
  | _ => exact follows_tagged rfl rfl

end CheckedWrite

/-- The head of a proxy makes room for the tag and the number of interfaces.  If that number is too large,
    the tag is written all the same, so this is no checked write. -/
theorem Encode.proxyHead_eq (interfaces : Nat) :
    proxyHead interfaces =
      if interfaces ≤ maxWireLength then tagged .proxy (Word.bytes (Int32.ofNat interfaces))
      else (do
        Tape.reserve 5
        Tape.put [Tag.proxy.code]
        fail (.tooLarge ("proxy interfaces length " ++ toString interfaces))) := by
  unfold proxyHead wireLength
  split
  · -- Both parts of the head go into the room made for them together.
    have hparts : [[Tag.proxy.code], Word.bytes (Int32.ofNat interfaces)].flatten.length ≤ 5 := by
      simp [Word.width]
    have hput := Tape.reserve_forEach_put hparts
    simp only [forEach, bind_pure_unit] at hput
    exact hput
  · rfl

/-- A proxy's head that is written comes from no more interfaces than the wire can count. -/
theorem Encode.proxyHead_yields {interfaces : Nat} {t t' : Tape} {u : Unit}
    (h : (proxyHead interfaces).Yields t u t') :
    interfaces ≤ maxWireLength ∧
      (tagged .proxy (Word.bytes (Int32.ofNat interfaces))).Yields t u t' := by
  rw [proxyHead_eq] at h
  split at h
  · next hle => exact ⟨hle, h⟩
  · simp only [yields_bind] at h
    obtain ⟨_, _, -, _, _, -, hfail⟩ := h
    exact (yields_fail _ _ _ _ hfail).elim

/-- A checked write is all or nothing.  It succeeds iff its argument is not refused and there is room.  If it
    fails, the tape is just as it was; if it succeeds, the cursor has moved by the number of bytes that room was
    made for, these bytes are the ones put there, and all others are as they were. -/
theorem CheckedWrite.all_or_nothing (w : CheckedWrite) (t : Tape) :
    w.run = w.plan.run ∧
      ((w.run.run t).1 = .ok () ↔
        w.plan.refusal = none ∧ ((Tape.reserve w.plan.room).run t).1 = .ok ()) ∧
      match w.run.run t with
      | (.error _, t') => t' = t
      | (.ok (), t') =>
        t'.cursor = t.cursor + w.plan.room ∧ t.capacity ≤ t'.capacity ∧ t'.growth = t.growth ∧
          t'.slice? t.cursor t'.cursor = some w.plan.parts.flatten ∧
          ∀ i, i < t.cursor ∨ t'.cursor ≤ i → t'.byteAt i = t.byteAt i := by
  obtain ⟨hrun, hexact⟩ := w.follows_plan
  rw [hrun]
  -- With the plan in its place, the rest is about plans.
  refine ⟨rfl, Plan.run_ok_iff hexact t, ?_⟩
  split
  next hfail => exact Plan.run_error hexact hfail
  next t' hdone =>
    obtain ⟨happended, hcursor, hroom⟩ := Plan.run_ok hexact hdone
    refine ⟨hcursor, happended.capacity, happended.growth, ?_, fun i hi => ?_⟩
    · have hwhole : t.Appended t' ([] ++ w.plan.parts.flatten ++ []) := by simpa using happended
      rw [happended.cursor]
      exact hwhole.slice? hroom
    · rw [happended.view, Tape.overlay_outside (by rwa [← happended.cursor])]

/-- A long takes nine bytes: a tape limited to eight of them is left as it was. -/
theorem CheckedWrite.all_or_nothing_sample :
    ((CheckedWrite.long 5).run.run (Tape.new (.limited 8) 0)).2 = Tape.new (.limited 8) 0 ∧
      ((CheckedWrite.long 5).run.run (Tape.new (.limited 9) 0)).1 = .ok () := by
  obtain ⟨-, -, hfull⟩ := CheckedWrite.all_or_nothing (.long 5) (Tape.new (.limited 8) 0)
  obtain ⟨-, hroom, -⟩ := CheckedWrite.all_or_nothing (.long 5) (Tape.new (.limited 9) 0)
  exact ⟨hfull, hroom.mpr ⟨rfl, rfl⟩⟩

end ObjectWire
