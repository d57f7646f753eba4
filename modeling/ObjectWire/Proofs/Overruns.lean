import ObjectWire.Proofs.CarryOver

/-!
# What runs over

A value that is written without a fault of its own may still be too much for what is there: the storage does
not grow as far, or a length or an offset does not fit its slot.  Where the storage doubles, that takes more
bytes than the wire can count (`Stop.IsOverrun`).  Every part of a write that resolves no type and begins no
field stops for this reason only (`Action.RunsOver`).
-/

namespace ObjectWire

open ObjectWire.Action

namespace Stop

/-- More was asked for than lengths on the wire can tell: a length, an offset, or a capacity. -/
def IsOverrun (e : Stop) : Prop :=
  ∃ n, maxWireLength < n ∧ ((∃ what, e = .error (.tooLarge (what ++ toString n))) ∨
    e = .error (.sink (.capacityOverflow n)))

/-- If the storage doubles, the reason is that too much was asked for, or it is no error at all. -/
def RunsOver (e : Stop) (g : Growth) : Prop := g.Doubles → e.IsOverrun ∨ e.IsFault

/-- What is no error of the caller counts as running over, too. -/
theorem IsFault.runsOver {e : Stop} (h : e.IsFault) (g : Growth) : e.RunsOver g := fun _ => .inr h

/-- Whatever the storage does, asking for too much is running over. -/
theorem IsOverrun.runsOver {e : Stop} (h : e.IsOverrun) (g : Growth) : e.RunsOver g := fun _ => .inl h

/-- A length is measured. -/
theorem isOverrun_length {what : String} {n : Nat} {cause : Error} (h : wireLength what n = .error cause) :
    (error cause).IsOverrun := by
  obtain ⟨hlarge, rfl⟩ := Error.wireLength_error h
  exact ⟨n, hlarge, .inl ⟨_, rfl⟩⟩

end Stop

namespace Action

/-- Whatever the state, the action stops only where more is asked for than there can be. -/
def RunsOver {σ α : Type} (growth : σ → Growth) (x : Action σ α) : Prop :=
  ∀ s, x.StopsIn (fun e s' => e.RunsOver (growth s')) s

namespace RunsOver

variable {σ τ α β : Type} {growth : σ → Growth}

/-- An action that does nothing never stops. -/
theorem pure (a : α) : RunsOver growth (Pure.pure a) := fun _ => .pure a

/-- Nor does one that only looks at the state. -/
theorem read (f : σ → α) : RunsOver growth (Action.read f) := fun _ => .read f

/-- Nor does one that only changes it. -/
theorem update (f : σ → σ) : RunsOver growth (Action.update f) := fun _ => .update f

/-- An action may stop for no error of its caller. -/
theorem fault {e : Stop} (h : e.IsFault) : RunsOver growth (Action.stop e : Action σ α) :=
  fun s => .stop (h.runsOver (growth s))

/-- A length that is refused is one that the wire cannot count. -/
theorem length (what : String) (n : Nat) : RunsOver growth (ofExcept (wireLength what n)) :=
  fun s => .ofExcept fun _ h => (Stop.isOverrun_length h).runsOver (growth s)

/-- Two actions run over where one of them does. -/
theorem bind {x : Action σ α} {f : α → Action σ β} (hx : RunsOver growth x)
    (hf : ∀ a, RunsOver growth (f a)) : RunsOver growth (x >>= f) :=
  fun s => (hx s).bind fun _ => hf _ _

/-- So does an action behind another that may be left out. -/
theorem whenBind {c : Prop} [Decidable c] {x : Action σ Unit} {k : Action σ β} (hx : RunsOver growth x)
    (hk : RunsOver growth k) : RunsOver growth (if c then x >>= fun _ => k else k) :=
  fun s => .whenBind (fun _ => hx s) fun _ => hk _

/-- So does a loop, by induction over its turns. -/
theorem forEach {f : α → Action σ Unit} (h : ∀ a, RunsOver growth (f a)) (as : List α) :
    RunsOver growth (Action.forEach f as) := by
  induction as with
  | nil => exact .pure ()
  | cons a as ih => exact (h a).bind fun _ => ih

end RunsOver

end Action

namespace Tape

/-- Storage that doubles is refused only beyond what the wire can count, and so are positions beyond the
    largest. -/
theorem over_reserve (n : Nat) : RunsOver growth (reserve n) := by
  intro t e t' h hdoubles
  have hlargest : t.growth.Doubles → t.growth.largest = maxWireLength := Growth.Doubles.largest
  unfold reserve at h
  simp only at h
  split at h
  · cases h
    -- The place behind the bytes is beyond all positions.
    exact .inl ⟨maxPosition, by decide, .inr rfl⟩
  · split at h
    · unfold grow at h
      split at h
      · next cause hnext =>
        cases h
        unfold Growth.next at hnext
        split at hnext
        · next hlarge =>
          cases hnext
          -- What is refused is more than storage that doubles can ever hold.
          exact .inl ⟨_, hlargest hdoubles ▸ hlarge, .inr rfl⟩
        · cases hg : t.growth with
          | heap | offHeap => simp only [hg, reduceCtorEq] at hnext
          | limited | custom =>
            -- Storage that has a limit, or a rule of its own, does not double.
            rw [hg] at hdoubles
            exact hdoubles.elim
      · cases h
    · cases h

/-- Bytes for which there is no room are put out of range. -/
theorem over_put (bs : Bytes) : RunsOver growth (put bs) := by
  intro t e t' h
  simp only [put] at h
  split at h
  · cases h
  · cases h
    exact Stop.IsFault.runsOver (e := .outOfRange) trivial _

/-- So are bytes replaced where there are none. -/
theorem over_patch (offset : Nat) (bs : Bytes) : RunsOver growth (patch offset bs) := by
  intro t e t' h
  unfold patch at h
  split at h
  · cases h
  · cases h
    exact Stop.IsFault.runsOver (e := .outOfRange) trivial _

/-- A checked write runs over where its room does. -/
theorem over_write (bs : Bytes) : RunsOver growth (write bs) :=
  (over_reserve _).bind fun _ => over_put _

/-- So does one of many words. -/
theorem over_writeWords {α : Type} [Word α] (xs : List α) : RunsOver growth (writeWords xs) := by
  rw [writeWords_eq_write]
  exact over_write _

end Tape

namespace Encode

open Tape

/-- A tag and its payload run over where their room does. -/
theorem over_tagged (tag : Tag) (payload : Bytes) : RunsOver growth (tagged tag payload) :=
  (over_reserve _).bind fun _ => over_put _

/-- So does a null in the place of a value. -/
theorem over_orNull {α : Type} {write : α → Action Tape Unit} (h : ∀ a, RunsOver growth (write a))
    (v : Option α) : RunsOver growth (orNull write v) := by
  cases v with
  | none => exact over_tagged _ _
  | some v => exact h v

/-- A text runs over by its length, or by its room. -/
theorem over_textBytes (bs : Bytes) : RunsOver growth (textBytes bs) :=
  (RunsOver.length _ _).bind fun _ => over_tagged _ _

/-- So does a decimal, by the length of its magnitude. -/
theorem over_decimal (v : Decimal) : RunsOver growth (decimal v) :=
  (RunsOver.length _ _).bind fun _ => over_tagged _ _

/-- So does an object encoded before, by its length or by where it starts. -/
theorem over_encoded (v : EncodedObject) : RunsOver growth (encoded v) :=
  (RunsOver.length _ _).bind fun _ => (RunsOver.length _ _).bind fun _ => over_tagged _ _

/-- So does the head of an array, by the number of its elements. -/
theorem over_arrayHeader (tag : UInt8) (n : Nat) : RunsOver growth (arrayHeader tag n) :=
  (RunsOver.length _ _).bind fun _ => (over_reserve _).bind fun _ => over_put _

/-- Too many interfaces are more than the wire can count, whether the tag is written or not. -/
theorem over_proxyHead (interfaces : Nat) : RunsOver growth (proxyHead interfaces) := by
  apply (over_reserve _).bind
  intro _
  apply (over_put _).bind
  intro _
  exact (RunsOver.length _ _).bind fun _ => over_put _

/-- An array of words runs over in its head or in its words. -/
theorem over_words {α : Type} [Word α] (tag : Tag) (xs : List α) : RunsOver growth (words tag xs) :=
  (over_arrayHeader _ _).bind fun _ => over_writeWords xs

/-- An array of other elements runs over in its head or in one of them. -/
theorem over_elements {α : Type} {write : α → Action Tape Unit} (tag : Tag)
    (h : ∀ a, RunsOver growth (write a)) (xs : List (Option α)) :
    RunsOver growth (elements tag write xs) :=
  (over_arrayHeader _ _).bind fun _ => .forEach (over_orNull h) xs

/-- A plain value has no fault of its own but its size. -/
theorem over_plain (encoding : StringEncoding) (v : Plain) : RunsOver growth (plain encoding v) := by
  cases v with
  | string v => exact over_textBytes _
  | utf16 v => exact over_textBytes _
  | decimal v => exact over_decimal v
  | encoded v => exact over_encoded v
  | bytes v => exact over_words _ v
  | shorts v => exact over_words _ v
  | ints v => exact over_words _ v
  | longs v => exact over_words _ v
  | floats v => exact over_words _ v
  | doubles v => exact over_words _ v
  | chars v => exact over_words _ v
  | bools v => exact over_words _ v
  | strings v => exact over_elements _ (fun _ => over_textBytes _) v
  | uuids v => exact over_elements _ (fun _ => over_tagged _ _) v
  | dates v => exact over_elements _ (fun _ => over_tagged _ _) v
  | timestamps v => exact over_elements _ (fun _ => over_tagged _ _) v
  | times v => exact over_elements _ (fun _ => over_tagged _ _) v
  | decimals v => exact over_elements _ over_decimal v
  -- What is left has a fixed width or none.
  | _ => exact over_tagged _ _

end Encode

/-- How the storage under a session grows. -/
def Session.growth (s : Session) : Growth := s.tape.growth

namespace WriteM

/-- What runs over on the tape does so in the session. -/
theorem over_onTape {α : Type} {x : Action Tape α} (h : RunsOver Tape.growth x) :
    RunsOver Session.growth (onTape x) :=
  fun s => .part (fun tape => { s with tape }) rfl (h s.tape)

/-- A word runs over where its room does. -/
theorem over_writeWord {α : Type} [Word α] (a : α) :
    RunsOver Session.growth (onTape (Tape.writeWord a)) := over_onTape (Tape.over_write _)

/-- So do a tag and its payload. -/
theorem over_tagged (tag : Tag) (payload : Bytes) :
    RunsOver Session.growth (onTape (Encode.tagged tag payload)) :=
  over_onTape (Encode.over_tagged _ _)

/-- So does a plain value, or where it is too long. -/
theorem over_writePlain (v : Plain) : RunsOver Session.growth (writePlain v) :=
  (RunsOver.read _).bind fun _ => over_onTape (Encode.over_plain _ v)

/-- A distance between places in the wrong order is no error of the caller. -/
theorem over_distance (start stop : Nat) : RunsOver Session.growth (distance start stop) := by
  unfold distance
  split
  · exact .pure _
  · exact .fault trivial

/-- A reference back runs over where its distance is too far for the wire. -/
theorem over_writeBack (first here : Nat) : RunsOver Session.growth (writeBack first here) :=
  (over_distance _ _).bind fun _ => (RunsOver.length _ _).bind fun _ => over_tagged _ _

end WriteM

namespace ObjectWriter

open WriteM

/-- Beginning an object runs over for want of room, be it for the header or for the name. -/
theorem over_begin (typeId : Int32) (inlineName : Option String) :
    RunsOver Session.growth (begin typeId inlineName) := by
  refine (RunsOver.read _).bind fun start => ?_
  apply (over_onTape (Tape.over_reserve _)).bind
  intro _
  apply (over_onTape (.update _)).bind
  intro _
  -- With or without a name, the place behind it is where the data will start.
  have hend : ∀ w : Nat → ObjectWriter,
      RunsOver Session.growth (position >>= fun here => pure (w here)) :=
    fun w => (RunsOver.read _).bind fun _ => .pure _
  cases inlineName with
  | none => exact hend _
  | some name => exact (over_writePlain _).bind fun _ => hend _

/-- A place too far behind the start of its object runs over. -/
theorem over_relative (w : ObjectWriter) (position : Nat) :
    RunsOver Session.growth (w.relative position) :=
  (over_distance _ _).bind fun _ => .length _ _

/-- The footer has the room of all its entries made at once. -/
theorem over_writeFooter (fields : FieldStack) (count : Nat) (compact : Bool) :
    RunsOver Tape.growth (fields.writeFooter count compact) :=
  (Tape.over_reserve _).bind fun _ => (Tape.over_put _).bind fun _ => .pure _

/-- What follows the data of an object runs over in a place that it tells, or for want of room. -/
theorem over_writeEnding (w : ObjectWriter) (compact : Bool) :
    RunsOver Session.growth (w.writeEnding compact) := by
  unfold writeEnding
  split
  · refine (RunsOver.read _).bind fun position => (over_relative _ _).bind fun offset => ?_
    refine (RunsOver.read _).bind fun fields => ?_
    apply (over_onTape (over_writeFooter _ _ _)).bind
    intro width
    split
    · exact (over_relative _ _).bind fun _ => (over_writeWord _).bind fun _ => .pure _
    · exact .pure _
  · split
    · exact (over_relative _ _).bind fun _ => .pure _
    · exact .pure _

/-- The hash code goes into room that is there already. -/
theorem over_writeHash (w : ObjectWriter) (dataEnd : Nat) :
    RunsOver Session.growth (w.writeHash dataEnd) := by
  refine (RunsOver.read _).bind fun slice => ?_
  cases slice with
  | none => exact .fault trivial
  | some data => exact over_onTape (Tape.over_patch _ _)

/-- Finishing an object runs over in its footer, or where the object is too long. -/
theorem over_finish (w : ObjectWriter) (userType : Bool) :
    RunsOver Session.growth (w.finish userType) := by
  refine (RunsOver.read _).bind fun config => (RunsOver.read _).bind fun dataEnd => ?_
  apply (over_writeEnding _ _).bind
  intro ending
  refine (RunsOver.read _).bind fun stop => (over_relative _ _).bind fun totalLength => ?_
  apply (over_onTape (Tape.over_patch _ _)).bind
  intro _
  -- The header has its room; from here on only the hash code is left to fill in.
  exact .whenBind (.update _) (.whenBind (over_writeHash _ _) (.pure _))

end ObjectWriter

end ObjectWire
