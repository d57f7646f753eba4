import ObjectWire.Proofs.WriterCalls

/-!
# The stack of open writers

Writers are begun inside one another, and all of them keep their fields on one stack.  A `Desk` is a
session with the writers that are open on it; a `Move` begins a writer, calls the innermost one, or ends
it.  Failures are swallowed: a move leaves behind whatever it did before it failed.

Beside each writer stands what its caller knows of it: the stack from before it was begun, the fields it
accepted and whether all calls kept its schema id up with them (`Frame`).  None of that is read off the
stack, and `Frame.Sound` says that the stack agrees with it.  Under the innermost writer's fields lies
the stack that the writer around it sees again when the innermost one is done, so the invariant is a
chain through the open writers (`Chain`).
-/

namespace ObjectWire

/-- A writer that is open, and what its caller knows of it. -/
structure Frame where
  writer : ObjectWriter
  /-- The stack from before the writer was begun. -/
  below : FieldStack
  /-- The fields that the writer accepted, in order. -/
  written : List FieldEntry
  /-- Whether the schema id kept up with the fields over all calls. -/
  folded : Bool

namespace Frame

/-- The ids of the fields that the writer accepted. -/
def ids (f : Frame) : List Int32 := f.written.map (·.id)

/-- The frame after a call has left its writer as given. -/
def called (f : Frame) (s : Session) (op : ObjectOp) (writer : ObjectWriter) : Frame where
  writer
  below := f.below
  written := f.written ++ f.writer.newFields s f.ids op
  folded := f.folded && op.folds

/-- The stack and the cursor agree with what is known of a writer. -/
structure Sound (f : Frame) (fields : FieldStack) (cursor : Nat) : Prop where
  entries : fields.entries = f.written.reverse ++ f.below.entries
  fieldCount : f.writer.fieldCount = f.written.length
  data : f.writer.start + Header.size ≤ f.writer.dataStart ∧ f.writer.dataStart ≤ cursor
  distinct : f.ids.Nodup
  ordered : f.written.Pairwise fun e e' => e.offset.toNat ≤ e'.offset.toNat
  offsets : ∀ e ∈ f.written, f.writer.dataStart ≤ f.writer.start + e.offset.toNat ∧
    f.writer.start + e.offset.toNat ≤ cursor
  schemaId : f.folded → f.writer.schemaId = SchemaId.ofFields f.ids

namespace Sound

variable {f : Frame} {fields : FieldStack} {cursor : Nat}

/-- The top entries of the stack are the fields that the writer accepted. -/
theorem last (h : f.Sound fields cursor) : fields.last f.writer.fieldCount = f.written := by
  rw [FieldStack.last, h.entries, h.fieldCount, List.take_left' List.length_reverse,
    List.reverse_reverse]

/-- Below them lies the stack from before it was begun. -/
theorem pop (h : f.Sound fields cursor) : fields.pop f.writer.fieldCount = f.below := by
  rw [FieldStack.pop, h.entries, h.fieldCount, List.drop_left' List.length_reverse]

/-- Their ids make up the schema of the object. -/
theorem schema (h : f.Sound fields cursor) :
    fields.schema f.writer.fieldCount = ⟨f.ids⟩ := by
  rw [FieldStack.schema, h.last]
  rfl

/-- A writer that is not called stays sound wherever the cursor goes. -/
theorem forward {cursor' : Nat} (h : f.Sound fields cursor) (hle : cursor ≤ cursor') :
    f.Sound fields cursor' where
  entries := h.entries
  fieldCount := h.fieldCount
  data := ⟨h.data.1, Nat.le_trans h.data.2 hle⟩
  distinct := h.distinct
  ordered := h.ordered
  offsets e he := ⟨(h.offsets e he).1, Nat.le_trans (h.offsets e he).2 hle⟩
  schemaId := h.schemaId

end Sound

end Frame

/-- A call is for no field that is accepted, or for one that is new and starts at the cursor. -/
theorem ObjectWriter.newFields_cases (w : ObjectWriter) (s : Session) (ids : List Int32)
    (op : ObjectOp) :
    w.newFields s ids op = [] ∨ ∃ e, w.newFields s ids op = [e] ∧ e.id ∉ ids ∧
      w.start + e.offset.toNat = s.tape.cursor := by
  unfold newFields
  cases op.fieldId? s.service w.typeId with
  | none => exact Or.inl rfl
  | some id =>
    rw [Option.bind_some, accept?]
    split
    · next h =>
      obtain ⟨-, hnew, hstart, hsize⟩ := h
      refine Or.inr ⟨_, rfl, hnew, ?_⟩
      -- The writer accepted the offset as a word of 32 bits, so it is exact.
      have hoffset : (UInt32.ofNat (s.tape.cursor - w.start)).toNat = s.tape.cursor - w.start :=
        UInt32.toNat_ofNat_of_lt' hsize
      show w.start + (UInt32.ofNat (s.tape.cursor - w.start)).toNat = s.tape.cursor
      omega
    · exact Or.inl rfl

namespace Frame

/-- A call keeps its writer sound, whatever becomes of the call. -/
theorem Sound.call {f : Frame} {s : Session} (h : f.Sound s.fields s.tape.cursor) (op : ObjectOp) :
    let o := (ObjectM.runOp WriteM.writeValue op ⟨f.writer, s⟩).2
    (f.called s op o.writer).Sound o.session.fields o.session.tape.cursor := by
  intro o
  -- The ids that the call looks for on the stack are the ids of the fields accepted so far.
  have hadds : OpenObject.Adds 0 (f.writer.newFields s f.ids op) op.folds
      (op.rawPlace? s.tape.cursor) ⟨f.writer, s⟩ o := by
    have hids : OpenObject.fieldIds ⟨f.writer, s⟩ = f.ids := congrArg Schema.fieldIds h.schema
    rw [← hids]
    exact ObjectM.adds_runOp WriteM.keeps_writeValue op ⟨f.writer, s⟩
  -- From here on only what the call adds matters, not how it ran.
  clear_value o
  have hforward := h.forward hadds.session.cursor
  have hschema : (f.called s op o.writer).folded →
      o.writer.schemaId = SchemaId.ofFields (f.called s op o.writer).ids := by
    intro hfolded
    obtain ⟨hf, hop⟩ := Bool.and_eq_true_iff.mp hfolded
    rw [hadds.schemaId hop, h.schemaId hf]
    simp only [SchemaId.ofFields, called, ids, List.map_append, List.foldl_append]
  have hbelow : o.session.fields.entries =
      (f.called s op o.writer).written.reverse ++ f.below.entries := by
    rw [hadds.fields, h.entries, called, List.reverse_append, List.append_assoc]
  have hcount : o.writer.fieldCount = (f.called s op o.writer).written.length := by
    rw [hadds.fieldCount, h.fieldCount, called, List.length_append]
  have hdata : o.writer.start + Header.size ≤ o.writer.dataStart ∧
      o.writer.dataStart ≤ o.session.tape.cursor := by
    rw [hadds.start, hadds.dataStart]
    exact hforward.data
  obtain hnone | ⟨e, hsome, hnew, hplace⟩ := f.writer.newFields_cases s f.ids op
  · have hwritten : (f.called s op o.writer).written = f.written := by
      rw [called, hnone, List.append_nil]
    refine ⟨hbelow, hcount, hdata, ?_, ?_, ?_, hschema⟩
    · rw [ids, hwritten]
      exact h.distinct
    · rw [hwritten]
      exact h.ordered
    · rw [hwritten, called, hadds.start, hadds.dataStart]
      exact hforward.offsets
  · have hwritten : (f.called s op o.writer).written = f.written ++ [e] := by
      rw [called, hsome]
    refine ⟨hbelow, hcount, hdata, ?_, ?_, ?_, hschema⟩
    · -- The new id is none of those before.
      rw [ids, hwritten, List.map_append, List.nodup_append]
      refine ⟨h.distinct, List.pairwise_singleton .., fun id hid id' hid' heq => hnew ?_⟩
      have hsame : id' = e.id := List.mem_singleton.mp hid'
      rwa [heq, hsame] at hid
    · -- The fields before start where the cursor was or before that.
      rw [hwritten, List.pairwise_append]
      refine ⟨h.ordered, List.pairwise_singleton .., fun e' he' e'' he'' => ?_⟩
      rw [List.mem_singleton.mp he'']
      have hle := (h.offsets e' he').2
      omega
    · -- The new field starts at the old cursor, and that is behind the start of the data.
      rw [hwritten, called, hadds.start, hadds.dataStart]
      intro e' he'
      obtain he' | he' := List.mem_append.mp he'
      · exact hforward.offsets e' he'
      · rw [List.mem_singleton.mp he', hplace]
        exact ⟨h.data.2, hadds.session.cursor⟩

/-- A writer that is begun is sound, and has the stack from before it below. -/
theorem sound_begin {typeId : Int32} {inlineName : Option String} {s s' : Session}
    {w : ObjectWriter} (h : (ObjectWriter.begin typeId inlineName).Yields s w s') :
    (Frame.mk w s.fields [] true).Sound s'.fields s'.tape.cursor := by
  obtain ⟨rfl, hdata, -⟩ := ObjectWriter.begin_fresh h
  -- The writer begins with no fields, so the whole stack is below it.
  have hkeeps : Session.Keeps s s' := (ObjectWriter.keeps_begin typeId inlineName).of_yields h
  exact {
    entries := congrArg FieldStack.entries hkeeps.fields
    fieldCount := rfl
    data := ⟨hdata, Nat.le_refl _⟩
    distinct := .nil
    ordered := .nil
    offsets := fun _ he => absurd he List.not_mem_nil
    schemaId := fun _ => rfl }

end Frame

/-- The innermost writer is sound for the stack as it is, and each writer around another for the stack
    from before that one was begun. -/
def Chain : List Frame → FieldStack → Nat → Prop
  | [], _, _ => True
  | f :: rest, fields, cursor => f.Sound fields cursor ∧ Chain rest f.below cursor

/-- A cursor that moved on is no matter to the writers below. -/
theorem Chain.forward {opened : List Frame} {fields : FieldStack} {cursor cursor' : Nat}
    (h : Chain opened fields cursor) (hle : cursor ≤ cursor') : Chain opened fields cursor' := by
  induction opened generalizing fields with
  | nil => trivial
  | cons f rest ih => exact ⟨h.1.forward hle, ih h.2⟩

/-- A session with the writers that are open on it, the innermost first. -/
structure Desk where
  session : Session
  opened : List Frame

/-- What can be done next at a desk. -/
inductive Move where
  /-- A call on the session, whatever writers are open on it. -/
  | session (op : SessionOp)
  /-- A word for four bytes anywhere on the tape. -/
  | patch (position : Nat) (v : Int32)
  /-- A writer inside the innermost one. -/
  | begin (typeId : Int32) (inlineName : Option String)
  /-- A call on the innermost writer. -/
  | call (op : ObjectOp)
  /-- The innermost writer finishes its object, as a user type or a system type. -/
  | finish (userType : Bool)
  /-- The innermost writer leaves its object unfinished. -/
  | drop

namespace Move

/-- Whether a move ends the innermost writer. -/
def ends : Move → Bool
  | .finish _ | .drop => true
  | .session _ | .patch _ _ | .begin _ _ | .call _ => false

end Move

namespace Desk

/-- The desk after a move, whether the move succeeds or not.  A writer that is finished or dropped takes
    its fields off the stack. -/
def step (d : Desk) : Move → Desk
  | .session op => { d with session := (WriteM.runOp WriteM.writeValue op d.session).2 }
  | .patch position v =>
    { d with session := (WriteM.onTape (Tape.patch position (Word.bytes v)) d.session).2 }
  | .begin typeId inlineName =>
    match ObjectWriter.begin typeId inlineName d.session with
    | (.ok writer, session) => ⟨session, ⟨writer, d.session.fields, [], true⟩ :: d.opened⟩
    | (.error _, session) => { d with session }
  | .call op =>
    match d.opened with
    | [] => d
    | f :: rest =>
      match ObjectM.runOp WriteM.writeValue op ⟨f.writer, d.session⟩ with
      | (_, ⟨writer, session⟩) => ⟨session, f.called d.session op writer :: rest⟩
  | .finish userType =>
    match d.opened with
    | [] => d
    | f :: rest => ⟨f.writer.release (f.writer.finish userType d.session).2, rest⟩
  | .drop =>
    match d.opened with
    | [] => d
    | f :: rest => ⟨f.writer.release d.session, rest⟩

/-- The desk after one move after the other. -/
def run (d : Desk) (moves : List Move) : Desk := moves.foldl step d

/-- The stack and the cursor agree with what is known of all open writers. -/
def Sound (d : Desk) : Prop := Chain d.opened d.session.fields d.session.tape.cursor

/-- A step of the session that keeps the fields keeps the desk sound. -/
theorem Sound.keeps {d : Desk} (h : d.Sound) {s : Session} (hs : d.session.Keeps s) :
    Sound { d with session := s } := by
  have hchain := Chain.forward h hs.cursor
  rwa [← hs.fields] at hchain

/-- The innermost writer, when it is done, leaves the stack as it was when the writer was begun. -/
theorem Sound.release {s : Session} {f : Frame} {rest : List Frame}
    (h : Sound ⟨s, f :: rest⟩) {s' : Session} (hs : s.Keeps s') :
    (f.writer.release s').fields = f.below ∧ Sound ⟨f.writer.release s', rest⟩ := by
  obtain ⟨hf, hrest⟩ := h.keeps hs
  have hfields : (f.writer.release s').fields = f.below := hf.pop
  refine ⟨hfields, ?_⟩
  -- The writer around it is sound for that stack already.
  show Chain rest (f.writer.release s').fields s'.tape.cursor
  rw [hfields]
  exact hrest

/-- Every move keeps the desk sound. -/
theorem Sound.step {d : Desk} (h : d.Sound) (move : Move) : (d.step move).Sound := by
  obtain ⟨s, opened⟩ := d
  cases move with
  | session op => exact h.keeps (WriteM.keeps_runOp WriteM.keeps_writeValue op s)
  | patch position v => exact h.keeps (WriteM.keeps_onTape (Tape.onward_patch (Nat.zero_le _) _) s)
  | begin typeId inlineName =>
    have hkeeps : s.Keeps _ := ObjectWriter.keeps_begin typeId inlineName s
    unfold Desk.step
    simp only
    -- A writer that fails to begin may leave bytes behind, but no fields.
    cases hbegin : ObjectWriter.begin typeId inlineName s with
    | mk result s' =>
      rw [hbegin] at hkeeps
      cases result with
      | error e => exact h.keeps hkeeps
      | ok w => exact ⟨Frame.sound_begin hbegin, Chain.forward h hkeeps.cursor⟩
  | call op =>
    cases opened with
    | nil => exact h
    | cons f rest =>
      -- The writers around this one have their fields below those of this one.
      have hadds : OpenObject.Adds 0 _ _ _ _ _ :=
        ObjectM.adds_runOp WriteM.keeps_writeValue op ⟨f.writer, s⟩
      exact ⟨h.1.call op, h.2.forward hadds.session.cursor⟩
  | finish userType =>
    cases opened with
    | nil => exact h
    | cons f rest => exact (h.release (ObjectWriter.keeps_finish f.writer userType s)).2
  | drop =>
    cases opened with
    | nil => exact h
    | cons f rest => exact (h.release (refl_of Session.Keeps s)).2

/-- A desk that is sound stays so over all its moves. -/
theorem Sound.run {d : Desk} (h : d.Sound) (moves : List Move) : (d.run moves).Sound := by
  induction moves generalizing d with
  | nil => exact h
  | cons move moves ih => exact ih (h.step move)

/-- A move goes on from where the session was. -/
theorem onward_step (d : Desk) (move : Move) : d.session.Onward 0 (d.step move).session := by
  obtain ⟨s, opened⟩ := d
  -- Writers that are finished or dropped take their fields off the stack and nothing off the tape.
  cases move with
  | session op => exact (WriteM.keeps_runOp WriteM.keeps_writeValue op s).toOnward
  | patch position v =>
    exact (WriteM.keeps_onTape (Tape.onward_patch (Nat.zero_le _) _) s).toOnward
  | begin typeId inlineName =>
    have hkeeps : s.Keeps _ := ObjectWriter.keeps_begin typeId inlineName s
    unfold Desk.step
    simp only
    generalize ObjectWriter.begin typeId inlineName s = result at hkeeps
    obtain ⟨e | w, s'⟩ := result
    all_goals exact hkeeps.toOnward
  | call op =>
    cases opened with
    | nil => exact .refl 0 s
    | cons f rest =>
      have hadds : OpenObject.Adds 0 _ _ _ _ _ :=
        ObjectM.adds_runOp WriteM.keeps_writeValue op ⟨f.writer, s⟩
      exact hadds.session
  | finish userType =>
    cases opened with
    | nil => exact .refl 0 s
    | cons f rest => exact (ObjectWriter.keeps_finish f.writer userType s).toOnward.of_fields _
  | drop =>
    cases opened with
    | nil => exact .refl 0 s
    | cons f rest => exact Session.Onward.of_fields (.refl 0 s) _

/-- All moves go onward. -/
theorem onward_run (d : Desk) (moves : List Move) : d.session.Onward 0 (d.run moves).session := by
  induction moves generalizing d with
  | nil => exact .refl 0 d.session
  | cons move moves ih => exact (onward_step d move).trans (ih (d.step move))

/-- The cursor is inside the storage while a writer is open. -/
def Roomy (d : Desk) : Prop := d.opened ≠ [] → d.session.tape.cursor ≤ d.session.tape.capacity

/-- A move leaves the cursor within the tape. -/
theorem Roomy.step {d : Desk} (h : d.Roomy) (move : Move) : (d.step move).Roomy := by
  intro hopen
  by_cases hbefore : d.opened = []
  · -- The first writer has made room for its header.
    obtain ⟨s, opened⟩ := d
    obtain rfl : opened = [] := hbefore
    cases move with
    | begin typeId inlineName =>
      unfold Desk.step at hopen ⊢
      simp only at hopen ⊢
      cases hbegin : ObjectWriter.begin typeId inlineName s with
      | mk result s' =>
        rw [hbegin] at hopen
        cases result with
        | error e => exact absurd rfl hopen
        | ok w => exact (ObjectWriter.begin_fresh hbegin).2.2
    | session op => exact absurd rfl hopen
    | patch position v => exact absurd rfl hopen
    | call op => exact absurd rfl hopen
    | finish userType => exact absurd rfl hopen
    | drop => exact absurd rfl hopen
  · exact (onward_step d move).tape.room (h hbefore)

/-- So do any number of moves. -/
theorem Roomy.run {d : Desk} (h : d.Roomy) (moves : List Move) : (d.run moves).Roomy := by
  induction moves generalizing d with
  | nil => exact h
  | cons move moves ih => exact ih (h.step move)

/-- Whatever was done at a desk before, whether it succeeded or not, the innermost writer counts just
    the fields that it accepted: they lie on top of the stack, with what was there before the writer was
    begun below them.  Their ids are distinct, their offsets never fall and lie behind the header, and
    the schema of so many fields is that of their ids, with the writer's schema id for its id if that
    kept up.  Ending the writer brings back the stack from before it. -/
theorem run_innermost (s : Session) (moves : List Move) {f : Frame} {rest : List Frame}
    (h : (run ⟨s, []⟩ moves).opened = f :: rest) :
    f.writer.fieldCount = f.written.length ∧
      (run ⟨s, []⟩ moves).session.fields.last f.writer.fieldCount = f.written ∧
      (run ⟨s, []⟩ moves).session.fields.pop f.writer.fieldCount = f.below ∧
      f.ids.Nodup ∧
      (f.written.Pairwise fun e e' => e.offset.toNat ≤ e'.offset.toNat) ∧
      (∀ e ∈ f.written, f.writer.dataStart - f.writer.start ≤ e.offset.toNat) ∧
      (run ⟨s, []⟩ moves).session.fields.schema f.writer.fieldCount = ⟨f.ids⟩ ∧
      (f.folded → f.writer.schemaId =
        ((run ⟨s, []⟩ moves).session.fields.schema f.writer.fieldCount).id) ∧
      ∀ move : Move, move.ends →
        ((run ⟨s, []⟩ moves).step move).opened = rest ∧
        ((run ⟨s, []⟩ moves).step move).session.fields = f.below := by
  have hempty : Sound ⟨s, []⟩ := trivial
  have hsound := hempty.run moves
  -- All that the run leaves behind is a sound desk.
  generalize run ⟨s, []⟩ moves = d at h hsound ⊢
  obtain ⟨s', opened⟩ := d
  subst h
  obtain ⟨hf, hrest⟩ := hsound
  refine ⟨hf.fieldCount, hf.last, hf.pop, hf.distinct, hf.ordered, fun e he => ?_, hf.schema, ?_, ?_⟩
  · have hoffset := (hf.offsets e he).1
    omega
  · intro hfolded
    rw [hf.schema]
    exact hf.schemaId hfolded
  · intro move hends
    cases move with
    | session op => cases hends
    | patch position v => cases hends
    | begin typeId inlineName => cases hends
    | call op => cases hends
    | finish userType =>
      have hkeeps := ObjectWriter.keeps_finish f.writer userType s'
      exact ⟨rfl, (Sound.release ⟨hf, hrest⟩ hkeeps).1⟩
    | drop => exact ⟨rfl, (Sound.release ⟨hf, hrest⟩ (refl_of Session.Keeps s')).1⟩

/-- A session inside an object that has one field, with one type whose fields have ids. -/
def sampleStart : Session where
  tape := Tape.new .heap 16
  fields := FieldStack.push {} 7 40
  service := { registry := { Registry.new { initialCapacity := 16 } with mapped := [7] } }
  handles := .empty
  graph := {}
  journal := []

/-- A writer refuses a field that it has, is left for a writer inside it that is dropped, and accepts a
    field whose value cannot be written. -/
def sampleMoves : List Move := [
  .begin 7 (some "Outer"), .call (.field "a" (.plain (.int 5))), .call (.field "A" .null),
  .begin 9 none, .call (.fieldIdUnfolded 3 (.plain (.string "x"))), .call (.raw [.i16 2]), .drop,
  .call (.fieldId 12 (.ref 4))]

theorem run_innermost_sample :
    ∃ f, (run ⟨sampleStart, []⟩ sampleMoves).opened = [f] ∧ f.ids = [97, 12] ∧
      (run ⟨sampleStart, []⟩ sampleMoves).session.fields.last 2 = f.written ∧
      f.writer.schemaId = (Schema.mk [97, 12]).id ∧
      ((run ⟨sampleStart, []⟩ sampleMoves).step .drop).session.fields = sampleStart.fields := by
  have hopened : (run ⟨sampleStart, []⟩ sampleMoves).opened.map
      (fun f => (f.ids, f.below, f.folded)) = [([97, 12], sampleStart.fields, true)] := by
    decide +kernel
  obtain ⟨f, rest, hf, hknown, hrest⟩ := List.map_eq_cons_iff.mp hopened
  obtain ⟨hids, hknown⟩ := Prod.mk.inj hknown
  obtain ⟨hbelow, hfolded⟩ := Prod.mk.inj hknown
  rw [List.map_eq_nil_iff.mp hrest] at hf
  -- The evaluation says which ids were accepted; what the stack holds follows from them.
  obtain ⟨hcount, hlast, -, -, -, -, hschema, hid, hends⟩ := run_innermost sampleStart sampleMoves hf
  have htwo : f.written.length = 2 := by
    rw [← List.length_map (·.id)]
    exact congrArg List.length hids
  rw [hcount, htwo] at hlast
  refine ⟨f, hf, hids, hlast, ?_, (hends .drop rfl).2.trans hbelow⟩
  rw [hid hfolded, hschema, hids]

end Desk

end ObjectWire
