import ObjectWire.Proofs.ObjectImage
import ObjectWire.Proofs.WriterStack

/-!
# The layout of a finished object

Flags, widths, lengths and offsets of an object are worked out at different moments, and the header is
put into its room last, before data that may hold other objects.  A `Layout` is the object part by part;
`Layout.Agrees` says that its header tells what is there.  The calls on a writer leave all bytes before
its data as they were (`Desk.run_adds`), so in the end name and data stand where they were written, and
finishing the object completes them to a layout whose header agrees (`finish_layout`).
-/

namespace ObjectWire

open ObjectWire.Action Image

/-- The parts of a finished object, in their order on the tape. -/
structure Layout where
  header : Header
  /-- The name of the type as a tagged text, if it stands behind the header. -/
  name : Bytes
  /-- The values of the fields and the raw section. -/
  data : Bytes
  /-- The fields that the footer lists. -/
  fields : List FieldEntry
  /-- Whether the footer leaves out the ids. -/
  compact : Bool
  /-- Where the raw section starts, counted from the start of the object. -/
  raw : Option Int32

namespace Layout

/-- What stands behind the data.  The place of the raw section stands behind a footer only. -/
def tail (l : Layout) : Bytes :=
  if l.fields = [] then [] else footer l.fields l.compact ++ l.raw.elim [] Word.bytes

def bytes (l : Layout) : Bytes := l.header.bytes ++ (l.name ++ l.data ++ l.tail)

/-- An object has a header, and so bytes. -/
theorem bytes_ne_nil (l : Layout) : l.bytes ≠ [] := by simp [bytes, Header.bytes]

/-- The header tells what the object has, and where. -/
structure Agrees (l : Layout) : Prop where
  totalLength : l.header.totalLength.toInt = l.bytes.length
  hasSchema : l.header.flags &&& Flag.hasSchema ≠ 0 ↔ l.fields ≠ []
  hasRaw : l.header.flags &&& Flag.hasRaw ≠ 0 ↔ l.raw.isSome = true
  compactFooter : l.header.flags &&& Flag.compactFooter ≠ 0 ↔ l.compact = true
  width : l.fields ≠ [] → OffsetWidth.ofFlags l.header.flags = footerWidth l.fields
  schemaId : l.fields = [] → l.header.schemaId = 0
  /-- The start of the footer or, without one, of the raw section. -/
  offset : l.header.offset.toInt =
    if l.fields = [] then l.raw.elim 0 Int32.toInt
    else (Header.size + l.name.length + l.data.length : Nat)

end Layout

namespace Move

/-- Whether a move leaves the innermost writer open and all bytes before a place alone. -/
def staysBehind (place : Nat) : Move → Bool
  | .session _ | .call _ => true
  | .patch position _ => place ≤ position
  | .begin _ _ | .finish _ | .drop => false

/-- Where a move begins the raw section of the innermost writer. -/
def rawPlace? (cursor : Nat) : Move → Option Nat
  | .call op => op.rawPlace? cursor
  | .session _ | .patch _ _ | .begin _ _ | .finish _ | .drop => none

end Move

namespace Desk

/-- Where the first of some moves that does so begins the raw section of the innermost writer. -/
def rawPlace? (d : Desk) : List Move → Option Nat
  | [] => none
  | move :: moves => (move.rawPlace? d.session.tape.cursor).or (rawPlace? (d.step move) moves)

/-- A raw section is begun by the first call on it. -/
theorem isSome_rawPlace? (d : Desk) (moves : List Move) :
    (d.rawPlace? moves).isSome = true ↔ ∃ op, Move.call op ∈ moves ∧ op.entersRaw = true := by
  induction moves generalizing d with
  | nil => simp [rawPlace?]
  | cons move moves ih =>
    have hmove : (move.rawPlace? d.session.tape.cursor).isSome = true ↔
        ∃ op, Move.call op = move ∧ op.entersRaw = true := by
      cases move <;> simp [Move.rawPlace?, ObjectOp.rawPlace?]
    rw [rawPlace?, Option.isSome_or, Bool.or_eq_true, hmove, ih]
    simp only [List.mem_cons, or_and_right, exists_or]

/-- Moves that stay behind a place put entries on top of the stack and leave the bytes before the place
    as they were. -/
theorem run_adds {place : Nat} {moves : List Move}
    (h : ∀ move ∈ moves, move.staysBehind place = true) (s : Session) (f : Frame) :
    ∃ s' f' entries, run ⟨s, [f]⟩ moves = ⟨s', [f']⟩ ∧ f'.below = f.below ∧
      OpenObject.Adds place entries false (rawPlace? ⟨s, [f]⟩ moves) ⟨f.writer, s⟩ ⟨f'.writer, s'⟩ := by
  -- The moves add up: fields on top of one another, and the raw section begun by the first that begins it.
  induction moves generalizing s f with
  | nil => exact ⟨s, f, [], rfl, rfl, .nothing place false _⟩
  | cons move moves ih =>
    obtain ⟨hmove, hmoves⟩ := List.forall_mem_cons.mp h
    -- What stays behind the place leaves the innermost writer open.
    have hstep : ∃ s₁ f₁ entries, step ⟨s, [f]⟩ move = ⟨s₁, [f₁]⟩ ∧ f₁.below = f.below ∧
        OpenObject.Adds place entries false (move.rawPlace? s.tape.cursor) ⟨f.writer, s⟩
          ⟨f₁.writer, s₁⟩ := by
      cases move with
      | session op =>
        exact ⟨_, f, [], rfl, rfl, .of_session (WriteM.keeps_runOp WriteM.keeps_writeValue op s) false⟩
      | patch position v =>
        have hplace : place ≤ position := of_decide_eq_true hmove
        exact ⟨_, f, [], rfl, rfl,
          .of_session (WriteM.keeps_onTape (Tape.onward_patch hplace _) s) false⟩
      | call op =>
        have hadds : OpenObject.Adds place _ _ _ _ _ :=
          ObjectM.adds_runOp WriteM.keeps_writeValue op ⟨f.writer, s⟩
        exact ⟨_, f.called s op _, _, rfl, rfl, hadds.weaken⟩
      | begin typeId inlineName => cases hmove
      | finish userType => cases hmove
      | drop => cases hmove
    obtain ⟨s₁, f₁, entries, hstep, hbelow, hadds⟩ := hstep
    obtain ⟨s', f', entries', hrun, hbelow', hadds'⟩ := ih hmoves s₁ f₁
    refine ⟨s', f', entries ++ entries', ?_, hbelow'.trans hbelow, ?_⟩
    · rw [← hrun, ← hstep]
      rfl
    · rw [rawPlace?, hstep]
      exact hadds.append hadds'

end Desk

namespace ObjectWriter

/-- The layout of the object that a writer finishes. -/
def layout (w : ObjectWriter) (fields : FieldStack) (userType compact : Bool) (name data : Bytes)
    (stop : Nat) (hashCode : Int32) : Layout where
  header := w.header fields userType compact (Header.size + name.length + data.length) stop hashCode
  name
  data
  fields := fields.last w.fieldCount
  compact
  raw := w.rawOffset?.map Int32.ofNat

section

variable {w : ObjectWriter} {fields : FieldStack} {userType compact : Bool} {name data : Bytes}
  {stop : Nat} {hashCode : Int32} (hcount : fields.last w.fieldCount = [] ↔ w.fieldCount = 0)

include hcount

/-- What is laid out behind the data is what the writer puts there. -/
theorem tail_layout :
    (w.layout fields userType compact name data stop hashCode).tail = w.tail fields compact := by
  rw [Layout.tail, tail, layout]
  simp only [hcount]
  cases w.rawOffset? <;> rfl

/-- The header agrees with the parts laid out if it tells the object's length, and that is in range. -/
theorem agrees_layout
    (hstop : (w.layout fields userType compact name data stop hashCode).bytes.length = stop)
    (hmax : stop ≤ maxWireLength) :
    (w.layout fields userType compact name data stop hashCode).Agrees := by
  obtain ⟨-, hcompact, hschema, hrawFlag, hwidth⟩ :=
    flags_tell userType compact (w.footerWidth? fields) w.rawStart.isSome rfl
  have hfooter : (w.footerWidth? fields).isSome = true ↔ fields.last w.fieldCount ≠ [] := by
    rw [footerWidth?, ne_eq, hcount]
    split <;> simp [*]
  -- One fact about the header after the other, in the order of `Layout.Agrees`.
  constructor
  · rw [hstop]
    exact toInt_ofNat hmax
  · exact hschema.trans hfooter
  · refine hrawFlag.trans ?_
    rw [layout, rawOffset?, Option.isSome_map, Option.isSome_map]
  · exact hcompact
  · intro hne
    apply hwidth
    rw [footerWidth?, if_neg fun hzero => hne (hcount.mpr hzero)]
    rfl
  · intro hnone
    exact if_pos (hcount.mp hnone)
  · have hfront : Header.size + name.length + data.length ≤ stop := by
      rw [← hstop, Layout.bytes, layout]
      simp only [List.length_append, Header.length_bytes]
      omega
    simp only [layout, header, headerOffset, hcount]
    split
    · rw [rawOffset?]
      cases hstart : w.rawStart with
      | none => rfl
      | some raw => rfl
    · exact toInt_ofNat (Nat.le_trans hfront hmax)

end

/-- The place of the raw section, as it stands in the object. -/
theorem raw_layout {w : ObjectWriter} (fields : FieldStack) (userType compact : Bool)
    (name data : Bytes) (stop : Nat) (hashCode : Int32)
    (hraw : ∀ raw ∈ w.rawStart, w.start ≤ raw ∧ raw - w.start ≤ maxWireLength) :
    (w.layout fields userType compact name data stop hashCode).raw.map Int32.toInt =
      w.rawStart.map (fun place : Nat => (place : Int) - w.start) := by
  rw [layout, rawOffset?, Option.map_map, Option.map_map]
  refine Option.map_congr fun raw hsome => ?_
  obtain ⟨hle, hshort⟩ := hraw raw hsome
  rw [Function.comp_apply, Function.comp_apply, toInt_ofNat hshort]
  omega

end ObjectWriter

/-- Finishing an object lays it out. -/
theorem finish_laid_out {w : ObjectWriter} {t : Tape} {s s' : Session} {hole name data : Bytes}
    {userType : Bool} {written : WrittenObject} (ha : t.Appended s.tape (hole ++ (name ++ data)))
    (hhole : hole.length = Header.size) (hstart : w.start = t.cursor)
    (hdata : w.dataStart = t.cursor + (Header.size + name.length))
    (hcount : s.fields.last w.fieldCount = [] ↔ w.fieldCount = 0)
    (h : (w.finish userType).Yields s written s') :
    ∃ hash,
      let l := w.layout s.fields userType (userType && s.service.config.compactFooter) name data
        (s'.tape.cursor - w.start) hash
      l.Agrees ∧ t.Appended s'.tape l.bytes ∧
        (∀ raw ∈ w.rawStart, w.start ≤ raw ∧ raw - w.start ≤ maxWireLength) ∧
        written = ⟨w.start, l.bytes.length, l.header.schemaId, w.fieldCount⟩ := by
  obtain ⟨-, ha', hmax, hraw, rfl⟩ := finish_laid ha hhole hstart hdata h
  refine ⟨if s.service.config.identityHash then identityHash data else 0, ?_⟩
  intro l
  -- Where the data end, counted from the start of the object.
  have hend : s.tape.cursor - w.start = Header.size + name.length + data.length := by
    rw [ha.cursor, hstart, List.length_append, List.length_append, hhole]
    omega
  have hbytes : t.Appended s'.tape l.bytes := by
    rw [Layout.bytes, ObjectWriter.tail_layout hcount]
    rw [hend] at ha'
    exact ha'
  have hstop : l.bytes.length = s'.tape.cursor - w.start := by
    rw [hbytes.cursor, hstart, Nat.add_sub_cancel_left]
  refine ⟨ObjectWriter.agrees_layout hcount hstop hmax, hbytes, hraw, ?_⟩
  rw [hstop]
  rfl

/-- Before an object is finished there is room for its header, then the name that it was begun with, and
    then its data. -/
theorem begun_appended {s s₁ s₂ : Session} {w w' : ObjectWriter} {typeId : Int32}
    {inlineName : Option String} {entries : List FieldEntry} {raw : Option Nat}
    (hbegin : (ObjectWriter.begin typeId inlineName).Yields s w s₁)
    (hadds : OpenObject.Adds w.dataStart entries false raw ⟨w, s₁⟩ ⟨w', s₂⟩) :
    let name := (inlineName.map (text s.service.registry.static)).elim [] nameBytes
    ∃ hole, hole.length = Header.size ∧ w.start = s.tape.cursor ∧
      w.dataStart = s.tape.cursor + (Header.size + name.length) ∧ s₂.tape.cursor ≤ s₂.tape.capacity ∧
      Tape.Appended { s₂.tape with cursor := s.tape.cursor } s₂.tape
        (hole ++ (name ++ s₂.tape.span w.dataStart (s₂.tape.cursor - w.dataStart))) := by
  intro name
  obtain ⟨hole, ⟨hlaid, hlen, hw⟩, -⟩ := begin_opened hbegin
  have hw : w = _ := hw
  have hstart : w.start = s.tape.cursor := by rw [hw]
  have hdata : w.dataStart = s₁.tape.cursor := by rw [hw]
  have hfront : s₁.tape.cursor = s.tape.cursor + (Header.size + name.length) := by
    rw [hlaid.tape.cursor, List.length_append, hlen]
  obtain ⟨hfresh, -, hroom₁⟩ := ObjectWriter.begin_fresh hbegin
  have hbehind : OpenObject.Behind w.dataStart ⟨w, s₁⟩ := ⟨Nat.le_of_eq hdata, by simp [hfresh]⟩
  obtain ⟨honward, -⟩ := hadds.kept hbehind
  have hroom : s₂.tape.cursor ≤ s₂.tape.capacity := hadds.session.tape.room hroom₁
  -- The name is still there, since nothing before the data has changed.
  have hname : s₂.tape.span (s.tape.cursor + Header.size) name.length = name := by
    have hspan : s₁.tape.span (s.tape.cursor + hole.length) name.length = name := hlaid.tape.span
    rw [hlen] at hspan
    rw [← hspan, Tape.length_span]
    refine Tape.span_congr fun i hi => ?_
    have hlt : s.tape.cursor + Header.size + i < s₁.tape.cursor := by omega
    exact honward.tape.below _ (hdata ▸ hlt) hlt
  have hcursor : s₁.tape.cursor ≤ s₂.tape.cursor := hadds.session.cursor
  have hall := Tape.appended_parts (show s.tape.cursor + (Header.size + name.length) ≤ _ by
    rw [← hfront]
    exact hcursor) hroom
  rw [hname, ← hdata.trans hfront] at hall
  exact ⟨_, Tape.length_span _ _ _, hstart, hdata.trans hfront, hroom, hall⟩

namespace Desk

/-- Whatever was done with a writer since it was begun, whether the calls succeeded or not, and whatever
    was filled in behind its header and name: if it finishes, the object stands on the tape from where it
    was begun up to the cursor, part by part as laid out, with a header that agrees.  Its name is the one
    it was begun with, its data is as it was before, and its footer lists the fields that were accepted.
    It has a raw section if and only if one was begun, from that place on. -/
theorem finish_layout {s s₁ s₂ s' : Session} {w : ObjectWriter} {typeId : Int32}
    {inlineName : Option String} {moves : List Move} {f : Frame} {userType : Bool}
    {written : WrittenObject} (hbegin : (ObjectWriter.begin typeId inlineName).Yields s w s₁)
    (hmoves : ∀ move ∈ moves, move.staysBehind w.dataStart = true)
    (hrun : run ⟨s₁, [⟨w, s.fields, [], true⟩]⟩ moves = ⟨s₂, [f]⟩)
    (hfinish : (f.writer.finish userType).Yields s₂ written s') :
    ∃ l : Layout, l.Agrees ∧
      s'.tape.cursor = s.tape.cursor + l.bytes.length ∧
      s'.tape.slice? s.tape.cursor s'.tape.cursor = some l.bytes ∧
      written = ⟨s.tape.cursor, l.bytes.length, l.header.schemaId, l.fields.length⟩ ∧
      l.header.typeId = (if inlineName.isSome then unregisteredTypeId else typeId) ∧
      l.name = (inlineName.map (text s.service.registry.static)).elim [] nameBytes ∧
      s₂.tape.slice? w.dataStart s₂.tape.cursor = some l.data ∧
      l.fields = f.written ∧
      (l.fields ≠ [] → l.header.schemaId = f.writer.schemaId) ∧
      l.compact = (userType && s.service.config.compactFooter) ∧
      (l.header.flags &&& Flag.userType ≠ 0 ↔ userType = true) ∧
      l.raw.map Int32.toInt = (rawPlace? ⟨s₁, [⟨w, s.fields, [], true⟩]⟩ moves).map
        (fun place : Nat => (place : Int) - s.tape.cursor) ∧
      (l.raw.isSome = true ↔ ∃ op, Move.call op ∈ moves ∧ op.entersRaw = true) := by
  -- What the calls have left behind.
  obtain ⟨s₂, f, entries, hrun', -, hadds⟩ := run_adds hmoves s₁ ⟨w, s.fields, [], true⟩
  obtain ⟨rfl, hf⟩ := Desk.mk.inj (hrun'.symm.trans hrun)
  obtain rfl := List.head_eq_of_cons_eq hf
  have hsound : f.Sound s₂.fields s₂.tape.cursor := by
    have hbegun : Sound ⟨s₁, [⟨w, s.fields, [], true⟩]⟩ := ⟨Frame.sound_begin hbegin, trivial⟩
    have hdesk := hbegun.run moves
    rw [hrun] at hdesk
    exact hdesk.1
  have hcount : s₂.fields.last f.writer.fieldCount = [] ↔ f.writer.fieldCount = 0 := by
    rw [hsound.last, hsound.fieldCount, List.length_eq_zero_iff]
  have hconfig : s₂.service.config = s.service.config := by
    have hbegun : s.Keeps s₁ := (ObjectWriter.keeps_begin typeId inlineName).of_yields hbegin
    exact hadds.session.service.config.trans hbegun.service.config
  obtain ⟨hfresh, -⟩ := ObjectWriter.begin_fresh hbegin
  have hrawStart : f.writer.rawStart = rawPlace? ⟨s₁, [⟨w, s.fields, [], true⟩]⟩ moves := by
    have hbefore : w.rawStart = none := by rw [hfresh]
    rw [hadds.rawStart, hbefore, Option.none_or]
  -- What finishing makes of it.
  obtain ⟨hole, hhole, hstart, hdata, hroom, ha⟩ := begun_appended hbegin hadds
  have hbehind : w.dataStart ≤ s₂.tape.cursor := hadds.dataStart ▸ hsound.data.2
  obtain ⟨hash, hagrees, hbytes, hraw, rfl⟩ :=
    finish_laid_out ha hhole (hadds.start.trans hstart) (hadds.dataStart.trans hdata) hcount hfinish
  have hslice := hbytes.slice?_between (Layout.bytes_ne_nil _)
  refine ⟨_, hagrees, hbytes.cursor, hslice, ?_, ?_, rfl, ?_, hsound.last, ?_, ?_, ?_, ?_, ?_⟩
  · rw [hadds.start, hstart, hsound.fieldCount]
    exact congrArg (WrittenObject.mk _ _ _) (congrArg List.length hsound.last).symm
  · show (if f.writer.registered then f.writer.typeId else unregisteredTypeId) = _
    rw [hadds.registered, hadds.typeId, hfresh]
    cases inlineName <;> rfl
  · have hslice : s₂.tape.slice? w.dataStart (w.dataStart + (s₂.tape.cursor - w.dataStart)) = _ :=
      Tape.slice?_span (by omega)
    rwa [Nat.add_sub_cancel' hbehind] at hslice
  · intro hsome
    exact if_neg fun hzero => hsome (hcount.mpr hzero)
  · show (userType && s₂.service.config.compactFooter) = _
    rw [hconfig]
  · exact (flags_tell userType _ (f.writer.footerWidth? s₂.fields) f.writer.rawStart.isSome rfl).1
  · rw [ObjectWriter.raw_layout _ _ _ _ _ _ _ hraw, hadds.start, hstart, hrawStart]
  · rw [← isSome_rawPlace? ⟨s₁, [⟨w, s.fields, [], true⟩]⟩, ← hrawStart]
    show (f.writer.rawOffset?.map Int32.ofNat).isSome = true ↔ _
    rw [ObjectWriter.rawOffset?, Option.isSome_map, Option.isSome_map]

/-- Calls on one writer: a field, an object inside with a field of its own, a call that fails, a raw
    section with a place left open, and the word for that place. -/
def layoutMoves : List Move := [
  .call (.field "a" (.plain (.int 5))),
  .call (.session [.begin 9 none (some true) [.fieldId 3 (.plain (.bool true))]]),
  .call (.fieldId 97 (.plain (.string "x"))), .call (.raw [.reserve, .i16 2]), .patch 66 (-1)]

/-- The sample session with a writer that was just begun. -/
def layoutStart : Desk where
  session := (ObjectWriter.begin 7 (some "Outer") sampleStart).2
  opened := [⟨⟨0, 34, 7, false, SchemaId.seed, 0, none, []⟩, sampleStart.fields, [], true⟩]

/-- The object that the sample moves make is laid out with one field, its name, and a raw section behind
    that. -/
theorem finish_layout_sample :
    ∃ s' : Session, ∃ l : Layout, l.Agrees ∧ s'.tape.slice? 0 s'.tape.cursor = some l.bytes ∧
      l.fields.map (·.id) = [97] ∧ l.raw.map Int32.toInt = some 66 ∧ l.header.typeId = 0 ∧
      l.name = [9, 5, 0, 0, 0, 79, 117, 116, 101, 114] := by
  have hbegin : (ObjectWriter.begin 7 (some "Outer")).Yields sampleStart
      ⟨0, 34, 7, false, SchemaId.seed, 0, none, []⟩ layoutStart.session :=
    yields_of_toOption (by decide +kernel)
  have hmoves : ∀ move ∈ layoutMoves, move.staysBehind 34 = true := by decide
  have hids : (layoutStart.run layoutMoves).opened.map Frame.ids = [[97]] := by decide +kernel
  have hraw : layoutStart.rawPlace? layoutMoves = some 66 := by decide +kernel
  have hfinish : (layoutStart.run layoutMoves).opened.all (fun f =>
      (f.writer.finish true (layoutStart.run layoutMoves).session).1.toOption.isSome) = true := by
    decide +kernel
  obtain ⟨s₂, f, _, hrun, -, -⟩ := run_adds hmoves layoutStart.session
    ⟨⟨0, 34, 7, false, SchemaId.seed, 0, none, []⟩, sampleStart.fields, [], true⟩
  have hrun : layoutStart.run layoutMoves = ⟨s₂, [f]⟩ := hrun
  rw [hrun] at hids hfinish
  -- The evaluation says that the writer finishes; what it leaves follows from that.
  obtain ⟨written, hwritten⟩ := Option.isSome_iff_exists.mp
    (List.all_eq_true.mp hfinish f (List.mem_singleton_self f))
  obtain ⟨l, hagrees, -, hslice, -, htype, hname, -, hfields, -, -, -, hplace, -⟩ :=
    finish_layout hbegin hmoves hrun (yields_of_toOption hwritten)
  refine ⟨_, l, hagrees, hslice, ?_, hplace.trans ?_, htype, hname⟩
  · rw [hfields]
    exact List.head_eq_of_cons_eq hids
  · have hbegun : rawPlace? ⟨layoutStart.session, _⟩ layoutMoves = some 66 := hraw
    rw [hbegun]
    rfl

end Desk

end ObjectWire
