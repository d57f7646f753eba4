import ObjectWire.Proofs.Regular
import ObjectWire.Proofs.Refusals

/-!
# Writes stay in range

A write counts on several things about places: the bytes it puts on the tape have room, the header it
fills in lies in the storage, what it hashes is there, and the places it takes differences of come in
that order.  All of them hold as long as the cursor is inside the storage and every place that was kept
lies behind it or at it (`Session.Fits`, `OpenObject.Fits`).  Every step keeps to that, so no step goes
out of range.

Two more reasons to stop depend on how far the tape reaches.  An offset that does not fit its slot is
farther from its object's start than a tape that doubles can reach.  And values nested too deeply would
have put more bytes on the tape than it can hold, since each level puts at least one there before it
goes on to the next (`WriteM.halts_writeDepth`).
-/

namespace ObjectWire

open ObjectWire.Action

/-- The values inside a node.  Those that an object writes by its program are not in the node. -/
def Node.values : Node → List Value
  | .object (.dynamic o) => o.fields.map (·.2)
  | .object (.programmed _) => []
  | .array _ items | .collection _ items => items
  | .map _ entries => entries.flatMap fun (k, v) => [k, v]
  | .proxy _ handler => [handler]

namespace Graph

/-- The node that a value refers to is in the graph. -/
def Has (g : Graph) : Value → Prop
  | .ref node => node < g.size
  | .plain _ | .enum _ | .enumArray _ _ | .binaryEnum _ | .classRef _ => True

/-- The nodes refer to nodes of the graph only. -/
def Closed (g : Graph) : Prop := ∀ n ∈ g.nodes.toList, ∀ v ∈ n.values, g.Has v

instance (g : Graph) : DecidablePred g.Has
  | .ref node => inferInstanceAs (Decidable (node < g.size))
  | .plain _ | .enum _ | .enumArray _ _ | .binaryEnum _ | .classRef _ =>
    inferInstanceAs (Decidable True)

instance (g : Graph) : Decidable g.Closed :=
  inferInstanceAs (Decidable (∀ n ∈ g.nodes.toList, ∀ v ∈ n.values, g.Has v))

/-- A reference that a graph has leads to a node. -/
theorem Has.node? {g : Graph} {node : NodeId} (h : g.Has (.ref node)) : ∃ n, g.node? node = some n :=
  ⟨_, Array.getElem?_eq_getElem h⟩

/-- The values inside a node of a closed graph are all values that the graph has. -/
theorem Closed.values {g : Graph} (h : g.Closed) {node : NodeId} {n : Node}
    (hn : g.node? node = some n) : ∀ v ∈ n.values, g.Has v :=
  h n (Array.mem_toList_iff.mpr (Array.mem_of_getElem? hn))

end Graph

namespace Session

/-- The session is in range.  It has the nodes of a graph, it has seen nodes behind the cursor only, the
    cursor is inside the storage and not before a place, and the storage can reach up to a limit. -/
structure Fits (g : Graph) (limit place : Nat) (s : Session) : Prop where
  graph : g.Extends s.graph
  handles : s.HandlesBehind
  room : s.tape.cursor ≤ s.tape.capacity
  capacity : s.tape.capacity ≤ limit
  growth : s.tape.growth.largest ≤ limit
  place : place ≤ s.tape.cursor

/-- Why a write may stop: for an error that its caller is told, about a place on the tape only if the
    tape reaches beyond the offsets of the wire; and for too deep nesting only beyond a bottom. -/
def Halts (limit bottom : Nat) : Stop → Session → Prop
  | .error cause, _ => limit ≤ maxWireLength → ¬ cause.Misplaces
  | .outOfRange, _ => False
  | .tooDeep, s => bottom ≤ s.tape.cursor

variable {g : Graph} {limit bottom place : Nat} {s s' : Session}

/-- A session that goes on stays within its limits. -/
theorem Fits.onward {p : Nat} (h : s.Fits g limit place) (hs : s.Onward p s') :
    s'.Fits g limit place where
  graph := h.graph.trans hs.graph
  handles := hs.handles h.handles
  room := hs.tape.room h.room
  capacity := Nat.le_trans hs.tape.bounded (Nat.max_le.mpr ⟨h.capacity, h.growth⟩)
  growth := hs.tape.growth ▸ h.growth
  place := Nat.le_trans h.place hs.cursor

/-- A step that goes on from the cursor leaves the session in range. -/
theorem Fits.kept {α : Type} {x : WriteM α} {a : α} (h : s.Fits g limit place)
    (hx : Within Keeps x) (hrun : x.Yields s a s') : s'.Fits g limit place :=
  have hkept : s.Keeps s' := hx.of_yields hrun
  h.onward hkept.toOnward

/-- The cursor is not beyond the limit. -/
theorem Fits.cursor_le (h : s.Fits g limit place) : s.tape.cursor ≤ limit :=
  Nat.le_trans h.room h.capacity

/-- A step that puts a byte on the tape. -/
theorem Fits.advance {p : Nat} (h : s.Fits g limit place) (hs : s.Onward p s')
    (hlt : s.tape.cursor < s'.tape.cursor) : s'.Fits g limit (place + 1) :=
  { h.onward hs with place := Nat.lt_of_le_of_lt h.place hlt }

/-- A refusal is a reason to stop that the caller is told. -/
theorem halts_of_refuses {α : Type} {x : WriteM α} (h : x.Refuses) :
    x.StopsIn (Halts limit bottom) s := by
  refine (h s).mono fun e s' hrefusal => ?_
  cases e with
  | error cause => exact fun _ => hrefusal.1
  | outOfRange => exact hrefusal
  | tooDeep => exact hrefusal.elim

/-- A step that stops in no way of its own, and what comes behind it in range. -/
theorem halts_bind {α β : Type} {x : WriteM α} {f : α → WriteM β} (h : s.Fits g limit place)
    (hx : x.Refuses) (hkeeps : Within Keeps x)
    (hf : ∀ {a s₁}, s₁.Fits g limit place → (f a).StopsIn (Halts limit bottom) s₁) :
    (x >>= f).StopsIn (Halts limit bottom) s :=
  (halts_of_refuses hx).bind fun hrun => hf (h.kept hkeeps hrun)

/-- Bytes put on the tape. -/
theorem Fits.put {n : Nat} {bs : Bytes} (h : s.Fits g limit place) (hne : bs ≠ [])
    (hrun : (WriteM.onTape (Tape.reserve n >>= fun _ => Tape.put bs)).Yields s () s') :
    s'.Fits g limit (place + 1) := by
  have hkeeps : s.Keeps s' := Within.of_yields
    (WriteM.keeps_onTape ((Tape.onward_reserve n).bind fun _ => Tape.onward_put bs)) hrun
  obtain ⟨t, ht, rfl⟩ := (WriteM.yields_onTape ..).mp hrun
  refine h.advance hkeeps.toOnward ?_
  show s.tape.cursor < t.cursor
  rw [(Tape.reserve_put_appended ht).cursor]
  exact Nat.lt_add_of_pos_right (List.length_pos_iff.mpr hne)

/-- An error other than that of a length or an offset. -/
theorem halts_error {e : Error} (h : ∀ detail, e ≠ .tooLarge detail) :
    Halts limit bottom (.error e) s :=
  fun _ => Error.not_misplaces h

end Session

namespace WriteM

open Session

variable {g : Graph} {limit bottom place : Nat} {s s' : Session}

/-- What lies within reach of the tape fits its slot, if that is not beyond the offsets of the wire. -/
theorem halts_measure {what : String} {n : Nat} (h : n ≤ limit) :
    (ofExcept (wireLength what n) : WriteM Int32).StopsIn (Halts limit bottom) s := by
  refine .ofExcept fun cause herror hlimit => ?_
  have hlarge := (Error.wireLength_error herror).1
  omega

/-- Between places in order there is a distance. -/
theorem halts_distance {start stop : Nat} (h : start ≤ stop) :
    (distance start stop).StopsIn (Halts limit bottom) s := by
  rw [distance, if_pos h]
  exact .pure _

/-- A handle leads back to a place behind the cursor. -/
theorem halts_writeHandle (h : s.Fits g limit place) (node : NodeId) :
    (writeHandle node).StopsIn (Halts limit bottom) s := by
  refine StopsIn.bind (.read _) fun hposition => ?_
  obtain ⟨rfl, rfl⟩ := (yields_position ..).mp hposition
  refine StopsIn.bind (fun _ _ hrun => nomatch hrun) fun {seen s₁} hput => ?_
  cases seen with
  | none => exact .pure _
  | some first =>
    -- The place that the table tells is one that was recorded, and so not beyond the cursor.
    have hfirst : first ≤ s.tape.cursor := by
      refine h.handles node first ?_
      rw [← HandleTable.put_fst]
      exact Except.ok.inj (congrArg Prod.fst hput)
    refine (halts_distance hfirst).bind fun {delta s₂} hdelta => ?_
    obtain ⟨⟨-, rfl⟩, rfl⟩ := (yields_distance ..).mp hdelta
    have hreach : s.tape.cursor - first ≤ limit := Nat.le_trans (Nat.sub_le _ _) h.cursor_le
    refine (halts_measure hreach).bind fun _ => ?_
    exact (halts_of_refuses (stopsOnly_onTape Encode.short_tagged.refuses)).bind fun _ => .pure _

end WriteM

/-- The object's writer is in range: the room for its header lies before its data, and the data and the
    raw section do not start behind the cursor. -/
structure OpenObject.Fits (g : Graph) (limit place : Nat) (o : OpenObject) : Prop where
  session : o.session.Fits g limit place
  header : o.writer.start + Header.size ≤ o.writer.dataStart
  data : o.writer.dataStart ≤ o.session.tape.cursor
  raw : ∀ raw ∈ o.writer.rawStart, o.writer.start ≤ raw ∧ raw ≤ o.session.tape.cursor

/-- Why a write inside an object may stop. -/
def OpenObject.Halts (limit bottom : Nat) (e : Stop) (o : OpenObject) : Prop :=
  o.session.Halts limit bottom e

/-- A writer that was in range is so still. -/
def OpenObject.StaysFit (o o' : OpenObject) : Prop :=
  ∀ g limit place, o.Fits g limit place → o'.Fits g limit place

instance : IsPreorder OpenObject OpenObject.StaysFit where
  refl _ _ _ _ h := h
  trans _ _ _ h h' g limit place hfits := h' g limit place (h g limit place hfits)

namespace OpenObject

variable {g : Graph} {limit place : Nat} {o o' : OpenObject}

/-- An object starts before the cursor. -/
theorem Fits.start_le (h : o.Fits g limit place) : o.writer.start ≤ o.session.tape.cursor :=
  Nat.le_trans (Nat.le_trans (Nat.le_add_right _ _) h.header) h.data

/-- A call that begins the raw section begins it at the cursor at the earliest. -/
theorem Adds.staysFit {p : Nat} {entries : List FieldEntry} {folds : Bool} {raw : Option Nat}
    (h : Adds p entries folds raw o o')
    (hraw : ∀ raw' ∈ raw, o.session.tape.cursor ≤ raw' ∧ raw' ≤ o'.session.tape.cursor) :
    o.StaysFit o' := by
  intro g limit place hfits
  refine ⟨hfits.session.onward h.session, ?_, ?_, fun raw' hraw' => ?_⟩
  · rw [h.start, h.dataStart]
    exact hfits.header
  · rw [h.dataStart]
    exact Nat.le_trans hfits.data h.session.cursor
  · rw [h.rawStart] at hraw'
    rw [h.start]
    obtain hold | ⟨-, hnew⟩ := Option.or_eq_some_iff.mp hraw'
    · obtain ⟨hle, hcursor⟩ := hfits.raw raw' hold
      exact ⟨hle, Nat.le_trans hcursor h.session.cursor⟩
    · obtain ⟨hle, hcursor⟩ := hraw raw' hnew
      exact ⟨Nat.le_trans hfits.start_le hle, hcursor⟩

/-- A step that begins no raw section keeps the object within its limits. -/
theorem Adds.staysFit_of_none {p : Nat} {entries : List FieldEntry} {folds : Bool}
    (h : Adds p entries folds none o o') : o.StaysFit o' :=
  h.staysFit fun _ hnone => (Option.not_mem_none _ hnone).elim

/-- A writer that was just begun is in range, and its header is on the tape. -/
theorem fits_begin {typeId : Int32} {inlineName : Option String} {s s' : Session} {w : ObjectWriter}
    (h : s.Fits g limit place) (hbegin : (ObjectWriter.begin typeId inlineName).Yields s w s') :
    OpenObject.Fits g limit (place + 1) ⟨w, s'⟩ := by
  have hkeeps : s.Keeps s' := (ObjectWriter.keeps_begin typeId inlineName).of_yields hbegin
  obtain ⟨rfl, hheader, -⟩ := ObjectWriter.begin_fresh hbegin
  have hlt : s.tape.cursor < s'.tape.cursor :=
    Nat.lt_of_lt_of_le (Nat.lt_add_of_pos_right (by decide)) hheader
  exact ⟨h.advance hkeeps.toOnward hlt, hheader, Nat.le_refl _,
    fun _ hnone => (Option.not_mem_none _ hnone).elim⟩

end OpenObject

namespace ObjectM

open OpenObject WriteM

variable {g : Graph} {limit bottom place : Nat} {o : OpenObject}

/-- A step of the session stops in an object as it does outside. -/
theorem halts_inSession {α : Type} {x : WriteM α}
    (h : x.StopsIn (Session.Halts limit bottom) o.session) :
    (inSession x).StopsIn (Halts limit bottom) o :=
  .part (fun session => { o with session }) rfl h

/-- The offset of a field fits 32 bits. -/
theorem halts_pushField (h : o.Fits g limit place) (id : Int32) (fold : Bool) :
    (pushField id fold).StopsIn (Halts limit bottom) o := by
  refine StopsIn.bind (.read _) fun hwriter => ?_
  obtain ⟨rfl, rfl⟩ := (yields_writer ..).mp hwriter
  refine .guard (fun _ => Session.halts_error fun _ => by simp) fun _ => ?_
  refine StopsIn.bind (.read _) fun hread => ?_
  obtain ⟨rfl, rfl⟩ := (yields_read ..).mp hread
  refine .guard (fun _ => Session.halts_error fun _ => by simp) fun _ => ?_
  have hmeasure : (inSession (do distance o.writer.start (← position))).StopsIn
      (Halts limit bottom) o := by
    refine halts_inSession (StopsIn.bind (.read _) fun hposition => ?_)
    obtain ⟨rfl, rfl⟩ := (yields_position ..).mp hposition
    exact halts_distance h.start_le
  refine hmeasure.bind fun {offset o₁} hoffset => ?_
  simp only [yields_inSession, yields_bind, yields_position, yields_distance] at hoffset
  obtain ⟨_, ⟨_, _, ⟨rfl, rfl⟩, ⟨-, rfl⟩, rfl⟩, rfl⟩ := hoffset
  refine .guard (fun hlarge hlimit => ?_) fun _ => StopsIn.bind (.update _) fun _ => .update _
  -- The cursor would be farther out than the tape reaches.
  have hreach := h.session.cursor_le
  have hsize : UInt32.size = 4294967296 := rfl
  have hmax : maxWireLength = 2147483647 := rfl
  omega

/-- A field is begun at a distance from its object that 32 bits can hold. -/
theorem halts_beginField (h : o.Fits g limit place) (name : String) :
    (beginField name).StopsIn (Halts limit bottom) o := by
  refine StopsIn.bind (.read _) fun hwriter => ?_
  obtain ⟨rfl, rfl⟩ := (yields_writer ..).mp hwriter
  refine .guard (fun _ => Session.halts_error fun _ => by simp) fun _ => ?_
  refine StopsIn.bind (.read _) fun hread => ?_
  obtain ⟨hid, rfl⟩ := (yields_read ..).mp hread
  split
  · exact halts_pushField h _ true
  · exact .fail (Session.halts_error fun _ => by simp)

end ObjectM

namespace ObjectWriter

open Session WriteM

variable {g : Graph} {limit bottom place : Nat} {w : ObjectWriter} {s : Session}

/-- A place behind the start and up to the limit is one that the wire can tell. -/
theorem halts_relative {p : Nat} (h : w.start ≤ p) (hp : p ≤ limit) :
    (w.relative p).StopsIn (Halts limit bottom) s := by
  refine (halts_distance h).bind fun {n s₁} hn => ?_
  obtain ⟨⟨-, rfl⟩, rfl⟩ := (yields_distance ..).mp hn
  exact halts_measure (Nat.le_trans (Nat.sub_le _ _) hp)

/-- What follows the data tells places inside the object, so no distance is refused. -/
theorem halts_writeEnding (h : OpenObject.Fits g limit place ⟨w, s⟩) (compact : Bool) :
    (w.writeEnding compact).StopsIn (Halts limit bottom) s := by
  -- The raw section starts within the object, if it was begun.
  have hraw : ∀ {s' : Session} (raw : Nat), w.rawStart = some raw →
      (w.relative raw).StopsIn (Halts limit bottom) s' :=
    fun raw hsome => halts_relative (h.raw raw hsome).1
      (Nat.le_trans (h.raw raw hsome).2 h.session.cursor_le)
  unfold writeEnding
  split
  · refine StopsIn.bind (.read _) fun hposition => ?_
    obtain ⟨rfl, rfl⟩ := (yields_position ..).mp hposition
    refine (halts_relative h.start_le h.session.cursor_le).bind fun _ => ?_
    refine StopsIn.bind (.read _) fun {fields _} _ => ?_
    apply (halts_of_refuses (stopsOnly_onTape (fields.short_writeFooter _ _).refuses)).bind
    intro width _ _
    split
    · next raw hsome =>
      apply (hraw raw hsome).bind
      intro _ _ _
      exact (halts_of_refuses (short_writeWord _).refuses).bind fun _ => .pure _
    · exact .pure _
  · split
    · next raw hsome => exact (hraw raw hsome).bind fun _ => .pure _
    · exact .pure _

/-- If what is hashed lies in the storage, and the header does too, nothing stops the hash. -/
theorem stopsIn_writeHash {E : Stop → Session → Prop} {dataEnd : Nat} (hdata : w.dataStart ≤ dataEnd)
    (hroom : dataEnd ≤ s.tape.capacity) (hheader : w.start + Header.size ≤ s.tape.capacity) :
    (w.writeHash dataEnd).StopsIn E s := by
  refine StopsIn.bind (.read _) fun hslice => ?_
  obtain ⟨rfl, rfl⟩ := (yields_read ..).mp hslice
  rw [Tape.slice?, if_pos ⟨hdata, hroom⟩]
  refine .part (fun tape => { s with tape }) rfl (Tape.stopsIn_patch ?_)
  rw [Word.length_bytes]
  exact Nat.le_trans (by simp [Header.size, Header.hashCodeOffset, Word.width]) hheader

/-- Finishing an object in range fills in a header that there is room for. -/
theorem halts_finish (h : OpenObject.Fits g limit place ⟨w, s⟩) (userType : Bool) :
    (w.finish userType).StopsIn (Halts limit bottom) s := by
  refine StopsIn.bind (.read _) fun hconfig => ?_
  obtain ⟨-, rfl⟩ := (yields_config ..).mp hconfig
  refine StopsIn.bind (.read _) fun hdataEnd => ?_
  obtain ⟨rfl, rfl⟩ := (yields_position ..).mp hdataEnd
  refine (halts_writeEnding h _).bind fun {ending s₁} hending => ?_
  have hkeeps₁ : s.Keeps s₁ := (keeps_writeEnding w _).of_yields hending
  have hfits₁ := h.session.onward hkeeps₁.toOnward
  refine StopsIn.bind (.read _) fun hstop => ?_
  obtain ⟨rfl, rfl⟩ := (yields_position ..).mp hstop
  have hstart : w.start ≤ s₁.tape.cursor := Nat.le_trans h.start_le hkeeps₁.cursor
  refine (halts_relative hstart hfits₁.cursor_le).bind fun htotal => ?_
  obtain ⟨-, -, -, rfl⟩ := relative_yields htotal
  -- The header lies before the data, and the data ends in the storage.
  have hdata : s.tape.cursor ≤ s₁.tape.capacity := Nat.le_trans hkeeps₁.cursor hfits₁.room
  have hheader : w.start + Header.size ≤ s₁.tape.capacity :=
    Nat.le_trans (Nat.le_trans h.header h.data) hdata
  refine StopsIn.bind (.part (fun tape => { s₁ with tape }) rfl (Tape.stopsIn_patch ?_))
    fun {_ s₂} hpatch => ?_
  · rw [Header.length_bytes]
    exact hheader
  have hkeeps₂ : s₁.Keeps s₂ :=
    (keeps_onTape (Tape.onward_patch (Nat.zero_le _) _)).of_yields hpatch
  refine .whenBind (fun _ => .update _) fun {s₃} hregister => ?_
  have hkeeps₃ : s₂.Keeps s₃ := by
    refine Within.of_yields ?_ hregister
    split
    · exact keeps_registerSchema _ _
    · exact .pure _
  have hcapacity : s₁.tape.capacity ≤ s₃.tape.capacity :=
    Nat.le_trans hkeeps₂.tape.capacity hkeeps₃.tape.capacity
  refine .whenBind (fun _ => ?_) fun _ => .pure _
  exact stopsIn_writeHash h.data (Nat.le_trans hdata hcapacity) (Nat.le_trans hheader hcapacity)

end ObjectWriter

end ObjectWire
