import ObjectWire.Proofs.CarryOver
import ObjectWire.Proofs.SideBySide

/-!
# Values carried over

What a session wrote at one place could have been written at another, by a session that sees the same
nodes and has seen the same of them, each as far behind its cursor.  `Session.Ahead` relates two such
sessions.  They need not have the same bytes behind them, nor the same fields of open objects, and their
services may differ in whether hash codes are filled in.  `WriteM.carries_writeDepth` goes through the
writers of values of dynamic objects.
-/

namespace ObjectWire

open ObjectWire.Action

/-- The registry with hash codes filled in or not. -/
def Registry.hashing (hashes : Bool) (r : Registry) : Registry :=
  { r with config := { r.config with identityHash := hashes } }

/-- The service with hash codes filled in or not. -/
def TypeService.hashing (hashes : Bool) (s : TypeService) : TypeService :=
  { s with registry := s.registry.hashing hashes }

/-- Hash codes have no part in what a name resolves to. -/
theorem Registry.resolve_hashing (hashes : Bool) {name : String} {kind : TypeKind}
    {failIfUnregistered : Bool} {r r' : Registry} {resolved : ResolvedType}
    (h : (resolve name kind failIfUnregistered).Yields r resolved r') :
    (resolve name kind failIfUnregistered).Yields (r.hashing hashes) resolved (r'.hashing hashes) := by
  obtain ⟨entry, hentry, rfl, rfl⟩ | ⟨typeId, hnone, rfl, hid, rfl, rfl⟩ := resolve_cases h
  · have hentry' : (r'.hashing hashes).types.find? name = some entry := hentry
    simp only [resolve, yields_bind, yields_read]
    refine ⟨_, _, ⟨rfl, rfl⟩, ?_⟩
    rw [hentry']
    exact (yields_pure ..).mpr ⟨rfl, rfl⟩
  · have hnone' : (r.hashing hashes).types.find? name = none := hnone
    simp only [resolve, yields_bind, yields_read]
    refine ⟨_, _, ⟨rfl, rfl⟩, ?_⟩
    rw [hnone']
    simp only [Bool.false_eq_true, if_false, yields_bind, yields_ofExcept, yields_update, yields_pure]
    exact ⟨typeId, _, ⟨hid, rfl⟩, (), _, rfl, rfl, rfl⟩

/-- A service resolves through its registry, so hash codes have no part in it, either. -/
theorem TypeService.resolve_hashing (hashes : Bool) {name : String} {kind : TypeKind}
    {failIfUnregistered : Bool} {s s' : TypeService} {resolved : ResolvedType}
    (h : (resolve name kind failIfUnregistered).Yields s resolved s') :
    (resolve name kind failIfUnregistered).Yields (s.hashing hashes) resolved (s'.hashing hashes) := by
  obtain ⟨r, hr, rfl⟩ := (yields_onRegistry ..).mp h
  exact (yields_onRegistry ..).mpr ⟨_, Registry.resolve_hashing hashes hr, rfl⟩

/-- Nor have they in what becomes of a schema. -/
theorem TypeService.learn_hashing (hashes : Bool) (s : TypeService) (typeId schemaId : Int32)
    (schema : Schema) :
    (s.hashing hashes).learn typeId schemaId schema = (s.learn typeId schemaId schema).hashing hashes := by
  have hknown : (s.hashing hashes).hasSchema typeId schemaId = s.hasSchema typeId schemaId := rfl
  have hkeeps : (s.hashing hashes).keepsSchemas = s.keepsSchemas := rfl
  unfold learn addSchema
  rw [hknown, hkeeps]
  split
  · rfl
  · split <;> rfl

/-- How two sessions differ that write the same. -/
structure Shift where
  /-- How far the first one is ahead. -/
  base : Nat
  /-- How far the first one can reach. -/
  limit : Nat
  /-- The nodes that both graphs have. -/
  graph : Graph
  /-- Whether the second one fills in hash codes. -/
  hashes : Bool

/-- Two sessions that write the same, the second one behind the first one. -/
structure Session.Ahead (c : Shift) (F G : List FieldEntry) (s t : Session) : Prop where
  tape : s.tape.Ahead c.base c.limit t.tape
  first : s.fields = ⟨F⟩
  second : t.fields = ⟨G⟩
  service : t.service = s.service.hashing c.hashes
  handles : ∀ node, s.handles.find? node = (t.handles.find? node).map (c.base + ·)
  graph : c.graph.Extends s.graph
  graph' : c.graph.Extends t.graph

/-- The writer of an object some places ahead. -/
def ObjectWriter.ahead (base : Nat) (w : ObjectWriter) : ObjectWriter :=
  { w with
    start := base + w.start
    dataStart := base + w.dataStart
    rawStart := w.rawStart.map (base + ·)
    slots := w.slots.map (base + ·) }

/-- Two objects that write the same, with the same fields begun. -/
structure OpenObject.Ahead (c : Shift) (F G : List FieldEntry) (o p : OpenObject) : Prop where
  writer : o.writer = p.writer.ahead c.base
  session : ∃ top : List FieldEntry, top.length = p.writer.fieldCount ∧
    o.session.Ahead c (top ++ F) (top ++ G) p.session

/-- A run on a part of the state, put back into the whole. -/
theorem Action.Carried.part {σ σ' τ τ' α β : Type} {R : σ → τ → Prop} {R' : σ' → τ' → Prop}
    {Q : α → β → Prop} {a : α} {s : σ} {s' : σ'} {run : Except Stop β × τ} (h : Carried R Q a s run)
    (back : τ → τ') (hback : ∀ t, R s t → R' s' (back t)) :
    Carried R' Q a s' (run.1, back run.2) := by
  obtain ⟨b, t, rfl, hb, ht⟩ | ⟨e, t, rfl, he⟩ := h
  · exact .inl ⟨b, back t, rfl, hb, hback t ht⟩
  · exact .inr ⟨e, back t, rfl, he⟩

/-- Where the first action comes to a result, the run goes on with it. -/
theorem Action.run_bind_of_yields {σ α β : Type} {x : Action σ α} {f : α → Action σ β} {s s' : σ} {a : α}
    (h : x.Yields s a s') : (x >>= f).run s = (f a).run s' := by
  have hrun : x.run s = (.ok a, s') := h
  rw [run_bind, hrun]

variable {c : Shift} {F G : List FieldEntry}

namespace WriteM

open Session

/-- What can be done on the one tape can be done in the one session. -/
theorem carries_onTape {α β : Type} {Q : α → β → Prop} {x : Action Tape α} {y : Action Tape β}
    (hxy : Carries (Tape.Ahead c.base c.limit) Q x y) :
    Carries (Ahead c F G) Q (onTape x) (onTape y) := by
  intro s a s' hx t h
  obtain ⟨tape, ht, rfl⟩ := (yields_onTape ..).mp hx
  refine (hxy ht h.tape).part (fun u => { t with tape := u }) fun u hu => ?_
  exact { h with tape := hu }

/-- The one cursor is ahead of the other by the base. -/
theorem carries_position :
    Carries (Ahead c F G) (fun here here' => here = c.base + here') position position :=
  .read fun _ _ h => h.tape.cursor

/-- Places that are both ahead by the base have the same distance, and are in the same order. -/
theorem carries_distance (start stop : Nat) :
    Carries (Ahead c F G) Eq (distance (c.base + start) (c.base + stop)) (distance start stop) := by
  unfold distance
  by_cases hle : start ≤ stop
  · rw [if_pos hle, if_pos (by omega), Nat.add_sub_add_left]
    exact .pure rfl
  · rw [if_neg hle, if_neg (by omega)]
    exact .stop

/-- The options differ in hash codes alone. -/
theorem carries_config :
    Carries (Ahead c F G) (fun a b => b = { a with identityHash := c.hashes }) config config := by
  refine .read fun s t h => ?_
  rw [h.service]
  rfl

/-- A plain value is encoded as in the other session, since hash codes are no part of it. -/
theorem carries_writePlain (v : Plain) : Carries (Ahead c F G) Eq (writePlain v) (writePlain v) := by
  refine carries_config.bind fun a b hb => ?_
  subst hb
  exact carries_onTape (Encode.carries_plain _ v)

/-- A word is the same wherever it is written. -/
theorem carries_writeWord {α : Type} [Word α] (x : α) :
    Carries (Ahead c F G) Eq (onTape (Tape.writeWord x)) (onTape (Tape.writeWord x)) :=
  carries_onTape (Tape.carries_write _)

/-- A name that resolves in one session resolves to the same type in the other. -/
theorem carries_resolve (name : String) (kind : TypeKind) (failIfUnregistered : Bool) :
    Carries (Ahead c F G) Eq (onService (TypeService.resolve name kind failIfUnregistered))
      (onService (TypeService.resolve name kind failIfUnregistered)) := by
  intro s resolved s' hx t h
  obtain ⟨service, hservice, rfl⟩ := (yields_onService ..).mp hx
  have hsecond := TypeService.resolve_hashing c.hashes hservice
  rw [← h.service] at hsecond
  exact .inl ⟨resolved, _, (yields_onService ..).mpr ⟨_, hsecond, rfl⟩, rfl, { h with service := rfl }⟩

/-- A type is told by the same id or the same name. -/
theorem carries_writeTypeRef (name : String) (kind : TypeKind) (failIfUnregistered : Bool) :
    Carries (Ahead c F G) Eq (writeTypeRef name kind failIfUnregistered)
      (writeTypeRef name kind failIfUnregistered) := by
  refine (carries_resolve _ _ _).bindEq fun resolved => ?_
  split
  · exact carries_writeWord _
  · exact (carries_writeWord _).bindEq fun _ => carries_writePlain _

/-- A count that fits in one session fits in the other. -/
theorem carries_writeCount (what : String) (count : Nat) :
    Carries (Ahead c F G) Eq (writeCount what count) (writeCount what count) :=
  Carries.bindEq (.ofExcept _) fun _ => carries_writeWord _

/-- A constant is its tag, its type and its ordinal in both sessions. -/
theorem carries_writeEnum (v : EnumConstant) :
    Carries (Ahead c F G) Eq (writeEnum v) (writeEnum v) := by
  refine carries_config.bind fun a b hb => ?_
  subst hb
  refine (carries_writeWord _).bindEq fun _ => ?_
  exact (carries_writeTypeRef _ _ _).bindEq fun _ => carries_writeWord _

/-- An array of constants is the same head and the same constants. -/
theorem carries_writeEnumArray (typeName : String) (items : List (Option EnumConstant)) :
    Carries (Ahead c F G) Eq (writeEnumArray typeName items) (writeEnumArray typeName items) := by
  refine carries_config.bind fun a b hb => ?_
  subst hb
  refine (carries_writeWord _).bindEq fun _ => ?_
  refine (carries_writeTypeRef _ _ _).bindEq fun _ => ?_
  refine (carries_writeCount _ _).bindEq fun _ => ?_
  refine .forEach fun item _ => ?_
  cases item with
  | none => exact carries_onTape (Encode.carries_tagged _ _)
  | some v => exact carries_writeEnum v

/-- A constant by type id is the same, with or without a name. -/
theorem carries_writeBinaryEnum (v : BinaryEnum) :
    Carries (Ahead c F G) Eq (writeBinaryEnum v) (writeBinaryEnum v) := by
  refine (carries_onTape (Encode.carries_tagged _ _)).bindEq fun _ => ?_
  split
  · split
    · exact (carries_writePlain _).bindEq fun _ => carries_writeWord _
    · exact Carries.bindEq .stop fun _ => carries_writeWord _
  · exact carries_writeWord _

/-- A reference to a class tells the same type. -/
theorem carries_writeClassRef (typeName : String) :
    Carries (Ahead c F G) Eq (writeClassRef typeName) (writeClassRef typeName) :=
  (carries_writeWord _).bindEq fun _ => carries_writeTypeRef _ _ _

/-- A reference back tells a distance, which is the same from both places. -/
theorem carries_writeBack (first here : Nat) :
    Carries (Ahead c F G) Eq (writeBack (c.base + first) (c.base + here)) (writeBack first here) := by
  refine (carries_distance _ _).bindEq fun delta => ?_
  exact Carries.bindEq (.ofExcept _) fun delta => carries_onTape (Encode.carries_tagged _ _)

/-- A node that one session has seen so has the other one. -/
theorem carries_writeOnce {x y : WriteM Unit} (node : NodeId) (hxy : Carries (Ahead c F G) Eq x y) :
    Carries (Ahead c F G) Eq (writeOnce node x) (writeOnce node y) := by
  intro s u s' hx t h
  -- Recorded in both sessions, the node has its places there as far apart as the cursors.
  have hrecorded : (recorded node s).Ahead c F G (recorded node t) := by
    refine { h with handles := fun other => ?_ }
    rw [recorded, recorded, HandleTable.find?_put_snd, HandleTable.find?_put_snd, h.handles,
      h.handles, h.tape.cursor]
    split
    · cases t.handles.find? node <;> rfl
    · rfl
  have hrun : (writeOnce node x).run s = (.ok u, s') := hx
  show Carried (Ahead c F G) Eq u s' ((writeOnce node y).run t)
  cases hfind : t.handles.find? node with
  | none =>
    have hnone : s.handles.find? node = none := by rw [h.handles, hfind, Option.map_none]
    rw [writeOnce_new hnone] at hrun
    rw [writeOnce_new hfind]
    exact hxy hrun hrecorded
  | some first =>
    have hsome : s.handles.find? node = some (c.base + first) := by
      rw [h.handles, hfind, Option.map_some]
    rw [writeOnce_seen hsome, h.tape.cursor] at hrun
    rw [writeOnce_seen hfind]
    exact carries_writeBack first t.tape.cursor hrun hrecorded

/-- The head of a container tells types, a count and a kind, and they are the same in both sessions. -/
theorem carries_writeHead (n : Node) : Carries (Ahead c F G) Eq (writeHead n) (writeHead n) := by
  cases n with
  | object o => exact .pure rfl
  | array componentType items =>
    refine carries_config.bind fun a b hb => ?_
    subst hb
    refine (carries_writeWord _).bindEq fun _ => ?_
    exact (carries_writeTypeRef _ _ _).bindEq fun _ => carries_writeCount _ _
  | collection typeName items =>
    refine Carries.bindEq (.ofExcept _) fun size => ?_
    refine Carries.bindEq (.read fun s t h => ?_) fun kind => carries_onTape (Encode.carries_tagged _ _)
    rw [h.service]
    rfl
  | map typeName entries =>
    refine Carries.bindEq (.ofExcept _) fun size => ?_
    refine Carries.bindEq (.read fun s t h => ?_) fun kind => carries_onTape (Encode.carries_tagged _ _)
    rw [h.service]
    rfl
  | proxy interfaces handler =>
    refine carries_config.bind fun a b hb => ?_
    subst hb
    refine (carries_onTape (Encode.carries_proxyHead _)).bindEq fun _ => ?_
    exact .forEach fun _ _ => carries_writeTypeRef _ _ _

/-- An object's type resolves alike, refused or not. -/
theorem carries_resolveObject (o : UserObject) :
    Carries (Ahead c F G) Eq (resolveObject o) (resolveObject o) := by
  refine carries_config.bind fun a b hb => ?_
  subst hb
  exact carries_resolve _ _ _

/-- Room left open at one place can be left open at the other. -/
theorem carries_skip {α β : Type} {Q : α → β → Prop} (n : Nat) {k : Nat → WriteM α} {l : Nat → WriteM β}
    (hkl : ∀ start, Carries (Ahead c F G) Q (k (c.base + start)) (l start)) :
    Carries (Ahead c F G) Q
      (do let start ← position; onTape (Tape.reserve n); onTape (Tape.seek (start + n)); k start)
      (do let start ← position; onTape (Tape.reserve n); onTape (Tape.seek (start + n)); l start) := by
  intro s a s' hx t h
  simp only [yields_bind, yields_position, yields_onTape] at hx
  obtain ⟨_, _, ⟨rfl, rfl⟩, _, _, ⟨t₁, hreserve, rfl⟩, _, _, ⟨t₂, hseek, rfl⟩, hk⟩ := hx
  obtain rfl := (yields_update ..).mp hseek
  obtain ⟨-, u, hrun, -, hahead, hcursor⟩ := h.tape.reserve hreserve
  -- Room that the first tape made the second one makes as well, and both cursors skip it.
  have hposition : position.Yields t t.tape.cursor t := (yields_position ..).mpr ⟨rfl, rfl⟩
  have hroom : (onTape (Tape.reserve n)).Yields t () { t with tape := u } :=
    (yields_onTape ..).mpr ⟨u, hrun, rfl⟩
  have hmove : (onTape (Tape.seek (t.tape.cursor + n))).Yields { t with tape := u } ()
      { t with tape := { u with cursor := t.tape.cursor + n } } :=
    (yields_onTape ..).mpr ⟨_, (yields_update ..).mpr rfl, rfl⟩
  show Carried (Ahead c F G) Q a s' (Action.run _ t)
  rw [run_bind_of_yields hposition, run_bind_of_yields hroom, run_bind_of_yields hmove]
  rw [h.tape.cursor] at hk
  refine hkl t.tape.cursor hk { h with tape := { hahead with cursor := ?_ } }
  show c.base + t.tape.cursor + n = c.base + (t.tape.cursor + n)
  omega

end WriteM

namespace ObjectM

open OpenObject

/-- Inside an object as outside, whatever fields are begun. -/
theorem carries_inSession {α β : Type} {Q : α → β → Prop} {x : WriteM α} {y : WriteM β}
    (hxy : ∀ F G, Carries (Session.Ahead c F G) Q x y) :
    Carries (Ahead c F G) Q (inSession x) (inSession y) := by
  intro o a o' hx p h
  obtain ⟨s', hs, rfl⟩ := (yields_inSession ..).mp hx
  obtain ⟨top, hlen, hsession⟩ := h.session
  refine (hxy _ _ hs hsession).part (fun t => { p with session := t }) fun t ht => ?_
  exact ⟨h.writer, top, hlen, ht⟩

/-- The writers differ in their places by the base. -/
theorem carries_writer :
    Carries (Ahead c F G) (fun w w' => w = w'.ahead c.base) writer writer := .read fun _ _ h => h.writer

/-- A change of the writer that goes with the change of places goes for both. -/
theorem carries_updateWriter {f g : ObjectWriter → ObjectWriter}
    (hfg : ∀ w, f (w.ahead c.base) = (g w).ahead c.base) (hcount : ∀ w, (g w).fieldCount = w.fieldCount) :
    Carries (Ahead c F G) Eq (updateWriter f) (updateWriter g) := by
  refine .update fun o p h => ⟨?_, ?_⟩
  · show f o.writer = _
    rw [h.writer, hfg]
  · obtain ⟨top, hlen, hsession⟩ := h.session
    exact ⟨top, hlen.trans (hcount _).symm, hsession⟩

/-- A field begins as far behind the start of its object. -/
theorem carries_pushField (id : Int32) (fold : Bool) :
    Carries (Ahead c F G) Eq (pushField id fold) (pushField id fold) := by
  intro o u o' hx p h
  obtain ⟨hraw, hnew, hle, hsize, rfl⟩ := pushField_yields hx
  obtain ⟨top, hlen, hsession⟩ := h.session
  have hwriter := h.writer
  have hcount : o.writer.fieldCount = top.length := by rw [hwriter, hlen]; rfl
  have hstart : o.writer.start = c.base + p.writer.start := by rw [hwriter]; rfl
  have hcursor := hsession.tape.cursor
  have hraw' : p.writer.rawStart = none := by
    rw [hwriter] at hraw
    exact Option.map_eq_none_iff.mp hraw
  -- Both objects start as far before their cursors, so the field has the same offset in both.
  have hoffset : o.session.tape.cursor - o.writer.start = p.session.tape.cursor - p.writer.start := by
    omega
  -- Only the fields of this object are looked at, and these are the same on both stacks.
  have hnew' : p.session.fields.contains p.writer.fieldCount id = false := by
    rw [hsession.first, hcount] at hnew
    rw [hsession.second, ← hlen, ← hnew]
    simp [FieldStack.contains, FieldStack.last]
  -- The second writer passes the three guards as the first one did.
  have hsecond : (pushField id fold).Yields p () (withField p id fold) := by
    simp only [pushField, yields_bind, yields_writer]
    refine ⟨_, _, ⟨rfl, rfl⟩, yields_guard.mpr ⟨by simp [hraw'], ?_⟩⟩
    simp only [yields_bind, yields_read]
    refine ⟨_, _, ⟨rfl, rfl⟩, yields_guard.mpr ⟨by simp [hnew'], ?_⟩⟩
    simp only [yields_bind, yields_inSession, WriteM.yields_position, WriteM.yields_distance]
    refine ⟨_, _, ⟨_, ⟨_, _, ⟨rfl, rfl⟩, ⟨by omega, rfl⟩, rfl⟩, rfl⟩, yields_guard.mpr ⟨by omega, ?_⟩⟩
    simp only [yields_bind, yields_update, yields_updateWriter]
    exact ⟨(), _, rfl, rfl⟩
  refine .inl ⟨(), _, hsecond, rfl, ?_,
    ⟨id, UInt32.ofNat (p.session.tape.cursor - p.writer.start)⟩ :: top, ?_, ?_⟩
  · rw [withField, withField, hwriter]
    rfl
  · rw [List.length_cons, hlen]
    rfl
  · refine { hsession with first := ?_, second := ?_ }
    · show o.session.fields.push id (UInt32.ofNat (o.session.tape.cursor - o.writer.start)) = _
      rw [hsession.first, hoffset]
      rfl
    · show p.session.fields.push id _ = _
      rw [hsession.second]
      rfl

/-- A name finds the same id in both services. -/
theorem carries_beginField (name : String) :
    Carries (Ahead c F G) Eq (beginField name) (beginField name) := by
  refine carries_writer.bind fun w w' hw => ?_
  subst hw
  have hraw : (w'.ahead c.base).rawStart.isSome = w'.rawStart.isSome := Option.isSome_map
  rw [hraw]
  refine .guard (Carries.bindEq (.read fun o p h => ?_) fun id => ?_)
  · obtain ⟨top, -, hsession⟩ := h.session
    rw [hsession.service]
    rfl
  · cases id with
    | some id => exact carries_pushField id true
    | none => exact .stop

/-- The raw section begins at both cursors. -/
theorem carries_enterRaw : Carries (Ahead c F G) Eq enterRaw enterRaw := by
  refine (carries_inSession fun _ _ => WriteM.carries_position).bind fun here here' hhere => ?_
  subst hhere
  refine carries_updateWriter (fun w => ?_) fun w => rfl
  cases hraw : w.rawStart <;> simp [ObjectWriter.ahead, hraw]

end ObjectM

namespace ObjectWriter

open Session WriteM

/-- An object is begun as far ahead as the session is, and has no fields yet. -/
theorem carries_begin (typeId : Int32) (inlineName : Option String) :
    Carries (Ahead c F G) (fun w w' => w = w'.ahead c.base ∧ w'.fieldCount = 0)
      (begin typeId inlineName) (begin typeId inlineName) := by
  refine carries_skip Header.size fun start => ?_
  -- Whatever stands between header and data, the writer is set up behind it.
  have hend : Carries (Ahead c F G) (fun w w' : ObjectWriter => w = w'.ahead c.base ∧ w'.fieldCount = 0)
      (position >>= fun dataStart => pure (ObjectWriter.mk (c.base + start) dataStart typeId
        inlineName.isNone SchemaId.seed 0 none []))
      (position >>= fun dataStart => pure (ObjectWriter.mk start dataStart typeId inlineName.isNone
        SchemaId.seed 0 none [])) := by
    refine carries_position.bind fun here here' hhere => .pure ⟨?_, rfl⟩
    rw [hhere]
    rfl
  cases inlineName with
  | none => exact hend
  | some name => exact (carries_writePlain _).bindEq fun _ => hend

/-- A place in an object lies as far behind the object's start. -/
theorem carries_relative (w : ObjectWriter) (position : Nat) :
    Carries (Ahead c F G) Eq ((w.ahead c.base).relative (c.base + position)) (w.relative position) :=
  (carries_distance _ _).bindEq fun _ => .ofExcept _

/-- The footer is made of the fields on top of the stack. -/
theorem carries_writeFooter {base limit : Nat} (top F G : List FieldEntry) (compact : Bool) :
    Carries (Tape.Ahead base limit) Eq ((FieldStack.mk (top ++ F)).writeFooter top.length compact)
      ((FieldStack.mk (top ++ G)).writeFooter top.length compact) := by
  have hlast : ∀ F, (FieldStack.mk (top ++ F)).last top.length = top.reverse := by
    intro F
    simp [FieldStack.last]
  simp only [FieldStack.writeFooter, hlast]
  rw [← bind_assoc]
  exact (Tape.carries_put rfl (length_footer_entries _ _)).bindEq fun _ => .pure rfl

variable {w : ObjectWriter} {top : List FieldEntry} (hcount : w.fieldCount = top.length)

include hcount

/-- What follows the data tells places inside the object, so it is the same for both. -/
theorem carries_writeEnding (compact : Bool) :
    Carries (Ahead c (top ++ F) (top ++ G)) Eq ((w.ahead c.base).writeEnding compact)
      (w.writeEnding compact) := by
  have hcount' : (w.ahead c.base).fieldCount = w.fieldCount := rfl
  unfold writeEnding
  rw [hcount']
  by_cases hnone : w.fieldCount = 0
  · rw [if_neg (by simp [hnone]), if_neg (by simp [hnone])]
    cases hraw : w.rawStart with
    | none =>
      simp only [ahead, hraw, Option.map_none]
      exact .pure rfl
    | some raw =>
      have hraw' : (w.ahead c.base).rawStart = some (c.base + raw) := by simp [ahead, hraw]
      rw [hraw']
      exact (carries_relative w raw).bindEq fun _ => .pure rfl
  · rw [if_pos hnone, if_pos hnone]
    refine carries_position.bind fun here here' hhere => ?_
    subst hhere
    refine (carries_relative w here').bindEq fun offset => ?_
    -- The top of both stacks is the object's own; what lies below may differ.
    have hfields : Carries (Ahead c (top ++ F) (top ++ G))
        (fun F' G' : FieldStack => F' = ⟨top ++ F⟩ ∧ G' = ⟨top ++ G⟩)
        (Action.read (·.fields)) (Action.read (·.fields)) := .read fun s t h => ⟨h.first, h.second⟩
    refine hfields.bind fun F' G' hstacks => ?_
    obtain ⟨rfl, rfl⟩ := hstacks
    rw [hcount]
    refine (carries_onTape (carries_writeFooter top F G compact)).bindEq fun width => ?_
    cases hraw : w.rawStart with
    | none =>
      simp only [ahead, hraw, Option.map_none]
      exact .pure rfl
    | some raw =>
      have hraw' : (w.ahead c.base).rawStart = some (c.base + raw) := by simp [ahead, hraw]
      rw [hraw']
      refine (carries_relative w raw).bindEq fun raw => ?_
      exact (carries_writeWord _).bindEq fun _ => .pure rfl

/-- Both services are told the same schema, and take it or leave it alike. -/
theorem carries_registerSchema (schemaId : Int32) :
    Carries (Ahead c (top ++ F) (top ++ G)) Eq ((w.ahead c.base).registerSchema schemaId)
      (w.registerSchema schemaId) := by
  have hschema : ∀ F, (FieldStack.mk (top ++ F)).schema w.fieldCount = ⟨top.reverse.map (·.id)⟩ := by
    intro F
    simp [FieldStack.schema, FieldStack.last, hcount]
  have hcount' : (w.ahead c.base).fieldCount = w.fieldCount := rfl
  rw [registerSchema_eq, registerSchema_eq]
  refine .update fun s t h => { h with service := ?_ }
  show t.service.learn w.typeId schemaId (t.fields.schema w.fieldCount) = TypeService.hashing c.hashes
    (s.service.learn w.typeId schemaId (s.fields.schema (w.ahead c.base).fieldCount))
  rw [h.service, h.first, h.second, hcount', hschema, hschema, TypeService.learn_hashing]

omit hcount in
/-- A hash code moves no cursor, whether there is one or not. -/
theorem ahead_writeHash {w : ObjectWriter} {dataEnd : Nat} {s s' t : Session}
    (hx : (w.writeHash dataEnd).Yields s () s') (h : s.Ahead c F G t) : s'.Ahead c F G t := by
  simp only [writeHash, yields_bind, yields_read] at hx
  obtain ⟨slice, _, ⟨hslice, rfl⟩, hx⟩ := hx
  cases slice with
  | none => exact (yields_stop _ _ _ _ hx).elim
  | some data =>
    obtain ⟨tape, htape, rfl⟩ := (yields_onTape ..).mp hx
    exact { h with tape := h.tape.patch htape }

omit hcount in
/-- A hash code that only the second session fills in finds the header where it is. -/
theorem carried_writeHash {w : ObjectWriter} {dataEnd : Nat} {s t : Session} (h : s.Ahead c F G t) :
    Carried (Ahead c F G) Eq () s (w.writeHash dataEnd t) := by
  have hread : (Action.read (·.tape.slice? w.dataStart dataEnd) : WriteM (Option Bytes)).Yields t
      (t.tape.slice? w.dataStart dataEnd) t := (yields_read ..).mpr ⟨rfl, rfl⟩
  show Carried (Ahead c F G) Eq () s ((w.writeHash dataEnd).run t)
  rw [writeHash, run_bind_of_yields hread]
  cases t.tape.slice? w.dataStart dataEnd with
  | none => exact .inr ⟨_, t, rfl, trivial⟩
  | some data =>
    refine Carried.part (Tape.carried_patch h.tape) (fun u => { t with tape := u }) fun u hu => ?_
    exact { h with tape := hu }

/-- An object can be finished in one session where it can be in the other, with its hash or without. -/
theorem carries_finish (userType : Bool) :
    Carries (Ahead c (top ++ F) (top ++ G)) (fun _ _ => True) ((w.ahead c.base).finish userType)
      (w.finish userType) := by
  refine carries_config.bind fun a b hb => ?_
  subst hb
  refine carries_position.bind fun dataEnd dataEnd' hdataEnd => ?_
  refine (carries_writeEnding hcount _).bindEq fun ending => ?_
  refine carries_position.bind fun stop stop' hstop => ?_
  subst hstop
  refine (carries_relative w stop').bindEq fun totalLength => ?_
  refine (carries_onTape Tape.carries_patch).bindEq fun _ => ?_
  -- The hash may be left out on one side: it overwrites bytes that nothing compares.
  refine .whenBind (carries_registerSchema hcount _) (.optional ?_ ?_ (.pure trivial))
  · exact fun s s' hx t h => ahead_writeHash hx h
  · exact fun s t h => carried_writeHash h

/-- With the fields of the object off, the stacks are what they were below them. -/
theorem ahead_release {s t : Session} (h : s.Ahead c (top ++ F) (top ++ G) t) :
    ((w.ahead c.base).release s).Ahead c F G (w.release t) := by
  have hcount' : (w.ahead c.base).fieldCount = w.fieldCount := rfl
  refine { h with first := ?_, second := ?_ }
  · show s.fields.pop _ = _
    rw [h.first, hcount', hcount]
    simp [FieldStack.pop]
  · show t.fields.pop _ = _
    rw [h.second, hcount]
    simp [FieldStack.pop]

end ObjectWriter

namespace WriteM

open Session

/-- An object can be written where its body can. -/
theorem carries_writeFramed {typeId : Int32} {inlineName : Option String} {x y : ObjectM Unit}
    {userType : Bool} (hxy : Carries (OpenObject.Ahead c F G) Eq x y) :
    Carries (Ahead c F G) (fun _ _ => True) (writeFramed typeId inlineName x (some userType))
      (writeFramed typeId inlineName y (some userType)) := by
  refine (ObjectWriter.carries_begin typeId inlineName).bind fun w w' hw s a s' hx t h => ?_
  obtain ⟨hw, hnone⟩ := hw
  simp only [Yields] at hx
  split at hx
  · cases hx
  · next v s₁ hbody =>
    -- No field of the new object is on either stack yet.
    have hran := hxy hbody (t := ⟨w', t⟩) ⟨hw, [], hnone.symm, h⟩
    split at hx
    · cases hx
    · next written s₂ hfinish =>
      obtain rfl : v.release s₂ = s' := congrArg Prod.snd hx
      simp only
      generalize y ⟨w', t⟩ = second at hran ⊢
      obtain ⟨_, ⟨v', t₁⟩, rfl, -, hwriter, top, hlen, h₁⟩ | ⟨e, p, rfl, he⟩ := hran
      · obtain rfl : v = v'.ahead c.base := hwriter
        have hfinished := ObjectWriter.carries_finish hlen.symm userType hfinish h₁
        simp only
        generalize v'.finish userType t₁ = second at hfinished ⊢
        obtain ⟨written', t₂, rfl, -, h₂⟩ | ⟨e, t₂, rfl, he⟩ := hfinished
        · exact .inl ⟨_, _, rfl, trivial, ObjectWriter.ahead_release hlen.symm h₂⟩
        · exact .inr ⟨e, _, rfl, he⟩
      · exact .inr ⟨e, _, rfl, he⟩

section

variable {rec rec' : Value → WriteM Unit}

/-- A container can be written where its values can. -/
theorem carries_writeContents {n : Node} (hrec : ∀ v ∈ n.values, Carries (Ahead c F G) Eq (rec v) (rec' v)) :
    Carries (Ahead c F G) Eq (writeContents rec n) (writeContents rec' n) :=
  (carries_writeHead n).bindEq fun _ => .forEach hrec

/-- So can the body of a dynamic object, whose values are written field by field. -/
theorem carries_writeBody {node : NodeId} {d : DynamicObject}
    (hrec : ∀ F G, ∀ v ∈ (Node.object (.dynamic d)).values, Carries (Ahead c F G) Eq (rec v) (rec' v)) :
    Carries (OpenObject.Ahead c F G) Eq (writeBody rec node (.dynamic d))
      (writeBody rec' node (.dynamic d)) := by
  refine Carries.bindEq (.forEach fun field hmem => ?_) fun _ => ?_
  · refine (ObjectM.carries_beginField field.1).bindEq fun _ => ?_
    exact ObjectM.carries_inSession fun F G => hrec F G field.2 (List.mem_map_of_mem hmem)
  · split
    · refine ObjectM.carries_enterRaw.bindEq fun _ => ?_
      exact ObjectM.carries_inSession fun F G => carries_onTape (Tape.carries_write _)
    · exact .pure rfl

/-- A node of dynamic objects can be written where the values inside it can. -/
theorem carries_writeNode (hdynamic : c.graph.Dynamic) {node : NodeId} {n : Node}
    (hn : c.graph.node? node = some n)
    (hrec : ∀ F G, ∀ v ∈ n.values, Carries (Ahead c F G) Eq (rec v) (rec' v)) :
    Carries (Ahead c F G) Eq (writeNode rec node n) (writeNode rec' node n) := by
  have hkind : ∀ o, n = .object o → ∃ d, o = .dynamic d := fun o ho => hdynamic node o (ho ▸ hn)
  have hcontents : Carries (Ahead c F G) Eq (writeContents rec n) (writeContents rec' n) :=
    carries_writeContents (hrec F G)
  -- Among dynamic objects none gives way, so each node is a head with values or an object with fields.
  rw [writeNode_eq rec node hkind, writeNode_eq rec' node hkind]
  cases n with
  | object o =>
    obtain ⟨d, rfl⟩ := hkind o rfl
    refine (carries_resolveObject _).bindEq fun resolved => carries_writeOnce node ?_
    exact (carries_writeFramed (carries_writeBody hrec)).bind fun _ _ _ => .pure rfl
  | proxy interfaces handler => exact hcontents
  | _ => exact carries_writeOnce node hcontents

/-- A reference is written as the node that it leads to. -/
theorem carries_ref {node : NodeId} {n : Node} {f f' : Node → WriteM Unit}
    (hn : c.graph.node? node = some n) (hf : Carries (Ahead c F G) Eq (f n) (f' n)) :
    Carries (Ahead c F G) Eq
      (Action.read (·.graph.node? node) >>= fun
        | some n => f n
        | none => Action.stop .outOfRange)
      (Action.read (·.graph.node? node) >>= fun
        | some n => f' n
        | none => Action.stop .outOfRange) := by
  have hread : Carries (Ahead c F G) (fun a b => a = some n ∧ b = some n)
      (Action.read (·.graph.node? node)) (Action.read (·.graph.node? node)) :=
    .read fun s t h => ⟨h.graph node n hn, h.graph' node n hn⟩
  refine hread.bind fun a b hab => ?_
  obtain ⟨rfl, rfl⟩ := hab
  exact hf

/-- A value that refers to no node has none inside it. -/
theorem carries_leaf {v : Value} (hleaf : ∀ node, v ≠ .ref node) :
    Carries (Ahead c F G) Eq (writeWith rec v) (writeWith rec' v) := by
  cases v with
  | plain v => exact carries_writePlain v
  | enum v => exact carries_writeEnum v
  | enumArray typeName items => exact carries_writeEnumArray typeName items
  | binaryEnum v => exact carries_writeBinaryEnum v
  | classRef typeName => exact carries_writeClassRef typeName
  | ref node => exact absurd rfl (hleaf node)

end

/-- A value of dynamic objects that was written can be written from behind.  How deep values may be nested
    is no error that a caller is told. -/
theorem carries_writeDepth (hdynamic : c.graph.Dynamic) (hclosed : c.graph.Closed) {depth depth' : Nat}
    {v : Value} (hv : c.graph.Has v) :
    Carries (Ahead c F G) Eq (writeDepth depth v) (writeDepth depth' v) := by
  -- On the levels of the first write; the second one may have fewer, and stop for that.
  induction depth generalizing depth' v F G with
  | zero => exact .stop
  | succ depth ih =>
    cases depth' with
    | zero => exact .fault trivial
    | succ depth' =>
      cases v with
      | ref node =>
        obtain ⟨n, hn⟩ := hv.node?
        have hvalues := hclosed.values hn
        exact carries_ref hn (carries_writeNode hdynamic hn fun F G w hw => ih (hvalues w hw))
      | _ => exact carries_leaf nofun

end WriteM

end ObjectWire
