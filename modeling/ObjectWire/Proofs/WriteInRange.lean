import ObjectWire.Proofs.AllOrNothing
import ObjectWire.Proofs.NodeStops

/-!
# Values are written in range

Writing a value in range stops neither out of range nor, with enough levels for the tape, too deeply:
`halts_writeDepth` goes by induction on the levels, with one lemma for what each node does before and
between the values inside it.
-/

namespace ObjectWire

open ObjectWire.Action

variable {g : Graph} {limit bottom place : Nat} {s s' : Session}

/-- Taking fields off the stack does not change how a write may halt. -/
theorem ObjectWriter.halts_release {w : ObjectWriter} {e : Stop} (h : s.Halts limit bottom e) :
    (w.release s).Halts limit bottom e := by
  cases e <;> exact h

/-- An object is written in range if its body is. -/
theorem WriteM.halts_writeFramed {body : ObjectM Unit} (h : s.Fits g limit place)
    (hbody : ∀ {o : OpenObject}, o.Fits g limit (place + 1) →
      body.StopsIn (OpenObject.Halts limit bottom) o)
    (hfit : Within OpenObject.StaysFit body) (typeId : Int32) (inlineName : Option String)
    (userType : Bool) :
    (writeFramed typeId inlineName body (some userType)).StopsIn (Session.Halts limit bottom) s := by
  refine stopsIn_writeFramed (Session.halts_of_refuses (ObjectWriter.short_begin _ _).refuses)
    (fun hbegin => ?_) fun {w s₁ o} hbegin hrun => ?_
  · exact (hbody (OpenObject.fits_begin h hbegin)).mono fun _ _ => ObjectWriter.halts_release
  · have hfits := OpenObject.fits_begin h hbegin
    have hopen : OpenObject.StaysFit ⟨w, s₁⟩ o := hfit.of_yields hrun
    exact (ObjectWriter.halts_finish (hopen _ _ _ hfits) userType).mono fun _ _ => ObjectWriter.halts_release

/-- The head of a container begins with a tag. -/
theorem Session.Fits.head (h : s.Fits g limit place) {n : Node} (hobject : ∀ o, n ≠ .object o)
    (hrun : (WriteM.writeHead n).Yields s () s') : s'.Fits g limit (place + 1) := by
  -- Each head puts its tag on the tape, which is the byte that the place counts.
  cases n with
  | object o => exact absurd rfl (hobject o)
  | array componentType items =>
    simp only [WriteM.writeHead, yields_bind, WriteM.yields_config] at hrun
    obtain ⟨_, _, ⟨rfl, rfl⟩, _, s₁, htag, _, s₂, htype, hcount⟩ := hrun
    have h₁ := h.put (by simp [Word.bytes, LittleEndian.encode, Word.width]) htag
    exact (h₁.kept (WriteM.keeps_writeTypeRef _ _ _) htype).kept (WriteM.keeps_writeCount _ _) hcount
  | collection typeName items =>
    simp only [WriteM.writeHead, yields_bind, yields_ofExcept, yields_read] at hrun
    obtain ⟨_, _, ⟨-, rfl⟩, _, _, ⟨-, rfl⟩, htag⟩ := hrun
    exact h.put (List.cons_ne_nil _ _) htag
  | map typeName entries =>
    simp only [WriteM.writeHead, yields_bind, yields_ofExcept, yields_read] at hrun
    obtain ⟨_, _, ⟨-, rfl⟩, _, _, ⟨-, rfl⟩, htag⟩ := hrun
    exact h.put (List.cons_ne_nil _ _) htag
  | proxy interfaces handler =>
    simp only [WriteM.writeHead, yields_bind, WriteM.yields_config, WriteM.yields_onTape] at hrun
    obtain ⟨_, _, ⟨rfl, rfl⟩, _, _, ⟨t, hhead, rfl⟩, htypes⟩ := hrun
    have htag := (WriteM.yields_onTape ..).mpr ⟨t, (Encode.proxyHead_yields hhead).2, rfl⟩
    have h₁ := h.put (List.cons_ne_nil _ _) htag
    exact h₁.kept (.forEach (fun _ => WriteM.keeps_writeTypeRef _ _ _) _) htypes

/-- A write in the session leaves a writer in range that was so before. -/
theorem ObjectM.staysFit_inSession {α : Type} {x : WriteM α} (h : Within Session.Keeps x) :
    Within OpenObject.StaysFit (inSession x) := fun o => (quiet_inSession h o).staysFit_of_none

section

variable {rec : Value → WriteM Unit}
  (hrec : ∀ {s : Session} (v : Value), g.Has v → s.Fits g limit place →
    (rec v).StopsIn (Session.Halts limit bottom) s)
  (hkeeps : ∀ {place : Nat} (v : Value), Within (Session.KeepsFrom place) (rec v))

include hkeeps

/-- Behind a field the writer is in range still, whatever the field holds. -/
theorem ObjectM.staysFit_writeField (name : String) (v : Value) :
    Within OpenObject.StaysFit (writeField rec name v) := by
  have hbegin : Within OpenObject.StaysFit (beginField name) :=
    fun o => OpenObject.Adds.staysFit_of_none (adds_beginField name o : OpenObject.Adds 0 _ _ _ _ _)
  exact hbegin.bind fun _ => staysFit_inSession (hkeeps v)

/-- The body of an object leaves its writer in range. -/
theorem WriteM.staysFit_writeBody (node : NodeId) (o : DynamicObject) :
    Within OpenObject.StaysFit (writeBody rec node (.dynamic o)) := by
  have hfield : ∀ field : String × Value,
      Within OpenObject.StaysFit (ObjectM.writeField rec field.1 field.2) :=
    fun field => ObjectM.staysFit_writeField hkeeps field.1 field.2
  apply (Within.forEach hfield o.fields).bind
  intro _
  split
  · have henter : Within OpenObject.StaysFit ObjectM.enterRaw := fun o => by
      have hadds : OpenObject.Adds 0 _ _ _ o _ := ObjectM.adds_enterRaw o
      exact hadds.staysFit fun raw hraw => by
        rw [← Option.mem_some_iff.mp hraw]
        exact ⟨Nat.le_refl _, hadds.session.cursor⟩
    exact henter.bind fun _ => ObjectM.staysFit_inSession (keeps_onTape (Tape.onward_write _))
  · exact .pure ()

include hrec

/-- Items are written one after the other, each from a session that fits still. -/
theorem WriteM.halts_items {items : List Value} (hitems : ∀ v ∈ items, g.Has v)
    (h : s.Fits g limit place) : (forEach rec items).StopsIn (Session.Halts limit bottom) s := by
  exact .forEach (Session.Fits g limit place) (fun v hv _ hs => hrec v (hitems v hv) hs)
    (fun v _ _ _ hs hv => hs.kept (hkeeps v) hv) h

/-- The fields of an object are written where its writer has come to. -/
theorem WriteM.halts_writeBody {o : OpenObject} (h : o.Fits g limit place) (node : NodeId)
    {d : DynamicObject} (hvalues : ∀ v ∈ (Node.object (.dynamic d)).values, g.Has v) :
    (writeBody rec node (.dynamic d)).StopsIn (OpenObject.Halts limit bottom) o := by
  have hfield : ∀ field ∈ d.fields, ∀ {o : OpenObject}, o.Fits g limit place →
      (ObjectM.writeField rec field.1 field.2).StopsIn (OpenObject.Halts limit bottom) o := by
    intro field hmem o ho
    refine (ObjectM.halts_beginField ho field.1).bind fun {_ o₁} hbegin => ?_
    have hadds : OpenObject.Adds 0 _ _ _ o o₁ := (ObjectM.adds_beginField field.1).of_yields hbegin
    refine ObjectM.halts_inSession (hrec _ (hvalues _ (List.mem_map_of_mem hmem)) ?_)
    exact (hadds.staysFit_of_none _ _ _ ho).session
  -- A field leaves its object in range, so that the next one starts in range too.
  have hstays : ∀ field ∈ d.fields, ∀ {o o' : OpenObject}, o.Fits g limit place →
      (ObjectM.writeField rec field.1 field.2).Yields o () o' → o'.Fits g limit place :=
    fun field _ _ _ ho hrun =>
      (ObjectM.staysFit_writeField hkeeps field.1 field.2).of_yields hrun _ _ _ ho
  refine (StopsIn.forEach (OpenObject.Fits g limit place) hfield hstays h).bind fun _ => ?_
  split
  · have henter : ∀ {o : OpenObject}, ObjectM.enterRaw.StopsIn (OpenObject.Halts limit bottom) o :=
      (ObjectM.halts_inSession (.read _)).bind fun _ => .update _
    refine henter.bind fun _ => ?_
    exact ObjectM.halts_inSession (Session.halts_of_refuses (stopsOnly_onTape (Tape.short_write _).refuses))
  · exact .pure ()

end

section

variable {rec : Value → WriteM Unit}
  (hrec : ∀ {s : Session} (v : Value), g.Has v → s.Fits g limit (place + 1) →
    (rec v).StopsIn (Session.Halts limit bottom) s)
  (hkeeps : ∀ {place : Nat} (v : Value), Within (Session.KeepsFrom place) (rec v))

include hrec hkeeps

open Session WriteM

/-- The header of an object is on the tape before its body is written. -/
theorem WriteM.halts_writeWhole (h : s.Fits g limit place) (node : NodeId) {d : DynamicObject}
    (resolved : ResolvedType) (hvalues : ∀ v ∈ (Node.object (.dynamic d)).values, g.Has v) :
    (writeWhole rec node (.dynamic d) resolved).StopsIn (Halts limit bottom) s := by
  refine StopsIn.bind ?_ fun _ => .pure _
  exact halts_writeFramed h (fun ho => halts_writeBody hrec hkeeps ho node hvalues)
    (staysFit_writeBody hkeeps node d) _ _ _

/-- The tag of a container is on the tape before its values are written. -/
theorem WriteM.halts_writeContents (h : s.Fits g limit place) {n : Node} (hobject : ∀ o, n ≠ .object o)
    (hvalues : ∀ v ∈ n.values, g.Has v) : (writeContents rec n).StopsIn (Halts limit bottom) s :=
  (halts_of_refuses (refuses_writeHead n)).bind fun hhead =>
    halts_items hrec hkeeps hvalues (h.head hobject hhead)

/-- A node puts a byte on the tape before the values inside it are written. -/
theorem WriteM.halts_writeNode (h : s.Fits g limit place) (node : NodeId) {n : Node}
    (hdynamic : ∀ o, n = .object o → ∃ d, o = .dynamic d) (hvalues : ∀ v ∈ n.values, g.Has v) :
    (writeNode rec node n).StopsIn (Halts limit bottom) s := by
  -- A reference back is complete, and only what is written for the first time goes on.
  have hfirst : ∀ {s₁ : Session} {k : WriteM Unit}, s₁.Fits g limit place →
      (∀ {s₂}, s₂.Fits g limit place → k.StopsIn (Halts limit bottom) s₂) →
      (writeOnce node k).StopsIn (Halts limit bottom) s₁ := by
    intro s₁ k h₁ hk
    refine (halts_writeHandle h₁ node).bind fun hseen => ?_
    split
    · exact .pure ()
    · exact hk (h₁.kept (keeps_writeHandle node) hseen)
  cases n with
  | object o =>
    obtain ⟨d, rfl⟩ := hdynamic o rfl
    rw [writeNode_dynamic]
    refine halts_bind h (refuses_resolveObject _) (keeps_resolveObject _) fun {resolved s₁} h₁ => ?_
    exact hfirst h₁ fun h₂ => halts_writeWhole hrec hkeeps h₂ node resolved hvalues
  | array componentType items =>
    rw [writeNode_array]
    exact hfirst h fun h₁ => halts_writeContents hrec hkeeps h₁ nofun hvalues
  | collection typeName items =>
    rw [writeNode_collection]
    exact hfirst h fun h₁ => halts_writeContents hrec hkeeps h₁ nofun hvalues
  | map typeName entries =>
    rw [writeNode_map]
    exact hfirst h fun h₁ => halts_writeContents hrec hkeeps h₁ nofun hvalues
  | proxy interfaces handler =>
    rw [writeNode_proxy]
    exact halts_writeContents hrec hkeeps h nofun hvalues

end

/-- Writing a value in range stops too deeply only where each of the levels has put a byte on the
    tape. -/
theorem WriteM.halts_writeDepth (hdynamic : g.Dynamic) (hclosed : g.Closed) {depth : Nat} {v : Value}
    (hv : g.Has v) (h : s.Fits g limit place) (hbottom : bottom ≤ place + depth) :
    (writeDepth depth v).StopsIn (Session.Halts limit bottom) s := by
  -- Each level puts a byte on the tape at least, so the place goes up as the depth goes down.
  induction depth generalizing v place s with
  | zero => exact .stop (Nat.le_trans hbottom h.place)
  | succ depth ih =>
    cases v with
    | plain v => exact Session.halts_of_refuses (short_writePlain v).refuses
    | enum v => exact Session.halts_of_refuses (refuses_writeEnum v)
    | enumArray typeName items => exact Session.halts_of_refuses (refuses_writeEnumArray typeName items)
    | binaryEnum v => exact Session.halts_of_refuses (refuses_writeBinaryEnum v)
    | classRef typeName => exact Session.halts_of_refuses (refuses_writeClassRef typeName)
    | ref node =>
      obtain ⟨n, hn⟩ := hv.node?
      refine StopsIn.bind (.read _) fun hread => ?_
      obtain ⟨rfl, rfl⟩ := (yields_read ..).mp hread
      rw [h.graph node n hn]
      exact halts_writeNode (fun v hv hs => ih hv hs (by omega)) (keeps_writeDepth depth) h node
        (fun o ho => hdynamic node o (ho ▸ hn)) (hclosed.values hn)

/-- A write has a result, or it has an error that its caller is told.  On a tape that doubles, the error
    is not about a place that the writers keep. -/
def Tape.Ends {α : Type} (t : Tape) (result : Except Stop α) : Prop :=
  ∀ e, result = .error e → ∃ cause, e = .error cause ∧
    (t.growth = .heap ∨ t.growth = .offHeap → t.capacity ≤ Growth.maxCapacity → ¬ cause.Misplaces)

/-- The levels that a tape allows are more than it can hold bytes for. -/
theorem WriteM.ends_writeValue {v : Value} (hdynamic : s.graph.Dynamic) (hclosed : s.graph.Closed)
    (hv : s.graph.Has v) (hhandles : s.HandlesBehind) (hroom : s.tape.cursor ≤ s.tape.capacity) :
    s.tape.Ends (writeValue v s).1 := by
  have hfits : s.Fits s.graph (max s.tape.growth.largest s.tape.capacity) s.tape.cursor :=
    ⟨.refl _, hhandles, hroom, Nat.le_max_right _ _, Nat.le_max_left _ _, Nat.le_refl _⟩
  have hstops := halts_writeDepth hdynamic hclosed hv hfits
    (Nat.le_refl (s.tape.cursor + depthOn s.tape))
  have hend := hfits.onward (keeps_writeValue v s : s.Keeps _).toOnward
  intro e hresult
  have hhalts := hstops e (writeValue v s).2 (Prod.ext hresult rfl)
  cases e with
  | error cause =>
    refine ⟨cause, rfl, fun hdoubles hcapacity => hhalts ?_⟩
    have hlargest : s.tape.growth.largest = Growth.maxCapacity := by
      obtain hgrowth | hgrowth := hdoubles <;> rw [hgrowth] <;> rfl
    rw [hlargest]
    exact Nat.max_le.mpr ⟨Nat.le_refl _, hcapacity⟩
  | outOfRange => exact hhalts.elim
  -- A write that ran out of levels would have filled the tape beyond its end.
  | tooDeep =>
    have hbottom : s.tape.cursor + depthOn s.tape ≤ (writeValue v s).2.tape.cursor := hhalts
    have hreach := hend.cursor_le
    rw [depthOn] at hbottom
    omega

namespace RootM

variable {v : Value} {world : World} {scratch : Scratch}

/-- A root write ends as its session does. -/
theorem ends_ofSession (hdynamic : world.graph.Dynamic) (hclosed : world.graph.Closed)
    (hv : world.graph.Has v) (hroom : scratch.tape.cursor ≤ scratch.tape.capacity) :
    scratch.tape.Ends (ofSession (WriteM.writeValue v) (world, scratch)).1 := by
  have hbehind : (world.session scratch.tape scratch.fields).HandlesBehind := fun _ _ h => nomatch h
  exact WriteM.ends_writeValue hdynamic hclosed hv hbehind hroom

/-- An encode through a scratch ends as its session does: the bytes it tells lie within the tape. -/
theorem ends_encodeWith (hdynamic : world.graph.Dynamic) (hclosed : world.graph.Closed)
    (hv : world.graph.Has v) : scratch.tape.Ends (encodeWith v (world, scratch)).1 := by
  have hroom : scratch.reset.tape.cursor ≤ scratch.reset.tape.capacity := Nat.zero_le _
  have hends : scratch.tape.Ends (ofSession (WriteM.writeValue v) (world, scratch.reset)).1 :=
    ends_ofSession hdynamic hclosed hv hroom
  have hkeeps := ofSession_keeps v world scratch.reset
  simp only [encodeWith]
  generalize ofSession (WriteM.writeValue v) (world, scratch.reset) = run at hends hkeeps ⊢
  obtain ⟨e | _, world', tape, fields⟩ := run
  · intro _ h
    cases h
    exact hends e rfl
  · -- What was written is in the storage.
    obtain ⟨bytes, hbytes⟩ := Tape.written?_eq (hkeeps.1.room hroom)
    simp only [hbytes]
    intro _ h
    cases h

end RootM

/-- An object that refers to itself, through a collection and through a proxy as well. -/
def ringWorld : World where
  service := { registry := Registry.new { initialCapacity := 16, identityHash := true } }
  graph := { nodes := #[
    .object (.dynamic {
      typeName := "Pair", fields := [("a", .ref 1), ("b", .ref 0)], raw := some [7] }),
    .collection "Vec" [.plain (.int 5), .ref 0, .ref 2],
    .proxy ["Shape"] (.ref 0)] }

/-- The objects of the ring have their fields in a list. -/
theorem ringWorld_dynamic : ringWorld.graph.Dynamic := by decide

end ObjectWire
