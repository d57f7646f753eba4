import ObjectWire.Proofs.StrictWrites

/-!
# Strict writes of nodes

The values inside a node are settled if all values are, and so the node itself is: an object by its fields,
a container by its items, and an object that gives way by the value in its place (`WriteM.ensures_writeNode`).
So a whole write settles the value that it starts at (`WriteM.arrives_writeDepth`).  It starts with no node
recorded, so that in the end everything on the way is settled without exception
(`Survey.Closed.knows`).
-/

namespace ObjectWire

open ObjectWire.Action

namespace Action.EnsuresIn

variable {σ τ α : Type} {E : Stop → σ → Prop} {Q : α → σ → Prop}

/-- An action that runs as another one does. -/
theorem of_run {x : Action σ α} {y : Action σ α} {s t : σ} (h : x.run s = y.run t)
    (hy : y.EnsuresIn E Q t) : x.EnsuresIn E Q s where
  result hrun := hy.result (h.symm.trans hrun)
  stops e s' hrun := hy.stops e s' (h.symm.trans hrun)

/-- An action on one part of the state, put back into the whole. -/
theorem part {y : Action σ α} {x : Action τ α} {s : σ} {t : τ} (back : τ → σ)
    (h : y s = ((x t).1, back (x t).2))
    (hx : x.EnsuresIn (fun e t' => E e (back t')) (fun a t' => Q a (back t')) t) :
    y.EnsuresIn E Q s where
  result hrun := by
    obtain ⟨t', ht, rfl⟩ := (yields_part y x back h).mp hrun
    exact hx.result ht
  stops := .part back h hx.stops

end Action.EnsuresIn

namespace ObjectM

open Survey

variable {k : Survey} {names : List String} {vs : List Value} {α : Type}

/-- What a write settles in the session it settles in the writer too. -/
theorem settles_inSession {x : WriteM α} (hx : k.Settles id names vs x) :
    k.Settles (·.session) names vs (inSession x) := fun o ho hmet hdue =>
  .part (fun session => { o with session }) rfl (hx o.session ho hmet hdue)

/-- An object beside itself. -/
theorem steady_of_mirrors {y : ObjectM α} {o o' : OpenObject} {a : α}
    (hy : ∀ {P : Pairing}, TypeService.Mirrored (fun _ => False) P.service →
      Mirrors (fun _ => False) (OpenObject.Beside P) y y) (h : y.Yields o a o') :
    o.session.Steady o'.session := by
  obtain ⟨_, -, hfalse⟩ | ⟨-, hbeside⟩ := hy o.session.mirrored_itself ⟨rfl, o.session.beside_itself⟩
  · exact hfalse.elim
  · rw [show y o = (.ok a, o') from h] at hbeside
    exact hbeside.session.steady

/-- To begin a field can fail for its id, but never for a type. -/
theorem settles_beginField (name : String) : k.Settles (·.session) [] [] (beginField name) := by
  refine .of_steady (fun o => ?_) (steady_of_mirrors fun hV => mirrors_beginField hV name)
  exact stopsFor_beginField (fun e h => blames_of_not_isResolution h.2) fun _ text he => nomatch he

/-- To begin the raw section comes by no value. -/
theorem settles_enterRaw : k.Settles (·.session) [] [] enterRaw :=
  (settles_inSession (.read _)).before fun _ => .update fun _ => ⟨rfl, rfl, .refl _⟩

theorem settles_noteObject (op : ObjectOp) (outcome : ObjectWire.Outcome) :
    k.Settles (·.session) [] [] (noteObject op outcome) := .update fun _ => ⟨rfl, rfl, .refl _⟩

section

variable {rec : Value → WriteM Unit} (hrec : ∀ v, k.Settles id [] [v] (rec v))

include hrec

/-- A field settles its value. -/
theorem settles_writeField (name : String) (v : Value) :
    k.Settles (·.session) [] [v] (writeField rec name v) :=
  (settles_beginField name).before fun _ => settles_inSession (hrec v)

/-- A plain call comes by the value of its field, if it has one. -/
theorem settles_runOp {op : ObjectOp} (hop : op.isPlain = true) :
    k.Settles (·.session) [] op.value?.toList (runOp rec op) := by
  cases op with
  | field name v =>
    rw [runOp]
    exact (settles_writeField hrec name v).behind fun _ => settles_noteObject _ _
  | raw ops =>
    obtain ⟨bs, rfl⟩ := ObjectOp.isPlain_raw hop
    rw [runOp]
    apply settles_enterRaw.before
    intro _
    have hbytes : k.Settles (·.session) [] [] (inSession (WriteM.onTape (Tape.write bs))) :=
      settles_inSession (WriteM.settles_onTape (Tape.short_write bs).locally)
    have hraws : k.Settles (·.session) [] [] (runRaws rec [.bytes bs]) :=
      Settles.before (.read _) fun w => (hbytes.before fun _ => .pure ()).before fun _ =>
        Settles.before (.read _) fun w => .pure _
    exact hraws.before fun _ => settles_noteObject _ _
  | _ => cases hop

/-- Plain calls settle the values of the fields among them. -/
theorem settles_runOps {ops : List ObjectOp} (hops : ∀ op ∈ ops, op.isPlain = true) :
    k.Settles (·.session) [] (ops.filterMap ObjectOp.value?) (runOps rec ops) := by
  -- Call by call, with the values of all calls before it settled.
  induction ops with
  | nil =>
    rw [runOps]
    exact .pure ()
  | cons op ops ih =>
    obtain ⟨hop, hrest⟩ := List.forall_mem_cons.mp hops
    rw [runOps, ObjectOp.values_cons]
    exact (settles_runOp hrec hop).bind fun _ => ih hrest

/-- An object that writes itself plainly comes by the values of its fields. -/
theorem settles_writeBody (node : NodeId) {o : UserObject} (ho : o.IsPlain) :
    k.Settles (·.session) [] o.contents (WriteM.writeBody rec node o) := by
  cases o with
  | dynamic d =>
    have hfields : k.Settles (·.session) (d.fields.flatMap fun _ => [])
        (d.fields.flatMap fun field => [field.2])
        (Action.forEach (fun field : String × Value => writeField rec field.1 field.2) d.fields) :=
      .forEach fun field _ => settles_writeField hrec field.1 field.2
    rw [List.flatMap_eq_nil_iff.mpr fun _ _ => rfl, ← List.map_eq_flatMap,
      ← Node.contents_dynamic] at hfields
    refine hfields.behind fun _ => ?_
    split
    · next bs _ =>
      exact settles_enterRaw.before fun _ =>
        settles_inSession (WriteM.settles_onTape (Tape.short_write bs).locally)
    · exact .pure ()
  | programmed p =>
    refine Settles.before (.read _) fun w => ?_
    have hnote : ∀ entry, k.Settles id [] [] (WriteM.note entry) :=
      fun entry => .update fun _ => ⟨rfl, rfl, .refl _⟩
    exact (settles_inSession (hnote _)).before fun _ => settles_runOps hrec ho

end

end ObjectM

namespace WriteM

open Survey

variable {k : Survey} {names : List String} {vs : List Value}

/-- An object is begun, has its body run, and is finished.  What the body ensures and what does not depend on
    the tape is ensured by the whole. -/
theorem ensures_writeFramed {typeId : Int32} {inlineName : Option String} {body : ObjectM Unit}
    {userType : Bool} {E : Stop → Session → Prop} {Q : Session → Prop} {s : Session}
    (hbegin : (ObjectWriter.begin typeId inlineName).StopsIn E s)
    (hbody : ∀ {w s₁}, (ObjectWriter.begin typeId inlineName).Yields s w s₁ → s.Steady s₁ →
      body.EnsuresIn (fun e o => E e o.session) (fun _ o => Q o.session) ⟨w, s₁⟩)
    (hfinish : ∀ (w : ObjectWriter) s₁, Q s₁ → (w.finish userType).StopsIn E s₁)
    (hsteady : ∀ {s₁ s₂ : Session}, s₁.Steady s₂ → Q s₁ → Q s₂)
    (hreleased : ∀ {w : ObjectWriter} {e s₁}, E e s₁ → E e (w.release s₁)) :
    (writeFramed typeId inlineName body (some userType)).EnsuresIn E (fun _ => Q) s := by
  have hbegun : ∀ {w s₁}, (ObjectWriter.begin typeId inlineName).Yields s w s₁ → s.Steady s₁ :=
    steady_of_mirrors fun hV => ObjectWriter.mirrors_begin hV _ _
  constructor
  · intro written s' h
    obtain ⟨w, s₁, o, _, s₂, hw, ho, hend, rfl⟩ := writeFramed_yields h
    have hbodied := (hbody hw (hbegun hw)).result ho
    have hfinished := hsteady (steady_of_mirrors (fun hV => o.writer.mirrors_finish hV _) hend) hbodied
    -- Only the fields of the object come off the stack.
    have hsame : s₂.Steady (o.writer.release s₂) := ⟨rfl, rfl, .refl _⟩
    exact hsteady hsame hfinished
  · refine stopsIn_writeFramed hbegin (fun hw => ?_) fun {w s₁ o} hw ho => ?_
    · exact (hbody hw (hbegun hw)).stops.mono fun _ _ => hreleased
    · exact (hfinish _ _ ((hbody hw (hbegun hw)).result ho)).mono fun _ _ => hreleased

/-- An object comes by what its body comes by. -/
theorem settles_writeFramed {typeId : Int32} {inlineName : Option String} {body : ObjectM Unit}
    {userType : Bool} (hbody : k.Settles (·.session) names vs body) :
    k.Settles id names vs (writeFramed typeId inlineName body (some userType)) := by
  intro s hs hmet hdue
  have hbegin : k.Settles id [] [] (ObjectWriter.begin typeId inlineName) :=
    settles_of_mirrors (ObjectWriter.short_begin _ _).locally fun hV => ObjectWriter.mirrors_begin hV _ _
  have hfinish : ∀ w : ObjectWriter, k.Settles id [] [] (w.finish userType) :=
    fun w => settles_of_mirrors (w.locally_finish _) fun hV => w.mirrors_finish hV _
  -- Beginning and finishing the object settle nothing, and unsettle nothing either.
  refine ensures_writeFramed (hbegin s hs nofun nofun).stops (fun {w s₁} _ hsteady => ?_)
    (fun w s₁ h => ?_) (fun hsteady h => ?_) id
  · have hfirst : k.Completes s s₁ := .of_steady hsteady
    have hran := hbody ⟨w, s₁⟩ (hs.completes hfirst) hmet fun v hv => (hdue v hv).mono hfirst.graph
    exact hran.mono fun h => ⟨hfirst.trans h.1, h.2⟩
  · exact (hfinish w s₁ (hs.completes h.1) nofun nofun).stops
  · have hrest : k.Completes _ _ := .of_steady hsteady
    exact ⟨h.1.trans hrest, h.2.1, fun v hv => (h.2.2 v hv).completes hrest⟩

section

variable {rec : Value → WriteM Unit} (hrec : ∀ v, k.Settles id [] [v] (rec v))

include hrec

/-- A whole object settles the values of its body. -/
theorem settles_writeWhole (node : NodeId) {o : UserObject} (ho : o.IsPlain) (resolved : ResolvedType) :
    k.Settles id [] o.contents (writeWhole rec node o resolved) :=
  (settles_writeFramed (ObjectM.settles_writeBody hrec node ho)).behind fun _ => .pure ()

/-- A container comes by the names in its head and by the values inside it. -/
theorem settles_writeContents {n : Node} (hobject : ∀ o, n ≠ .object o) :
    k.Settles id n.typeNames n.contents (writeContents rec n) := by
  have hvalues : k.Settles id (n.values.flatMap fun _ => []) (n.values.flatMap fun v => [v])
      (Action.forEach rec n.values) := .forEach fun v _ => hrec v
  rw [List.flatMap_eq_nil_iff.mpr fun _ _ => rfl, List.flatMap_singleton'] at hvalues
  have hboth := (settles_writeHead hobject).bind fun _ => hvalues
  rw [List.append_nil] at hboth
  rw [(Node.parts_container hobject).1]
  exact hboth

end

section

variable {node : NodeId} {s s' : Session}

/-- Recording a node adds an entry for it, unless there is one already. -/
theorem find?_recorded (other : NodeId) : (recorded node s).handles.find? other =
    if node = other then some ((s.handles.find? node).getD s.tape.cursor)
    else s.handles.find? other := HandleTable.find?_put_snd ..

/-- A node that was recorded before is not recorded again. -/
theorem steady_recorded {first : Nat} (h : s.handles.find? node = some first) :
    s.Steady (recorded node s) := by
  refine ⟨funext fun other => ?_, rfl, .refl _⟩
  rw [find?_recorded]
  split
  · next heq => rw [← heq, h, Option.getD_some]
  · rfl

/-- A step that begins by recording a node is done with it if it is so in the end. -/
theorem completes_recorded {W : Session → NodeId → Prop}
    (h : Session.Completes W (recorded node s) s') (hnode : W s' node) :
    Session.Completes W s s' ∧ s'.handles.find? node ≠ none := by
  refine ⟨⟨h.graph, h.service, fun other hbefore => h.seen other ?_, fun other hlater => ?_⟩,
    h.seen node ?_⟩
  · rw [find?_recorded]
    split
    · exact Option.some_ne_none _
    · exact hbefore
  · -- A node that was seen in the end is this one, or was seen before, or was completed in between.
    obtain hbefore | hwhole := h.whole other hlater
    · rw [find?_recorded] at hbefore
      split at hbefore
      · next heq =>
        subst heq
        exact .inr hnode
      · exact .inl hbefore
    · exact .inr hwhole
  · rw [find?_recorded, if_pos rfl]
    exact Option.some_ne_none _

end

/-- A node is settled once it was written in full, and so it is if it was recorded before. -/
theorem ensures_writeOnce {asked : Bool} {node : NodeId} {n : Node} {body : WriteM Unit} {s : Session}
    (hs : k.Covers s) (hn : s.graph.node? node = some n)
    (hstays : asked = true → n.replacement = none)
    (hbody : body.Ensures k.Blames (fun _ s' => k.Completes (recorded node s) s' ∧ k.Whole s' n)
      (recorded node s)) :
    (writeOnce node body).Ensures k.Blames
      (fun _ s' => k.Completes s s' ∧ k.Settled s' asked (.ref node)) s := by
  cases hfind : s.handles.find? node with
  | none =>
    refine .of_run (writeOnce_new hfind) (hbody.mono fun {_ s'} h => ?_)
    obtain ⟨hcompletes, hwhole⟩ := h
    have hn' : s'.graph.node? node = some n := hcompletes.graph node n hn
    exact ⟨(completes_recorded hcompletes ⟨n, hn', hwhole⟩).1, .whole hn' hstays hwhole.1 hwhole.2⟩
  | some first =>
    -- A back reference names no type, so the node stays as settled as it was.
    have hback : k.Settles id [] [] (writeBack first s.tape.cursor) := by
      refine settles_of_mirrors ?_ fun _ => mirrors_writeBack first s.tape.cursor
      apply (locally_distance _ _).bind
      intro delta
      exact (locally_length _ _).bind fun _ => stopsOnly_onTape Encode.short_tagged.locally
    have hsteady := steady_recorded hfind
    have hs₁ := hs.completes (.of_steady hsteady)
    refine .of_run (writeOnce_seen hfind) ((hback _ hs₁ nofun nofun).mono fun {_ s'} h => ?_)
    have hcompletes := Completes.trans (.of_steady hsteady) h.1
    refine ⟨hcompletes, .seen (hcompletes.graph node n hn) hstays (hcompletes.seen node ?_)⟩
    rw [hfind]
    exact Option.some_ne_none first

end WriteM

/-- Wherever the value is due to be written as it is, the action settles it. -/
def Survey.Arrives (k : Survey) (asked : Bool) (v : Value) (x : WriteM Unit) : Prop :=
  ∀ s, k.Covers s → k.graph.Awaits k.root s.graph asked v →
    x.Ensures k.Blames (fun _ s' => k.Completes s s' ∧ k.Settled s' asked v) s

/-- Where a value is written as it is, to arrive at it is to settle it. -/
theorem Survey.Arrives.settles {k : Survey} {v : Value} {x : WriteM Unit} (h : k.Arrives true v x) :
    k.Settles id [] [v] x := by
  intro s hs _ hdue
  refine (h s hs ⟨hdue v (List.mem_singleton_self v), nofun⟩).mono fun {_ s'} h' => ?_
  exact ⟨h'.1, nofun, List.forall_mem_singleton.mpr h'.2⟩

namespace WriteM

open Survey

/-- Takes the value for a replacement, and the nodes that it brings with it. -/
def replace (r : Replacement) : WriteM Value := fun s =>
  (.ok (s.graph.instantiate r).1, { s with graph := (s.graph.instantiate r).2 })

/-- Writes a value in the place of an object.  An object there is not asked for a replacement. -/
def standIn (rec : Value → WriteM Unit) (v : Value) : WriteM Unit :=
  match v with
  | .ref other => do
    match ← Action.read (·.graph.object? other) with
    | some o => writeResolved rec other o (← resolveObject o)
    | none => rec v
  | v => rec v

section

variable (rec : Value → WriteM Unit) (node : NodeId) {o : UserObject}

/-- An object that asks for no replacement is written under its own type. -/
theorem writeObject_stays (h : o.replacement = none) : writeObject rec node o =
    resolveObject o >>= fun resolved => writeResolved rec node o resolved := by
  simp only [writeObject, h]

/-- An object that asks for one still resolves its type first, and then another value stands in for it. -/
theorem writeObject_replaced {r : Replacement} (h : o.replacement = some r) :
    writeObject rec node o = resolveObject o >>= fun _ => note (.replaced node) >>= fun _ =>
      replace r >>= standIn rec := by
  simp only [writeObject, h]
  rfl

variable {s : Session}

/-- An object that stands in for another one is not replaced once more. -/
theorem standIn_object (h : s.graph.node? node = some (.object o)) : (standIn rec (.ref node)).run s =
    (resolveObject o >>= fun resolved => writeResolved rec node o resolved).run s := by
  rw [standIn, run_read_bind, Graph.object?_of_node? h]

/-- Any other value stands in as it would be written anywhere. -/
theorem standIn_other {v : Value} (h : ∀ node o, v = .ref node → s.graph.node? node ≠ some (.object o)) :
    (standIn rec v).run s = (rec v).run s := by
  cases v with
  | ref node =>
    rw [standIn, run_read_bind]
    cases hobject : s.graph.object? node with
    | some o => exact absurd (Graph.object?_eq_some hobject) (h node o rfl)
    | none => rfl
  | _ => rfl

end

section

variable {k : Survey} (hcomplete : k.graph.Complete) (hroot : k.graph.Has k.root)
  (hplain : k.graph.WritesPlainly k.root) {rec : Value → WriteM Unit}
  (hrec : ∀ asked v, k.Arrives asked v (rec v)) {asked : Bool} {node : NodeId} {s : Session}
  (hs : k.Covers s)

include hcomplete hroot hplain hrec hs

/-- An object that does not give way is settled by its fields. -/
theorem ensures_writeResolved {o : UserObject} (hdue : k.graph.Due k.root s.graph asked (.ref node))
    (ho : s.graph.node? node = some (.object o)) (hstays : asked = true → o.replacement = none) :
    (resolveObject o >>= fun resolved => writeResolved rec node o resolved).Ensures k.Blames
      (fun _ s' => k.Completes s s' ∧ k.Settled s' asked (.ref node)) s := by
  have hmet : ∀ name ∈ [o.typeName], k.graph.Meets k.root name :=
    hdue.names hcomplete hroot hs.graph ho
  have ho' : o.IsPlain := hdue.isPlain hcomplete hroot hs.graph ho hplain rfl hstays
  have hcontents := hdue.inside hcomplete hroot hs.graph ho hstays
  refine (settles_resolveObject o s hs hmet nofun).bind fun {resolved s₁} h₁ => ?_
  obtain ⟨hresolved, hknown, -⟩ := h₁
  have hs₁ := hs.completes hresolved
  have hs₂ : k.Covers (recorded node s₁) := ⟨hs₁.strict, hs₁.types, hs₁.graph⟩
  -- The object is recorded before its body, which changes neither graph nor types.
  have hbody := settles_writeWhole (fun v => (hrec true v).settles) node ho' resolved _ hs₂ nofun
    fun v hv => (hcontents v hv).mono hresolved.graph
  rw [writeResolved_eq]
  have honce := ensures_writeOnce hs₁ (hresolved.graph _ _ ho) hstays
    (hbody.mono fun h => ⟨h.1, hknown, h.2.2⟩)
  exact honce.mono fun h => ⟨hresolved.trans h.1, h.2⟩

/-- In the place of an object another object is settled by its fields, and any other value as it is. -/
theorem ensures_standIn {v : Value} (hdue : k.graph.Due k.root s.graph false v) :
    (standIn rec v).Ensures k.Blames (fun _ s' => k.Completes s s' ∧ k.Settled s' false v) s := by
  by_cases hobject : ∃ other o, v = .ref other ∧ s.graph.node? other = some (.object o)
  · obtain ⟨other, o, rfl, ho⟩ := hobject
    exact .of_run (standIn_object rec other ho)
      (ensures_writeResolved hcomplete hroot hplain hrec hs hdue ho nofun)
  · have hother : ∀ node o, v = .ref node → s.graph.node? node ≠ some (.object o) :=
      fun node o hnode ho => hobject ⟨node, o, hnode, ho⟩
    exact .of_run (standIn_other rec hother) (hrec false v s hs ⟨hdue, fun _ => hother⟩)

/-- An object that gives way is settled by the value in its place. -/
theorem ensures_writeObject {o : UserObject} (hdue : k.graph.Due k.root s.graph true (.ref node))
    (ho : s.graph.node? node = some (.object o)) :
    (writeObject rec node o).Ensures k.Blames
      (fun _ s' => k.Completes s s' ∧ k.Settled s' true (.ref node)) s := by
  cases hreplacement : o.replacement with
  | none =>
    rw [writeObject_stays rec node hreplacement]
    exact ensures_writeResolved hcomplete hroot hplain hrec hs hdue ho fun _ => hreplacement
  | some r =>
    have hmet : ∀ name ∈ [o.typeName], k.graph.Meets k.root name :=
      hdue.names hcomplete hroot hs.graph ho
    rw [writeObject_replaced rec node hreplacement]
    refine (settles_resolveObject o s hs hmet nofun).bind fun {_ s₁} h₁ => ?_
    obtain ⟨hresolved, hknown, -⟩ := h₁
    have hnote : k.Settles id [] [] (note (.replaced node)) := .update fun _ => ⟨rfl, rfl, .refl _⟩
    have hs₁ := hs.completes hresolved
    refine (hnote s₁ hs₁ nofun nofun).bind fun {_ s₂} h₂ => ?_
    obtain ⟨hnoted, -, -⟩ := h₂
    have hs₂ := hs₁.completes hnoted
    have hbefore := hresolved.trans hnoted
    have ho₂ : s₂.graph.node? node = some (.object o) := hbefore.graph _ _ ho
    -- The replacement brings its nodes with it, and nothing is written for that.
    have hreplace : (replace r).Ensures k.Blames (fun v s₃ => v = (s₂.graph.instantiate r).1 ∧
        s₃ = { s₂ with graph := (s₂.graph.instantiate r).2 }) s₂ :=
      ⟨fun h => by cases h; exact ⟨rfl, rfl⟩, fun _ _ h => nomatch h⟩
    refine hreplace.bind fun {v s₃} h₃ => ?_
    obtain ⟨rfl, rfl⟩ := h₃
    have hbrought : k.Completes s₂ { s₂ with graph := (s₂.graph.instantiate r).2 } :=
      ⟨Graph.extends_instantiate _ _, .refl _, fun _ => id, fun _ => .inl⟩
    obtain ⟨hcopied, hdue₃⟩ :=
      (hdue.mono hbefore.graph).replaced hcomplete hroot hs₂.graph ho₂ hreplacement
    -- The value in the place of the object is due, as the object was.
    have hvalue := ensures_standIn hcomplete hroot hplain hrec (hs₂.completes hbrought) hdue₃
    refine hvalue.mono fun {_ s'} h' => ?_
    obtain ⟨hcompletes, hsettled⟩ := h'
    have hall := (hbefore.trans hbrought).trans hcompletes
    exact ⟨hall, .replaced (hall.graph _ _ ho) hreplacement hknown (hcopied.mono hcompletes.graph) hsettled⟩

/-- A node is settled by the values inside it or by the value in its place. -/
theorem ensures_writeNode {n : Node} (hdue : k.graph.Due k.root s.graph asked (.ref node))
    (hn : s.graph.node? node = some n) (hasked : asked = false → ∀ o, n ≠ .object o) :
    (writeNode rec node n).Ensures k.Blames
      (fun _ s' => k.Completes s s' ∧ k.Settled s' asked (.ref node)) s := by
  have hmet := hdue.names hcomplete hroot hs.graph hn
  -- A container is written the same way whether it is recorded first or not.
  have hcontainer : (∀ o, n ≠ .object o) → ∀ {s₁ : Session}, k.Covers s₁ → s₁.graph = s.graph →
      (writeContents rec n).Ensures k.Blames (fun _ s' => k.Completes s₁ s' ∧ k.Whole s' n) s₁ := by
    intro hobject s₁ hs₁ hgraph
    have hstays : n.replacement = none := (Node.parts_container hobject).2
    have hcontents := hdue.inside hcomplete hroot hs.graph hn fun _ => hstays
    exact settles_writeContents (fun v => (hrec true v).settles) hobject s₁ hs₁ hmet
      fun v hv => hgraph ▸ hcontents v hv
  have hs₁ : k.Covers (recorded node s) := ⟨hs.strict, hs.types, hs.graph⟩
  cases n with
  | object o =>
    cases asked with
    | true => exact ensures_writeObject hcomplete hroot hplain hrec hs hdue hn
    | false => exact absurd rfl (hasked rfl o)
  | array componentType items =>
    rw [writeNode_array]
    exact ensures_writeOnce hs hn (fun _ => rfl) (hcontainer nofun hs₁ rfl)
  | collection typeName items =>
    rw [writeNode_collection]
    exact ensures_writeOnce hs hn (fun _ => rfl) (hcontainer nofun hs₁ rfl)
  | map typeName entries =>
    rw [writeNode_map]
    exact ensures_writeOnce hs hn (fun _ => rfl) (hcontainer nofun hs₁ rfl)
  | proxy interfaces handler =>
    rw [writeNode_proxy]
    refine (hcontainer nofun hs rfl).mono fun h => ?_
    exact ⟨h.1, .whole (h.1.graph _ _ hn) (fun _ => rfl) h.2.1 h.2.2⟩

end

section

variable {k : Survey} (hcomplete : k.graph.Complete) (hroot : k.graph.Has k.root)
  (hplain : k.graph.WritesPlainly k.root)

include hcomplete hroot hplain

/-- Writing a value settles it. -/
theorem arrives_writeDepth (depth : Nat) (asked : Bool) (v : Value) :
    k.Arrives asked v (writeDepth depth v) := by
  -- By induction on the depth, for all values at once and whether they are asked for a replacement or not.
  induction depth generalizing asked v with
  | zero =>
    refine fun s _ _ => ⟨fun h => (yields_stop _ _ _ _ h).elim, .stop fun text he => ?_⟩
    cases he
  | succ depth ih =>
    intro s hs hawaits
    obtain ⟨hdue, hasked⟩ := hawaits
    -- Values that are no nodes are settled by their names.
    have hleaf : (∀ node, v ≠ .ref node) → ∀ {x : WriteM Unit},
        k.Settles id (s.graph.typeNames v) [] x →
        x.Ensures k.Blames (fun _ s' => k.Completes s s' ∧ k.Settled s' asked v) s := by
      intro hleaf x hx
      refine (hx s hs (hdue.names_leaf hleaf) nofun).mono fun h => ?_
      exact ⟨h.1, Settled.completes (.leaf hleaf h.2.1) h.1⟩
    cases v with
    | plain v => exact hleaf nofun (settles_writePlain v)
    | enum v => exact hleaf nofun (settles_writeEnum v)
    | enumArray typeName items => exact hleaf nofun (settles_writeEnumArray typeName items)
    | binaryEnum v => exact hleaf nofun (settles_writeBinaryEnum v)
    | classRef typeName => exact hleaf nofun (settles_writeClassRef typeName)
    | ref node =>
      obtain ⟨n, hn⟩ := hdue.node? hcomplete hroot hs.graph
      have hread : (Action.read fun s : Session => s.graph.node? node).Ensures k.Blames
          (fun n? s₁ => some n = n? ∧ s = s₁) s :=
        ⟨fun h => hn ▸ (yields_read ..).mp h, .read _⟩
      refine hread.bind fun {n? s₁} h => ?_
      obtain ⟨rfl, rfl⟩ := h
      exact ensures_writeNode hcomplete hroot hplain ih hs hdue hn
        fun h o ho => hasked h node o rfl (ho ▸ hn)

end

end WriteM

namespace Survey

variable {k : Survey} {s s' : Session}

/-- All nodes that are recorded were written in full. -/
def Closed (k : Survey) (s : Session) : Prop :=
  ∀ node, s.handles.find? node ≠ none → ∃ n, s.graph.node? node = some n ∧ k.Whole s n

/-- After a step that started with no node recorded, all of them were written in full. -/
theorem Completes.closed (hs : k.Completes s s') (hfresh : ∀ node, s.handles.find? node = none) :
    k.Closed s' :=
  fun node hseen => (hs.whole node hseen).resolve_left fun hbefore => hbefore (hfresh node)

namespace Closed

variable (h : k.Closed s)

include h

/-- What is settled is followed on the way by what is settled. -/
theorem follows {asked : Bool} {node : NodeId} {n : Node} (hsettled : k.Settled s asked (.ref node))
    (hn : s.graph.node? node = some n) :
    (∀ name ∈ n.typeNames, k.Knows name) ∧
      ((asked = true → n.replacement = none) → ∀ v ∈ n.contents, k.Settled s true v) ∧
      ∀ r, asked = true → n.replacement = some r →
        ∃ v, k.graph.Copied s.graph v r.value ∧ k.Settled s false v := by
  -- A node that was written in full did not give way.
  have hwhole : (asked = true → n.replacement = none) → k.Whole s n →
      (∀ name ∈ n.typeNames, k.Knows name) ∧
        ((asked = true → n.replacement = none) → ∀ v ∈ n.contents, k.Settled s true v) ∧
        ∀ r, asked = true → n.replacement = some r →
          ∃ v, k.graph.Copied s.graph v r.value ∧ k.Settled s false v := by
    intro hstays hwhole
    refine ⟨hwhole.1, fun _ => hwhole.2, fun r hasked hr => ?_⟩
    cases (hstays hasked).symm.trans hr
  cases hsettled with
  | leaf hleaf => exact absurd rfl (hleaf node)
  | seen hn' hstays hseen =>
    cases hn.symm.trans hn'
    obtain ⟨m, hm, hrecorded⟩ := h node hseen
    cases hn.symm.trans hm
    exact hwhole hstays hrecorded
  | whole hn' hstays hnames hcontents =>
    cases hn.symm.trans hn'
    exact hwhole hstays ⟨hnames, hcontents⟩
  | replaced hn' hr hnames hcopied hvalue =>
    cases hn.symm.trans hn'
    refine ⟨hnames, fun hstays => ?_, fun r _ hr' => ?_⟩
    · cases (hstays rfl).symm.trans hr
    · cases hr.symm.trans hr'
      exact ⟨_, hcopied, hvalue⟩

variable (hext : k.graph.Extends s.graph) (hroot : k.Settled s true k.root)

include hext hroot

/-- Everything on the way of a write whose start is settled has a copy that is settled. -/
theorem settled {asked : Bool} {v : Value} (hv : k.graph.Visits k.root asked v) :
    ∃ v', k.graph.Copied s.graph v' v ∧ k.Settled s asked v' := by
  -- Along the way: each step goes from a copy that is settled to one of what comes next.
  induction hv with
  | root => exact ⟨k.root, .refl _, hroot⟩
  | inside _ hn hstays hv ih =>
    obtain ⟨v', hcopied, hsettled⟩ := ih
    obtain ⟨node', f, rfl, hf, hn'⟩ := hcopied.of_node hext hn
    have hfollows := h.follows hsettled hn'
    rw [Node.replacement_mapRefs] at hfollows
    obtain ⟨w, hw, hcopied'⟩ := hf.contents hv
    exact ⟨w, hcopied', hfollows.2.1 hstays w hw⟩
  | replaced _ hn hr ih =>
    obtain ⟨v', hcopied, hsettled⟩ := ih
    obtain ⟨node', f, rfl, -, hn'⟩ := hcopied.of_node hext hn
    have hfollows := h.follows hsettled hn'
    rw [Node.replacement_mapRefs] at hfollows
    exact hfollows.2.2 _ rfl hr

/-- So every name that was met is known. -/
theorem knows {name : String} (hname : k.graph.Meets k.root name) : k.Knows name := by
  obtain ⟨asked, v, hvisits, hname⟩ := hname
  obtain ⟨v', hcopied, hsettled⟩ := h.settled hext hroot hvisits
  cases v with
  | ref node =>
    cases hn : k.graph.node? node with
    | none =>
      rw [Graph.typeNames, hn] at hname
      cases hname
    | some n =>
      -- The copy has the names of the original.
      obtain ⟨node', f, rfl, -, hn'⟩ := hcopied.of_node hext hn
      rw [Graph.typeNames, hn] at hname
      apply (h.follows hsettled hn').1
      rwa [Node.typeNames_mapRefs]
  | _ =>
    obtain ⟨f, -, rfl⟩ := hcopied
    cases hsettled with
    | leaf _ hnames => exact hnames name hname

end Closed

end Survey

end ObjectWire
