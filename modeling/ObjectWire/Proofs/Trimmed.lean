import ObjectWire.Proofs.Stability
import ObjectWire.Proofs.StrictNodes
import ObjectWire.Proofs.Tours

/-!
# Programs that are never run

An object that gives way to another value does not write itself, so its program does not matter.  A graph is
trimmed by taking away all programs that a dynamic object could not run (`Graph.trimmed`).  If the objects
that are written in full write themselves plainly, a write goes over the trimmed graph as it goes over the
graph itself (`WriteM.mirrors_trimmed`), and leaves the same bytes (`encode_trimmed`).
-/

namespace ObjectWire

open ObjectWire.Action

namespace UserObject

/-- The object without its program if that is not plain. -/
def trimmed : UserObject → UserObject
  | dynamic d => dynamic d
  | programmed p =>
    programmed { p with program := if p.program.all ObjectOp.isPlain then p.program else [] }

variable (o : UserObject)

@[simp] theorem typeName_trimmed : o.trimmed.typeName = o.typeName := by
  cases o <;> rfl

@[simp] theorem replacement_trimmed : o.trimmed.replacement = o.replacement := by
  cases o <;> rfl

/-- A program that is plain is kept. -/
theorem trimmed_of_isPlain {o : UserObject} (h : o.IsPlain) : o.trimmed = o := by
  cases o with
  | dynamic d => rfl
  | programmed p =>
    have hall : p.program.all ObjectOp.isPlain = true := List.all_eq_true.mpr h
    rw [trimmed, if_pos hall]

/-- The object is as before, or nothing is left of what it writes. -/
theorem trimmed_cases : o.IsPlain ∧ o.trimmed = o ∨ o.trimmed.calls = [] := by
  cases o with
  | dynamic d => exact .inl ⟨isPlain_dynamic d, rfl⟩
  | programmed p =>
    cases hplain : p.program.all ObjectOp.isPlain with
    | true =>
      have h : (programmed p).IsPlain := List.all_eq_true.mp hplain
      exact .inl ⟨h, trimmed_of_isPlain h⟩
    | false =>
      right
      rw [trimmed, hplain]
      rfl

/-- What is left writes itself plainly. -/
theorem isPlain_trimmed : o.trimmed.IsPlain := by
  obtain ⟨hplain, hsame⟩ | hnone := o.trimmed_cases
  · exact hsame.symm ▸ hplain
  · intro op hop
    rw [hnone] at hop
    cases hop

/-- No value is left that was not there. -/
theorem contents_trimmed : ∀ v ∈ o.trimmed.contents, v ∈ o.contents := by
  intro v hv
  obtain ⟨-, hsame⟩ | hnone := o.trimmed_cases
  · rwa [hsame] at hv
  · rw [contents, hnone] at hv
    cases hv

end UserObject

namespace Node

/-- The node without a program that is not plain. -/
def trimmed : Node → Node
  | object o => object o.trimmed
  | n => n

variable (n : Node)

@[simp] theorem typeNames_trimmed : n.trimmed.typeNames = n.typeNames := by
  cases n with
  | object o => exact congrArg (fun name => [name]) o.typeName_trimmed
  | _ => rfl

@[simp] theorem replacement_trimmed : n.trimmed.replacement = n.replacement := by
  cases n with
  | object o => exact o.replacement_trimmed
  | _ => rfl

/-- Only values of the node are left in it. -/
theorem contents_trimmed : ∀ v ∈ n.trimmed.contents, v ∈ n.contents := by
  cases n with
  | object o => exact o.contents_trimmed
  | _ => exact fun _ => id

/-- To copy a node and then trim it comes to trimming it first. -/
theorem mapRefs_trimmed (f : NodeId → NodeId) : n.trimmed.mapRefs f = (n.mapRefs f).trimmed := by
  cases n with
  | object o => cases o <;> rfl
  | _ => rfl

end Node

namespace Graph

/-- The graph without the programs that are not plain. -/
def trimmed (g : Graph) : Graph := ⟨g.nodes.map Node.trimmed⟩

variable (g : Graph)

/-- Each node is trimmed where it stands. -/
@[simp] theorem node?_trimmed (id : NodeId) : g.trimmed.node? id = (g.node? id).map Node.trimmed :=
  Array.getElem?_map ..

@[simp] theorem size_trimmed : g.trimmed.size = g.size := Array.size_map ..

/-- A graph that is trimmed brings the same copies, trimmed as well. -/
theorem instantiate_trimmed (r : Replacement) :
    g.trimmed.instantiate r = ((g.instantiate r).1, (g.instantiate r).2.trimmed) := by
  cases r with
  | shared v => rfl
  | fresh v first count =>
    have hmap : ∀ f : NodeId → NodeId, Node.mapRefs f ∘ Node.trimmed = Node.trimmed ∘ Node.mapRefs f :=
      fun f => funext fun n => n.mapRefs_trimmed f
    simp only [instantiate, copy, size_trimmed]
    simp only [trimmed, Array.map_append, Array.map_map, ← Array.map_extract, hmap]

variable {g} {root v : Value} {asked : Bool}

/-- No node is taken away. -/
theorem has_trimmed : g.trimmed.Has v ↔ g.Has v := by
  cases v with
  | ref node => rw [Has, Has, size_trimmed]
  | _ => exact Iff.rfl

/-- A program adds nothing to the names that a value has for itself. -/
theorem typeNames_trimmed (v : Value) : g.trimmed.typeNames v = g.typeNames v := by
  cases v with
  | ref node =>
    rw [typeNames, typeNames, node?_trimmed]
    cases g.node? node with
    | none => rfl
    | some n => exact n.typeNames_trimmed
  | _ => rfl

/-- No program that is taken away leads anywhere on the way. -/
theorem Visits.of_trimmed (h : g.trimmed.Visits root asked v) : g.Visits root asked v := by
  induction h with
  | root => exact .root
  | inside _ hn hstays hv ih =>
    rw [node?_trimmed, Option.map_eq_some_iff] at hn
    obtain ⟨m, hm, rfl⟩ := hn
    rw [Node.replacement_trimmed] at hstays
    exact .inside ih hm hstays (m.contents_trimmed _ hv)
  | replaced _ hn hr ih =>
    rw [node?_trimmed, Option.map_eq_some_iff] at hn
    obtain ⟨m, hm, rfl⟩ := hn
    rw [Node.replacement_trimmed] at hr
    exact .replaced ih hm hr

/-- What is met in the trimmed graph is met in the graph itself. -/
theorem Meets.of_trimmed {name : String} (h : g.trimmed.Meets root name) : g.Meets root name := by
  obtain ⟨asked, v, hv, hname⟩ := h
  rw [typeNames_trimmed] at hname
  exact ⟨asked, v, hv.of_trimmed, hname⟩

/-- References and replacements lead to nodes still. -/
theorem Complete.trimmed (h : g.Complete) : g.trimmed.Complete := by
  intro n hn
  rw [Graph.trimmed, Array.toList_map] at hn
  obtain ⟨m, hm, rfl⟩ := List.mem_map.mp hn
  obtain ⟨hcontents, hwithin⟩ := h m hm
  refine ⟨fun v hv => has_trimmed.mpr (hcontents v (m.contents_trimmed v hv)), fun r hr => ?_⟩
  rw [Node.replacement_trimmed] at hr
  have hr' := hwithin r hr
  cases r with
  | shared v => exact has_trimmed.mpr hr'
  | fresh v first count => exact ⟨has_trimmed.mpr hr'.1, g.size_trimmed.symm ▸ hr'.2⟩

/-- All objects of a trimmed graph are plain. -/
theorem isPlain_of_trimmed {id : NodeId} {o : UserObject} (h : g.trimmed.node? id = some (.object o)) :
    o.IsPlain := by
  rw [node?_trimmed, Option.map_eq_some_iff] at h
  obtain ⟨n, -, hn⟩ := h
  cases n with
  | object u =>
    cases hn
    exact u.isPlain_trimmed
  | _ => cases hn

theorem regular_trimmed (g : Graph) : g.trimmed.Regular :=
  fun _ _ ho => (isPlain_of_trimmed ho).isRegular

/-- A write over a trimmed graph comes by plain objects only, wherever it starts. -/
theorem writesPlainly_trimmed (g : Graph) (root : Value) : g.trimmed.WritesPlainly root :=
  fun _ _ _ _ ho _ => isPlain_of_trimmed ho

end Graph

/-- A session beside one over the trimmed graph, both with the nodes of a graph. -/
def trimming (g : Graph) : Pairing where
  graph := {}
  service a b := b = a
  rest _ a b := b = (a.1.trimmed, a.2) ∧ g.Extends a.1

/-- The action goes over the trimmed graph as it goes over the graph itself. -/
abbrev Action.Alike {α : Type} (g : Graph) (x y : WriteM α) : Prop :=
  Mirrors (fun _ => False) (Session.Beside (trimming g)) x y

theorem mirrored_trimming (g : Graph) : TypeService.Mirrored (fun _ => False) (trimming g).service :=
  TypeService.mirrored_eq _

namespace Session.Beside

variable {g g' : Graph} {s t : Session}

/-- More nodes in the graph are no matter. -/
theorem of_extends (h : s.Beside (trimming g') t) (hext : g.Extends g') : s.Beside (trimming g) t :=
  ⟨h.same, h.service, h.first, h.second, h.rest.1, hext.trans h.rest.2⟩

/-- The second session is the first one with its graph trimmed. -/
theorem eq_trimmed (h : s.Beside (trimming g) t) : t = { s with graph := s.graph.trimmed } := by
  obtain ⟨service, graph, journal, rfl⟩ := h.others
  obtain rfl : service = s.service := h.service
  obtain ⟨rfl, rfl⟩ := Prod.mk.inj h.rest.1
  rfl

end Session.Beside

/-- Every session has one over the trimmed graph beside it. -/
theorem Session.beside_trimmed {g : Graph} (s : Session) (hext : g.Extends s.graph) :
    s.Beside (trimming g) { s with graph := s.graph.trimmed } :=
  ⟨rfl, rfl, fun _ _ h => (nomatch h), fun _ _ h => (nomatch h), rfl, hext⟩

variable {g : Graph} {rec : Value → WriteM Unit}

/-- The journal has nothing to do with the graph. -/
theorem alike_note (entry : JournalEntry) : Alike g (WriteM.note entry) (WriteM.note entry) := by
  refine .update fun s t h => ?_
  obtain rfl := h.eq_trimmed
  exact Session.beside_trimmed _ h.rest.2

namespace ObjectM

/-- A note is about a call and not about the nodes. -/
theorem mirrors_noteObject (op : ObjectOp) (outcome : Outcome) :
    Mirrors (fun _ => False) (OpenObject.Beside (trimming g)) (noteObject op outcome)
      (noteObject op outcome) := by
  refine .update fun o p h => ?_
  obtain ⟨writer, s⟩ := o
  obtain ⟨writer', t⟩ := p
  obtain ⟨hwriter, hs⟩ := h
  have ht : t = { s with graph := s.graph.trimmed } := hs.eq_trimmed
  have hwriter' : writer' = writer := hwriter
  subst ht hwriter'
  exact ⟨rfl, Session.beside_trimmed _ hs.rest.2⟩

/-- A plain call goes alike if the value of its field does. -/
theorem mirrors_runOp {op : ObjectOp} (hop : op.isPlain = true)
    (hrec : ∀ v ∈ op.value?, Alike g (rec v) (rec v)) :
    Mirrors (fun _ => False) (OpenObject.Beside (trimming g)) (runOp rec op) (runOp rec op) := by
  cases op with
  | field name v =>
    rw [runOp]
    refine Mirrors.bind ?_ fun _ => mirrors_noteObject _ _
    exact (mirrors_beginField (mirrored_trimming g) name).bind fun _ => mirrors_inSession (hrec v rfl)
  | raw ops =>
    obtain ⟨bs, rfl⟩ := ObjectOp.isPlain_raw hop
    rw [runOp]
    refine mirrors_enterRaw.bind fun _ => Mirrors.bind ?_ fun _ => mirrors_noteObject _ _
    refine mirrors_writer.bind fun w => Mirrors.bind ?_ fun _ => mirrors_writer.bind fun w => .pure _
    exact Mirrors.forEach fun op hmem => List.mem_singleton.mp hmem ▸
      mirrors_inSession (WriteM.mirrors_onTape (Tape.write bs))
  | _ => cases hop

/-- Plain calls go alike one after the other. -/
theorem mirrors_runOps {ops : List ObjectOp} (hops : ∀ op ∈ ops, op.isPlain = true)
    (hrec : ∀ v ∈ ops.filterMap ObjectOp.value?, Alike g (rec v) (rec v)) :
    Mirrors (fun _ => False) (OpenObject.Beside (trimming g)) (runOps rec ops) (runOps rec ops) := by
  induction ops with
  | nil =>
    rw [runOps]
    exact .pure ()
  | cons op ops ih =>
    obtain ⟨hop, hrest⟩ := List.forall_mem_cons.mp hops
    rw [ObjectOp.values_cons] at hrec
    obtain ⟨hrecOp, hrecOps⟩ := List.forall_mem_append.mp hrec
    rw [runOps]
    exact (mirrors_runOp hop fun v hv => hrecOp v (Option.mem_toList.mpr hv)).bind
      fun _ => ih hrest hrecOps

end ObjectM

namespace WriteM

/-- A plain object keeps its program, so its body goes alike. -/
theorem mirrors_trimmed_body {node : NodeId} {o : UserObject} (ho : o.IsPlain)
    (hrec : ∀ v ∈ o.contents, Alike g (rec v) (rec v)) :
    Mirrors (fun _ => False) (OpenObject.Beside (trimming g)) (writeBody rec node o)
      (writeBody rec node o) := by
  cases o with
  | dynamic d =>
    refine mirrors_writeBody (mirrored_trimming g) fun v hv => hrec v ?_
    show v ∈ (Node.object (.dynamic d)).contents
    rw [Node.contents_dynamic]
    exact hv
  | programmed p =>
    refine ObjectM.mirrors_writer.bind fun w => ?_
    exact (ObjectM.mirrors_inSession (alike_note _)).bind fun _ => ObjectM.mirrors_runOps ho hrec

/-- An object that does not give way. -/
theorem mirrors_trimmed_resolved {node : NodeId} {o : UserObject} (ho : o.IsPlain)
    (hrec : ∀ v ∈ o.contents, Alike g (rec v) (rec v)) :
    Alike g (resolveObject o >>= fun resolved => writeResolved rec node o resolved)
      (resolveObject o >>= fun resolved => writeResolved rec node o resolved) := by
  refine (mirrors_resolveObject (mirrored_trimming g) o).bind fun resolved => ?_
  have hwhole : Alike g (writeWhole rec node o resolved) (writeWhole rec node o resolved) :=
    (mirrors_writeFramed (mirrored_trimming g) (mirrors_trimmed_body ho hrec)).bind fun _ => .pure ()
  rw [writeResolved_eq]
  refine mirrors_writeOnce fun s t h _ => ?_
  obtain rfl := h.eq_trimmed
  exact hwhole (Session.beside_trimmed (recorded node s) h.rest.2)

section

variable {root : Value} {original : Graph} (hcomplete : original.Complete) (hroot : original.Has root)
  (hplain : original.WritesPlainly root)
  (hrec : ∀ {g : Graph} {asked : Bool} {v : Value}, original.Extends g →
    original.Awaits root g asked v → Alike g (rec v) (rec v))

include hcomplete hroot hplain hrec

/-- In the place of an object another one runs its program, and what is not an object has none. -/
theorem matches_standIn {v : Value} {s : Session} (hext : original.Extends s.graph)
    (hdue : original.Due root s.graph false v) :
    Matches (fun _ => False) (Session.Beside (trimming s.graph)) ((standIn rec v).run s)
      ((standIn rec v).run { s with graph := s.graph.trimmed }) := by
  have hbeside := s.beside_trimmed (.refl s.graph)
  have htrimmed : ∀ id, s.graph.trimmed.node? id = (s.graph.node? id).map Node.trimmed :=
    s.graph.node?_trimmed
  by_cases hobject : ∃ other o, v = .ref other ∧ s.graph.node? other = some (.object o)
  · obtain ⟨other, o, rfl, ho⟩ := hobject
    -- An object is not asked for a replacement here, so it is plain, and trimming keeps it.
    have hrun : o.IsPlain := hdue.isPlain hcomplete hroot hext ho hplain rfl nofun
    have ho' : s.graph.trimmed.node? other = some (.object o) := by
      rw [htrimmed, ho, Option.map_some, Node.trimmed, UserObject.trimmed_of_isPlain hrun]
    rw [standIn_object rec other ho, standIn_object rec other ho']
    exact mirrors_trimmed_resolved hrun
      (fun w hw => hrec hext ⟨hdue.inside hcomplete hroot hext ho nofun w hw, nofun⟩) hbeside
  · have hother : ∀ node o, v = .ref node → s.graph.node? node ≠ some (.object o) :=
      fun node o hnode ho => hobject ⟨node, o, hnode, ho⟩
    -- Trimming makes no object of what is none.
    have hother' : ∀ node o, v = .ref node → s.graph.trimmed.node? node ≠ some (.object o) := by
      intro node o hnode ho
      rw [htrimmed, Option.map_eq_some_iff] at ho
      obtain ⟨n, hn, hsame⟩ := ho
      cases n with
      | object u => exact hother node u hnode hn
      | _ => cases hsame
    rw [standIn_other rec hother, standIn_other rec hother']
    exact hrec hext ⟨hdue, fun _ => hother⟩ hbeside

/-- An object that gives way loses its program, and one that does not keeps it. -/
theorem mirrors_trimmed_object {g : Graph} {node : NodeId} {o : UserObject} (hext : original.Extends g)
    (hdue : original.Due root g true (.ref node)) (ho : g.node? node = some (.object o)) :
    Alike g (writeObject rec node o) (writeObject rec node o.trimmed) := by
  cases hreplacement : o.replacement with
  | none =>
    have hrun : o.IsPlain := hdue.isPlain hcomplete hroot hext ho hplain rfl fun _ => hreplacement
    rw [UserObject.trimmed_of_isPlain hrun, writeObject_stays rec node hreplacement]
    exact mirrors_trimmed_resolved hrun fun w hw =>
      hrec hext ⟨hdue.inside hcomplete hroot hext ho (fun _ => hreplacement) w hw, nofun⟩
  | some r =>
    have hreplacement' : o.trimmed.replacement = some r := o.replacement_trimmed.trans hreplacement
    have hresolve : resolveObject o.trimmed = resolveObject o := by
      rw [resolveObject, UserObject.typeName_trimmed]
      rfl
    rw [writeObject_replaced rec node hreplacement, writeObject_replaced rec node hreplacement', hresolve]
    refine (mirrors_resolveObject (mirrored_trimming g) o).bind fun _ => ?_
    refine (alike_note _).bind fun _ s t h => ?_
    obtain rfl := h.eq_trimmed
    have hs := hext.trans h.rest.2
    obtain ⟨-, hvalue⟩ := (hdue.mono h.rest.2).replaced hcomplete hroot hs (h.rest.2 _ _ ho) hreplacement
    have hbrought := s.graph.extends_instantiate r
    -- Both graphs get the same copies, and the second one gets them trimmed.
    show Matches _ _ (standIn rec _ { s with graph := (s.graph.instantiate r).2 })
      (standIn rec (s.graph.trimmed.instantiate r).1
        { s with graph := (s.graph.trimmed.instantiate r).2 })
    rw [Graph.instantiate_trimmed]
    have hmatches := matches_standIn (s := { s with graph := (s.graph.instantiate r).2 }) hcomplete hroot
      hplain hrec (hs.trans hbrought) hvalue
    exact hmatches.imp id fun h' => ⟨h'.1, h'.2.of_extends (h.rest.2.trans hbrought)⟩

/-- A container has no program, and an object is met where its own might run or not. -/
theorem mirrors_trimmed_node {g : Graph} {asked : Bool} {node : NodeId} {n : Node}
    (hext : original.Extends g) (hdue : original.Due root g asked (.ref node))
    (hn : g.node? node = some n) (hasked : asked = false → ∀ o, n ≠ .object o) :
    Alike g (writeNode rec node n) (writeNode rec node n.trimmed) := by
  have hcontainer : (∀ o, n ≠ .object o) → Alike g (writeContents rec n) (writeContents rec n) := by
    intro hobject
    have hparts := Node.parts_container hobject
    refine mirrors_writeContents (mirrored_trimming g) fun v hv => ?_
    exact hrec hext ⟨hdue.inside hcomplete hroot hext hn (fun _ => hparts.2) v (hparts.1 ▸ hv), nofun⟩
  -- Whether the node is new is the same on both sides, since trimming does not touch the handles.
  have honce : ∀ {x : WriteM Unit}, Alike g x x → Alike g (writeOnce node x) (writeOnce node x) := by
    refine fun hx => mirrors_writeOnce fun s t h _ => ?_
    obtain rfl := h.eq_trimmed
    exact hx (Session.beside_trimmed (recorded node s) h.rest.2)
  cases n with
  | object o =>
    cases asked with
    | true => exact mirrors_trimmed_object hcomplete hroot hplain hrec hext hdue hn
    | false => exact absurd rfl (hasked rfl o)
  | array componentType items =>
    show Alike g _ (writeNode rec node (.array componentType items))
    rw [writeNode_array]
    exact honce (hcontainer nofun)
  | collection typeName items =>
    show Alike g _ (writeNode rec node (.collection typeName items))
    rw [writeNode_collection]
    exact honce (hcontainer nofun)
  | map typeName entries =>
    show Alike g _ (writeNode rec node (.map typeName entries))
    rw [writeNode_map]
    exact honce (hcontainer nofun)
  | proxy interfaces handler =>
    show Alike g _ (writeNode rec node (.proxy interfaces handler))
    rw [writeNode_proxy]
    exact hcontainer nofun

end

/-- What is written over the trimmed graph is what is written over the graph itself. -/
theorem mirrors_trimmed {original : Graph} {root : Value} (hcomplete : original.Complete)
    (hroot : original.Has root) (hplain : original.WritesPlainly root) (depth : Nat) {g : Graph}
    {asked : Bool} {v : Value} (hext : original.Extends g) (hawaits : original.Awaits root g asked v) :
    Alike g (writeDepth depth v) (writeDepth depth v) := by
  -- By induction on the depth, for every graph that the write may have added to.
  induction depth generalizing g asked v with
  | zero => exact .stop _
  | succ depth ih =>
    obtain ⟨hdue, hasked⟩ := hawaits
    cases v with
    | ref node =>
      obtain ⟨n, hn⟩ := hdue.node? hcomplete hroot hext
      have hnode := mirrors_trimmed_node hcomplete hroot hplain ih hext hdue hn
        fun h o ho => hasked h node o rfl (ho ▸ hn)
      refine .readBind fun s t h => ?_
      obtain rfl := h.eq_trimmed
      have hn' : s.graph.node? node = some n := h.rest.2 node n hn
      simp only [Graph.node?_trimmed, hn', Option.map_some]
      exact hnode h
    | _ => exact mirrors_leaf (mirrored_trimming g) nofun

end WriteM

/-- The bytes of a value do not depend on programs that are never run. -/
theorem encode_trimmed {world : World} {v : Value} (hcomplete : world.graph.Complete)
    (hv : world.graph.Has v) (hplain : world.graph.WritesPlainly v) :
    (encode v { world with graph := world.graph.trimmed }).1 = (encode v world).1 := by
  rw [encode_told, encode_told]
  generalize Tape.new .heap world.service.config.initialCapacity = tape
  have hbeside : (world.session tape {}).Beside (trimming world.graph)
      (World.session { world with graph := world.graph.trimmed } tape {}) :=
    (world.session tape {}).beside_trimmed (.refl world.graph)
  have hmatches : Matches (fun _ => False) (Session.Beside (trimming world.graph))
      (WriteM.writeValue v (world.session tape {}))
      (WriteM.writeValue v (World.session { world with graph := world.graph.trimmed } tape {})) :=
    WriteM.mirrors_trimmed hcomplete hv hplain _ (.refl _) ⟨.start world.graph v, nofun⟩ hbeside
  exact (Session.told_matches hmatches).resolve_left fun ⟨_, _, hfalse⟩ => hfalse

end ObjectWire
