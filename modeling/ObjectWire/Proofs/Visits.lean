import ObjectWire.Proofs.InRange

/-!
# What a write meets on its way

A write goes through a graph from a value to the values inside it, and from an object that gives way to the
value in its place (`Graph.Visits`).  `Graph.Meets` collects the names of the types that the values on the way
have for themselves.  Both speak of the graph as it is before the write.

The write itself may add to the graph: a replacement that is new each time is a copy of a part of it.  So
what a write comes to is a copy of a value on the way, if not the value itself (`Graph.Due`).  A copy has the
same type names, it gives way to the same value, and what is inside it is due if the original's is.
-/

namespace ObjectWire

/-- The value that takes an object's place, or what it is a copy of if it is a new one each time. -/
def Replacement.value : Replacement → Value
  | .shared v | .fresh v _ _ => v

/-- The replacement is in the graph, with all that is copied for it. -/
def Replacement.Within (g : Graph) : Replacement → Prop
  | .shared v => g.Has v
  | .fresh v first count => g.Has v ∧ first + count ≤ g.size

instance (g : Graph) (r : Replacement) : Decidable (r.Within g) :=
  match r with
  | .shared v => inferInstanceAs (Decidable (g.Has v))
  | .fresh v first count => inferInstanceAs (Decidable (g.Has v ∧ first + count ≤ g.size))

/-- The value that a call writes as a named field. -/
def ObjectOp.value? : ObjectOp → Option Value
  | .field _ v => some v
  | _ => none

namespace ObjectOp

/-- The values that calls write are those of the first one and those of the rest. -/
theorem values_cons (op : ObjectOp) (ops : List ObjectOp) :
    (op :: ops).filterMap value? = op.value?.toList ++ ops.filterMap value? := by
  rw [List.filterMap_cons]
  cases op.value? <;> rfl

end ObjectOp

namespace UserObject

/-- The values of the object's fields. -/
def contents (o : UserObject) : List Value := o.calls.filterMap ObjectOp.value?

end UserObject

namespace Node

/-- The values inside a node, those that an object writes by its program included. -/
def contents : Node → List Value
  | .object o => o.contents
  | n => n.values

/-- The value to be written in place of a node, which only objects have. -/
def replacement : Node → Option Replacement
  | .object o => o.replacement
  | _ => none

/-- The names of types that a node has for itself. -/
def typeNames : Node → List String
  | .object o => [o.typeName]
  | .array componentType _ => [componentType]
  | .proxy interfaces _ => interfaces
  | .collection _ _ | .map _ _ => []

end Node

namespace Graph

/-- The names of types that a value has for itself, apart from the values inside it.  A type as a value is
    not among them, nor is the type of a constant whose id is known. -/
def typeNames (g : Graph) : Value → List String
  | .enum v => [v.typeName]
  | .enumArray typeName items => typeName :: items.flatMap fun item => (item.map (·.typeName)).toList
  | .ref node => (g.node? node).elim [] Node.typeNames
  | .plain _ | .binaryEnum _ | .classRef _ => []

/-- The values on the way of a write that starts at a value.  With each comes whether it is asked for a
    replacement if it is an object: all are but those that stand in for another object. -/
inductive Visits (g : Graph) (root : Value) : Bool → Value → Prop where
  | root : Visits g root true root
  | inside {asked : Bool} {node : NodeId} {n : Node} {v : Value} (h : Visits g root asked (.ref node))
      (hn : g.node? node = some n) (hstays : asked = true → n.replacement = none) (hv : v ∈ n.contents) :
      Visits g root true v
  | replaced {node : NodeId} {n : Node} {r : Replacement} (h : Visits g root true (.ref node))
      (hn : g.node? node = some n) (hr : n.replacement = some r) : Visits g root false r.value

/-- The name of a type that a write meets: that of an object, also of one that gives way to another value,
    the component type of an object array, the type of an enumeration's constant or of an array of them, or
    an interface of a proxy. -/
def Meets (g : Graph) (root : Value) (name : String) : Prop :=
  ∃ asked v, g.Visits root asked v ∧ name ∈ g.typeNames v

/-- The objects that are written in full on the way write themselves as dynamic objects do.  An object that
    gives way to another value may be of any kind, unless it stands in for another object itself. -/
def WritesPlainly (g : Graph) (root : Value) : Prop :=
  ∀ asked node o, g.Visits root asked (.ref node) → g.node? node = some (.object o) →
    (asked = true → o.replacement = none) → o.IsPlain

/-- All that is referred to in the graph is there: the values inside the nodes, the values in place of
    objects, and what is copied for them. -/
def Complete (g : Graph) : Prop :=
  ∀ n ∈ g.nodes.toList, (∀ v ∈ n.contents, g.Has v) ∧ ∀ r ∈ n.replacement.toList, r.Within g

instance (g : Graph) : Decidable g.Complete :=
  inferInstanceAs (Decidable (∀ n ∈ g.nodes.toList, (∀ v ∈ n.contents, g.Has v) ∧
    ∀ r ∈ n.replacement.toList, r.Within g))

namespace Complete

variable {g : Graph} (h : g.Complete) {node : NodeId} {n : Node} (hn : g.node? node = some n)

include h hn

/-- In a complete graph whatever stands inside a node is there. -/
theorem contents : ∀ v ∈ n.contents, g.Has v :=
  (h n (Array.mem_toList_iff.mpr (Array.mem_of_getElem? hn))).1

/-- A replacement takes what it copies from the graph. -/
theorem within {r : Replacement} (hr : n.replacement = some r) : r.Within g := by
  apply (h n (Array.mem_toList_iff.mpr (Array.mem_of_getElem? hn))).2
  rw [hr]
  exact List.mem_singleton_self r

end Complete

/-- The value of such a replacement is one of the graph's. -/
theorem has_of_within {g : Graph} {r : Replacement} (h : r.Within g) : g.Has r.value := by
  cases r with
  | shared v => exact h
  | fresh v first count => exact h.1

/-- Nothing on the way of a write leads out of a complete graph. -/
theorem Visits.has {g : Graph} {root v : Value} {asked : Bool} (h : g.Visits root asked v)
    (hcomplete : g.Complete) (hroot : g.Has root) : g.Has v := by
  cases h with
  | root => exact hroot
  | inside _ hn _ hv => exact hcomplete.contents hn v hv
  | replaced _ hn hr => exact has_of_within (hcomplete.within hn hr)

/-- Objects that are not plain may be in a graph if they give way, and do not stand in for others. -/
theorem writesPlainly_of_gives_way {g : Graph} {root : Value}
    (hgives : ∀ o, .object o ∈ g.nodes.toList → o.IsPlain ∨ o.replacement ≠ none)
    (hinstead : ∀ n ∈ g.nodes.toList, ∀ r ∈ n.replacement, ∀ node o, r.value = .ref node →
      g.object? node = some o → o.IsPlain) : g.WritesPlainly root := by
  intro asked node o hvisits ho hstays
  have hmem : ∀ {id n}, g.node? id = some n → n ∈ g.nodes.toList :=
    fun hn => Array.mem_toList_iff.mpr (Array.mem_of_getElem? hn)
  obtain hplain | hgives := hgives o (hmem ho)
  · exact hplain
  cases asked with
  | true => exact absurd (hstays rfl) hgives
  | false =>
    -- Only what stands in for another object is not asked for a replacement.
    generalize hv : Value.ref node = v at hvisits
    cases hvisits with
    | replaced _ hn hr => exact hinstead _ (hmem hn) _ hr node o hv.symm (object?_of_node? ho)

/-- Each node of the first graph that is moved has its copy, whose references are moved as well, at the
    place in the second graph that it is moved to. -/
def Moves (g g' : Graph) (f : NodeId → NodeId) : Prop :=
  ∀ node n, g.node? node = some n → f node = node ∨ g'.node? (f node) = some (n.mapRefs f)

/-- The first value is the second one, or leads to a copy of what that one leads to. -/
def Copied (g g' : Graph) (v' v : Value) : Prop := ∃ f, g.Moves g' f ∧ v' = v.mapRef f

end Graph

@[simp] theorem Value.mapRef_id (v : Value) : v.mapRef id = v := by
  cases v <;> rfl

/-- References that are left as they are leave the node as it is. -/
@[simp] theorem Node.mapRefs_id (n : Node) : n.mapRefs id = n := by
  cases n with
  | object o =>
    cases o with
    | dynamic d => simp [Node.mapRefs]
    | programmed p => rfl
  | _ => simp [Node.mapRefs]

namespace Node

/-- What is no object does not give way, and has no program. -/
theorem parts_container {n : Node} (h : ∀ o, n ≠ .object o) :
    n.contents = n.values ∧ n.replacement = none := by
  cases n with
  | object o => exact absurd rfl (h o)
  | _ => exact ⟨rfl, rfl⟩

variable (f : NodeId → NodeId) (n : Node)

/-- A copy of a node has its type names. -/
theorem typeNames_mapRefs : (n.mapRefs f).typeNames = n.typeNames := by
  cases n with
  | object o => cases o <;> rfl
  | _ => rfl

/-- A copy of an object asks for the same replacement. -/
theorem replacement_mapRefs : (n.mapRefs f).replacement = n.replacement := by
  cases n with
  | object o => cases o <;> rfl
  | _ => rfl

/-- The calls of a dynamic object for its fields are those for their values. -/
theorem contents_dynamic (d : DynamicObject) : (Node.object (.dynamic d)).contents = d.fields.map (·.2) := by
  have hraw : (d.raw.toList.map fun bs => ObjectOp.raw [.bytes bs]).filterMap ObjectOp.value? = [] := by
    cases d.raw <;> rfl
  simp only [Node.contents, UserObject.contents, UserObject.calls, List.filterMap_append, hraw,
    List.append_nil, List.filterMap_map]
  exact congrFun List.filterMap_eq_map d.fields

/-- A copied object writes itself as the original does. -/
theorem isPlain_mapRefs {o : UserObject} (h : n.mapRefs f = .object o) :
    ∃ u, n = .object u ∧ (u.IsPlain → o.IsPlain) := by
  cases n with
  | object u =>
    cases u with
    | dynamic d =>
      cases h
      exact ⟨_, rfl, fun _ => UserObject.isPlain_dynamic _⟩
    | programmed p =>
      cases h
      exact ⟨_, rfl, id⟩
  | _ => cases h

/-- The values inside a copy refer to copies.  A program is copied as it is. -/
theorem contents_mapRefs : (n.mapRefs f).contents = n.contents.map (·.mapRef f) ∨
    (n.mapRefs f).contents = n.contents := by
  cases n with
  | object o =>
    cases o with
    | dynamic d =>
      left
      rw [Node.mapRefs, contents_dynamic, contents_dynamic, List.map_map, List.map_map]
      rfl
    | programmed p => exact .inr rfl
  | array componentType items => exact .inl rfl
  | collection typeName items => exact .inl rfl
  | map typeName entries =>
    left
    simp [Node.mapRefs, Node.contents, Node.values, List.map_flatMap, List.flatMap_map]
  | proxy interfaces handler => exact .inl rfl

end Node

namespace Graph

variable {g g' g'' : Graph} {root v v' : Value}

/-- Nothing has to be moved. -/
theorem moves_id : g.Moves g' id := fun _ _ _ => .inl rfl

theorem Copied.refl (v : Value) : g.Copied g' v v := ⟨id, moves_id, (Value.mapRef_id v).symm⟩

/-- A copy stays one when nodes are added. -/
theorem Copied.mono (h : g.Copied g' v' v) (hext : g'.Extends g'') : g.Copied g'' v' v := by
  obtain ⟨f, hf, hv⟩ := h
  exact ⟨f, fun node n hn => (hf node n hn).imp_right (hext _ _), hv⟩

/-- What a copy leads to is a copy of what the original leads to. -/
theorem Copied.node {node' : NodeId} (h : g.Copied g' (.ref node') v) (hext : g.Extends g')
    (hv : g.Has v) : ∃ node n f, v = .ref node ∧ g.node? node = some n ∧ g.Moves g' f ∧
      g'.node? node' = some (n.mapRefs f) := by
  obtain ⟨f, hf, hv'⟩ := h
  cases v with
  | ref node =>
    obtain rfl : node' = f node := Value.ref.inj hv'
    obtain ⟨n, hn⟩ := hv.node?
    -- A node that was moved onto itself stands for its own copy.
    obtain hsame | hcopy := hf node n hn
    · refine ⟨node, n, id, rfl, hn, moves_id, ?_⟩
      rw [hsame, Node.mapRefs_id]
      exact hext node n hn
    · exact ⟨node, n, f, rfl, hn, hf, hcopy⟩
  | _ => cases hv'

/-- A copy of a reference leads to a copy of the node. -/
theorem Copied.of_node {node : NodeId} {n : Node} (h : g.Copied g' v' (.ref node)) (hext : g.Extends g')
    (hn : g.node? node = some n) : ∃ node' f, v' = .ref node' ∧ g.Moves g' f ∧
      g'.node? node' = some (n.mapRefs f) := by
  obtain ⟨f, hf, rfl⟩ := h
  have hhas : g.Has (.ref node) := (Array.getElem?_eq_some_iff.mp hn).1
  obtain ⟨_, m, f', hnode, hm, hf', hn'⟩ := Copied.node ⟨f, hf, rfl⟩ hext hhas
  cases hnode
  cases hn.symm.trans hm
  exact ⟨f node, f', rfl, hf', hn'⟩

/-- A value inside a node has its copy inside the copy of the node. -/
theorem Moves.contents {f : NodeId → NodeId} {n : Node} (hf : g.Moves g' f) (hv : v ∈ n.contents) :
    ∃ v' ∈ (n.mapRefs f).contents, g.Copied g' v' v := by
  obtain hmoved | hkept := Node.contents_mapRefs f n
  · exact ⟨v.mapRef f, hmoved ▸ List.mem_map_of_mem hv, f, hf, rfl⟩
  · exact ⟨v, hkept ▸ hv, .refl v⟩

/-- A replacement brings copies with it, if anything. -/
theorem copied_instantiate {r : Replacement} (hext : g.Extends g') (hr : r.Within g) :
    g.Copied (g'.instantiate r).2 (g'.instantiate r).1 r.value := by
  cases r with
  | shared v => exact .refl v
  | fresh v first count =>
    refine ⟨(g'.copy first count).1, fun node n hn => ?_, rfl⟩
    simp only [copy]
    split
    · next hblock =>
      -- The copy stands as far behind the end of the graph as the node stands behind the first one.
      right
      have hnode : g'.nodes[node]? = some n := hext node n hn
      have hbehind : g'.nodes.size ≤ g'.size + (node - first) := Nat.le_add_right ..
      have hplace : g'.size + (node - first) - g'.nodes.size = node - first := Nat.add_sub_cancel_left ..
      have hlast : node < min (first + count) g'.nodes.size :=
        Nat.lt_min.mpr ⟨hblock.2, (Array.getElem?_eq_some_iff.mp hnode).1⟩
      simp only [instantiate, copy, node?]
      rw [Array.getElem?_append_right hbehind, hplace, Array.getElem?_map,
        Array.getElem?_extract, if_pos (Nat.sub_lt_sub_right hblock.1 hlast), Nat.add_sub_cancel' hblock.1, hnode]
      rfl
    · exact .inl rfl

/-- The value is one on the way of a write that starts at `root` in `g`, or a copy of one, in the graph
    that the write has come to. -/
def Due (g : Graph) (root : Value) (g' : Graph) (asked : Bool) (v' : Value) : Prop :=
  ∃ v, g.Visits root asked v ∧ g.Copied g' v' v

/-- The value is due to be written as it is: it is no object that stands in for another one. -/
def Awaits (g : Graph) (root : Value) (g' : Graph) (asked : Bool) (v : Value) : Prop :=
  g.Due root g' asked v ∧
    (asked = false → ∀ node o, v = .ref node → g'.node? node ≠ some (.object o))

namespace Due

variable {asked : Bool}

/-- The value that a write starts at is due. -/
theorem start (g : Graph) (v : Value) : g.Due v g true v := ⟨v, .root, .refl v⟩

/-- What is due stays so when nodes are added. -/
theorem mono (h : g.Due root g' asked v) (hext : g'.Extends g'') : g.Due root g'' asked v := by
  obtain ⟨v, hv, hcopied⟩ := h
  exact ⟨v, hv, hcopied.mono hext⟩

/-- A value without others inside is on the way itself. -/
theorem names_leaf (h : g.Due root g' asked v) (hleaf : ∀ node, v ≠ .ref node) :
    ∀ name ∈ g'.typeNames v, g.Meets root name := by
  obtain ⟨original, hvisits, f, -, rfl⟩ := h
  intro name hname
  refine ⟨asked, original, hvisits, ?_⟩
  cases original with
  | ref node => exact absurd rfl (hleaf (f node))
  | _ => exact hname

section

variable {node : NodeId} {n : Node} (hcomplete : g.Complete) (hroot : g.Has root) (hext : g.Extends g')
  (h : g.Due root g' asked (.ref node))

include hcomplete hroot hext h

/-- A reference on the way leads to a node. -/
theorem node? : ∃ n, g'.node? node = some n := by
  obtain ⟨v, hv, hcopied⟩ := h
  obtain ⟨-, n, f, -, -, -, hn'⟩ := hcopied.node hext (hv.has hcomplete hroot)
  exact ⟨n.mapRefs f, hn'⟩

variable (hn : g'.node? node = some n)

include hn

/-- The names of a node on the way are met. -/
theorem names : ∀ name ∈ n.typeNames, g.Meets root name := by
  obtain ⟨v, hv, hcopied⟩ := h
  obtain ⟨original, m, f, rfl, hm, -, hn'⟩ := hcopied.node hext (hv.has hcomplete hroot)
  cases hn.symm.trans hn'
  intro name hname
  refine ⟨asked, .ref original, hv, ?_⟩
  rw [Node.typeNames_mapRefs] at hname
  rwa [typeNames, hm]

/-- An object that is written in full writes itself plainly. -/
theorem isPlain {o : UserObject} (hplain : g.WritesPlainly root) (ho : n = .object o)
    (hstays : asked = true → o.replacement = none) : o.IsPlain := by
  obtain ⟨v, hv, hcopied⟩ := h
  obtain ⟨original, m, f, rfl, hm, -, hn'⟩ := hcopied.node hext (hv.has hcomplete hroot)
  have hcopy : m.mapRefs f = .object o := Option.some.inj (hn'.symm.trans (ho ▸ hn))
  obtain ⟨u, rfl, hu⟩ := Node.isPlain_mapRefs f m hcopy
  refine hu (hplain asked original u hv hm fun hasked => ?_)
  have hsame := Node.replacement_mapRefs f (.object u)
  rw [hcopy] at hsame
  exact hsame.symm.trans (hstays hasked)

/-- A node that does not give way is followed by the values inside it. -/
theorem inside (hstays : asked = true → n.replacement = none) :
    ∀ v ∈ n.contents, g.Due root g' true v := by
  obtain ⟨v, hv, hcopied⟩ := h
  obtain ⟨original, m, f, rfl, hm, hf, hn'⟩ := hcopied.node hext (hv.has hcomplete hroot)
  cases hn.symm.trans hn'
  rw [Node.replacement_mapRefs] at hstays
  intro w hw
  obtain hmoved | hkept := Node.contents_mapRefs f m
  · rw [hmoved] at hw
    obtain ⟨u, hu, rfl⟩ := List.mem_map.mp hw
    exact ⟨u, .inside hv hm hstays hu, f, hf, rfl⟩
  · exact ⟨w, .inside hv hm hstays (hkept ▸ hw), .refl w⟩

end

/-- An object that gives way is followed by the value in its place. -/
theorem replaced {node : NodeId} {n : Node} {r : Replacement} (hcomplete : g.Complete)
    (hroot : g.Has root) (hext : g.Extends g') (h : g.Due root g' true (.ref node))
    (hn : g'.node? node = some n) (hr : n.replacement = some r) :
    g.Copied (g'.instantiate r).2 (g'.instantiate r).1 r.value ∧
      g.Due root (g'.instantiate r).2 false (g'.instantiate r).1 := by
  obtain ⟨v, hv, hcopied⟩ := h
  obtain ⟨original, m, f, rfl, hm, -, hn'⟩ := hcopied.node hext (hv.has hcomplete hroot)
  cases hn.symm.trans hn'
  rw [Node.replacement_mapRefs] at hr
  have hbrought := copied_instantiate hext (hcomplete.within hm hr)
  exact ⟨hbrought, r.value, .replaced hv hm hr, hbrought⟩

end Due

end Graph

end ObjectWire
