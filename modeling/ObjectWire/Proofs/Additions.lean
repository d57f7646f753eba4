import ObjectWire.Graph
import ObjectWire.TypeService

/-!
# What a write adds to

A write may bring new nodes into its graph, and it may teach its registry schemas and field ids.  It
takes nothing away: nodes stay where they are (`Graph.Extends`), and a schema that is known stays known,
as do the types whose fields have ids (`Registry.Evolves`).  A registry files each schema under the
schema's own id (`Registry.Keyed`).
-/

namespace ObjectWire

namespace Graph

/-- The second graph has all nodes of the first one, in the same places. -/
def Extends (g g' : Graph) : Prop := ∀ id n, g.node? id = some n → g'.node? id = some n

/-- A graph extends itself. -/
theorem Extends.refl (g : Graph) : g.Extends g := fun _ _ h => h

/-- Nodes that are still there after one step are there after two. -/
theorem Extends.trans {g g₁ g' : Graph} (h : g.Extends g₁) (h' : g₁.Extends g') : g.Extends g' :=
  fun id n hn => h' id n (h id n hn)

/-- A node that is an object is found as one. -/
theorem object?_of_node? {g : Graph} {id : NodeId} {o : UserObject}
    (h : g.node? id = some (.object o)) : g.object? id = some o := by
  rw [object?, h]

/-- A replacement takes no nodes away. -/
theorem extends_instantiate (g : Graph) (replacement : Replacement) :
    g.Extends (g.instantiate replacement).2 := by
  intro id n hn
  cases replacement with
  | shared v => exact hn
  | fresh v first count =>
    -- The copies come behind all nodes there are.
    have hlt : id < g.nodes.size := (Array.getElem?_eq_some_iff.mp hn).1
    simp only [Graph.instantiate, copy, node?]
    rw [Array.getElem?_append_left hlt]
    exact hn

end Graph

namespace Registry

/-- The part of a registry that no write changes: the options, the categories and the registered
    types. -/
def static (r : Registry) : Registry := { r with mapped := [], schemas := {} }

/-- Every schema is filed under its own id. -/
def Keyed (r : Registry) : Prop :=
  ∀ typeId schemaId schema, r.schema? typeId schemaId = some schema → schema.id = schemaId

/-- The second registry is the first one after some writes. -/
structure Evolves (r r' : Registry) : Prop where
  static : r'.static = r.static
  mapped : ∀ id ∈ r.mapped, id ∈ r'.mapped
  schemas : ∀ typeId schemaId schema,
    r.schema? typeId schemaId = some schema → r'.schema? typeId schemaId = some schema
  keyed : r.Keyed → r'.Keyed

namespace Evolves

/-- A registry evolves into itself. -/
theorem refl (r : Registry) : r.Evolves r := ⟨rfl, fun _ h => h, fun _ _ _ h => h, id⟩

/-- What a registry keeps over two steps it keeps over both. -/
theorem trans {r r₁ r' : Registry} (h : r.Evolves r₁) (h' : r₁.Evolves r') : r.Evolves r' where
  static := h'.static.trans h.static
  mapped id hid := h'.mapped id (h.mapped id hid)
  schemas typeId schemaId schema hs := h'.schemas typeId schemaId schema (h.schemas _ _ _ hs)
  keyed hk := h'.keyed (h.keyed hk)

/-- Writes register no types. -/
theorem types {r r' : Registry} (h : r.Evolves r') : r'.types = r.types :=
  have hstatic : r'.static.types = r.static.types := congrArg Registry.types h.static
  hstatic

end Evolves

/-- A registry that has cached nothing files everything rightly. -/
theorem keyed_new (config : Config) : (Registry.new config).Keyed := by
  intro typeId schemaId schema h
  cases h

/-- A schema is found under its own id, unless another was there before. -/
theorem schema?_addSchema (r : Registry) (typeId typeId' schemaId : Int32) (schema : Schema) :
    (r.addSchema typeId schema).schema? typeId' schemaId =
      if typeId = typeId' ∧ schema.id = schemaId then
        some ((r.schema? typeId schema.id).getD schema)
      else r.schema? typeId' schemaId := by
  simp only [schema?, addSchema, Dict.find?_insertNew, Prod.mk.injEq]

/-- A new schema takes the place of none. -/
theorem evolves_addSchema (r : Registry) (typeId : Int32) (schema : Schema) :
    r.Evolves (r.addSchema typeId schema) where
  static := rfl
  mapped _ h := h
  schemas := by
    intro typeId' schemaId known h
    -- A schema that was found under the same ids is found still: the first one stays.
    rw [schema?_addSchema]
    split
    · next hsame =>
      obtain ⟨rfl, rfl⟩ := hsame
      rw [h, Option.getD_some]
    · exact h
  keyed := by
    -- What is found under the new ids is the new schema or an older one, and both have their own id.
    intro hkeyed typeId' schemaId known h
    rw [schema?_addSchema] at h
    split at h
    · next hsame =>
      obtain ⟨rfl, rfl⟩ := hsame
      cases hfind : r.schema? typeId schema.id with
      | none =>
        rw [hfind] at h
        cases h
        rfl
      | some other =>
        rw [hfind] at h
        cases h
        exact hkeyed typeId schema.id _ hfind
    · exact hkeyed typeId' schemaId known h

end Registry

/-- The second service is the first one after some writes. -/
structure TypeService.Evolves (s s' : TypeService) : Prop where
  registry : s.registry.Evolves s'.registry
  keepsSchemas : s'.keepsSchemas = s.keepsSchemas
  mapsFields : s'.mapsFields = s.mapsFields

namespace TypeService

namespace Evolves

/-- A service evolves into itself. -/
theorem refl (s : TypeService) : s.Evolves s := ⟨.refl _, rfl, rfl⟩

/-- What a service keeps over two steps it keeps over both. -/
theorem trans {s s₁ s' : TypeService} (h : s.Evolves s₁) (h' : s₁.Evolves s') : s.Evolves s' where
  registry := h.registry.trans h'.registry
  keepsSchemas := h'.keepsSchemas.trans h.keepsSchemas
  mapsFields := h'.mapsFields.trans h.mapsFields

/-- The options are no part of what a write changes. -/
theorem config {s s' : TypeService} (h : s.Evolves s') : s'.config = s.config := by
  have hconfig := congrArg Registry.config h.registry.static
  exact hconfig

end Evolves

/-- A schema more changes nothing else about the service. -/
theorem evolves_addSchema (s : TypeService) (typeId : Int32) (schema : Schema) :
    s.Evolves (s.addSchema typeId schema) := by
  unfold addSchema
  split
  · exact ⟨Registry.evolves_addSchema _ _ _, rfl, rfl⟩
  · exact .refl s

end TypeService

end ObjectWire
