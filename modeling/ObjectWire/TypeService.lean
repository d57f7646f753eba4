import ObjectWire.Registry

/-!
# Type services

A writer asks a type service.  The service resolves through a registry, and may do without two of the
things a registry offers: it need not keep schemas, and it need not have field ids.
-/

namespace ObjectWire

/-- A registry as writers see it. -/
structure TypeService where
  registry : Registry
  /-- Whether schemas are looked up and kept. -/
  keepsSchemas : Bool := true
  /-- Whether fields have ids. -/
  mapsFields : Bool := true

namespace TypeService

/-- The options of the writers. -/
def config (s : TypeService) : Config := s.registry.config

/-- Runs an action on the registry. -/
def onRegistry {α : Type} (x : Action Registry α) : Action TypeService α := fun s =>
  match s with
  | ⟨registry, keepsSchemas, mapsFields⟩ =>
    match x registry with
    | (result, registry) => (result, ⟨registry, keepsSchemas, mapsFields⟩)

/-- Finds the id of a type name. -/
def resolve (name : String) (kind : TypeKind) (failIfUnregistered : Bool) :
    Action TypeService ResolvedType :=
  onRegistry (Registry.resolve name kind failIfUnregistered)

/-- The id of a field of a type. -/
def fieldId? (s : TypeService) (typeId : Int32) (field : String) : Option Int32 :=
  if s.mapsFields then s.registry.fieldId? typeId field else none

/-- Whether a schema is known. -/
def hasSchema (s : TypeService) (typeId schemaId : Int32) : Bool :=
  s.keepsSchemas && s.registry.hasSchema typeId schemaId

/-- The service after it was told a schema. -/
def addSchema (s : TypeService) (typeId : Int32) (schema : Schema) : TypeService :=
  if s.keepsSchemas then { s with registry := s.registry.addSchema typeId schema } else s

/-- A known schema. -/
def schema? (s : TypeService) (typeId schemaId : Int32) : Option Schema :=
  if s.keepsSchemas then s.registry.schema? typeId schemaId else none

end TypeService

end ObjectWire
