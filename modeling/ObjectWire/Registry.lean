import ObjectWire.Action
import ObjectWire.Config
import ObjectWire.Dict
import ObjectWire.NameId
import ObjectWire.Schema
import ObjectWire.Wire.Header

/-!
# Type registries

A registry turns type names into ids and field names into field ids, sorts collections and maps into
their wire categories, and keeps the schemas of the objects written.  A type is registered under an id
derived from its name or under one given; any other type resolves to the derived id too, but counts as
unregistered, so its name is written beside the id zero.
-/

namespace ObjectWire

/-- The category of a collection on the wire. -/
inductive CollectionKind where
  | userSet
  | userCollection
  | arrayList
  | linkedList
  | hashSet
  | linkedHashSet
  | singletonList
deriving DecidableEq, Repr

/-- The byte of a collection's category. -/
def CollectionKind.code : CollectionKind → UInt8
  | .userSet => 255
  | .userCollection => 0
  | .arrayList => 1
  | .linkedList => 2
  | .hashSet => 3
  | .linkedHashSet => 4
  | .singletonList => 5

/-- The category of a map on the wire. -/
inductive MapKind where
  | userMap
  | hashMap
  | linkedHashMap
deriving DecidableEq, Repr

/-- The byte of a map's category. -/
def MapKind.code : MapKind → UInt8
  | .userMap => 0
  | .hashMap => 1
  | .linkedHashMap => 2

/-- What a type name is used for. -/
inductive TypeKind where
  | object
  | enum
  | builtin
  | proxyInterface
  | classRef
deriving DecidableEq, Repr

/-- What a registry knows about a type name. -/
structure ResolvedType where
  typeId : Int32
  /-- Whether the id alone says which type is meant. -/
  registered : Bool
  /-- Whether it is a user's type and not one of the system. -/
  userType : Bool
deriving DecidableEq, Repr

/-- A registered type. -/
structure TypeEntry where
  typeId : Int32
  userType : Bool
deriving DecidableEq, Repr

/-- A registry of types, with the options of the writers that use it. -/
structure Registry where
  config : Config
  collectionKinds : Dict String CollectionKind
  mapKinds : Dict String MapKind
  /-- Registered types by name. -/
  types : Dict String TypeEntry
  /-- Ids of the types whose fields have ids: those registered or resolved so far. -/
  mapped : List Int32
  /-- Schemas by type id and schema id. -/
  schemas : Dict (Int32 × Int32) Schema

namespace Registry

/-- The predefined type of untyped object arrays. -/
def objectTypeName : String := "Object"

/-- Id of the predefined type. -/
def objectTypeId : Int32 := -1

/-- A registry that knows the predefined types only. -/
def new (config : Config) : Registry where
  config
  collectionKinds := Dict.ofList
    [("Vec", .arrayList), ("VecDeque", .linkedList), ("LinkedList", .linkedList),
      ("HashSet", .hashSet), ("BTreeSet", .linkedHashSet), ("Singleton", .singletonList)]
  mapKinds := Dict.ofList [("HashMap", .hashMap), ("BTreeMap", .linkedHashMap)]
  types := Dict.ofList [(objectTypeName, ⟨objectTypeId, false⟩)]
  mapped := []
  schemas := {}

/-- The id derived from a type name.  Zero is reserved, so a name that hashes to it has none. -/
def derivedId (name : String) : Except Error Int32 :=
  let id := NameId.ofName name
  if id = unregisteredTypeId then .error (.unresolved name) else .ok id

/-- A registry in which the fields of a type have ids. -/
def addMapped (r : Registry) (typeId : Int32) : Registry :=
  { r with mapped := r.mapped.insert typeId }

/-- A registry with a type registered under a given id. -/
def registerAs (r : Registry) (name : String) (typeId : Int32) (userType : Bool) : Registry :=
  ({ r with types := r.types.insert name ⟨typeId, userType⟩ }).addMapped typeId

/-- Registers a user type under the id derived from its name. -/
def register (name : String) : Action Registry Int32 := do
  let typeId ← Action.ofExcept (derivedId name)
  Action.update (·.registerAs name typeId true)
  return typeId

/-- A registry with the category of a collection type set. -/
def setCollectionKind (r : Registry) (name : String) (kind : CollectionKind) : Registry :=
  { r with collectionKinds := r.collectionKinds.insert name kind }

/-- A registry with the category of a map type set. -/
def setMapKind (r : Registry) (name : String) (kind : MapKind) : Registry :=
  { r with mapKinds := r.mapKinds.insert name kind }

/-- Finds the id of a type name used for something.  A name that is not registered is refused if
    `failIfUnregistered` is set, and otherwise has the derived id, whose fields have ids from then
    on. -/
def resolve (name : String) (kind : TypeKind) (failIfUnregistered : Bool) :
    Action Registry ResolvedType := do
  match ← Action.read (·.types.find? name) with
  | some entry => return ⟨entry.typeId, true, entry.userType⟩
  | none =>
    -- The policy comes first: a refused name is told to be unregistered even if it has no id.
    if failIfUnregistered then Action.fail (.unregistered name)
    let typeId ← Action.ofExcept (derivedId name)
    Action.update (·.addMapped typeId)
    return ⟨typeId, false, kind ≠ .builtin⟩

/-- The id of a field of a type, if the type's fields have ids. -/
def fieldId? (r : Registry) (typeId : Int32) (field : String) : Option Int32 :=
  if typeId ∈ r.mapped then some (NameId.ofName field) else none

/-- The category of a collection type. -/
def collectionKind (r : Registry) (name : String) : CollectionKind :=
  (r.collectionKinds.find? name).getD .userCollection

/-- The category of a map type. -/
def mapKind (r : Registry) (name : String) : MapKind := (r.mapKinds.find? name).getD .userMap

/-- Whether a schema is known. -/
def hasSchema (r : Registry) (typeId schemaId : Int32) : Bool :=
  r.schemas.contains (typeId, schemaId)

/-- A registry with a schema of a type added; one known under the same ids is kept. -/
def addSchema (r : Registry) (typeId : Int32) (schema : Schema) : Registry :=
  { r with schemas := r.schemas.insertNew (typeId, schema.id) schema }

/-- A known schema. -/
def schema? (r : Registry) (typeId schemaId : Int32) : Option Schema :=
  r.schemas.find? (typeId, schemaId)

/-- Number of schemas known. -/
def schemaCount (r : Registry) : Nat := r.schemas.size

end Registry

end ObjectWire
