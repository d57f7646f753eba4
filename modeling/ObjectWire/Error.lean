import ObjectWire.Text.Excerpt

/-!
# What can go wrong

`SinkError` says why a tape could not make room, `Error` why a write failed, each as a cause; the
wording is in `SinkError.message` and `Error.message`.  `Stop` adds the two ways in which a write can
end that are not errors of its caller: an access outside the storage, and nesting beyond the depth the
tape could ever hold.
-/

namespace ObjectWire

/-- Why a tape could not make room.  One more cause is left out, the answer of a system that refuses to map
    memory outside the heap: the system alone decides when it comes, and no step of a write looks at it.
    A tape that runs out of memory is one that grows by a rule of its own (`GrowthRule`), which may refuse
    whatever it likes. -/
inductive SinkError where
  /-- The total capacity asked for does not fit the tape's range. -/
  | capacityOverflow (requested : Nat)
  /-- The memory for the total capacity asked for was refused. -/
  | outOfMemory (requested : Nat)
deriving DecidableEq, Repr

/-- The wording of a sink error. -/
def SinkError.message : SinkError → String
  | .capacityOverflow requested =>
    "sink capacity overflow: " ++ toString requested ++ " bytes requested"
  | .outOfMemory requested =>
    "out of memory growing sink to " ++ toString requested ++ " bytes"

/-- Why a write failed. -/
inductive Error where
  /-- No id can be derived for the type; the name is cut for display. -/
  | unresolvedType (name : String)
  /-- The type has no registered id and names may not be written inline; the name is cut for
      display. -/
  | unregisteredType (name : String)
  /-- A named field after the raw section was begun. -/
  | rawModeActive
  /-- The type has no field ids. -/
  | unresolvedField (typeId : Int32) (field : String)
  /-- A field id for the second time in one object. -/
  | duplicateField (fieldId : Int32)
  /-- A length, count or offset that does not fit its slot. -/
  | tooLarge (detail : String)
  /-- The tape could not make room. -/
  | sink (cause : SinkError)
deriving DecidableEq, Repr

namespace Error

/-- No id can be derived for the type of this name. -/
def unresolved (name : String) : Error := .unresolvedType (Excerpt.ofName name)

/-- The type of this name is not registered. -/
def unregistered (name : String) : Error := .unregisteredType (Excerpt.ofName name)

/-- The wording of an error. -/
def message : Error → String
  | .unresolvedType name => "failed to resolve type: " ++ name
  | .unregisteredType name => "type is not registered: " ++ name
  | .rawModeActive => "individual field can't be written after raw writer is acquired"
  | .unresolvedField typeId field =>
    "no field id mapping for field '" ++ field ++ "' of type " ++ toString typeId.toInt
  | .duplicateField fieldId => "duplicate field id " ++ toString fieldId.toInt ++ " in one object"
  | .tooLarge detail => "value too large: " ++ detail
  | .sink cause => "output sink error: " ++ cause.message

/-- Whether the error is about finding a type's id. -/
def isResolution : Error → Bool
  | .unresolvedType _ | .unregisteredType _ => true
  | _ => false

end Error

/-- Why a write stopped before its end. -/
inductive Stop where
  /-- The write failed, and its caller is told why. -/
  | error (cause : Error)
  /-- An access outside the storage, or to a node the graph does not have. -/
  | outOfRange
  /-- Values nested more deeply than the tape has bytes for. -/
  | tooDeep
deriving DecidableEq, Repr

end ObjectWire
