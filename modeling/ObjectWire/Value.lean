import ObjectWire.Plain

/-!
# Values

A value is plain, names a type, or refers to a node of a graph.  Nodes are the parts of a value that
have an identity: two references to one node are the same object, and a graph may be cyclic.
-/

namespace ObjectWire

/-- The place of a node in its graph, which is its identity. -/
abbrev NodeId := Nat

/-- A constant of an enumeration. -/
structure EnumConstant where
  typeName : String
  ordinal : Int32
deriving DecidableEq, Repr, Inhabited

/-- A constant of an enumeration whose type id is known. -/
structure BinaryEnum where
  /-- Zero for a type that is not registered. -/
  typeId : Int32
  /-- Name of the type; needed if the type is not registered. -/
  typeName : Option String
  ordinal : Int32
deriving DecidableEq, Repr, Inhabited

/-- Anything that can be written. -/
inductive Value where
  | plain (v : Plain)
  | enum (v : EnumConstant)
  | enumArray (typeName : String) (items : List (Option EnumConstant))
  | binaryEnum (v : BinaryEnum)
  /-- A type as a value. -/
  | classRef (typeName : String)
  | ref (node : NodeId)
deriving DecidableEq, Repr

namespace Value

/-- The null value. -/
def null : Value := plain .null

instance : Inhabited Value := ⟨null⟩

/-- Whether a value is null. -/
def isNull : Value → Bool
  | plain .null => true
  | _ => false

/-- The value with another node in place of the one it refers to. -/
def mapRef (f : NodeId → NodeId) : Value → Value
  | ref node => ref (f node)
  | v => v

end Value

/-- An object with named fields and, if it has one, a raw section. -/
structure DynamicObject where
  typeName : String
  fields : List (String × Value) := []
  raw : Option Bytes := none
deriving DecidableEq, Repr, Inhabited

namespace DynamicObject

/-- The object with a field added at the end, whatever its name. -/
def withField (o : DynamicObject) (name : String) (value : Value) : DynamicObject :=
  { o with fields := o.fields ++ [(name, value)] }

/-- The object with a raw section. -/
def withRaw (o : DynamicObject) (raw : Bytes) : DynamicObject := { o with raw := some raw }

/-- Fields with the value of the first one of a name replaced, or with a new one at the end. -/
def setIn (name : String) (value : Value) : List (String × Value) → List (String × Value)
  | [] => [(name, value)]
  | (n, v) :: rest => if n = name then (n, value) :: rest else (n, v) :: setIn name value rest

/-- The object with a field set. -/
def setField (o : DynamicObject) (name : String) (value : Value) : DynamicObject :=
  { o with fields := setIn name value o.fields }

/-- The object without its fields and raw section. -/
def clear (o : DynamicObject) : DynamicObject := { o with fields := [], raw := none }

/-- Number of fields. -/
def fieldCount (o : DynamicObject) : Nat := o.fields.length

/-- A line about the object for its developers: the names of its fields without their values, which may
    lead back to the object. -/
def summary (o : DynamicObject) : String :=
  let quoted (s : String) : String := "\"" ++ s ++ "\""
  let names := String.intercalate ", " (o.fields.map fun (name, _) => quoted name)
  let raw := match o.raw with
    | none => "None"
    | some bs => "Some(" ++ toString bs.length ++ ")"
  "DynamicObject \x7b type_name: " ++ quoted o.typeName ++ ", fields: [" ++ names ++
    "], raw_len: " ++ raw ++ " \x7d"

end DynamicObject

end ObjectWire
