/-!
# Configuration

The options that shape the bytes a writer produces.
-/

namespace ObjectWire

/-- How UTF-16 text is turned into bytes.  The two ways differ only in what becomes of surrogates. -/
inductive StringEncoding where
  /-- Standard UTF-8: a pair is one sequence of four bytes, and a surrogate without a partner a
      question mark. -/
  | v1
  /-- Every unit on its own, so that a surrogate is a sequence of three bytes. -/
  | v2
deriving DecidableEq, Repr, Inhabited

/-- The name of an encoding in a configuration. -/
def StringEncoding.name : StringEncoding → String
  | .v1 => "v1"
  | .v2 => "v2"

/-- The encoding of a name. -/
def StringEncoding.ofName? : String → Option StringEncoding
  | "v1" => some .v1
  | "v2" => some .v2
  | _ => none

/-- The options of a registry and of the writers that resolve types through it. -/
structure Config where
  /-- Footers of user types hold offsets without field ids. -/
  compactFooter : Bool := true
  /-- How text is turned into bytes. -/
  stringEncoding : StringEncoding := .v1
  /-- Types without a registered id are refused, where otherwise their names are written inline. -/
  failIfUnregistered : Bool := false
  /-- The hash code in an object's header is filled in. -/
  identityHash : Bool := false
  /-- Capacity of a new scratch tape. -/
  initialCapacity : Nat := 1024
deriving DecidableEq, Repr, Inhabited

/-- The configuration with another initial capacity; zero is raised to one. -/
def Config.withInitialCapacity (c : Config) (capacity : Nat) : Config :=
  { c with initialCapacity := if capacity = 0 then 1 else capacity }

end ObjectWire
