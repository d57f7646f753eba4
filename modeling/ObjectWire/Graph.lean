import ObjectWire.Program

/-!
# Graphs

A graph is the table of all nodes of a write: user objects, which may refer to one another in any way,
and the containers around them.  A user object either has its fields in a list (`DynamicObject`) or
writes itself by a program, and may name a value to be written in its place.
-/

namespace ObjectWire

/-- A value to be written in place of an object. -/
inductive Replacement where
  /-- The same value each time. -/
  | shared (v : Value)
  /-- A new value each time: a copy of the `count` nodes from `first` on, and a value that refers to
      them. -/
  | fresh (v : Value) (first count : NodeId)
deriving DecidableEq, Repr

/-- An object that writes itself by a program. -/
structure ProgrammedObject where
  typeName : String
  program : List ObjectOp
  replacement : Option Replacement := none

/-- An object of a user type. -/
inductive UserObject where
  | dynamic (o : DynamicObject)
  | programmed (o : ProgrammedObject)

namespace UserObject

/-- Name of the object's type. -/
def typeName : UserObject → String
  | dynamic o => o.typeName
  | programmed o => o.typeName

/-- The value to be written in place of the object, if any. -/
def replacement : UserObject → Option Replacement
  | dynamic _ => none
  | programmed o => o.replacement

end UserObject

/-- A part of a value with an identity. -/
inductive Node where
  | object (o : UserObject)
  | array (componentType : String) (items : List Value)
  | collection (typeName : String) (items : List Value)
  | map (typeName : String) (entries : List (Value × Value))
  /-- A stand-in for an object behind interfaces.  It is written anew at each reference. -/
  | proxy (interfaces : List String) (handler : Value)

instance : Inhabited Node := ⟨.collection "" []⟩

/-- The node with other nodes in place of those its values refer to.  Programs are kept as they are. -/
def Node.mapRefs (f : NodeId → NodeId) : Node → Node
  | .object (.dynamic o) =>
    .object (.dynamic { o with fields := o.fields.map fun (name, v) => (name, v.mapRef f) })
  | .object (.programmed o) => .object (.programmed o)
  | .array componentType items => .array componentType (items.map (·.mapRef f))
  | .collection typeName items => .collection typeName (items.map (·.mapRef f))
  | .map typeName entries => .map typeName (entries.map fun (k, v) => (k.mapRef f, v.mapRef f))
  | .proxy interfaces handler => .proxy interfaces (handler.mapRef f)

/-- The nodes of a write. -/
structure Graph where
  nodes : Array Node := #[]
deriving Inhabited

namespace Graph

/-- Number of nodes. -/
def size (g : Graph) : Nat := g.nodes.size

/-- A node. -/
def node? (g : Graph) (id : NodeId) : Option Node := g.nodes[id]?

/-- A user object. -/
def object? (g : Graph) (id : NodeId) : Option UserObject :=
  match g.node? id with
  | some (.object o) => some o
  | _ => none

/-- A dynamic object. -/
def dynamic? (g : Graph) (id : NodeId) : Option DynamicObject :=
  match g.node? id with
  | some (.object (.dynamic o)) => some o
  | _ => none

/-- The graph with one more node, and the identity of that node. -/
def add (g : Graph) (node : Node) : NodeId × Graph := (g.size, ⟨g.nodes.push node⟩)

/-- The graph with a node changed. -/
def set (g : Graph) (id : NodeId) (node : Node) : Graph := ⟨g.nodes.setIfInBounds id node⟩

/-- The graph with a copy of `count` nodes from `first` on, whose references among themselves lead to
    the copies, and what each reference becomes in the copy. -/
def copy (g : Graph) (first count : NodeId) : (NodeId → NodeId) × Graph :=
  let moved (id : NodeId) : NodeId :=
    if first ≤ id ∧ id < first + count then g.size + (id - first) else id
  let block := (g.nodes.extract first (first + count)).map (Node.mapRefs moved)
  (moved, ⟨g.nodes ++ block⟩)

/-- The value to be written for a replacement, and the graph that has its nodes. -/
def instantiate (g : Graph) : Replacement → Value × Graph
  | .shared v => (v, g)
  | .fresh v first count =>
    let (moved, g) := g.copy first count
    (v.mapRef moved, g)

end Graph

end ObjectWire
