import ObjectWire.Config
import ObjectWire.Json

/-!
# Reading a configuration

A configuration is written as a JSON object with a member for each option, or as an array of the values
of the first options in a fixed order.  An option that is left out has its default, a member that is no
option is passed over, and everything else that does not fit is refused: an option given twice, a value
of another kind, a value too many, a capacity that is not a plain number below `2 ^ 64`.
-/

namespace ObjectWire.Config

/-- The value of an option: the default if no member has its name, nothing if several have, or if the
    value does not read. -/
def option? {α : Type} (members : List (String × Json)) (name : String) (read : Json → Option α)
    (default : α) : Option α :=
  match members.filter (·.1 = name) with
  | [] => some default
  | [(_, value)] => read value
  | _ => none

/-- A truth value. -/
def bool? : Json → Option Bool
  | .bool b => some b
  | _ => none

/-- An encoding: its name, or an object whose only member has that name and the value null. -/
def encoding? : Json → Option StringEncoding
  | .string units | .object [(units, .null)] => (Utf16.toText? units).bind StringEncoding.ofName?
  | _ => none

/-- The largest capacity that a configuration can ask for: `2 ^ 64 - 1`. -/
def maxCapacity : Nat := 18446744073709551615

/-- A plain number up to the largest capacity. -/
def capacity? : Json → Option Nat
  | .number literal =>
    -- A sign, a fraction or an exponent makes a number that is no capacity, whatever its value.
    if literal.all Char.isDigit then
      let n := literal.foldl (fun n c => 10 * n + (c.toNat - 48)) 0
      if n ≤ maxCapacity then some n else none
    else none
  | _ => none

/-- The names of the options, in the order in which an array gives their values. -/
def optionNames : List String :=
  ["compact_footer", "string_encoding", "fail_if_unregistered", "identity_hash", "initial_capacity"]

/-- The configuration that named values describe. -/
def ofMembers? (members : List (String × Json)) : Option Config := do
  let default : Config := {}
  return {
    compactFooter := ← option? members "compact_footer" bool? default.compactFooter
    stringEncoding := ← option? members "string_encoding" encoding? default.stringEncoding
    failIfUnregistered := ← option? members "fail_if_unregistered" bool? default.failIfUnregistered
    identityHash := ← option? members "identity_hash" bool? default.identityHash
    initialCapacity := ← option? members "initial_capacity" capacity? default.initialCapacity }

/-- The configuration that a JSON value describes. -/
def ofJson? : Json → Option Config
  | .object members => do
    ofMembers? (← members.mapM fun (name, value) => (Utf16.toText? name).map (·, value))
  | .array values =>
    if values.length ≤ optionNames.length then ofMembers? (optionNames.zip values) else none
  | _ => none

/-- The configuration that a text describes. -/
def ofText? (text : String) : Option Config := (Json.parse text.toList).bind ofJson?

end ObjectWire.Config
