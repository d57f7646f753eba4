/-!
# Tags

Every value starts with one byte that says what follows.
-/

namespace ObjectWire

/-- What the first byte of a written value announces. -/
inductive Tag where
  | byte | short | int | long | float | double | char | bool
  | string | uuid | date
  | byteArray | shortArray | intArray | longArray | floatArray | doubleArray | charArray | boolArray
  | stringArray | uuidArray | dateArray
  | objectArray | collection | map
  | binaryObject | enum | enumArray
  | decimal | decimalArray
  | classRef | timestamp | timestampArray | proxy | time | timeArray | binaryEnum
  | null | handle | object
deriving DecidableEq, Repr

namespace Tag

/-- The byte of a tag. -/
def code : Tag → UInt8
  | .byte => 1
  | .short => 2
  | .int => 3
  | .long => 4
  | .float => 5
  | .double => 6
  | .char => 7
  | .bool => 8
  | .string => 9
  | .uuid => 10
  | .date => 11
  | .byteArray => 12
  | .shortArray => 13
  | .intArray => 14
  | .longArray => 15
  | .floatArray => 16
  | .doubleArray => 17
  | .charArray => 18
  | .boolArray => 19
  | .stringArray => 20
  | .uuidArray => 21
  | .dateArray => 22
  | .objectArray => 23
  | .collection => 24
  | .map => 25
  | .binaryObject => 27
  | .enum => 28
  | .enumArray => 29
  | .decimal => 30
  | .decimalArray => 31
  | .classRef => 32
  | .timestamp => 33
  | .timestampArray => 34
  | .proxy => 35
  | .time => 36
  | .timeArray => 37
  | .binaryEnum => 38
  | .null => 101
  | .handle => 102
  | .object => 103

end Tag

end ObjectWire
