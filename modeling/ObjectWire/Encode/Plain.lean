import ObjectWire.Encode.Array

/-!
# Plain values on a tape

A plain value is written by the encoder of its kind.  Only text depends on the encoding in force.
-/

namespace ObjectWire.Encode

/-- Writes a plain value. -/
def plain (encoding : StringEncoding) : Plain → Action Tape Unit
  | .null => null
  | .byte v => byte v
  | .short v => short v
  | .int v => int v
  | .long v => long v
  | .float v => float v
  | .double v => double v
  | .char v => char v
  | .bool v => bool v
  | .string v => string encoding v
  | .utf16 v => utf16 encoding v
  | .uuid v => uuid v
  | .date v => date v
  | .timestamp v => timestamp v
  | .time v => time v
  | .decimal v => decimal v
  | .bytes v => words .byteArray v
  | .shorts v => words .shortArray v
  | .ints v => words .intArray v
  | .longs v => words .longArray v
  | .floats v => words .floatArray v
  | .doubles v => words .doubleArray v
  | .chars v => words .charArray v
  | .bools v => words .boolArray v
  | .strings v => elements .stringArray (string encoding) v
  | .uuids v => elements .uuidArray uuid v
  | .dates v => elements .dateArray date v
  | .timestamps v => elements .timestampArray timestamp v
  | .times v => elements .timeArray time v
  | .decimals v => elements .decimalArray decimal v
  | .encoded v => encoded v

end ObjectWire.Encode
