import ObjectWire.Bytes
import ObjectWire.Config

/-!
# UTF-16 text

A character outside the Basic Multilingual Plane takes two UTF-16 units, a high surrogate and a low
one.  Text that arrives as units may hold surrogates without a partner, and there are two ways to turn
units into bytes: `StringEncoding.v1` writes standard UTF-8 and puts a question mark for a surrogate
without a partner, `StringEncoding.v2` writes every unit on its own.  They agree on text without
surrogates.
-/

namespace ObjectWire.Utf16

/-- Whether a unit is the first half of a pair. -/
def isHigh (u : UInt16) : Bool := 0xD800 ≤ u && u ≤ 0xDBFF

/-- Whether a unit is the second half of a pair. -/
def isLow (u : UInt16) : Bool := 0xDC00 ≤ u && u ≤ 0xDFFF

/-- Whether a unit is half of a pair. -/
def isSurrogate (u : UInt16) : Bool := isHigh u || isLow u

/-- Whether a character takes two units. -/
def isSupplementary (c : Char) : Bool := 0x10000 ≤ c.toNat

/-- The units of a character. -/
def ofChar (c : Char) : List UInt16 :=
  if isSupplementary c then
    [UInt16.ofNat (0xD800 + (c.toNat - 0x10000) / 0x400),
      UInt16.ofNat (0xDC00 + (c.toNat - 0x10000) % 0x400)]
  else [UInt16.ofNat c.toNat]

/-- The units of a text. -/
def ofText (cs : List Char) : List UInt16 := cs.flatMap ofChar

/-- The character of a pair. -/
def pair (high low : UInt16) : Char :=
  Char.ofNat (0x10000 + (high.toNat - 0xD800) * 0x400 + (low.toNat - 0xDC00))

/-- The characters of a sequence of units; `none` stands for a surrogate without a partner.  A high
    surrogate has a partner exactly when a low one follows it. -/
def decode : List UInt16 → List (Option Char)
  | [] => []
  | [u] => [if isSurrogate u then none else some (Char.ofNat u.toNat)]
  | u :: v :: rest =>
    if isHigh u && isLow v then some (pair u v) :: decode rest
    else (if isSurrogate u then none else some (Char.ofNat u.toNat)) :: decode (v :: rest)

/-- The text of units in which every surrogate has a partner. -/
def toText? (units : List UInt16) : Option String :=
  ((decode units).mapM id).map String.ofList

/-- The bytes of a unit on its own: one, two or three, in the manner of UTF-8. -/
def unitBytes (u : UInt16) : Bytes :=
  let v := u.toNat
  if v ≤ 0x7F then [UInt8.ofNat v]
  else if v ≤ 0x7FF then [UInt8.ofNat (v / 64 + 192), UInt8.ofNat (v % 64 + 128)]
  else [UInt8.ofNat (v / 4096 + 224), UInt8.ofNat (v / 64 % 64 + 128), UInt8.ofNat (v % 64 + 128)]

/-- The UTF-8 bytes of a text. -/
def utf8 (cs : List Char) : Bytes := cs.flatMap String.utf8EncodeChar

/-- The bytes of units under an encoding. -/
def bytes (units : List UInt16) : StringEncoding → Bytes
  | .v1 => utf8 ((decode units).map (·.getD '?'))
  | .v2 => units.flatMap unitBytes

/-- The bytes of a text under an encoding.  Without supplementary characters the encodings agree and
    the text's UTF-8 form is taken as it is. -/
def textBytes (text : String) : StringEncoding → Bytes
  | .v1 => utf8 text.toList
  | .v2 =>
    if text.toList.any isSupplementary then (ofText text.toList).flatMap unitBytes
    else utf8 text.toList

end ObjectWire.Utf16
