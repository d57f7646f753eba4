import ObjectWire.Text.Casing

/-!
# Lower case

The full lower-case mapping of a text.  It goes character by character with two exceptions: the
capital I with a dot above becomes two characters, and a capital sigma becomes a final sigma at the
end of a word, that is after a letter with case and not before one.
-/

namespace ObjectWire.Lowercase

open Casing (isCased isIgnorable simpleLower)

/-- The lower-case form of a character on its own. -/
def ofChar (c : Char) : List Char :=
  if c = '\u0130' then ['i', '\u0307'] else [simpleLower c]

/-- Whether the first character that counts is a letter with case. -/
def startsCased (cs : List Char) : Bool :=
  match cs.dropWhile isIgnorable with
  | c :: _ => isCased c
  | [] => false

/-- The lower-case form of a capital sigma between two stretches of text; the one before it is given
    backwards. -/
def sigma (before after : List Char) : Char :=
  if startsCased before && !startsCased after then '\u03C2' else '\u03C3'

/-- The lower-case form of the rest of a text, given the part before it backwards. -/
def ofRest (before : List Char) : List Char → List Char
  | [] => []
  | c :: cs =>
    (if c = '\u03A3' then [sigma before cs] else ofChar c) ++ ofRest (c :: before) cs

/-- The lower-case form of a text. -/
def ofText (cs : List Char) : List Char := ofRest [] cs

end ObjectWire.Lowercase
