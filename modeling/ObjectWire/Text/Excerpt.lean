/-!
# Excerpts of names

An error names the type it is about, and a very long name is cut.  The cut is made in the UTF-8 form
of the name, never inside a character: `boundaryBelow` walks down from the limit to the nearest byte
offset that lies between two characters.
-/

namespace ObjectWire.Excerpt

/-- Whether a byte offset into the UTF-8 form of a text lies between two of its characters (or at
    either end). -/
def isBoundary : List Char → Nat → Bool
  | _, 0 => true
  | [], _ + 1 => false
  | c :: cs, i + 1 => decide (c.utf8Size ≤ i + 1) && isBoundary cs (i + 1 - c.utf8Size)

/-- A character starts where the text does. -/
@[simp] theorem isBoundary_zero (cs : List Char) : isBoundary cs 0 = true := by
  cases cs <;> rfl

/-- Behind the first character the boundaries are those of the rest. -/
theorem isBoundary_cons (c : Char) (cs : List Char) (i : Nat) :
    isBoundary (c :: cs) (c.utf8Size + i) = isBoundary cs i := by
  obtain ⟨k, hk⟩ : ∃ k, c.utf8Size + i = k + 1 :=
    Nat.exists_eq_add_one.mpr (Nat.lt_of_lt_of_le c.utf8Size_pos (Nat.le_add_right _ _))
  have hle : c.utf8Size ≤ k + 1 := hk ▸ Nat.le_add_right _ _
  rw [hk, isBoundary, decide_eq_true hle, Bool.true_and, ← hk, Nat.add_sub_cancel_left]

/-- The largest boundary that is at most a given byte offset.  Offset zero is always a boundary, so
    the search ends. -/
def boundaryBelow (cs : List Char) : Nat → Nat
  | 0 => 0
  | i + 1 => if isBoundary cs (i + 1) then i + 1 else boundaryBelow cs i

/-- The characters that lie wholly before a byte offset. -/
def before : List Char → Nat → List Char
  | [], _ => []
  | c :: cs, i => if c.utf8Size ≤ i then c :: before cs (i - c.utf8Size) else []

/-- A cut behind the first character keeps it and cuts the rest. -/
theorem before_cons (c : Char) (cs : List Char) (i : Nat) :
    before (c :: cs) (c.utf8Size + i) = c :: before cs i := by
  rw [before, if_pos (Nat.le_add_right _ _), Nat.add_sub_cancel_left]

/-- Names of up to this many bytes are shown whole. -/
def limit : Nat := 100

/-- A name as errors show it: whole up to `limit` bytes, otherwise cut at the last character boundary
    within the limit and followed by three dots. -/
def ofName (name : String) : String :=
  if name.utf8ByteSize ≤ limit then name
  else String.ofList (before name.toList (boundaryBelow name.toList limit)) ++ "..."

end ObjectWire.Excerpt
