import Std.Data.TreeMap

/-!
# Handle tables

A handle table remembers where each shared object of a write was written first.  Most writes have no
such object or just one, so a search tree is built only for the second.  `find?` is the table's view: the
lemmas on `put` say that the first position recorded for an identity is kept.
-/

namespace ObjectWire

/-- Where objects were written first, by identity. -/
inductive HandleTable where
  | empty
  | one (identity position : Nat)
  | many (positions : Std.TreeMap Nat Nat)

namespace HandleTable

instance : Inhabited HandleTable := ⟨empty⟩

/-- The position recorded for an identity. -/
def find? (t : HandleTable) (identity : Nat) : Option Nat :=
  match t with
  | .empty => none
  | .one known first => if known = identity then some first else none
  | .many positions => positions[identity]?

/-- The position of an identity, if it was seen before; otherwise it is recorded with the position
    given. -/
def put (t : HandleTable) (identity position : Nat) : Option Nat × HandleTable :=
  match t with
  | .empty => (none, .one identity position)
  | .one known first =>
    if known = identity then (some first, t)
    -- The second object: only now is a tree worth its cost.
    else (none, .many (((∅ : Std.TreeMap Nat Nat).insert known first).insert identity position))
  | .many positions =>
    match positions[identity]? with
    | some first => (some first, t)
    | none => (none, .many (positions.insert identity position))

/-- Number of objects recorded. -/
def size : HandleTable → Nat
  | .empty => 0
  | .one _ _ => 1
  | .many positions => positions.size

/-- Whether no object is recorded. -/
def isEmpty (t : HandleTable) : Bool := t.size = 0

/-- Asking for a position tells the one recorded before, in each of the three forms. -/
@[simp] theorem put_fst (t : HandleTable) (identity position : Nat) :
    (t.put identity position).1 = t.find? identity := by
  cases t with
  | empty => rfl
  | one known first => by_cases h : known = identity <;> simp [put, find?, h]
  | many positions => cases h : positions[identity]? <;> simp [put, find?, h]

/-- A new identity is recorded, an old one keeps its position, and no other is touched. -/
@[simp] theorem find?_put_snd (t : HandleTable) (identity other position : Nat) :
    (t.put identity position).2.find? other =
      if identity = other then some ((t.find? identity).getD position) else t.find? other := by
  cases t with
  | empty => simp [put, find?]
  | one known first =>
    -- A second node turns the table into a tree, and the first entry moves there with its place.
    by_cases h : known = identity
    · subst h; by_cases ho : known = other <;> simp [put, find?, ho]
    · simp only [put, find?, h, if_false, Std.TreeMap.getElem?_insert, Std.TreeMap.getElem?_emptyc,
        Nat.compare_eq_eq, Option.getD_none]
  | many positions =>
    cases h : positions[identity]? with
    | none =>
      simp only [put, find?, h, Std.TreeMap.getElem?_insert, Nat.compare_eq_eq, Option.getD_none]
    | some first =>
      by_cases ho : identity = other
      · subst ho; simp [put, find?, h]
      · simp [put, find?, h, ho]

/-- The size of a table grows by one for a new identity. -/
theorem size_put (t : HandleTable) (identity position : Nat) :
    (t.put identity position).2.size =
      t.size + if (t.find? identity).isSome then 0 else 1 := by
  cases t with
  | empty => rfl
  | one known first =>
    -- The one node that is known is not counted twice.
    by_cases h : known = identity
    · simp [put, find?, h]
    · simp [put, find?, h, size, Std.TreeMap.size_insert]
  | many positions =>
    cases h : positions[identity]? with
    | none =>
      have hmem : identity ∉ positions := by
        rw [Std.TreeMap.mem_iff_isSome_getElem?, h]
        exact Bool.false_ne_true
      simp only [put, h]
      simp [find?, size, Std.TreeMap.size_insert, hmem]
    | some first => simp [put, find?, h]

/-- An identity that was seen before changes nothing. -/
theorem put_of_find? {t : HandleTable} {identity first : Nat} (h : t.find? identity = some first)
    (position : Nat) : t.put identity position = (some first, t) := by
  cases t with
  | empty => cases h
  | one known place =>
    obtain ⟨rfl, hfirst⟩ := Option.ite_none_right_eq_some.mp h
    rw [put, if_pos rfl, hfirst]
  | many positions =>
    have hplace : positions[identity]? = some first := h
    simp only [put, hplace]

end HandleTable

end ObjectWire
