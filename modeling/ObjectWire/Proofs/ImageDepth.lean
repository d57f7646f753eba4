import ObjectWire.Proofs.Image

/-!
# Depth does not matter

The depth down to which values may be nested decides whether a value has an image, but not which: a
larger depth gives all images that a smaller one gives (`refines_value`), so a value has one image at most
(`Wire.IsImage.unique`).
-/

namespace ObjectWire

namespace Image

section

variable {r : Registry} {rec deeper : Value → Sketch Wire} (h : ∀ v, Refines (rec v) (deeper v))

/-- Several images are found with more depth if each of them is. -/
theorem refines_each {α : Type} {x y : α → Sketch Wire} (h : ∀ a, Refines (x a) (y a)) (as : List α) :
    Refines (each x as) (each y as) := by
  induction as with
  | nil => exact .refl _
  | cons a as ih => exact (h a).bind fun w => ih.bind fun ws => .refl _

/-- So is a list behind its head, which holds no values. -/
theorem refines_list {α : Type} {x y : α → Sketch Wire} (h : ∀ a, Refines (x a) (y a))
    (head : ListHead) (items : List α) : Refines (list x head items) (list y head items) := by
  apply Refines.bind (.refl _)
  intro _
  apply Refines.bind (.refl _)
  intro _
  exact (refines_each h items).bind fun ws => .refl _

/-- A log of its own makes no difference to what an image holds. -/
theorem refines_detached {x y : Sketch Wire} (h : Refines x y) :
    Refines (detached x) (detached y) := by
  intro st w st' hw
  obtain ⟨inner, hx, hst⟩ := (gives_detached ..).mp hw
  exact (gives_detached ..).mpr ⟨inner, h hx, hst⟩

/-- A reference back to a node needs no depth at all. -/
theorem refines_tracked {node : NodeId} {x y : Sketch Wire} (h : Refines x y) :
    Refines (tracked node x) (tracked node y) := by
  intro st w st' hw
  -- Which of both it is depends on the log alone, so it is the same for both.
  cases hplace : placeOf node st.log with
  | none => exact (gives_tracked_none hplace ..).mpr (h ((gives_tracked_none hplace ..).mp hw))
  | some target => exact (gives_tracked_some hplace ..).mpr ((gives_tracked_some hplace ..).mp hw)

include h

/-- A call on a raw section has one value inside it at most. -/
theorem refines_rawCall (first : Nat) (d : RawDraft) (op : RawOp) :
    Refines (rawCall r rec first d op) (rawCall r deeper first d op) := by
  cases op with
  | value v => exact (h v).bind fun w => .refl _
  | detached v => exact (refines_detached (h v)).bind fun w => .refl _
  -- The other calls have no values inside.
  | _ => exact .refl _

/-- Calls on a raw section find their images one after the other. -/
theorem refines_rawCalls (first : Nat) (d : RawDraft) (ops : List RawOp) :
    Refines (rawCalls r rec first d ops) (rawCalls r deeper first d ops) := by
  induction ops generalizing d with
  | nil => exact .refl _
  | cons op ops ih => exact (refines_rawCall h first d op).bind fun d => ih d

/-- The value of a typed field is plain, or a value like any other. -/
theorem refines_typed (v : TypedField) : Refines (typed r rec v) (typed r deeper v) := by
  unfold typed
  split
  · exact .refl _
  · exact h _

omit h in
/-- A field has nothing inside but its value. -/
theorem refines_field {start : Nat} {id : Int32} {fold : Bool} {x y : Sketch Wire} (h : Refines x y)
    (d : Draft) : Refines (field start id fold x d) (field start id fold y d) := by
  apply Refines.bind (.refl _)
  intro _
  apply Refines.bind (.refl _)
  intro _
  exact h.bind fun w => .refl _

/-- A call on the writer of an object refines what it did with less depth, whichever call it is. -/
theorem refines_call (start : Nat) (d : Draft) (op : ObjectOp) :
    Refines (call r rec start d op) (call r deeper start d op) := by
  cases op with
  | typed name v => exact refines_field (refines_typed h v) d
  | field name v => exact refines_field (h v) d
  | fieldId id v => exact refines_field (h v) d
  | fieldIdUnfolded id v => exact refines_field (h v) d
  | detached name v => exact refines_field (refines_detached (h v)) d
  | raw ops => exact (refines_rawCalls h _ _ ops).bind fun made => .refl _
  | _ => exact .refl _

/-- Calls on the writer of an object are refined one after the other. -/
theorem refines_calls (start : Nat) (d : Draft) (ops : List ObjectOp) :
    Refines (calls r rec start d ops) (calls r deeper start d ops) := by
  induction ops generalizing d with
  | nil => exact .refl _
  | cons op ops ih => exact (refines_call h start d op).bind fun d => ih d

/-- Around the calls of an object nothing depends on the depth. -/
theorem refines_frame (typeId : Int32) (name : Option Bytes) (userType : Bool) (ops : List ObjectOp) :
    Refines (frame r rec typeId name userType ops) (frame r deeper typeId name userType ops) := by
  -- The start, the name and the room for the header are taken without looking inside.
  apply Refines.bind (.refl _)
  intro start
  apply Refines.bind (.refl _)
  intro _
  apply Refines.bind (.refl _)
  intro _
  exact (refines_calls h start {} ops).bind fun d => .refl _

/-- Whether the type of an object is registered does not depend on the depth, either. -/
theorem refines_object (o : UserObject) : Refines (object r rec o) (object r deeper o) := by
  unfold object
  split
  · exact refines_frame h ..
  · exact refines_frame h ..

/-- What takes the place of an object is found with more depth, too. -/
theorem refines_substitute (v : Value) : Refines (substitute r rec v) (substitute r deeper v) := by
  cases v with
  | ref other =>
    apply Refines.bind (.refl _)
    -- The graph decides whether it is another object, and the graph is the same for both.
    intro st
    cases st.graph.object? other with
    | some o => exact refines_tracked (refines_object h o)
    | none => exact h _
  | _ => exact h _

/-- An object gives way or does not; both are found with more depth. -/
theorem refines_objectNode (id : NodeId) (o : UserObject) :
    Refines (objectNode r rec id o) (objectNode r deeper id o) := by
  unfold objectNode
  split
  · exact refines_tracked (refines_object h o)
  · apply Refines.bind (.refl _)
    intro place
    apply Refines.bind (.refl _)
    intro _
    apply Refines.bind (.refl _)
    exact refines_substitute h

/-- A node is refined if the values inside it are. -/
theorem refines_node (id : NodeId) (n : Node) : Refines (node r rec id n) (node r deeper id n) := by
  cases n with
  | object o => exact refines_objectNode h id o
  | array componentType items => exact refines_tracked (refines_list h _ _)
  | collection typeName items => exact refines_tracked (refines_list h _ _)
  | map typeName entries => exact refines_tracked (refines_list h _ _)
  | proxy interfaces handler => exact refines_list h _ _

/-- A value is refined if those inside it are: this is one level of the induction over the depth. -/
theorem refines_valueWith (v : Value) : Refines (valueWith r rec v) (valueWith r deeper v) := by
  cases v with
  | ref id =>
    apply Refines.bind (.refl _)
    intro st
    cases st.graph.node? id with
    | some n => exact refines_node h id n
    | none => exact .refl _
  | _ => exact .refl _

end

/-- More depth gives the same images. -/
theorem refines_value (r : Registry) {depth depth' : Nat} (hle : depth ≤ depth') (v : Value) :
    Refines (value r depth v) (value r depth' v) := by
  induction depth generalizing depth' v with
  | zero => exact .failure _
  | succ depth ih =>
    cases depth' with
    | zero => omega
    -- Both go one level down, to values that refine each other.
    | succ depth' => exact refines_valueWith (fun v => ih (by omega) v) v

/-- A value has one image, however deep the writer may go. -/
theorem value_unique {r : Registry} {depth depth' : Nat} {v : Value} {st st₁ st₂ : Progress}
    {w w' : Wire} (h : Gives (value r depth v) st w st₁) (h' : Gives (value r depth' v) st w' st₂) :
    w = w' ∧ st₁ = st₂ := by
  -- The image found with less depth is found with more depth as well.
  rcases Nat.le_total depth depth' with hle | hle
  · exact (refines_value r hle v h).unique h'
  · exact h.unique (refines_value r hle v h')

end Image

/-- A value has one image at most. -/
theorem Wire.IsImage.unique {r : Registry} {g : Graph} {v : Value} {w w' : Wire}
    (h : w.IsImage r g v) (h' : w'.IsImage r g v) : w = w' := by
  obtain ⟨_, _, h⟩ := h
  obtain ⟨_, _, h'⟩ := h'
  exact (Image.value_unique h h').1

end ObjectWire
