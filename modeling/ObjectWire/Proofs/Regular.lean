import ObjectWire.Proofs.ImageSpan

/-!
# Regular graphs

The image of a value leaves out what a program could do around its object: calls on the session, calls
that are allowed to fail, and places in a raw section that are left open for good.  A graph is regular
if its objects do nothing of that kind.  Every graph of dynamic objects is regular (`Graph.Dynamic.regular`),
and replacing an object keeps a graph regular (`Graph.Regular.instantiate`).
-/

namespace ObjectWire

/-- The number of places that a call reserves. -/
def ObjectOp.reserved : ObjectOp → Nat
  | .raw ops => ops.count .reserve
  | _ => 0

/-- The number of places that calls reserve. -/
def ObjectOp.reservedBy : List ObjectOp → Nat
  | [] => 0
  | op :: ops => op.reserved + reservedBy ops

/-- The places that a call fills in, if so many were reserved before it. -/
def ObjectOp.filled (first : Nat) : ObjectOp → List Nat
  | .raw ops => ops.filterMap (·.slot? first)
  | _ => []

/-- The places that calls fill in one after the other. -/
def ObjectOp.filledBy (first : Nat) : List ObjectOp → List Nat
  | [] => []
  | op :: ops => op.filled first ++ filledBy (first + op.reserved) ops

/-- Whether calls fill in every place that they leave open, no matter how much later. -/
def ObjectOp.fillsAll (ops : List ObjectOp) : Bool :=
  (List.range (reservedBy ops)).all (· ∈ filledBy 0 ops)

/-- Whether a call writes a field or the raw section of its object, or asks after it, and nothing
    else. -/
def ObjectOp.isRegular : ObjectOp → Bool
  | .session _ | .attempt _ => false
  | _ => true

/-- The calls that write the object are all regular, and together leave no place open. -/
structure UserObject.IsRegular (o : UserObject) : Prop where
  call : ∀ op ∈ o.calls, op.isRegular = true
  fillsAll : ObjectOp.fillsAll o.calls = true

/-- Whether a call writes a named field, or bytes as they are, as a dynamic object does. -/
def ObjectOp.isPlain : ObjectOp → Bool
  | .field _ _ | .raw [.bytes _] => true
  | _ => false

/-- A plain call on the raw section writes bytes. -/
theorem ObjectOp.isPlain_raw {ops : List RawOp} (h : (raw ops).isPlain = true) :
    ∃ bs, ops = [.bytes bs] := by
  unfold isPlain at h
  split at h
  · next heq => cases heq
  · next bs heq => exact ⟨bs, raw.inj heq⟩
  · cases h

/-- Calls that reserve no place each reserve none together. -/
theorem ObjectOp.reservedBy_eq_zero {ops : List ObjectOp} (h : ∀ op ∈ ops, op.reserved = 0) :
    reservedBy ops = 0 := by
  induction ops with
  | nil => rfl
  | cons op ops ih =>
    obtain ⟨hop, hops⟩ := List.forall_mem_cons.mp h
    rw [reservedBy, hop, ih hops]

namespace UserObject

/-- The object writes itself as a dynamic object does: field by field, and its raw section as it is. -/
def IsPlain (o : UserObject) : Prop := ∀ op ∈ o.calls, op.isPlain = true

/-- A dynamic object has nothing but named fields and bytes to write. -/
theorem isPlain_dynamic (d : DynamicObject) : (dynamic d).IsPlain := by
  intro op hop
  simp only [calls, List.mem_append, List.mem_map] at hop
  obtain ⟨_, -, rfl⟩ | ⟨_, -, rfl⟩ := hop
  · rfl
  · rfl

/-- What writes itself plainly writes itself by regular calls. -/
theorem IsPlain.isRegular {o : UserObject} (h : o.IsPlain) : o.IsRegular := by
  have hop : ∀ op ∈ o.calls, op.isRegular = true ∧ op.reserved = 0 := by
    intro op hop
    have hplain := h op hop
    cases op with
    | field name v => exact ⟨rfl, rfl⟩
    | raw ops =>
      obtain ⟨bs, rfl⟩ := ObjectOp.isPlain_raw hplain
      exact ⟨rfl, rfl⟩
    | _ => cases hplain
  constructor
  · exact fun op hmem => (hop op hmem).1
  · -- Plain calls reserve no places that would have to be filled in.
    rw [ObjectOp.fillsAll, ObjectOp.reservedBy_eq_zero fun op hmem => (hop op hmem).2]
    rfl

/-- A dynamic object writes its fields and its raw section and nothing else. -/
theorem isRegular_dynamic (o : DynamicObject) : (dynamic o).IsRegular := (isPlain_dynamic o).isRegular

end UserObject

namespace Graph

/-- All objects write themselves by regular calls. -/
def Regular (g : Graph) : Prop := ∀ id o, g.node? id = some (.object o) → o.IsRegular

/-- All objects have their fields in a list. -/
def Dynamic (g : Graph) : Prop :=
  ∀ id o, g.node? id = some (.object o) → ∃ d, o = .dynamic d

/-- Objects with programs of their own are told node by node. -/
theorem dynamic_iff {g : Graph} : g.Dynamic ↔ ∀ n ∈ g.nodes.toList, ∀ o, n ≠ .object (.programmed o) := by
  constructor
  · intro h n hmem o hn
    obtain ⟨id, hid⟩ := Array.mem_iff_getElem?.mp (Array.mem_toList_iff.mp hmem)
    obtain ⟨d, hd⟩ := h id _ (hn ▸ hid)
    cases hd
  · intro h id o ho
    cases o with
    | dynamic d => exact ⟨d, rfl⟩
    | programmed p => exact absurd rfl (h _ (Array.mem_toList_iff.mpr (Array.mem_of_getElem? ho)) p)

instance : DecidablePred fun n : Node => ∀ o, n ≠ .object (.programmed o)
  | .object (.programmed o) => isFalse fun h => h o rfl
  | .object (.dynamic _) | .array .. | .collection .. | .map .. | .proxy .. => isTrue nofun

instance (g : Graph) : Decidable g.Dynamic := decidable_of_iff _ dynamic_iff.symm

/-- Among dynamic objects there is none that could do anything irregular. -/
theorem Dynamic.regular {g : Graph} (h : g.Dynamic) : g.Regular := by
  intro id o ho
  obtain ⟨d, rfl⟩ := h id o ho
  exact UserObject.isRegular_dynamic d

/-- What is found as an object is that node of the graph. -/
theorem object?_eq_some {g : Graph} {id : NodeId} {o : UserObject} (h : g.object? id = some o) :
    g.node? id = some (.object o) := by
  unfold object? at h
  split at h
  · next ho => rw [ho, Option.some.inj h]
  · cases h

/-- A copied object is regular if it was so before. -/
theorem isRegular_mapRefs {f : NodeId → NodeId} {n : Node} {o : UserObject}
    (h : ∀ o, n = .object o → o.IsRegular) (ho : n.mapRefs f = .object o) : o.IsRegular := by
  cases n with
  | object u =>
    cases u with
    | dynamic d =>
      simp only [Node.mapRefs, Node.object.injEq] at ho
      subst ho
      exact UserObject.isRegular_dynamic _
    | programmed p =>
      simp only [Node.mapRefs, Node.object.injEq] at ho
      subst ho
      exact h _ rfl
  | _ => cases ho

/-- The nodes that a replacement brings with it are copies of nodes that were there. -/
theorem Regular.instantiate {g : Graph} (h : g.Regular) (r : Replacement) :
    (g.instantiate r).2.Regular := by
  cases r with
  | shared v => exact h
  | fresh v first count =>
    intro id o ho
    simp only [Graph.instantiate, copy, node?, Array.getElem?_append] at ho
    split at ho
    · exact h id o ho
    · rw [Array.getElem?_map, Option.map_eq_some_iff] at ho
      obtain ⟨n, hn, ho⟩ := ho
      -- The copied node is a node of the graph, and so regular if it is an object.
      refine isRegular_mapRefs (fun u hu => ?_) ho
      subst hu
      rw [Array.getElem?_extract] at hn
      split at hn
      · exact h _ u hn
      · cases hn

end Graph

namespace Image

/-- The places left open in a raw section lie inside it, those filled in are among them, and every open
    cell belongs to one that is not filled in. -/
structure RawDraft.Accounted (d : RawDraft) (filled : List Nat) : Prop where
  inside : d.Inside
  known : ∀ slot ∈ filled, slot < d.slots.length
  slot : ∀ i, d.cells[i]? = some none →
    ∃ slot offset : Nat, d.slots[slot]? = some offset ∧ offset ≤ i ∧ i < offset + 4 ∧ slot ∉ filled

namespace RawDraft.Accounted

variable {d : RawDraft} {filled : List Nat}

theorem empty : RawDraft.Accounted {} [] where
  inside := .empty
  known := List.forall_mem_nil _
  slot := by simp

/-- More bytes leave no more cells open. -/
theorem add (h : d.Accounted filled) (bs : Bytes) : (d.add bs).Accounted filled where
  inside := h.inside.add bs
  known := h.known
  slot := by
    intro i hi
    simp only [RawDraft.add, List.getElem?_append] at hi
    split at hi
    · exact h.slot i hi
    · -- The new cells all hold a byte.
      simp at hi

/-- A new place is open until it is filled in. -/
theorem reserve (h : d.Accounted filled) : d.reserve.Accounted filled where
  inside := h.inside.reserve
  known := by
    intro slot hslot
    have := h.known slot hslot
    rw [RawDraft.slots_reserve]
    omega
  slot := by
    intro i hi
    rw [RawDraft.reserve, List.getElem?_append] at hi
    split at hi
    · obtain ⟨slot, offset, hs, h₁, h₂, hf⟩ := h.slot i hi
      exact ⟨slot, offset, (List.getElem?_append_left (List.getElem?_eq_some_iff.mp hs).1).trans hs,
        h₁, h₂, hf⟩
    · -- The new open cells belong to the new place, and no call could fill that in before.
      have hlt := (List.getElem?_eq_some_iff.mp hi).1
      simp only [List.length_replicate] at hlt
      have hnew : d.slots.length ∉ filled := fun hmem => Nat.lt_irrefl _ (h.known _ hmem)
      have hplace : d.reserve.slots[d.slots.length]? = some d.cells.length := List.getElem?_concat_length
      exact ⟨d.slots.length, d.cells.length, hplace, by omega, by omega, hnew⟩

/-- A place filled in is open no more. -/
theorem fill (h : d.Accounted filled) {slot offset : Nat} (hs : d.slots[slot]? = some offset)
    {bs : Bytes} (hlen : bs.length = 4) : (d.fill offset bs).Accounted (filled ++ [slot]) := by
  have hin := h.inside slot offset hs
  have htake : (d.cells.take offset).length = offset := List.length_take_of_le (by omega)
  refine ⟨h.inside.fill hs hlen, ?_, ?_⟩
  · intro k hk
    obtain hk | hk := List.mem_append.mp hk
    · exact h.known k hk
    · exact List.mem_singleton.mp hk ▸ (List.getElem?_eq_some_iff.mp hs).1
  · intro i hi
    -- A cell that is still open was so before, and is not one of the four filled in.
    have hout : d.cells[i]? = some none ∧ ¬ (offset ≤ i ∧ i < offset + 4) := by
      simp only [RawDraft.fill, List.append_assoc, List.getElem?_append, htake, List.length_map,
        hlen] at hi
      split at hi
      · next hlt =>
        rw [List.getElem?_take, if_pos hlt] at hi
        exact ⟨hi, by omega⟩
      · split at hi
        · simp at hi
        · rw [List.getElem?_drop] at hi
          have : offset + 4 + (i - offset - 4) = i := by omega
          exact ⟨this ▸ hi, by omega⟩
    obtain ⟨k, place, hk, h₁, h₂, hf⟩ := h.slot i hout.1
    refine ⟨k, place, hk, h₁, h₂, ?_⟩
    rw [List.mem_append, List.mem_singleton, not_or]
    refine ⟨hf, ?_⟩
    rintro rfl
    rw [hs] at hk
    cases hk
    exact hout.2 ⟨h₁, h₂⟩

end RawDraft.Accounted

section

variable {r : Registry} {rec : Value → Sketch Wire}

/-- A call on a raw section accounts for the place that it leaves open or fills in. -/
theorem rawCall_accounted {first : Nat} {d d' : RawDraft} {op : RawOp} {filled : List Nat}
    {st st' : Progress} (h : d.Accounted filled) (hc : Gives (rawCall r rec first d op) st d' st') :
    d'.Accounted (filled ++ (op.slot? first).toList) ∧
      d'.slots.length = d.slots.length + [op].count .reserve := by
  obtain ⟨rfl, rfl, -⟩ | ⟨slot, v, offset, hreserve, hslot, hs, rfl, -⟩ | ⟨⟨hreserve, hslot⟩, hadded⟩ :=
    gives_rawCall (P := fun _ => True) (fun _ => trivial) (fun _ => trivial) (fun _ => trivial) hc
  · constructor
    · simpa [RawOp.slot?] using h.reserve
    · simp
  · have hcount : [op].count .reserve = 0 := List.count_eq_zero.mpr (by simpa using hreserve.symm)
    rw [hslot, hcount]
    exact ⟨h.fill hs (Word.length_bytes v), rfl⟩
  · have hbytes : ∃ bs, d' = d.add bs := by
      obtain ⟨bs, hd, -⟩ | ⟨_, w, -, -, hd⟩ := hadded
      · exact ⟨bs, hd⟩
      · exact ⟨w.bytes, hd⟩
    obtain ⟨bs, rfl⟩ := hbytes
    have hcount : [op].count .reserve = 0 := List.count_eq_zero.mpr (by simpa using hreserve.symm)
    rw [hslot, hcount, Option.toList_none, List.append_nil]
    exact ⟨h.add bs, rfl⟩

/-- Calls of one group account for their places one after the other, each counted from where the group
    began. -/
theorem rawCalls_accounted {first : Nat} {ops : List RawOp} {d d' : RawDraft} {filled : List Nat}
    {st st' : Progress} (h : d.Accounted filled) (hc : Gives (rawCalls r rec first d ops) st d' st') :
    d'.Accounted (filled ++ ops.filterMap (·.slot? first)) ∧
      d'.slots.length = d.slots.length + ops.count .reserve := by
  induction ops generalizing filled d st with
  | nil =>
    obtain ⟨rfl, -⟩ := (gives_pure ..).mp hc
    exact ⟨by rwa [List.filterMap_nil, List.append_nil], rfl⟩
  | cons op ops ih =>
    obtain ⟨d₁, st₁, hop, hops⟩ := (gives_bind ..).mp hc
    obtain ⟨h₁, hlen₁⟩ := rawCall_accounted h hop
    obtain ⟨h₂, hlen₂⟩ := ih h₁ hops
    constructor
    · have hcons : (op :: ops).filterMap (·.slot? first) =
          (op.slot? first).toList ++ ops.filterMap (·.slot? first) := by
        rw [List.filterMap_cons]
        cases op.slot? first <;> rfl
      rwa [hcons, ← List.append_assoc]
    · rw [hlen₂, hlen₁, Nat.add_assoc, ← List.count_append]
      rfl

/-- Calls on the writer of an object account for the places of its raw section. -/
theorem call_accounted {start : Nat} {op : ObjectOp} {d d' : Draft} {filled : List Nat}
    {st st' : Progress} (h : d.rawSoFar.Accounted filled)
    (hc : Gives (call r rec start d op) st d' st') :
    d'.rawSoFar.Accounted (filled ++ op.filled d.rawSoFar.slots.length) ∧
      d'.rawSoFar.slots.length = d.rawSoFar.slots.length + op.reserved := by
  -- A field or another schema id leaves the raw section as it is.
  have hsame : d'.raw = d.raw → d'.rawSoFar.Accounted (filled ++ []) ∧
      d'.rawSoFar.slots.length = d.rawSoFar.slots.length + 0 := by
    intro hraw
    rw [Draft.rawSoFar, hraw, List.append_nil]
    exact ⟨h, rfl⟩
  have hfield : ∀ {id fold y}, Gives (field start id fold y d) st d' st' → d'.raw = d.raw := by
    intro id fold y hc
    obtain ⟨-, -, w, -, rfl⟩ := gives_field hc
    rfl
  cases op with
  | raw ops =>
    -- The group counts its places from those that there were before it.
    obtain ⟨made, hmade, rfl⟩ := gives_raw.mp hc
    exact rawCalls_accounted h hmade
  | setSchemaId id =>
    obtain ⟨rfl, -⟩ := (gives_pure ..).mp hc
    exact hsame rfl
  | schema =>
    obtain ⟨rfl, -⟩ := (gives_pure ..).mp hc
    exact hsame rfl
  | session _ => exact (gives_failure _ _ _ hc).elim
  | attempt _ => exact (gives_failure _ _ _ hc).elim
  | _ => exact hsame (hfield hc)

/-- A place may be filled in by any call after the one that left it open, not only within its group. -/
theorem calls_accounted {start : Nat} {ops : List ObjectOp} {d d' : Draft} {filled : List Nat}
    {st st' : Progress} (h : d.rawSoFar.Accounted filled)
    (hc : Gives (calls r rec start d ops) st d' st') :
    d'.rawSoFar.Accounted (filled ++ ObjectOp.filledBy d.rawSoFar.slots.length ops) ∧
      d'.rawSoFar.slots.length = d.rawSoFar.slots.length + ObjectOp.reservedBy ops := by
  -- Places are never given back, so the number of them tells where each call counts from.
  induction ops generalizing filled d st with
  | nil =>
    obtain ⟨rfl, -⟩ := (gives_pure ..).mp hc
    exact ⟨by rwa [ObjectOp.filledBy, List.append_nil], rfl⟩
  | cons op ops ih =>
    obtain ⟨d₁, st₁, hop, hops⟩ := (gives_bind ..).mp hc
    obtain ⟨h₁, hlen₁⟩ := call_accounted h hop
    obtain ⟨h₂, hlen₂⟩ := ih h₁ hops
    constructor
    · rwa [ObjectOp.filledBy, ← List.append_assoc, ← hlen₁]
    · rw [hlen₂, hlen₁, ObjectOp.reservedBy, Nat.add_assoc]

/-- Calls that fill in all places they leave open leave no cell open. -/
theorem calls_closed {start : Nat} {ops : List ObjectOp} {d : Draft} {st st' : Progress}
    (hops : ObjectOp.fillsAll ops = true) (hc : Gives (calls r rec start {} ops) st d st') :
    d.isClosed = true := by
  have hstart : (Draft.rawSoFar {}).Accounted [] := .empty
  obtain ⟨h, hlen⟩ := calls_accounted hstart hc
  -- An open cell would belong to a place that no call fills in.
  rw [Draft.isClosed, decide_eq_true_iff]
  intro hmem
  obtain ⟨i, hi⟩ := List.getElem?_of_mem hmem
  obtain ⟨slot, offset, hs, -, -, hopen⟩ := h.slot i hi
  have hslot : slot < ObjectOp.reservedBy ops := by
    have hlt := (List.getElem?_eq_some_iff.mp hs).1
    rw [hlen] at hlt
    simpa [Draft.rawSoFar] using hlt
  rw [ObjectOp.fillsAll, List.all_eq_true] at hops
  exact hopen (of_decide_eq_true (hops slot (List.mem_range.mpr hslot)))

-- A later group of calls may fill in a place of an earlier one, but `fill` counts from its own group on.
example : ObjectOp.fillsAll [.raw [.reserve, .u8 1], .schema, .raw [.fillEarlier 0 5]] = true ∧
    ObjectOp.fillsAll [.raw [.reserve], .raw [.reserve, .fill 0 5]] = false := by decide

end

end Image

end ObjectWire
