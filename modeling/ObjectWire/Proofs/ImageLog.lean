import ObjectWire.Proofs.ImageSpan
import ObjectWire.Proofs.Regular
import ObjectWire.Proofs.Wire.Reads

/-!
# What the log of an image says

The log of an image keeps how each node was met.  `Linked` says that nodes stand in full at most once
and that references back lead to where their node stands in full, each within its own log.  `Met` says
what happens to the log while a part of an image is worked out: the new lines are linked to the old ones,
no two of them belong to one place, every one is shown by the bytes of the part, and every reference in
the part has its line.
-/

namespace ObjectWire

open Reader

/-- The tag of a node that is tracked. -/
def Node.tag? : Node → Option Tag
  | .object _ => some .object
  | .array _ _ => some .objectArray
  | .collection _ _ => some .collection
  | .map _ _ => some .map
  | .proxy _ _ => none

mutual

/-- The references back in a tree, each with its own place and the place that it leads to. -/
def Wire.references : Wire → List (Nat × Nat)
  | .atom (.handle place target) => [(place, target)]
  | .atom _ => []
  | .list _ items => Wire.itemReferences items
  | .object _ _ _ fields _ => Wire.fieldReferences fields

/-- The references back in the values of a list. -/
def Wire.itemReferences : List Wire → List (Nat × Nat)
  | [] => []
  | item :: items => item.references ++ Wire.itemReferences items

/-- The references back in the values of fields. -/
def Wire.fieldReferences : List (FieldAt Wire) → List (Nat × Nat)
  | [] => []
  | ⟨_, _, _, value⟩ :: fields => value.references ++ Wire.fieldReferences fields

end

/-- Of the values without others inside only a reference back is one. -/
theorem Wire.references_atom {a : Atom} (h : a.isHandle = false) : (Wire.atom a).references = [] := by
  cases a with
  | handle place target => cases h
  | _ => rfl

namespace Image

/-- Every node stands in full at most once, and a reference back leads to the place where its node stands
    in full before.  A detached value has nothing to do with the nodes around it. -/
inductive Linked : List Occurrence → Prop where
  | nil : Linked []
  | full {log : List Occurrence} {node : NodeId} {place : Nat} (new : placeOf node log = none)
    (rest : Linked log) : Linked (.full node place :: log)
  | back {log : List Occurrence} {node : NodeId} {place target : Nat}
    (known : placeOf node log = some target) (rest : Linked log) :
    Linked (.back node place target :: log)
  | replaced {log : List Occurrence} {node : NodeId} {place : Nat} (rest : Linked log) :
    Linked (.replaced node place :: log)
  | detached {log inner : List Occurrence} (inside : Linked inner) (rest : Linked log) :
    Linked (.detached inner :: log)

mutual

/-- What was met in one line of a log. -/
def Occurrence.all : Occurrence → List Occurrence
  | .detached inner => allOf inner
  | .full node place => [.full node place]
  | .back node place target => [.back node place target]
  | .replaced node place => [.replaced node place]

/-- Everything that was met, in a log and in those of detached values, the latest first. -/
def allOf : List Occurrence → List Occurrence
  | [] => []
  | o :: log => o.all ++ allOf log

end

/-- The lines of a log are those of its parts, with all that is inside them. -/
theorem allOf_append (log log' : List Occurrence) : allOf (log ++ log') = allOf log ++ allOf log' := by
  induction log with
  | nil => rfl
  | cons o log ih => rw [List.cons_append, allOf, ih, allOf, List.append_assoc]

/-- The place at which an occurrence put its bytes. -/
def Occurrence.place? : Occurrence → Option Nat
  | .full _ place | .back _ place _ => some place
  | .replaced _ _ | .detached _ => none

/-- The places of everything that was met. -/
def placesOf (log : List Occurrence) : List Nat := (allOf log).filterMap Occurrence.place?

/-- So are the places of the nodes in full. -/
theorem placesOf_append (log log' : List Occurrence) :
    placesOf (log ++ log') = placesOf log ++ placesOf log' := by
  rw [placesOf, allOf_append, List.filterMap_append]
  rfl

/-- The bytes have at the place of the occurrence what the occurrence says: the tag of a node in full, or
    a reference over the distance to its target, which is never zero.  Only an object that has a
    replacement is replaced. -/
def Occurrence.Shown (bs : Bytes) (g : Graph) : Occurrence → Prop
  | .full node place => ∃ n tag, g.node? node = some n ∧ n.tag? = some tag ∧ Holds bs place [tag.code]
  | .back _ place target => ∃ delta : Int32, 0 < delta ∧ delta.toInt = (place : Int) - target ∧
      Holds bs place (Tag.handle.code :: Word.bytes delta)
  | .replaced node _ => ∃ o, g.object? node = some o ∧ o.replacement.isSome = true
  | .detached _ => True

/-- What is shown stays so when nodes are added to the graph. -/
theorem Occurrence.Shown.mono {bs : Bytes} {g g' : Graph} {o : Occurrence} (h : o.Shown bs g)
    (hg : g.Extends g') : o.Shown bs g' := by
  cases o with
  | full node place =>
    obtain ⟨n, tag, hn, htag, hbytes⟩ := h
    exact ⟨n, tag, hg _ _ hn, htag, hbytes⟩
  | replaced node place =>
    obtain ⟨o, ho, hsome⟩ := h
    exact ⟨o, Graph.object?_of_node? (hg _ _ (Graph.object?_eq_some ho)), hsome⟩
  | _ => exact h

/-- A log is sound at a place if it is linked and all its nodes in full stand before that place. -/
structure Sound (place : Nat) (log : List Occurrence) : Prop where
  linked : Linked log
  before : ∀ node p, placeOf node log = some p → p < place

/-- Where no node has been met, nothing can be wrong. -/
theorem Sound.empty (place : Nat) : Sound place [] where
  linked := .nil
  before node p hp := by cases hp

/-- A log stays sound as the write goes on. -/
theorem Sound.mono {place place' : Nat} {log : List Occurrence} (h : Sound place log)
    (hle : place ≤ place') : Sound place' log :=
  ⟨h.linked, fun node p hp => Nat.lt_of_lt_of_le (h.before node p hp) hle⟩

/-- The lines that were added to a log between two states, all of them at `first` or behind it.  Bytes for
    which `shows` holds show them, and the references `refs` are among them. -/
structure Added (shows : Bytes → Prop) (refs : List (Nat × Nat)) (first : Nat) (st st' : Progress)
    (new : List Occurrence) : Prop where
  sound : Sound st'.place st'.log
  log : st'.log = new ++ st.log
  graph : st.graph.Extends st'.graph
  le : first ≤ st'.place
  ordered : (placesOf new).Pairwise (· > ·)
  inside : ∀ p ∈ placesOf new, first ≤ p ∧ p < st'.place
  shown : ∀ bs, shows bs → ∀ o ∈ allOf new, o.Shown bs st'.graph
  refs : ∀ ref ∈ refs, ∃ node, .back node ref.1 ref.2 ∈ allOf new

/-- Lines were added to the log between two states. -/
def Met (shows : Bytes → Prop) (refs : List (Nat × Nat)) (first : Nat) (st st' : Progress) : Prop :=
  ∃ new, Added shows refs first st st' new

namespace Met

variable {shows : Bytes → Prop} {refs : List (Nat × Nat)} {first : Nat} {st st₁ st' : Progress}

/-- A step that is met leaves a sound log. -/
theorem sound (h : Met shows refs first st st') : Sound st'.place st'.log := by
  obtain ⟨new, h⟩ := h
  exact h.sound

/-- It takes no node away. -/
theorem graph (h : Met shows refs first st st') : st.graph.Extends st'.graph := by
  obtain ⟨new, h⟩ := h
  exact h.graph

/-- Nothing was met. -/
theorem nothing (h : Sound st'.place st.log) (hlog : st'.log = st.log) (hgraph : st'.graph = st.graph)
    (hle : first ≤ st'.place) : Met shows [] first st st' := by
  refine ⟨[], ?_⟩
  constructor
  · exact hlog ▸ h
  · exact hlog
  · exact hgraph ▸ .refl _
  · exact hle
  · exact .nil
  · simp [placesOf, allOf]
  · simp [allOf]
  · simp

/-- One thing was met after the other. -/
theorem trans {shows₁ shows₂ : Bytes → Prop} {refs₁ refs₂ : List (Nat × Nat)}
    (h₁ : Met shows₁ refs₁ first st st₁) (h₂ : Met shows₂ refs₂ st₁.place st₁ st')
    (hs₁ : ∀ bs, shows bs → shows₁ bs) (hs₂ : ∀ bs, shows bs → shows₂ bs) :
    Met shows (refs₁ ++ refs₂) first st st' := by
  obtain ⟨new₁, h₁⟩ := h₁
  obtain ⟨new₂, h₂⟩ := h₂
  have hle₁ := h₁.le
  have hle₂ := h₂.le
  refine ⟨new₂ ++ new₁, ?_⟩
  constructor
  · exact h₂.sound
  · rw [h₂.log, h₁.log, List.append_assoc]
  · exact h₁.graph.trans h₂.graph
  · omega
  · -- What was met later stands behind what was met before.
    rw [placesOf_append, List.pairwise_append]
    refine ⟨h₂.ordered, h₁.ordered, fun p hp q hq => ?_⟩
    have hp := h₂.inside p hp
    have hq := h₁.inside q hq
    show q < p
    omega
  · intro p hp
    rw [placesOf_append, List.mem_append] at hp
    rcases hp with hp | hp
    · have := h₂.inside p hp
      omega
    · have := h₁.inside p hp
      omega
  · -- Nodes that the second part brings take nothing away from what the first one showed.
    intro bs hbs o ho
    rw [allOf_append, List.mem_append] at ho
    rcases ho with ho | ho
    · exact h₂.shown bs (hs₂ bs hbs) o ho
    · exact (h₁.shown bs (hs₁ bs hbs) o ho).mono h₂.graph
  · intro ref href
    rw [allOf_append]
    rcases List.mem_append.mp href with href | href
    · obtain ⟨node, hnode⟩ := h₁.refs ref href
      exact ⟨node, List.mem_append_right _ hnode⟩
    · obtain ⟨node, hnode⟩ := h₂.refs ref href
      exact ⟨node, List.mem_append_left _ hnode⟩

/-- Other bytes may show the same, fewer references be asked for, and the first place lie further ahead. -/
theorem weaken {shows' : Bytes → Prop} {refs' : List (Nat × Nat)} {first' : Nat}
    (h : Met shows refs first st st') (hs : ∀ bs, shows' bs → shows bs) (hrefs : refs' ⊆ refs)
    (hfirst : first' ≤ first) : Met shows' refs' first' st st' := by
  obtain ⟨new, h⟩ := h
  have hle := h.le
  refine ⟨new, h.sound, h.log, h.graph, by omega, h.ordered, fun p hp => ?_,
    fun bs hbs => h.shown bs (hs bs hbs), fun ref href => h.refs ref (hrefs href)⟩
  have := h.inside p hp
  omega

/-- It is of no account at which place the log was before. -/
theorem moved {place : Nat} (h : Met shows refs first { st with place } st') :
    Met shows refs first st st' := by
  obtain ⟨new, h⟩ := h
  exact ⟨new, h.sound, h.log, h.graph, h.le, h.ordered, h.inside, h.shown, h.refs⟩

/-- A line that stands before all others. -/
theorem noted {o : Occurrence} (hordered : (placesOf [o]).Pairwise (· > ·))
    (hplaces : ∀ p ∈ placesOf [o], st.place ≤ p ∧ p < first) (hfirst : st.place ≤ first)
    (h : Met shows refs first { st with log := o :: st.log } st')
    (hshown : ∀ bs, shows bs → ∀ o' ∈ allOf [o], o'.Shown bs st'.graph) :
    Met shows refs st.place st st' := by
  obtain ⟨new, h⟩ := h
  have hle := h.le
  refine ⟨new ++ [o], ?_⟩
  constructor
  · exact h.sound
  · rw [h.log, List.append_assoc]
    rfl
  · exact h.graph
  · omega
  · -- The line stands before the place where the others begin.
    rw [placesOf_append, List.pairwise_append]
    refine ⟨h.ordered, hordered, fun p hp q hq => ?_⟩
    have := h.inside p hp
    have := hplaces q hq
    show q < p
    omega
  · intro p hp
    rw [placesOf_append, List.mem_append] at hp
    rcases hp with hp | hp
    · have := h.inside p hp
      omega
    · have := hplaces p hp
      omega
  · intro bs hbs o' ho'
    rw [allOf_append, List.mem_append] at ho'
    rcases ho' with ho' | ho'
    · exact h.shown bs hbs o' ho'
    · exact hshown bs hbs o' ho'
  · intro ref href
    obtain ⟨node, hnode⟩ := h.refs ref href
    rw [allOf_append]
    exact ⟨node, List.mem_append_left _ hnode⟩

/-- What a detached value met makes one line. -/
theorem detached {log : List Occurrence} (hlog : Sound first log)
    (h : Met shows refs first { st with log := [] } st') :
    Met shows refs first { st with log } { st' with log := .detached st'.log :: log } := by
  obtain ⟨new, h⟩ := h
  -- The log of the value itself began empty.
  have hnew : st'.log = new := h.log.trans (List.append_nil new)
  have hall : allOf [.detached st'.log] = allOf new := by
    rw [hnew, allOf, Occurrence.all, allOf, List.append_nil]
  refine ⟨[.detached st'.log], ?_⟩
  constructor
  · -- The nodes around it stand before it, and it ends no earlier than it began.
    refine ⟨.detached h.sound.linked hlog.linked, fun node p hp => ?_⟩
    have hle := h.le
    have hbefore := hlog.before node p hp
    show p < st'.place
    omega
  · rfl
  · exact h.graph
  · exact h.le
  · rw [placesOf, hall]
    exact h.ordered
  · rw [placesOf, hall]
    exact h.inside
  · rw [hall]
    exact h.shown
  · rw [hall]
    exact h.refs

end Met

end Image

end ObjectWire
