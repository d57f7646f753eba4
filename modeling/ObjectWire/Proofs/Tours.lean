import ObjectWire.Proofs.SideBySide

/-!
# Tours

A tour is a write that notes in the journal each node whose body it enters, where it enters it.  Apart from
the journal it is the write itself, and so its notes tell how a write goes through a graph: it enters the
body of no node twice, and it enters the bodies of just those nodes that it records
(`WriteM.tourDepth_once`).
-/

namespace ObjectWire

open ObjectWire.Action

/-- The nodes that were entered, the latest first. -/
def Journal.entered (journal : Journal) : List NodeId :=
  journal.filterMap fun
    | .entered node _ _ => some node
    | _ => none

namespace WriteM

/-- Enters the body of a node, with a note of it. -/
def entering (node : NodeId) (body : WriteM Unit) : WriteM Unit := do
  note (.entered node (← position) unregisteredTypeId)
  body

/-- Writes a value nested down to some depth, and notes the nodes on the way. -/
def tourDepth : (depth : Nat) → Value → WriteM Unit
  | 0, _ => Action.stop .tooDeep
  | depth + 1, .ref node => do
    match ← Action.read (·.graph.node? node) with
    | some n => markedNode (entering node) (tourDepth depth) node n
    | none => Action.stop .outOfRange
  | depth + 1, v => writeWith (tourDepth depth) v

/-- Writes a value, and notes the nodes on the way. -/
def tourValue (v : Value) : WriteM Unit := fun s => tourDepth (depthOn s.tape) v s

end WriteM

/-- Where the nodes seen at first are these and the nodes seen by now are those, the journal has a note of
    each node that has come to be seen, and no more than one. -/
structure Journal.Tours (first now : NodeId → Option Nat) (journal : Journal) : Prop where
  once : journal.entered.Nodup
  mem : ∀ node, node ∈ journal.entered ↔ first node = none ∧ now node ≠ none
  kept : ∀ node, first node ≠ none → now node ≠ none

namespace Journal.Tours

/-- Nothing was entered before the first write. -/
theorem start (seen : NodeId → Option Nat) : Tours seen seen [] :=
  ⟨.nil, fun _ => ⟨nofun, fun h => absurd h.1 h.2⟩, fun _ => id⟩

/-- A node that is seen only now had no note. -/
theorem enter {first now : NodeId → Option Nat} {journal : Journal} (h : Tours first now journal)
    {node : NodeId} (hnew : now node = none) (position start : Nat) (typeId : Int32) :
    Tours first (fun other => if node = other then some position else now other)
      (.entered node start typeId :: journal) where
  once := List.nodup_cons.mpr ⟨fun hmem => ((h.mem node).mp hmem).2 hnew, h.once⟩
  mem other := by
    have hcons : other ∈ Journal.entered (.entered node start typeId :: journal) ↔
        other = node ∨ other ∈ journal.entered := List.mem_cons
    -- The node is in the journal now and recorded now; for any other one nothing changed.
    by_cases heq : node = other
    · subst heq
      have hfirst : first node = none := of_not_not fun hne => h.kept node hne hnew
      simp [hcons, hfirst]
    · have hne : other ≠ node := fun h => heq h.symm
      simp [hcons, hne, heq, h.mem other]
  kept other hne := by
    split
    · exact Option.some_ne_none _
    · exact h.kept other hne

end Journal.Tours

/-- Over one service all answers agree. -/
theorem TypeService.mirrored_eq (E : Stop → Prop) : Mirrored E fun a b => b = a where
  static h := by rw [h]
  resolve name kind failIfUnregistered := by
    intro a b h
    subst h
    exact .inr ⟨rfl, rfl⟩
  fieldId h _ _ := .inl (by rw [h])
  learn h _ _ _ := by rw [h]

/-- A write beside its tour: the sessions differ in their journals only. -/
def touring (g : Graph) (seen : NodeId → Option Nat) : Pairing where
  graph := g
  service a b := b = a
  rest now a b := b.1 = a.1 ∧ b.2.Tours seen now

namespace WriteM

open Session

variable {E : Stop → Prop} {g : Graph} {seen : NodeId → Option Nat}

/-- A node is entered where it was recorded. -/
theorem mirrors_entering {node : NodeId} {x y : WriteM Unit}
    (hxy : Mirrors E (Beside (touring g seen)) x y) ⦃s t : Session⦄ (h : s.Beside (touring g seen) t)
    (hnew : s.handles.find? node = none) :
    Matches E (Beside (touring g seen)) (x (recorded node s)) (entering node y (recorded node t)) := by
  obtain ⟨service, graph, journal, rfl⟩ := h.others
  have hnow : (recorded node s).handles.find? = fun other =>
      if node = other then some s.tape.cursor else s.handles.find? other := by
    funext other
    rw [recorded, HandleTable.find?_put_snd, hnew, Option.getD_none]
  have htours := h.rest.2.enter hnew s.tape.cursor s.tape.cursor unregisteredTypeId
  exact hxy ⟨rfl, h.service, h.first, h.second, h.rest.1, hnow ▸ htours⟩

/-- A tour is the write itself but for its notes. -/
theorem mirrors_tourDepth (hdynamic : g.Dynamic) (hclosed : g.Closed) {depth : Nat} {v : Value}
    (hv : g.Has v) :
    Mirrors E (Beside (touring g seen)) (writeDepth depth v) (tourDepth depth v) := by
  have hV := TypeService.mirrored_eq E
  -- By induction on the depth: the notes of the values inside come behind that of the node.
  induction depth generalizing v with
  | zero => exact .stop _
  | succ depth ih =>
    cases v with
    | ref node =>
      obtain ⟨n, hn⟩ := hv.node?
      have hnode : Mirrors E (Beside (touring g seen)) (writeNode (writeDepth depth) node n)
          (markedNode (entering node) (tourDepth depth) node n) :=
        mirrors_markedNode hV hdynamic hn mirrors_entering fun w hw => ih (hclosed.values hn w hw)
      exact mirrors_ref hn hnode
    | _ => exact mirrors_leaf hV nofun

/-- A tour ends as the write does, with the same session but for the journal.  It enters each node once
    at the most, and it enters the nodes that come to be recorded. -/
theorem tourDepth_once {s : Session} (hdynamic : s.graph.Dynamic) (hclosed : s.graph.Closed) (depth : Nat)
    {v : Value} (hv : s.graph.Has v) :
    let tour := tourDepth depth v { s with journal := [] }
    tour.1 = (writeDepth depth v s).1 ∧
      tour.2 = { (writeDepth depth v s).2 with journal := tour.2.journal } ∧
      tour.2.journal.Tours s.handles.find? tour.2.handles.find? := by
  intro tour
  have hstart : s.Beside (touring s.graph s.handles.find?) { s with journal := [] } :=
    ⟨rfl, rfl, .refl _, .refl _, rfl, .start _⟩
  -- The tour beside the write, with what was recorded before and an empty journal.
  have htour : Matches (fun _ => False) (Beside (touring s.graph s.handles.find?)) (writeDepth depth v s)
      tour := mirrors_tourDepth hdynamic hclosed hv hstart
  generalize writeDepth depth v s = run at htour ⊢
  generalize tour = tour at htour ⊢
  obtain ⟨_, s₁⟩ := run
  obtain ⟨_, t₁⟩ := tour
  obtain ⟨_, -, hfalse⟩ | ⟨hresult, h⟩ := htour
  · exact hfalse.elim
  · obtain ⟨service, graph, journal, rfl⟩ := h.others
    obtain rfl : service = s₁.service := h.service
    obtain rfl : graph = s₁.graph := h.rest.1
    exact ⟨hresult, rfl, h.rest.2⟩

end WriteM

end ObjectWire
