import Mathlib.Data.Finset.Card
import Mathlib.Data.Finset.Range
import Mathlib.Logic.Relation
import ObjectWire.Proofs.Tours
import ObjectWire.Proofs.WriteInRange

/-!
# Cycles

Nodes may refer to one another in rings, and writing one follows all references.  That a write comes to an
end all the same has two reasons.  A node is recorded before its values are written, so there are fewer
nodes not yet seen wherever a body is entered; and a proxy, which is written anew each time, holds only
what was there before it (`Graph.Buildable`), so proxies on the way to the next body come to an end as well.
The number of unseen nodes and the nesting of a value are the measure that `deepEnough_writeDepth` goes by.
-/

namespace ObjectWire

open ObjectWire.Action

namespace Graph

/-- The first node is a container or a proxy, and the second one is among its values. -/
def Holds (g : Graph) (a b : NodeId) : Prop :=
  ∃ n, g.node? a = some n ∧ (∀ o, n ≠ .object o) ∧ .ref b ∈ n.values

/-- Containers and proxies do not change once they are built, so none of them is held by what it holds:
    every ring of references goes through a field of an object. -/
def Buildable (g : Graph) : Prop := ∀ id, ¬ Relation.TransGen g.Holds id id

/-- Nodes can be built one after the other if all that containers and proxies hold comes before them. -/
theorem Buildable.of_rank {g : Graph} (rank : NodeId → Nat) (hrank : ∀ a b, g.Holds a b → rank b < rank a) :
    g.Buildable := by
  intro id hring
  have hlower : ∀ {a b}, Relation.TransGen g.Holds a b → rank b < rank a := by
    intro a b hpath
    induction hpath with
    | single hab => exact hrank _ _ hab
    | tail _ hbc ih => exact Nat.lt_trans (hrank _ _ hbc) ih
  exact Nat.lt_irrefl _ (hlower hring)

open Classical in
/-- What a node holds, and what that holds in turn. -/
noncomputable def held (g : Graph) (id : NodeId) : Finset NodeId :=
  (Finset.range g.size).filter (Relation.TransGen g.Holds id)

/-- A node holds the containers and proxies that can be reached from it without entering a body. -/
theorem mem_held {g : Graph} {a b : NodeId} :
    b ∈ g.held a ↔ b < g.size ∧ Relation.TransGen g.Holds a b := by
  simp only [held, Finset.mem_filter, Finset.mem_range]

/-- How deep a value is nested at the most before the next object. -/
noncomputable def nesting (g : Graph) : Value → Nat
  | .ref id => (g.held id).card + 1
  | _ => 0

/-- Nothing is nested deeper than there are nodes in the graph. -/
theorem nesting_le (g : Graph) (v : Value) : g.nesting v ≤ g.size + 1 := by
  cases v with
  | ref id =>
    have hcard : (g.held id).card ≤ (Finset.range g.size).card :=
      Finset.card_le_card fun _ hmem => Finset.mem_range.mpr (mem_held.mp hmem).1
    rw [Finset.card_range] at hcard
    exact Nat.succ_le_succ hcard
  | _ => exact Nat.zero_le _

/-- What a container or a proxy holds is nested less deep. -/
theorem Buildable.nesting_lt {g : Graph} (h : g.Buildable) {a : NodeId} {n : Node} (hn : g.node? a = some n)
    (hobject : ∀ o, n ≠ .object o) {v : Value} (hmem : v ∈ n.values) (hv : g.Has v) :
    g.nesting v < g.nesting (.ref a) := by
  cases v with
  | ref b =>
    have hholds : g.Holds a b := ⟨n, hn, hobject, hmem⟩
    -- All that the inner node holds the outer one holds, and the inner node itself besides.
    have hsubset : g.held b ⊆ g.held a := by
      intro c hc
      obtain ⟨hsize, hpath⟩ := mem_held.mp hc
      exact mem_held.mpr ⟨hsize, .head hholds hpath⟩
    have hself : b ∈ g.held a := mem_held.mpr ⟨hv, .single hholds⟩
    have hring : b ∉ g.held b := fun hmem => h b (mem_held.mp hmem).2
    have hproper : g.held b ⊂ g.held a := (Finset.ssubset_iff_of_subset hsubset).mpr ⟨b, hself, hring⟩
    exact Nat.succ_lt_succ (Finset.card_lt_card hproper)
  | _ => exact Nat.succ_pos _

/-- Levels that are enough for every write of a value of the graph. -/
def levels (g : Graph) : Nat := (g.size + 1) * (g.size + 2)

end Graph

namespace Session

/-- The nodes of a graph that were not written so far. -/
def unseen (g : Graph) (s : Session) : Finset NodeId :=
  (Finset.range g.size).filter fun id => s.handles.find? id = none

/-- A node once seen stays so, and the unseen ones become no more. -/
theorem unseen_onward {g : Graph} {place : Nat} {s s' : Session} (h : s.Onward place s') :
    (s'.unseen g).card ≤ (s.unseen g).card := by
  refine Finset.card_le_card fun id hid => ?_
  obtain ⟨hrange, hnone⟩ := Finset.mem_filter.mp hid
  refine Finset.mem_filter.mpr ⟨hrange, Option.eq_none_iff_forall_ne_some.mpr fun first hfind => ?_⟩
  cases (h.seen id first hfind).symm.trans hnone

/-- A node that is recorded is seen from then on. -/
theorem unseen_recorded {g : Graph} {node : NodeId} {s s' : Session} (hnode : node < g.size)
    (h : (WriteM.writeHandle node).Yields s false s') : (s'.unseen g).card < (s.unseen g).card := by
  obtain ⟨hnone, -, rfl⟩ | ⟨_, -, hfalse, -⟩ := WriteM.writeHandle_cases h
  · have hsubset : (WriteM.recorded node s).unseen g ⊆ s.unseen g := by
      intro id hid
      obtain ⟨hrange, hunseen⟩ := Finset.mem_filter.mp hid
      rw [WriteM.recorded, HandleTable.find?_put_snd] at hunseen
      split at hunseen
      · cases hunseen
      · exact Finset.mem_filter.mpr ⟨hrange, hunseen⟩
    -- The node itself is what the smaller set lacks.
    have hbefore : node ∈ s.unseen g := Finset.mem_filter.mpr ⟨Finset.mem_range.mpr hnode, hnone⟩
    have hafter : node ∉ (WriteM.recorded node s).unseen g := by
      intro hmem
      have hunseen := (Finset.mem_filter.mp hmem).2
      rw [WriteM.recorded, HandleTable.find?_put_snd, if_pos rfl] at hunseen
      cases hunseen
    exact Finset.card_lt_card ((Finset.ssubset_iff_of_subset hsubset).mpr ⟨node, hbefore, hafter⟩)
  · cases hfalse

end Session

namespace WriteM

open Session

/-- A write with as many levels as its measure asks for does not reach the last one, by induction on the
    levels: behind each body fewer nodes are unseen, and behind each proxy the nesting is less deep. -/
theorem deepEnough_writeDepth {g : Graph} (hdynamic : g.Dynamic) (hclosed : g.Closed)
    (hbuildable : g.Buildable) {depth : Nat} {v : Value} {s : Session} (hv : g.Has v)
    (hs : g.Extends s.graph) (hdepth : (s.unseen g).card * (g.size + 2) + g.nesting v < depth) :
    (writeDepth depth v).StopsFor (· ≠ .tooDeep) s := by
  have hlocal : ∀ e : Stop, e.IsLocal → e ≠ .tooDeep := by
    intro e he htoo
    subst htoo
    exact he
  -- Unseen nodes and nesting together: a node that is entered is unseen no more, and a proxy nests less.
  induction depth generalizing v s with
  | zero => exact absurd hdepth (Nat.not_lt_zero _)
  | succ depth ih =>
    refine stopsFor_writeWith hlocal fun node hnode => ?_
    subst hnode
    obtain ⟨n, hn⟩ := hv.node?
    refine ⟨n, hs node n hn, ?_⟩
    have hvalues := hclosed.values hn
    let P (s' : Session) : Prop := g.Extends s'.graph ∧ (s'.unseen g).card ≤ (s.unseen g).card
    let Q (s' : Session) : Prop := g.Extends s'.graph ∧ (s'.unseen g).card < (s.unseen g).card
    have hP : ∀ {s₁ s₂ : Session}, P s₁ → s₁.Onward 0 s₂ → P s₂ := fun h honward =>
      ⟨h.1.trans honward.graph, Nat.le_trans (unseen_onward honward) h.2⟩
    have hQ : ∀ {s₁ s₂ : Session}, Q s₁ → s₁.Onward 0 s₂ → Q s₂ := fun h honward =>
      ⟨h.1.trans honward.graph, Nat.lt_of_le_of_lt (unseen_onward honward) h.2⟩
    refine stopsFor_writeNode (P := P) (Q := Q) hlocal (keeps_writeDepth depth) hP hQ ⟨hs, Nat.le_refl _⟩
      (fun o ho => hdynamic node o (ho ▸ hn)) ?_ ?_ ?_ ?_
    · intro s₁ s₂ h hrecord
      have hrecorded : s₁.Keeps s₂ := (keeps_writeHandle node).of_yields hrecord
      exact ⟨h.1.trans hrecorded.graph, Nat.lt_of_lt_of_le (unseen_recorded hv hrecord) h.2⟩
    · exact fun _ _ _ _ _ _ _ _ _ _ _ _ => nofun
    · -- A proxy is not recorded, but the value inside it is nested less deeply.
      intro interfaces handler hproxy s₁ h
      subst hproxy
      have hmem : handler ∈ (Node.proxy interfaces handler).values := List.mem_singleton_self _
      have hlt := hbuildable.nesting_lt hn nofun hmem (hvalues handler hmem)
      have hunseen := Nat.mul_le_mul_right (g.size + 2) h.2
      exact ih (hvalues handler hmem) h.1 (by omega)
    · -- One unseen node less makes room for the deepest nesting there can be.
      intro w hmem s₁ h
      have hnesting := g.nesting_le w
      have hunseen := Nat.mul_le_mul_right (g.size + 2) (Nat.succ_le_of_lt h.2)
      rw [Nat.succ_mul] at hunseen
      exact ih (hvalues w hmem) h.1 (by omega)

/-- The levels of the graph are enough. -/
theorem writeDepth_ne_tooDeep {v : Value} {s : Session} (hdynamic : s.graph.Dynamic)
    (hclosed : s.graph.Closed) (hbuildable : s.graph.Buildable) (hv : s.graph.Has v) :
    (writeDepth s.graph.levels v s).1 ≠ .error .tooDeep := by
  have hdepth : (s.unseen s.graph).card * (s.graph.size + 2) + s.graph.nesting v < s.graph.levels := by
    have hunseen : (s.unseen s.graph).card ≤ s.graph.size :=
      (Finset.card_filter_le _ _).trans_eq (Finset.card_range _)
    have hproduct := Nat.mul_le_mul_right (s.graph.size + 2) hunseen
    have hnesting := s.graph.nesting_le v
    rw [Graph.levels, Nat.succ_mul]
    omega
  intro hdeep
  exact deepEnough_writeDepth hdynamic hclosed hbuildable hv (.refl _) hdepth _ _ (Prod.ext hdeep rfl) rfl

/-- A write that does not reach its last level does not depend on how many levels there are. -/
theorem writeDepth_deeper {v : Value} {s : Session} (hdynamic : s.graph.Dynamic) (hclosed : s.graph.Closed)
    (hv : s.graph.Has v) {depth depth' : Nat} (hle : depth ≤ depth')
    (hdeep : (writeDepth depth v s).1 ≠ .error .tooDeep) :
    writeDepth depth' v s = writeDepth depth v s := by
  -- The write beside itself, the second time with more levels: only for want of levels may they part.
  let P : Pairing := ⟨s.graph, fun a b => b = a, fun _ a b => b = a⟩
  have hsame : s.Beside P s := ⟨rfl, rfl, .refl _, .refl _, rfl⟩
  have hmatches : Matches (Eq .tooDeep) (Beside P) (writeDepth depth v s) (writeDepth depth' v s) :=
    mirrors_writeDepth (TypeService.mirrored_eq _) hdynamic hclosed id (.inr ⟨hle, rfl⟩) hv hsame
  obtain ⟨e, he, rfl⟩ | ⟨hresult, hafter⟩ := hmatches
  · exact absurd he hdeep
  · refine Prod.ext hresult ?_
    generalize (writeDepth depth v s).2 = s₁ at hafter ⊢
    generalize (writeDepth depth' v s).2 = s₂ at hafter ⊢
    obtain ⟨service, graph, journal, rfl⟩ := hafter.others
    obtain rfl : service = s₁.service := hafter.service
    obtain ⟨rfl, rfl⟩ : graph = s₁.graph ∧ journal = s₁.journal := Prod.mk.inj hafter.rest
    rfl

end WriteM

/-- Over nodes that refer to one another in any way that can be built, every write comes to an end: with a
    value written or with an error that its caller is told.  The levels of the graph are enough for it, and
    more levels make no difference.  It enters the body of each object, array, collection and map once at
    the most, and just where it records the node; so a proxy whose handler leads back to an object that
    holds the proxy leads to a reference back. -/
theorem writeValue_ends {v : Value} {s : Session} (hdynamic : s.graph.Dynamic) (hclosed : s.graph.Closed)
    (hbuildable : s.graph.Buildable) (hv : s.graph.Has v) (hbehind : s.HandlesBehind)
    (hroom : s.tape.cursor ≤ s.tape.capacity) :
    ((WriteM.writeValue v s).1 = .ok () ∨
      ∃ cause, (WriteM.writeValue v s).1 = .error (.error cause)) ∧
    (∀ depth, s.graph.levels ≤ depth → WriteM.writeDepth depth v s = WriteM.writeValue v s) ∧
    let tour := WriteM.tourValue v { s with journal := [] }
    tour.1 = (WriteM.writeValue v s).1 ∧
      tour.2 = { (WriteM.writeValue v s).2 with journal := tour.2.journal } ∧
      tour.2.journal.entered.Nodup ∧
      ∀ node, node ∈ tour.2.journal.entered ↔
        s.handles.find? node = none ∧ tour.2.handles.find? node ≠ none := by
  have hends := WriteM.ends_writeValue hdynamic hclosed hv hbehind hroom
  refine ⟨?_, fun depth hle => ?_, ?_⟩
  · cases hresult : (WriteM.writeValue v s).1 with
    | ok u => exact .inl rfl
    | error e =>
      obtain ⟨cause, rfl, -⟩ := hends e hresult
      exact .inr ⟨cause, rfl⟩
  · have hgraph := WriteM.writeDepth_ne_tooDeep hdynamic hclosed hbuildable hv
    have htape : (WriteM.writeDepth (WriteM.depthOn s.tape) v s).1 ≠ .error .tooDeep := by
      intro hdeep
      obtain ⟨cause, hcause, -⟩ := hends _ hdeep
      cases hcause
    -- Both depths agree with the greater one.
    have hdepth := WriteM.writeDepth_deeper hdynamic hclosed hv hle hgraph
    obtain hle' | hle' := Nat.le_total s.graph.levels (WriteM.depthOn s.tape)
    · exact hdepth.trans (WriteM.writeDepth_deeper hdynamic hclosed hv hle' hgraph).symm
    · exact WriteM.writeDepth_deeper hdynamic hclosed hv (hle'.trans hle) htape
  · obtain ⟨hresult, hafter, htours⟩ :=
      WriteM.tourDepth_once hdynamic hclosed (WriteM.depthOn s.tape) hv
    exact ⟨hresult, hafter, htours.once, htours.mem⟩

/-- The proxy holds the object that was there before, and the collection holds both. -/
theorem ringWorld_buildable : ringWorld.graph.Buildable := by
  refine .of_rank (fun | 1 => 2 | 2 => 1 | _ => 0) fun a b hholds => ?_
  obtain ⟨n, hn, hobject, hmem⟩ := hholds
  match a with
  | 0 =>
    cases hn
    exact absurd rfl (hobject _)
  | 1 =>
    cases hn
    have hvalue : Value.ref b ∈ [.plain (.int 5), .ref 0, .ref 2] := hmem
    obtain rfl | rfl : b = 0 ∨ b = 2 := by simpa using hvalue
    · decide
    · decide
  | 2 =>
    cases hn
    obtain rfl : b = 0 := Value.ref.inj (List.mem_singleton.mp hmem)
    decide
  | _ + 3 => cases hn

/-- The ring of nodes is written to its end, with each body entered once. -/
theorem writeValue_ends_sample :
    let s := ringWorld.session (Tape.new .heap 16) {}
    let tour := WriteM.tourValue (.ref 0) { s with journal := [] }
    (∀ depth, 20 ≤ depth → WriteM.writeDepth depth (.ref 0) s = WriteM.writeValue (.ref 0) s) ∧
      tour.2.journal.entered = [1, 0] ∧ tour.2.handles.find? 1 ≠ none := by
  have hclosed : ringWorld.graph.Closed := by decide
  have hv : ringWorld.graph.Has (.ref 0) := by decide
  have hbehind : (ringWorld.session (Tape.new .heap 16) {}).HandlesBehind := fun _ _ h => nomatch h
  have hends := @writeValue_ends (.ref 0) (ringWorld.session (Tape.new .heap 16) {})
    ringWorld_dynamic hclosed ringWorld_buildable hv hbehind (Nat.zero_le _)
  obtain ⟨-, hlevels, -, -, -, hmem⟩ := hends
  refine ⟨hlevels, ?_, ?_⟩
  · decide +kernel
  · refine ((hmem 1).mp ?_).2
    decide +kernel

end ObjectWire
