import ObjectWire.Proofs.ObjectTrace
import ObjectWire.Proofs.RootImage

/-!
# References back

A write that starts without handles is a scope of its own: a root write, or a value that is detached
from what is around it.  Within a scope each tracked node is written in full once, every later reference to
it leads back to the tag it was written under, and the handles are the nodes written in full
(`writeDepth_references`).
-/

namespace ObjectWire

open ObjectWire.Action Image

namespace Image

/-- A node has its place because it was written in full there. -/
theorem mem_of_placeOf {node : NodeId} {place : Nat} {log : List Occurrence}
    (h : placeOf node log = some place) : .full node place ∈ log := by
  -- Only a full line tells the place of a node; the place told is that of the last such line.
  induction log with
  | nil => cases h
  | cons o log ih =>
    cases o with
    | full other p =>
      rw [placeOf_cons_full] at h
      split at h
      · next heq =>
        cases h
        exact heq ▸ List.mem_cons_self
      · exact List.mem_cons_of_mem _ (ih h)
    | back other p target => exact List.mem_cons_of_mem _ (ih h)
    | replaced other p => exact List.mem_cons_of_mem _ (ih h)
    | detached inner => exact List.mem_cons_of_mem _ (ih h)

/-- What a log has of its own is among all that was met. -/
theorem mem_allOf {o : Occurrence} {log : List Occurrence} (h : o ∈ log) (hall : o.all = [o]) :
    o ∈ allOf log := by
  induction log with
  | nil => cases h
  | cons o' log ih =>
    rw [allOf, List.mem_append]
    rcases List.mem_cons.mp h with rfl | h
    · exact .inl (hall ▸ List.mem_singleton.mpr rfl)
    · exact .inr (ih h)

/-- The references back of a scope are exact: they are linked to the nodes written in full, no two of the
    nodes and references have one place, and the bytes show all of them. -/
structure Exact (log : List Occurrence) (bs : Bytes) (g : Graph) : Prop where
  linked : Linked log
  apart : (placesOf log).Pairwise (· > ·)
  shown : ∀ o ∈ allOf log, o.Shown bs g

/-- A proxy is never recorded. -/
theorem Exact.placeOf_proxy {log : List Occurrence} {bs : Bytes} {g : Graph} (h : Exact log bs g)
    {node : NodeId} {interfaces : List String} {handler : Value}
    (hn : g.node? node = some (.proxy interfaces handler)) : placeOf node log = none := by
  cases hplace : placeOf node log with
  | none => rfl
  | some place =>
    obtain ⟨n, tag, hn', htag, -⟩ := h.shown _ (mem_allOf (mem_of_placeOf hplace) rfl)
    rw [hn] at hn'
    cases hn'
    cases htag

end Image

/-- What a write that starts without handles leaves behind, in terms of the log of its image.  The log has
    a line for each node that was met, whether in full, by reference or replaced, and a log of its own for
    each detached value.  The references back are exact, here and in the values detached inside; there are
    no others in what was written; and the handles are the nodes that the log has in full, which proxies
    never are, each with the position of its tag.

    A root write is such a write, its depth being `depthOn` its tape, and so is each detached value. -/
theorem writeDepth_references {depth : Nat} {v : Value} {s s' : Session}
    (hregular : s.graph.Regular) (hscope : s.handles = .empty)
    (h : (WriteM.writeDepth depth v).Yields s () s') :
    ∃ w st, Gives (Image.value s.service.registry.static depth v) { place := 0, graph := s.graph } w st ∧
      s.tape.Appended s'.tape w.bytes ∧ Exact st.log w.bytes s'.graph ∧
      (∀ ref ∈ w.references, ∃ node, .back node ref.1 ref.2 ∈ allOf st.log) ∧
      s'.handles.size = fullCount st.log ∧
      (∀ node, s'.handles.find? node = (placeOf node st.log).map (s.tape.cursor + ·)) ∧
      ∀ node interfaces handler, s'.graph.node? node = some (.proxy interfaces handler) →
        s'.handles.find? node = none := by
  obtain ⟨w, st, hw, hfollows, happended, -⟩ :=
    writeDepth_draws _ depth v h (Follows.start hregular hscope)
  obtain ⟨new, hadded⟩ := traces_value _ depth v (.empty 0) hw
  -- The write began with an empty log, so all of its log is new.
  have hlog : st.log = new := hadded.log.trans (List.append_nil new)
  have hexact : Exact st.log w.bytes s'.graph := by
    rw [hfollows.graph]
    refine ⟨hadded.sound.linked, ?_, ?_⟩
    · rw [hlog]
      exact hadded.ordered
    · rw [hlog]
      exact hadded.shown _ (Reader.holds_self _)
  refine ⟨w, st, hw, happended, hexact, ?_, hfollows.size, hfollows.find, fun node _ _ hn => ?_⟩
  · rw [hlog]
    exact hadded.refs
  · rw [hfollows.find, hexact.placeOf_proxy hn]
    rfl

/-- A session before the sample graph's first object is written. -/
def sampleSession : Session := sampleWorld.session (Tape.new .heap 16) {}

/-- The sample graph is written with one reference back for each time that a node is met again. -/
theorem writeDepth_references_sample :
    ∃ w st, Gives (Image.value sampleWorld.service.registry.static 16 (.ref 0))
        { place := 0, graph := sampleGraph } w st ∧
      Exact st.log w.bytes (WriteM.writeDepth 16 (.ref 0) sampleSession).2.graph ∧
      (WriteM.writeDepth 16 (.ref 0) sampleSession).2.handles.size = fullCount st.log := by
  have h : (WriteM.writeDepth 16 (.ref 0)).Yields sampleSession () _ :=
    yields_of_toOption (by decide +kernel)
  obtain ⟨w, st, hw, -, hexact, -, hsize, -⟩ := writeDepth_references sampleGraph_regular rfl h
  exact ⟨w, st, hw, hexact, hsize⟩

end ObjectWire
