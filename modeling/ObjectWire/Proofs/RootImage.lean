import ObjectWire.Proofs.WriteImage

/-!
# Root writes as images

The three kinds of root write taken apart: each runs one session with no handles, so each leaves the
image of its value on its tape, and the one that tells the bytes tells the bytes of the image.
-/

namespace ObjectWire

open ObjectWire.Action Image

/-- A root write runs a session on its tape and keeps what the session leaves. -/
theorem RootM.ofSession_yields {α : Type} {x : WriteM α} {world world' : World}
    {scratch scratch' : Scratch} {a : α}
    (h : (RootM.ofSession x).Yields (world, scratch) a (world', scratch')) :
    ∃ s, x.Yields (world.session scratch.tape scratch.fields) a s ∧ world' = World.ofSession s ∧
      scratch' = ⟨s.tape, s.fields⟩ := by
  obtain ⟨s, hx, hstate⟩ := (yields_part (RootM.ofSession x) x
    (fun s => (World.ofSession s, Scratch.mk s.tape s.fields)) rfl).mp h
  obtain ⟨hworld, hscratch⟩ := Prod.mk.inj hstate
  exact ⟨s, hx, hworld.symm, hscratch.symm⟩

/-- A write at the cursor that succeeds tells where the cursor was. -/
theorem encodeInto_yields {v : Value} {world world' : World} {scratch scratch' : Scratch}
    {start : Nat} (h : (encodeInto v).Yields (world, scratch) start (world', scratch')) :
    start = scratch.tape.cursor ∧
      ∃ s, (WriteM.writeValue v).Yields (world.session scratch.tape scratch.fields) () s ∧
        world' = World.ofSession s ∧ scratch' = ⟨s.tape, s.fields⟩ := by
  simp only [Yields, encodeInto] at h
  split at h
  · next state hx =>
    obtain ⟨hstart, rfl⟩ := Prod.mk.inj h
    exact ⟨(Except.ok.inj hstart).symm, RootM.ofSession_yields hx⟩
  · cases h

/-- A write to a scratch tape that succeeds starts from the empty tape and tells what lies before the
    cursor in the end. -/
theorem encodeWith_yields {v : Value} {world world' : World} {scratch scratch' : Scratch}
    {bs : Bytes} (h : (encodeWith v).Yields (world, scratch) bs (world', scratch')) :
    ∃ s, (WriteM.writeValue v).Yields (world.session scratch.reset.tape scratch.reset.fields) () s ∧
      s.tape.written? = some bs ∧ world' = World.ofSession s ∧ scratch' = ⟨s.tape, s.fields⟩ := by
  simp only [Yields, encodeWith] at h
  split at h
  · next world₁ scratch₁ hx =>
    obtain ⟨s, hs, rfl, rfl⟩ := RootM.ofSession_yields hx
    split at h
    · next bytes hbytes =>
      obtain ⟨hbs, hstate⟩ := Prod.mk.inj h
      obtain ⟨hworld, hscratch⟩ := Prod.mk.inj hstate
      exact ⟨s, hs, Except.ok.inj hbs ▸ hbytes, hworld.symm, hscratch.symm⟩
    · cases h
  · cases h

/-- A write to a tape of its own is a write to a new scratch tape. -/
theorem encode_yields {v : Value} {world world' : World} {bs : Bytes}
    (h : (encode v).Yields world bs world') :
    ∃ scratch', (encodeWith v).Yields
      (world, Scratch.new world.service.config.initialCapacity) bs (world', scratch') := by
  obtain ⟨hr, hs⟩ := Prod.mk.inj h
  exact ⟨_, Prod.ext hr (Prod.ext hs rfl)⟩

/-- Values may be nested as deep as the tape can hold. -/
theorem writeValue_yields {v : Value} {s s' : Session} {u : Unit} :
    (WriteM.writeValue v).Yields s u s' ↔
      (WriteM.writeDepth (WriteM.depthOn s.tape) v).Yields s u s' := by
  simp only [Yields, WriteM.writeValue]

/-- A session without handles leaves the image of its value on its tape, and takes all its fields off the
    stack. -/
theorem writeValue_image {v : Value} {s s' : Session} (hregular : s.graph.Regular)
    (hhandles : s.handles = .empty) (h : (WriteM.writeValue v).Yields s () s') :
    ∃ w st, Gives (Image.value s.service.registry.static (WriteM.depthOn s.tape) v)
        { place := 0, graph := s.graph } w st ∧
      WriteM.Follows s.service.registry.static s.tape.cursor s' st ∧
      s.tape.Appended s'.tape w.bytes ∧ s'.fields = s.fields := by
  rw [writeValue_yields] at h
  -- How deep the write may go is of no account here, and far too large to compute with.
  generalize WriteM.depthOn s.tape = depth at h ⊢
  exact writeDepth_draws _ depth v h (Follows.start hregular hhandles)

/-- The bytes told are those of the image. -/
theorem encodeWith_image {v : Value} {world world' : World} {scratch scratch' : Scratch}
    {bs : Bytes} (hregular : world.graph.Regular)
    (h : (encodeWith v).Yields (world, scratch) bs (world', scratch')) :
    ∃ w st, Gives (Image.value world.service.registry.static (WriteM.depthOn scratch.tape) v)
      { place := 0, graph := world.graph } w st ∧ bs = w.bytes := by
  obtain ⟨s, hx, hbs, -, -⟩ := encodeWith_yields h
  obtain ⟨w, st, hw, -, ha, -⟩ := writeValue_image hregular rfl hx
  refine ⟨w, st, hw, ?_⟩
  have hcursor : s.tape.cursor = w.bytes.length := ha.cursor.trans (Nat.zero_add _)
  have hroom : s.tape.cursor ≤ s.tape.capacity := by
    -- Nothing is asked of a tape on which nothing is written.
    by_cases hempty : w.bytes = []
    · rw [hcursor, hempty]
      exact Nat.zero_le _
    · exact ha.room hempty
  have hall : scratch.reset.tape.Appended s.tape ([] ++ w.bytes ++ []) := by
    rw [List.append_nil]
    exact ha
  have hslice : s.tape.slice? 0 s.tape.cursor = some w.bytes := by
    have := hall.slice? hroom
    rwa [show scratch.reset.tape.cursor + ([] : Bytes).length = 0 from rfl, Nat.zero_add,
      ← hcursor] at this
  exact Option.some.inj (hbs.symm.trans hslice)

/-- An encode that gives bytes gives those of an image of its value. -/
theorem encode_image {v : Value} {world world' : World} {bs : Bytes} (hregular : world.graph.Regular)
    (h : (encode v).Yields world bs world') :
    ∃ w : Wire, w.IsImage world.service.registry.static world.graph v ∧ bs = w.bytes := by
  obtain ⟨scratch', h⟩ := encode_yields h
  obtain ⟨w, st, hw, hbs⟩ := encodeWith_image hregular h
  exact ⟨w, ⟨_, st, hw⟩, hbs⟩

/-- A small graph: an object refers to itself and, by way of a list, to a proxy of itself, and another
    object gives way to the list. -/
def sampleGraph : Graph where
  nodes := #[
    .object (.dynamic {
      typeName := "Pair", fields := [("a", .ref 1), ("b", .ref 0), ("c", .ref 2)], raw := some [7] }),
    .collection "Vec" [.plain (.int 5), .ref 0, .ref 3],
    .object (.programmed { typeName := "Link", program := [], replacement := some (.shared (.ref 1)) }),
    .proxy ["Shape"] (.ref 0)]

/-- The sample graph in a world where no type is registered and hash codes are filled in. -/
def sampleWorld : World where
  service := { registry := Registry.new { initialCapacity := 16, identityHash := true } }
  graph := sampleGraph

/-- The one program in the sample graph is empty, and the other object is dynamic. -/
theorem sampleGraph_regular : sampleGraph.Regular := by
  intro id o ho
  have hmem : Node.object o ∈ sampleGraph.nodes := Array.mem_of_getElem? ho
  simp only [sampleGraph, List.mem_toArray, List.mem_cons, List.not_mem_nil, Node.object.injEq,
    reduceCtorEq, or_false, false_or] at hmem
  obtain rfl | rfl := hmem
  · exact UserObject.isRegular_dynamic _
  · exact { call := List.forall_mem_nil _, fillsAll := rfl }

/-- The bytes of the sample graph's first object. -/
def sampleBytes : Bytes :=
  [103, 1, 47, 0, 0, 0, 0, 0, 223, 228, 4, 63, 91, 0, 0, 0, 213, 24, 157, 242, 84, 0, 0, 0, 9, 4, 0, 0,
    0, 80, 97, 105, 114, 24, 3, 0, 0, 0, 1, 3, 5, 0, 0, 0, 102, 44, 0, 0, 0, 35, 1, 0, 0, 0, 0, 0, 0,
    0, 9, 5, 0, 0, 0, 83, 104, 97, 112, 101, 102, 68, 0, 0, 0, 102, 73, 0, 0, 0, 102, 45, 0, 0, 0, 7,
    33, 73, 78, 83, 0, 0, 0]

theorem encode_sample :
    (encode (.ref 0)).Yields sampleWorld sampleBytes (encode (.ref 0) sampleWorld).2 :=
  yields_of_toOption (by decide +kernel)

end ObjectWire
