import ObjectWire.Proofs.CallsImage
import ObjectWire.RootWrite

/-!
# Writes as images

Whatever a write of a regular graph puts on the tape is the image of its value, and the handles it
leaves are the places of the image's log (`writeDepth_draws`).  A root write starts with no handles, and
so with an image of which nothing is worked out yet (`Follows.start`).
-/

namespace ObjectWire

open ObjectWire.Action Image WriteM

section

variable {r : Registry} {base : Nat} {s s' : Session} {st : Progress}

/-- A new object is the image of nothing so far. -/
theorem Drafted.start {s : Session} {o : OpenObject} {typeId : Int32} {registered : Bool}
    {hole name : Bytes} (hopen : Opened s o typeId registered hole name)
    (h : Follows r base o.session st) : Drafted r base o o st {} where
  follows := h
  writer := by rw [hopen.writer]; rfl
  data := ⟨[], .refl _, .nil⟩
  inside := .empty
  fields := rfl
  offsets := by simp

section

variable {rec : Value → WriteM Unit} {image : Value → Sketch Wire}
  (hrec : ∀ v, Draws r (rec v) (image v) Wire.bytes)

include hrec

/-- An object is written as the frame around its calls. -/
theorem drawn_framed {node : NodeId} {u : UserObject} (hu : u.IsRegular) {typeId : Int32}
    {inlineName : Option String} {userType : Bool} {a : Option WrittenObject}
    (h : Follows r base s st)
    (hx : (writeFramed typeId inlineName (writeBody rec node u) (some userType)).Yields s a s') :
    Drawn r base s s' st (Image.frame r image
      (if inlineName.isNone then typeId else unregisteredTypeId) (inlineName.map (text r)) userType
      u.calls) Wire.bytes := by
  obtain ⟨w, s₁, o, written, s₂, hbegin, hbody, hfinish, rfl⟩ := writeFramed_yields hx
  obtain ⟨hole, hopen, hfits⟩ := begin_opened hbegin
  rw [h.static] at hopen hfits
  have hstart : w.start = base + st.place := by
    have := congrArg ObjectWriter.start hopen.writer
    exact this.trans h.cursor
  -- The calls start behind the header and the name.
  have hf₁ := h.laid hopen.laid
  rw [List.length_append, hopen.hole] at hf₁
  obtain ⟨d, st₂, hd, hdrafted⟩ := writeBody_drafted hrec hu (Drafted.start hopen hf₁) hstart hbody
  obtain ⟨wire, st₃, hwire, hf₃, ha, hfields⟩ :=
    finish_drawn hopen hdrafted (calls_closed hu.fillsAll hd) h.cursor hfinish
  refine ⟨wire, st₃, ?_, ?_, ha, ?_⟩
  · simp only [Image.frame, gives_bind, gives_place, gives_guard, gives_advance]
    exact ⟨_, _, ⟨rfl, rfl⟩, (), _, ⟨hfits, rfl⟩, (), _, rfl, d, st₂, hd, hwire⟩
  · exact ⟨hf₃.cursor, hf₃.graph, hf₃.regular, hf₃.static, hf₃.find, hf₃.size⟩
  · rw [ObjectWriter.release, hfields, hdrafted.pop]
    exact hopen.laid.fields

/-- A user object whose type is resolved is written in full once and as a reference after that. -/
theorem drawn_resolved {node : NodeId} {u : UserObject} (hu : u.IsRegular) {s₀ : Session}
    {resolved : ResolvedType} (h : Follows r base s₀ st)
    (hresolve : (resolveObject u).Yields s₀ resolved s) {v : Unit}
    (hx : (writeResolved rec node u resolved).Yields s v s') :
    Drawn r base s₀ s' st (Image.tracked node (Image.object r image u)) Wire.bytes := by
  simp only [resolveObject, yields_bind, yields_config] at hresolve
  obtain ⟨_, _, ⟨rfl, rfl⟩, hresolve⟩ := hresolve
  obtain ⟨service, hservice, rfl⟩ := (yields_onService ..).mp hresolve
  obtain ⟨hstatic, hknown, hunknown⟩ := TypeService.resolve_yields hservice
  rw [h.static] at hstatic hknown hunknown
  -- To resolve the type changes nothing that the image follows.
  have hf : Follows r base { s₀ with service } st :=
    ⟨h.cursor, h.graph, h.regular, hstatic, h.find, h.size⟩
  have hdrawn : Drawn r base { s₀ with service } s' st
      (Image.tracked node (Image.object r image u)) Wire.bytes := by
    apply drawn_tracked hf hx
    intro s s' v hx base st hf
    simp only [yields_bind, yields_pure] at hx
    obtain ⟨a, _, hx, -, rfl⟩ := hx
    have hdrawn := drawn_framed hrec hu hf hx
    unfold Image.object
    -- A registered type stands by its id, any other by its name, in the header as in the image.
    cases hfind : r.types.find? u.typeName with
    | some entry =>
      rw [hknown entry hfind] at hdrawn
      exact hdrawn
    | none =>
      obtain ⟨hregistered, huser⟩ := hunknown hfind
      rw [hregistered, huser] at hdrawn
      exact hdrawn
  exact hdrawn

/-- What takes the place of an object is written in full or as a reference if it is an object, and like
    any other value if it is not. -/
theorem drawn_substitute {v : Value} {u : Unit} (h : Follows r base s st)
    (hx : (match v with
      | .ref other => do
        match ← Action.read (·.graph.object? other) with
        | some o => writeResolved rec other o (← resolveObject o)
        | none => rec v
      | v => rec v : WriteM Unit).Yields s u s') :
    Drawn r base s s' st (Image.substitute r image v) Wire.bytes := by
  have hother : (∀ other, v = .ref other → st.graph.object? other = none) → (rec v).Yields s u s' →
      Drawn r base s s' st (Image.substitute r image v) Wire.bytes := by
    intro hnone hx
    obtain ⟨w, st', hw, hrest⟩ := hrec v hx h
    exact ⟨w, st', (gives_substitute ..).mpr (.inr ⟨hnone, hw⟩), hrest⟩
  cases v with
  | ref other =>
    simp only [yields_bind, yields_read] at hx
    obtain ⟨_, _, ⟨rfl, rfl⟩, hx⟩ := hx
    rw [h.graph] at hx
    cases hobject : st.graph.object? other with
    | some o =>
      -- Another object is resolved and tracked, but not replaced.
      rw [hobject] at hx
      obtain ⟨resolved, s₁, hresolve, hx⟩ := (yields_bind ..).mp hx
      have ho : o.IsRegular := h.regular other o (Graph.object?_eq_some hobject)
      obtain ⟨w, st', hw, hrest⟩ := drawn_resolved hrec ho h hresolve hx
      exact ⟨w, st', (gives_substitute ..).mpr (.inl ⟨other, o, rfl, hobject, hw⟩), hrest⟩
    | none =>
      rw [hobject] at hx
      exact hother (fun _ heq => Value.ref.inj heq ▸ hobject) hx
  | _ => exact hother (fun _ heq => by cases heq) hx

/-- A user object that another value takes the place of is written as that value. -/
theorem draws_object {node : NodeId} {o : UserObject} (ho : o.IsRegular) :
    Draws r (writeObject rec node o) (Image.objectNode r image node o) Wire.bytes := by
  intro s s' v hx base st hf
  simp only [writeObject, yields_bind] at hx
  obtain ⟨resolved, s₁, hresolve, hx⟩ := hx
  cases hreplacement : o.replacement with
  | none =>
    rw [hreplacement] at hx
    rw [Image.objectNode, hreplacement]
    exact drawn_resolved hrec ho hf hresolve hx
  | some replacement =>
    -- The type is resolved for nothing.
    rw [hreplacement] at hx
    simp only [resolveObject, yields_bind, yields_config] at hresolve
    obtain ⟨_, _, ⟨rfl, rfl⟩, hresolve⟩ := hresolve
    obtain ⟨service, hservice, rfl⟩ := (yields_onService ..).mp hresolve
    obtain ⟨hstatic, -, -⟩ := TypeService.resolve_yields hservice
    simp only [WriteM.note, yields_bind, yields_update] at hx
    obtain ⟨_, _, rfl, hx⟩ := hx
    obtain ⟨v', s₂, hinst, hx⟩ := (yields_bind ..).mp hx
    obtain ⟨hv, rfl⟩ := Prod.mk.inj hinst
    obtain rfl := Except.ok.inj hv
    -- The image has worked out the same copy of the replacement's nodes.
    have hf₁ : Follows r base { s with
          service
          graph := (st.graph.instantiate replacement).2
          journal := .replaced node :: s.journal }
        { st with
          graph := (st.graph.instantiate replacement).2
          log := .replaced node st.place :: st.log } :=
      ⟨hf.cursor, rfl, hf.regular.instantiate replacement, hstatic.trans hf.static, hf.find, hf.size⟩
    simp only [hf.graph] at hx
    obtain ⟨w, st', hw, hf', ha, hfields⟩ := drawn_substitute hrec hf₁ hx
    exact ⟨w, st', (gives_replaced _ _ hreplacement).mpr hw, hf', ha, hfields⟩

/-- A node is drawn if its objects write themselves by regular calls. -/
theorem draws_node {node : NodeId} {n : Node} (hn : ∀ o, n = .object o → o.IsRegular) :
    Draws r (writeNode rec node n) (Image.node r image node n) Wire.bytes := by
  cases n with
  | object o => exact draws_object hrec (hn o rfl)
  | array componentType items => exact draws_array hrec node componentType items
  | collection typeName items => exact draws_collection hrec node typeName items
  | map typeName entries => exact draws_map hrec node typeName entries
  | proxy interfaces handler => exact draws_proxy hrec interfaces handler

/-- Every value is drawn if the values inside nodes are. -/
theorem draws_value (v : Value) :
    Draws r (writeWith rec v) (Image.valueWith r image v) Wire.bytes := by
  cases v with
  | plain v => exact draws_plain v
  | enum v => exact draws_enum v
  | enumArray typeName items => exact draws_enumArray typeName items
  | binaryEnum v => exact draws_binaryEnum v
  | classRef typeName => exact draws_classRef typeName
  | ref node =>
    intro s s' u hx base st hf
    simp only [writeWith, yields_bind, yields_read] at hx
    obtain ⟨_, _, ⟨rfl, rfl⟩, hx⟩ := hx
    rw [hf.graph] at hx
    cases hnode : st.graph.node? node with
    | some n =>
      rw [hnode] at hx
      obtain ⟨w, st', hw, hrest⟩ :=
        draws_node hrec (fun o ho => hf.regular node o (ho ▸ hnode)) hx hf
      exact ⟨w, st', (gives_ref ..).mpr ⟨n, hnode, hw⟩, hrest⟩
    | none =>
      rw [hnode] at hx
      exact (yields_stop _ _ _ _ hx).elim

end

/-- Writing a value nested down to some depth writes its image to that depth. -/
theorem writeDepth_draws (r : Registry) (depth : Nat) (v : Value) :
    Draws r (writeDepth depth v) (Image.value r depth v) Wire.bytes := by
  induction depth generalizing v with
  | zero =>
    intro s s' u hx
    exact (yields_stop _ _ _ _ hx).elim
  | succ depth ih => exact draws_value ih v

/-- Before a write that has no handles yet, no image has been begun. -/
theorem Follows.start {s : Session} (hregular : s.graph.Regular) (hhandles : s.handles = .empty) :
    Follows s.service.registry.static s.tape.cursor s { place := 0, graph := s.graph } where
  cursor := rfl
  graph := rfl
  regular := hregular
  static := rfl
  find := by simp [hhandles, HandleTable.find?, Image.placeOf]
  size := by rw [hhandles]; rfl

end

end ObjectWire
