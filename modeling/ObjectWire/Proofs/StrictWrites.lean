import ObjectWire.Proofs.SideBySide
import ObjectWire.Proofs.Visits

/-!
# Strict writes

A write that fails for types that are not registered resolves every type name that it meets.  So if it ends
well, all of these are registered, and if it ends with that failure, one of them is not.

Both are said at once: `Survey.Settles` collects what an action comes by, the names that it resolves and the
values that it writes, and tells what becomes of them.  A value is settled (`Survey.Settled`) when its names
are known and what follows on the way is settled; where the way comes back to a node that is recorded, it is
enough that the node is, as everything recorded during a step is written in full by the end of the step
(`Survey.Completes`).  Most actions come by nothing: they leave handles and graph alone
(`Session.Steady`), which is read off the fact that they run alike in any two sessions side by side.
-/

namespace ObjectWire

open ObjectWire.Action

/-- A name that does not resolve leaves the registry as it is.  It is not registered; and it is refused for
    that, or it has no id. -/
theorem Registry.resolve_error {name : String} {kind : TypeKind} {failIfUnregistered : Bool}
    {r r' : Registry} {e : Stop} (h : resolve name kind failIfUnregistered r = (.error e, r')) :
    r' = r ∧ r.types.find? name = none ∧
      (failIfUnregistered = true ∧ e = .error (.unregistered name) ∨
        failIfUnregistered = false ∧ e = .error (.unresolved name)) := by
  change Action.run (Action.read (·.types.find? name) >>= _) r = _ at h
  rw [run_read_bind] at h
  split at h
  · cases h
  · next hnone =>
    -- A name that is not registered is refused at once, or an id is derived from it, which may fail.
    cases failIfUnregistered with
    | true =>
      cases h
      exact ⟨rfl, hnone, .inl ⟨rfl, rfl⟩⟩
    | false =>
      simp only [Bool.false_eq_true, if_false, derivedId] at h
      split at h
      · cases h
        exact ⟨rfl, hnone, .inr ⟨rfl, rfl⟩⟩
      · cases h

namespace Action

variable {σ τ α β : Type}

/-- If the action ends with a result, it is one as `Q` says, and so is the state; if it stops, the reason and
    the state it leaves are as `E` says. -/
structure EnsuresIn (E : Stop → σ → Prop) (Q : α → σ → Prop) (x : Action σ α) (s : σ) : Prop where
  result : ∀ {a s'}, x.Yields s a s' → Q a s'
  stops : x.StopsIn E s

/-- If the action ends with a result, it is one as `Q` says, and so is the state; if it stops, the reason is
    one of `E`. -/
abbrev Ensures (E : Stop → Prop) (Q : α → σ → Prop) (x : Action σ α) (s : σ) : Prop :=
  x.EnsuresIn (fun e _ => E e) Q s

namespace EnsuresIn

variable {E : Stop → σ → Prop} {Q Q' : α → σ → Prop} {x : Action σ α} {s : σ}

/-- What the first action ensures is where the second one starts. -/
theorem bind {R : β → σ → Prop} {f : α → Action σ β} (hx : x.EnsuresIn E Q s)
    (hf : ∀ {a s₁}, Q a s₁ → (f a).EnsuresIn E R s₁) : (x >>= f).EnsuresIn E R s where
  result h := by
    obtain ⟨a, s₁, ha, hrest⟩ := (yields_bind ..).mp h
    exact (hf (hx.result ha)).result hrest
  stops := hx.stops.bind fun ha => (hf (hx.result ha)).stops

/-- A result may be told less of. -/
theorem mono (hx : x.EnsuresIn E Q s) (hQ : ∀ {a s'}, Q a s' → Q' a s') : x.EnsuresIn E Q' s where
  result h := hQ (hx.result h)
  stops := hx.stops

/-- More reasons to stop may be allowed for. -/
theorem weaken {E' : Stop → σ → Prop} (hx : x.EnsuresIn E Q s) (hE : ∀ {e s'}, E e s' → E' e s') :
    x.EnsuresIn E' Q s where
  result := hx.result
  stops := hx.stops.mono fun _ _ => hE

end EnsuresIn

end Action

namespace Session

/-- One session after the other, with the same nodes seen and the same graph. -/
structure Steady (s s' : Session) : Prop where
  handles : s'.handles.find? = s.handles.find?
  graph : s'.graph = s.graph
  service : s.service.Evolves s'.service

/-- The second session is the first one after a step, and what `W` says holds in the end of all nodes that
    were recorded in between. -/
structure Completes (W : Session → NodeId → Prop) (s s' : Session) : Prop where
  graph : s.graph.Extends s'.graph
  service : s.service.Evolves s'.service
  seen : ∀ node, s.handles.find? node ≠ none → s'.handles.find? node ≠ none
  whole : ∀ node, s'.handles.find? node ≠ none → s.handles.find? node ≠ none ∨ W s' node

namespace Completes

variable {W : Session → NodeId → Prop} {s s₁ s' : Session}

/-- A step that records nothing completes whatever it recorded. -/
theorem of_steady (h : s.Steady s') : Completes W s s' where
  graph := h.graph ▸ .refl _
  service := h.service
  seen _ hseen := h.handles ▸ hseen
  whole _ hseen := .inl (h.handles ▸ hseen)

/-- One step behind another, if what holds of a node after the first one still holds after the second. -/
theorem trans (hW : ∀ node, W s₁ node → W s' node) (h : Completes W s s₁) (h' : Completes W s₁ s') :
    Completes W s s' where
  graph := h.graph.trans h'.graph
  service := h.service.trans h'.service
  seen node hseen := h'.seen node (h.seen node hseen)
  whole node hseen := by
    obtain hbefore | hwhole := h'.whole node hseen
    · exact (h.whole node hbefore).imp_right (hW node)
    · exact .inr hwhole

end Completes

/-- A session beside itself: what it has seen and its graph stay what they are. -/
def itself (s : Session) : Pairing where
  graph := {}
  service a b := b = a ∧ s.service.Evolves a
  rest now a _ := now = s.handles.find? ∧ a.1 = s.graph

/-- A service answers as itself, and what it learns on the way takes nothing away. -/
theorem mirrored_itself (s : Session) :
    TypeService.Mirrored (fun _ => False) s.itself.service where
  static h := by rw [h.1]
  resolve name kind failIfUnregistered a b h := by
    obtain ⟨rfl, h⟩ := h
    exact .inr ⟨rfl, rfl, h.trans (TypeService.evolves_resolve name kind failIfUnregistered b)⟩
  fieldId h _ _ := .inl (by rw [h.1])
  -- A schema may be learned on the way, which is no loss.
  learn {a b} h typeId schemaId schema := by
    obtain ⟨rfl, h⟩ := h
    refine ⟨rfl, h.trans ?_⟩
    unfold TypeService.learn
    split
    · exact .refl b
    · exact TypeService.evolves_addSchema b typeId schema

theorem beside_itself (s : Session) : s.Beside s.itself s :=
  ⟨rfl, ⟨rfl, .refl _⟩, fun _ _ h => (nomatch h), fun _ _ h => (nomatch h), rfl, rfl⟩

/-- What ends beside the session as it was has its handles and its graph. -/
theorem Beside.steady {s s' t : Session} (h : s'.Beside s.itself t) : s.Steady s' :=
  ⟨h.rest.1, h.rest.2, h.service.2⟩

end Session

/-- An action that runs alike in any two sessions side by side leaves handles and graph alone. -/
theorem WriteM.steady_of_mirrors {α : Type} {x : WriteM α} {s s' : Session} {a : α}
    (hx : ∀ {P : Pairing}, TypeService.Mirrored (fun _ => False) P.service →
      Mirrors (fun _ => False) (Session.Beside P) x x) (h : x.Yields s a s') : s.Steady s' := by
  obtain ⟨_, -, hfalse⟩ | ⟨-, hbeside⟩ := hx s.mirrored_itself s.beside_itself
  · exact hfalse.elim
  · rw [show x s = (.ok a, s') from h] at hbeside
    exact hbeside.steady

/-- A strict write in view: the graph as it was before, the value that the write started at, and the types
    that are registered. -/
structure Survey where
  graph : Graph
  root : Value
  types : Dict String TypeEntry

namespace Survey

variable (k : Survey)

/-- A type of this name is registered. -/
def Knows (name : String) : Prop := (k.types.find? name).isSome = true

/-- If the write stops because a type is not registered, that is a type that it met. -/
def Blames (e : Stop) : Prop :=
  ∀ text, e = .error (.unregisteredType text) → ∃ name, k.graph.Meets k.root name ∧
    k.types.find? name = none ∧ text = Excerpt.ofName name

/-- The session is one of the write in view. -/
structure Covers (s : Session) : Prop where
  strict : s.service.config.failIfUnregistered = true
  types : s.service.registry.types = k.types
  graph : k.graph.Extends s.graph

/-- The names that a value has for itself are known, and what follows on the way is settled, as far as it is
    not recorded. -/
inductive Settled (s : Session) : Bool → Value → Prop where
  | leaf {asked : Bool} {v : Value} (hleaf : ∀ node, v ≠ .ref node)
      (hnames : ∀ name ∈ s.graph.typeNames v, k.Knows name) : Settled s asked v
  | seen {asked : Bool} {node : NodeId} {n : Node} (hn : s.graph.node? node = some n)
      (hstays : asked = true → n.replacement = none) (hseen : s.handles.find? node ≠ none) :
      Settled s asked (.ref node)
  | whole {asked : Bool} {node : NodeId} {n : Node} (hn : s.graph.node? node = some n)
      (hstays : asked = true → n.replacement = none) (hnames : ∀ name ∈ n.typeNames, k.Knows name)
      (hcontents : ∀ v ∈ n.contents, Settled s true v) : Settled s asked (.ref node)
  | replaced {node : NodeId} {n : Node} {r : Replacement} {v : Value}
      (hn : s.graph.node? node = some n) (hr : n.replacement = some r)
      (hnames : ∀ name ∈ n.typeNames, k.Knows name) (hcopied : k.graph.Copied s.graph v r.value)
      (h : Settled s false v) : Settled s true (.ref node)

/-- The names that a node has for itself are known, and the values inside it are settled. -/
def Whole (s : Session) (n : Node) : Prop :=
  (∀ name ∈ n.typeNames, k.Knows name) ∧ ∀ v ∈ n.contents, k.Settled s true v

/-- The second session is the first one after a step, which was done in the end with all nodes that it
    recorded. -/
abbrev Completes : Session → Session → Prop :=
  Session.Completes fun s node => ∃ n, s.graph.node? node = some n ∧ k.Whole s n

variable {k} {s s₁ s' : Session}

/-- A write that stops for another reason blames no type. -/
theorem blames_of_not_isResolution {e : Stop} (h : ¬ e.IsResolution) : k.Blames e := by
  intro text he
  subst he
  exact absurd rfl h

/-- Over a step the session stays in view of the same write. -/
theorem Covers.completes (h : k.Covers s) (hs : k.Completes s s') : k.Covers s' where
  strict := (congrArg Config.failIfUnregistered hs.service.config).trans h.strict
  types := hs.service.registry.types.trans h.types
  graph := h.graph.trans hs.graph

/-- What is settled stays so. -/
theorem Settled.completes {asked : Bool} {v : Value} (h : k.Settled s asked v)
    (hs : k.Completes s s') : k.Settled s' asked v := by
  induction h with
  | @leaf asked v hleaf hnames =>
    refine .leaf hleaf fun name hname => hnames name ?_
    cases v with
    | ref node => exact absurd rfl (hleaf node)
    | _ => exact hname
  | seen hn hstays hseen => exact .seen (hs.graph _ _ hn) hstays (hs.seen _ hseen)
  | whole hn hstays hnames _ ih => exact .whole (hs.graph _ _ hn) hstays hnames ih
  | replaced hn hr hnames hcopied _ ih =>
    exact .replaced (hs.graph _ _ hn) hr hnames (hcopied.mono hs.graph) ih

/-- A node that is written in full stays so. -/
theorem Whole.completes {n : Node} (h : k.Whole s n) (hs : k.Completes s s') : k.Whole s' n :=
  ⟨h.1, fun v hv => (h.2 v hv).completes hs⟩

/-- Two steps that complete what they record do so together. -/
theorem Completes.trans (h : k.Completes s s₁) (h' : k.Completes s₁ s') : k.Completes s s' := by
  refine Session.Completes.trans (fun node hnode => ?_) h h'
  obtain ⟨n, hn, hwhole⟩ := hnode
  exact ⟨n, h'.graph _ _ hn, hwhole.completes h'⟩

section

variable (k) {σ α β : Type} (view : σ → Session)

/-- The action comes by these names, which are all met, and by these values, which are all due.  If it ends
    well, the names are known and the values are settled. -/
def Settles (names : List String) (vs : List Value) (x : Action σ α) : Prop :=
  ∀ s, k.Covers (view s) → (∀ name ∈ names, k.graph.Meets k.root name) →
    (∀ v ∈ vs, k.graph.Due k.root (view s).graph true v) →
    x.Ensures k.Blames (fun _ s' => k.Completes (view s) (view s') ∧ (∀ name ∈ names, k.Knows name) ∧
      ∀ v ∈ vs, k.Settled (view s') true v) s

namespace Settles

variable {k view} {names : List String} {vs : List Value} {x : Action σ α} {f : α → Action σ β}

/-- An action that records nothing and blames no type comes by nothing. -/
theorem of_steady (hstops : x.StopsOnly k.Blames)
    (hsteady : ∀ {s a s'}, x.Yields s a s' → (view s).Steady (view s')) : k.Settles view [] [] x :=
  fun s _ _ _ => ⟨fun h => ⟨.of_steady (hsteady h), nofun, nofun⟩, hstops s⟩

/-- One action behind another comes by what both come by. -/
theorem bind {names' : List String} {vs' : List Value} (hx : k.Settles view names vs x)
    (hf : ∀ a, k.Settles view names' vs' (f a)) :
    k.Settles view (names ++ names') (vs ++ vs') (x >>= f) := by
  intro s hs hmet hdue
  obtain ⟨hmet, hmet'⟩ := List.forall_mem_append.mp hmet
  obtain ⟨hdue, hdue'⟩ := List.forall_mem_append.mp hdue
  refine (hx s hs hmet hdue).bind fun {a s₁} h₁ => ?_
  obtain ⟨hcompletes, hnames, hsettled⟩ := h₁
  -- What the second action comes by was due before the first one, and is due still.
  have hdue₁ : ∀ v ∈ vs', k.graph.Due k.root (view s₁).graph true v :=
    fun v hv => (hdue' v hv).mono hcompletes.graph
  refine (hf a s₁ (hs.completes hcompletes) hmet' hdue₁).mono fun {b s'} h' => ?_
  obtain ⟨hcompletes', hnames', hsettled'⟩ := h'
  exact ⟨hcompletes.trans hcompletes', List.forall_mem_append.mpr ⟨hnames, hnames'⟩,
    List.forall_mem_append.mpr ⟨fun v hv => (hsettled v hv).completes hcompletes', hsettled'⟩⟩

/-- An action that comes by nothing, before another one. -/
theorem before (hx : k.Settles view [] [] x) (hf : ∀ a, k.Settles view names vs (f a)) :
    k.Settles view names vs (x >>= f) := hx.bind hf

/-- An action that comes by nothing, behind another one. -/
theorem behind (hx : k.Settles view names vs x) (hf : ∀ a, k.Settles view [] [] (f a)) :
    k.Settles view names vs (x >>= f) := by
  have h := hx.bind hf
  rwa [List.append_nil, List.append_nil] at h

theorem pure (a : α) : k.Settles view [] [] (pure a : Action σ α) := by
  refine of_steady (.pure a) fun h => ?_
  obtain ⟨-, rfl⟩ := (yields_pure ..).mp h
  exact ⟨rfl, rfl, .refl _⟩

theorem read (f : σ → α) : k.Settles view [] [] (Action.read f) := by
  refine of_steady (.read f) fun h => ?_
  obtain ⟨-, rfl⟩ := (yields_read ..).mp h
  exact ⟨rfl, rfl, .refl _⟩

/-- A length that is too much is not a matter of types. -/
theorem length (what : String) (n : Nat) :
    k.Settles view [] [] (ofExcept (wireLength what n) : Action σ Int32) := by
  refine of_steady ((locally_length what n).mono fun _ h => blames_of_not_isResolution h.2) fun h => ?_
  obtain ⟨-, rfl⟩ := (yields_ofExcept ..).mp h
  exact ⟨rfl, rfl, .refl _⟩

theorem update {f : σ → σ} (hf : ∀ s, (view s).Steady (view (f s))) :
    k.Settles view [] [] (Action.update f) := by
  refine of_steady (.update f) fun {s _ s'} h => ?_
  obtain rfl := (yields_update ..).mp h
  exact hf s

/-- A loop comes by what its turns come by. -/
theorem forEach {f : α → Action σ Unit} {names : α → List String} {vs : α → List Value} {as : List α}
    (h : ∀ a ∈ as, k.Settles view (names a) (vs a) (f a)) :
    k.Settles view (as.flatMap names) (as.flatMap vs) (Action.forEach f as) := by
  induction as with
  | nil => exact .pure ()
  | cons a as ih =>
    obtain ⟨ha, has⟩ := List.forall_mem_cons.mp h
    rw [List.flatMap_cons, List.flatMap_cons]
    exact ha.bind fun _ => ih has

end Settles

end

end Survey

namespace WriteM

variable {k : Survey} {names : List String} {vs : List Value} {α : Type}

open Survey

/-- An action that runs alike in any two sessions side by side, and never stops for a type, comes by
    nothing. -/
theorem settles_of_mirrors {x : WriteM α} (hstops : x.Locally)
    (hx : ∀ {P : Pairing}, TypeService.Mirrored (fun _ => False) P.service →
      Mirrors (fun _ => False) (Session.Beside P) x x) : k.Settles id [] [] x :=
  .of_steady (hstops.mono fun _ h => blames_of_not_isResolution h.2) (steady_of_mirrors hx)

/-- On the tape no names are resolved. -/
theorem settles_onTape {x : Action Tape α} (hstops : x.Locally) : k.Settles id [] [] (onTape x) :=
  settles_of_mirrors (stopsOnly_onTape hstops) fun _ => mirrors_onTape x

theorem settles_writeWord [Word α] (a : α) : k.Settles id [] [] (onTape (Tape.writeWord a)) :=
  settles_onTape (Tape.short_write _).locally

/-- A value without a type comes by no name. -/
theorem settles_writePlain (v : Plain) : k.Settles id [] [] (writePlain v) :=
  settles_of_mirrors (short_writePlain v).locally fun hV => mirrors_writePlain hV v

theorem settles_writeCount (what : String) (count : Nat) : k.Settles id [] [] (writeCount what count) :=
  Settles.before (.length what count) fun _ => settles_writeWord _

/-- The options in force are strict. -/
theorem settles_config {f : Config → WriteM α}
    (hf : ∀ config, config.failIfUnregistered = true → k.Settles id names vs (f config)) :
    k.Settles id names vs (config >>= f) := by
  intro s hs hmet hdue
  have hread : config.Ensures k.Blames (fun config s₁ => s.service.config = config ∧ s = s₁) s :=
    ⟨(yields_config ..).mp, .read _⟩
  refine hread.bind fun {config s₁} h => ?_
  obtain ⟨rfl, rfl⟩ := h
  exact hf _ hs.strict s hs hmet hdue

/-- A type that resolves is registered, and one that does not is to blame. -/
theorem settles_resolve (name : String) (kind : TypeKind) :
    k.Settles id [name] [] (onService (TypeService.resolve name kind true)) := by
  intro s hs hmet _
  -- Under the option a name resolves only if it is registered, and is blamed only if it is not.
  constructor
  · intro resolved s' h
    obtain ⟨service, hservice, rfl⟩ := (yields_onService ..).mp h
    obtain ⟨r, hr, rfl⟩ := (TypeService.yields_onRegistry ..).mp hservice
    obtain ⟨entry, hentry, -, rfl⟩ | ⟨-, -, hlenient, -⟩ := Registry.resolve_cases hr
    · have htypes : s.service.registry.types = k.types := hs.types
      rw [htypes] at hentry
      refine ⟨.of_steady ⟨rfl, rfl, .refl _⟩, List.forall_mem_singleton.mpr ?_, nofun⟩
      exact Option.isSome_of_eq_some hentry
    · cases hlenient
  · refine .part (fun service => { s with service }) rfl
      (.part (fun registry => { s.service with registry }) rfl fun e r h text he => ?_)
    obtain ⟨-, hnone, ⟨-, hrefused⟩ | ⟨hlenient, -⟩⟩ := Registry.resolve_error h
    · cases hrefused.symm.trans he
      exact ⟨name, hmet name (List.mem_singleton_self name), hs.types ▸ hnone, rfl⟩
    · cases hlenient

/-- To write a type under the strict option is to know its name in the end. -/
theorem settles_writeTypeRef (name : String) (kind : TypeKind) :
    k.Settles id [name] [] (writeTypeRef name kind true) := by
  apply (settles_resolve name kind).behind
  intro resolved
  split
  · exact settles_writeWord _
  · exact (settles_writeWord _).before fun _ => settles_writePlain _

/-- An enum comes by the name of its type. -/
theorem settles_writeEnum (v : EnumConstant) : k.Settles id [v.typeName] [] (writeEnum v) := by
  refine settles_config fun config hstrict => ?_
  rw [hstrict]
  apply (settles_writeWord _).before
  intro _
  exact (settles_writeTypeRef _ _).behind fun _ => settles_writeWord _

/-- An array of enums comes by its own type, and then by the types of its constants. -/
theorem settles_writeEnumArray (typeName : String) (items : List (Option EnumConstant)) :
    k.Settles id (typeName :: items.flatMap fun item => (item.map (·.typeName)).toList) []
      (writeEnumArray typeName items) := by
  have hitems : k.Settles id (items.flatMap fun item => (item.map (·.typeName)).toList)
      (items.flatMap fun _ => []) (Action.forEach
        (fun item => item.elim (onTape Encode.null) writeEnum) items) := by
    refine .forEach fun item _ => ?_
    cases item with
    | none => exact settles_onTape Encode.short_tagged.locally
    | some v => exact settles_writeEnum v
  -- The names of the items follow one another as the items do.
  rw [List.flatMap_eq_nil_iff.mpr fun _ _ => rfl] at hitems
  refine settles_config fun config hstrict => ?_
  rw [hstrict]
  apply (settles_writeWord _).before
  intro _
  apply (settles_writeTypeRef typeName .enum).bind
  intro _
  exact (settles_writeCount _ _).before fun _ => hitems

/-- A binary enum has its id already, or else a name that is written without being resolved. -/
theorem settles_writeBinaryEnum (v : BinaryEnum) : k.Settles id [] [] (writeBinaryEnum v) := by
  apply (settles_onTape Encode.short_tagged.locally).before
  intro _
  split
  · split
    · exact (settles_writePlain _).before fun _ => settles_writeWord _
    · -- A constant without the name that it needs is unresolved, and not refused.
      refine fun s _ _ _ => ⟨fun h => ?_, ?_⟩
      · simp at h
      · refine StopsIn.bind (.fail fun text he => ?_) fun h => (yields_fail _ _ _ _ h).elim
        cases he
  · exact settles_writeWord _

/-- A type as a value is never refused. -/
theorem settles_writeClassRef (typeName : String) : k.Settles id [] [] (writeClassRef typeName) := by
  apply (settles_writeWord _).before
  intro _
  -- The class is resolved without the option, so it need not be registered and is never blamed.
  have hresolve : k.Settles id [] []
      (onService (TypeService.resolve typeName .classRef false)) := by
    refine .of_steady (fun s => .part (fun service => { s with service }) rfl
      (.part (fun registry => { s.service with registry }) rfl fun e r h text he => ?_)) fun h => ?_
    · obtain ⟨-, -, ⟨hstrict, -⟩ | ⟨-, hunresolved⟩⟩ := Registry.resolve_error h
      · cases hstrict
      · cases hunresolved.symm.trans he
    · exact steady_of_mirrors (fun hV => mirrors_resolve hV _ _ _) h
  apply hresolve.before
  intro resolved
  split
  · exact settles_writeWord _
  · exact (settles_writeWord _).before fun _ => settles_writePlain _

/-- An object comes by the name of its type, whether another one stands in for it or not. -/
theorem settles_resolveObject (o : UserObject) : k.Settles id [o.typeName] [] (resolveObject o) := by
  refine settles_config fun config hstrict => ?_
  rw [hstrict]
  exact settles_resolve _ _

/-- Before the values of a container stand the names that it has for itself. -/
theorem settles_writeHead {n : Node} (hobject : ∀ o, n ≠ .object o) :
    k.Settles id n.typeNames [] (writeHead n) := by
  cases n with
  | object o => exact absurd rfl (hobject o)
  | array componentType items =>
    refine settles_config fun config hstrict => ?_
    rw [hstrict]
    apply (settles_writeWord _).before
    intro _
    exact (settles_writeTypeRef _ _).behind fun _ => settles_writeCount _ _
  | collection typeName items =>
    refine Settles.before (.length _ _) fun size => Settles.before (.read _) fun kind => ?_
    exact settles_onTape Encode.short_tagged.locally
  | map typeName entries =>
    refine Settles.before (.length _ _) fun size => Settles.before (.read _) fun kind => ?_
    exact settles_onTape Encode.short_tagged.locally
  | proxy interfaces handler =>
    -- Each interface is settled by its own name, and none of them has values inside.
    have hinterfaces : k.Settles id (interfaces.flatMap fun name => [name])
        (interfaces.flatMap fun _ => []) (Action.forEach
          (fun name => writeTypeRef name .proxyInterface true) interfaces) :=
      .forEach fun name _ => settles_writeTypeRef name .proxyInterface
    rw [List.flatMap_singleton', List.flatMap_eq_nil_iff.mpr fun _ _ => rfl] at hinterfaces
    refine settles_config fun config hstrict => ?_
    rw [hstrict]
    exact (settles_onTape (Encode.short_proxyHead _).locally).before fun _ => hinterfaces

end WriteM

end ObjectWire
