import ObjectWire.Proofs.FieldIds
import ObjectWire.Proofs.FieldSets
import ObjectWire.Proofs.Overruns
import ObjectWire.Proofs.StrictNodes

/-!
# Sound values

A value can be refused for what it is, wherever it is written: a type on its way does not resolve, a constant
lacks the name of its type, or an object has two fields of one id.  A value is sound if there is nothing of
that kind on its way (`World.Sound`).

A write finds out which it is.  `World.Checks` says this of an action that comes by some values: if it ends
well, they are settled (`World.Settled`), that is sound as far as the way goes that is not recorded yet; and
if it stops, one of them is not sound, or the write runs over.  Everything that was recorded in between is
settled as well (`World.Completes`), so that a write that starts with nothing recorded shows its value to be
sound (`World.Completes.sound`).
-/

namespace ObjectWire

open ObjectWire.Action

/-- A name that is not registered, and does not have to be, resolves if an id can be derived from it. -/
theorem Registry.resolve_derived {name : String} {kind : TypeKind} {r : Registry}
    (h : r.types.find? name = none) (hid : NameId.ofName name ≠ unregisteredTypeId) :
    (resolve name kind false).Yields r ⟨NameId.ofName name, false, kind ≠ .builtin⟩
      (r.addMapped (NameId.ofName name)) := by
  show Action.run (Action.read (·.types.find? name) >>= _) r = _
  rw [run_read_bind, h]
  simp only [derivedId, if_neg hid]
  rfl

/-- A name that resolves is registered, or it does not have to be and an id can be derived from it. -/
theorem Registry.resolve_yields {name : String} {kind : TypeKind} {strict : Bool} {resolved : ResolvedType}
    {r r' : Registry} (h : (resolve name kind strict).Yields r resolved r') :
    (r.types.find? name).isSome = true ∨ strict = false ∧ NameId.ofName name ≠ unregisteredTypeId := by
  obtain ⟨entry, hentry, -⟩ | ⟨typeId, -, hlenient, hid, -⟩ := resolve_cases h
  · exact .inl (Option.isSome_of_eq_some hentry)
  · refine .inr ⟨hlenient, fun hzero => ?_⟩
    simp only [derivedId, if_pos hzero, reduceCtorEq] at hid

/-- What is on the way of a value on the way is on the way itself. -/
theorem Graph.Visits.trans {g : Graph} {root v u : Value} {asked : Bool} (h : g.Visits root true v)
    (h' : g.Visits v asked u) : g.Visits root asked u := by
  induction h' with
  | root => exact h
  | inside _ hn hstays hv ih => exact .inside ih hn hstays hv
  | replaced _ hn hr ih => exact .replaced ih hn hr

namespace World

variable (world : World)

/-- Whether types have to be registered. -/
def strict : Bool := world.service.config.failIfUnregistered

/-- A type is registered, or it may do without and there is an id to be derived from its name. -/
def Resolves (strict : Bool) (name : String) : Prop :=
  (world.service.registry.types.find? name).isSome = true ∨
    strict = false ∧ NameId.ofName name ≠ unregisteredTypeId

/-- There is nothing wrong with a node itself. -/
structure AdmitsNode (n : Node) : Prop where
  types : ∀ name ∈ n.typeNames, world.Resolves world.strict name
  fields : ∀ d, n = .object (.dynamic d) → d.fieldIds.Nodup

/-- There is nothing wrong with a value itself, apart from the values inside it. -/
def Admits : Value → Prop
  | .binaryEnum v => v.typeId = unregisteredTypeId → v.typeName ≠ none
  | .classRef typeName => world.Resolves false typeName
  | .ref node => ∃ n, world.graph.node? node = some n ∧ world.AdmitsNode n
  | v => ∀ name ∈ world.graph.typeNames v, world.Resolves world.strict name

/-- There is nothing wrong with any value on the way. -/
def Sound (v : Value) : Prop := ∀ asked u, world.graph.Visits v asked u → world.Admits u

/-- There is nothing wrong with a value, as far as the way goes that is not recorded. -/
inductive Settled (s : Session) : Value → Prop where
  | leaf {v : Value} (hleaf : ∀ node, v ≠ .ref node) (h : world.Admits v) : Settled s v
  | seen {node : NodeId} (h : s.handles.find? node ≠ none) : Settled s (.ref node)
  | whole {node : NodeId} {n : Node} (hn : world.graph.node? node = some n) (h : world.AdmitsNode n)
      (hcontents : ∀ v ∈ n.contents, Settled s v) : Settled s (.ref node)

/-- There is nothing wrong with a node and the values inside it. -/
def Whole (s : Session) (node : NodeId) : Prop :=
  ∃ n, world.graph.node? node = some n ∧ world.AdmitsNode n ∧ ∀ v ∈ n.contents, world.Settled s v

/-- The second session is the first one after a step, and there is nothing wrong with what was recorded. -/
abbrev Completes : Session → Session → Prop := Session.Completes world.Whole

variable {world} {s s₁ s' : Session} {v : Value}

/-- A sound value is the first one on its own way, so there is nothing wrong with it. -/
theorem Sound.admits (h : world.Sound v) : world.Admits v := h true v .root

/-- If a node is sound and is written as it is, so are the values in it. -/
theorem Sound.inside {node : NodeId} {n : Node} (h : world.Sound (.ref node))
    (hn : world.graph.node? node = some n) (hstays : n.replacement = none) (hv : v ∈ n.contents) :
    world.Sound v :=
  fun asked u hu => h asked u (Graph.Visits.trans (.inside .root hn (fun _ => hstays) hv) hu)

/-- What is settled stays so. -/
theorem Settled.mono (h : world.Settled s v)
    (hseen : ∀ node, s.handles.find? node ≠ none → s'.handles.find? node ≠ none) :
    world.Settled s' v := by
  induction h with
  | leaf hleaf h => exact .leaf hleaf h
  | seen h => exact .seen (hseen _ h)
  | whole hn h _ ih => exact .whole hn h ih

/-- A node that is done stays so as long as nodes are recorded and none is forgotten. -/
theorem Whole.mono {node : NodeId} (h : world.Whole s node)
    (hseen : ∀ node, s.handles.find? node ≠ none → s'.handles.find? node ≠ none) :
    world.Whole s' node := by
  obtain ⟨n, hn, hadmits, hcontents⟩ := h
  exact ⟨n, hn, hadmits, fun v hv => (hcontents v hv).mono hseen⟩

namespace Completes

theorem refl (s : Session) : world.Completes s s := .of_steady ⟨rfl, rfl, .refl _⟩

/-- Two steps that complete what they record do so together. -/
theorem trans (h : world.Completes s s₁) (h' : world.Completes s₁ s') : world.Completes s s' :=
  Session.Completes.trans (fun _ hwhole => hwhole.mono h'.seen) h h'

/-- Over such a step the session goes on to serve the same world. -/
theorem serves (h : world.Completes s s') (hs : WriteM.Serves world s) : WriteM.Serves world s' :=
  ⟨hs.graph.trans h.graph, hs.service.trans h.service⟩

/-- If nothing was recorded at first, there is nothing wrong with all that is settled now. -/
theorem sound (h : world.Completes s s') (hstart : ∀ node, s.handles.find? node = none)
    (hdynamic : world.graph.Dynamic) (hv : world.Settled s' v) : world.Sound v := by
  have hwhole : ∀ {node n}, world.graph.node? node = some n → world.Settled s' (.ref node) →
      world.AdmitsNode n ∧ ∀ v ∈ n.contents, world.Settled s' v := by
    intro node n hn hsettled
    cases hsettled with
    | leaf hleaf => exact absurd rfl (hleaf node)
    | seen hseen =>
      obtain hbefore | ⟨m, hm, hadmits⟩ := h.whole node hseen
      · exact absurd (hstart node) hbefore
      · cases hn.symm.trans hm
        exact hadmits
    | whole hm hadmits hcontents =>
      cases hn.symm.trans hm
      exact ⟨hadmits, hcontents⟩
  -- By induction on the way all that is on it is settled.
  have hway : ∀ asked u, world.graph.Visits v asked u → world.Settled s' u := by
    intro asked u hu
    induction hu with
    | root => exact hv
    | inside _ hn _ hu ih => exact (hwhole hn ih).2 _ hu
    | @replaced _ n _ _ hn hr ih =>
      -- No value takes the place of a dynamic object.
      cases n with
      | object o =>
        obtain ⟨d, rfl⟩ := hdynamic _ o hn
        cases hr
      | _ => cases hr
  intro asked u hu
  have hsettled := hway asked u hu
  cases hsettled with
  | leaf _ hadmits => exact hadmits
  | @seen node hseen =>
    obtain hbefore | ⟨m, hm, hadmits, -⟩ := h.whole node hseen
    · exact absurd (hstart node) hbefore
    · exact ⟨m, hm, hadmits⟩
  | whole hn hadmits => exact ⟨_, hn, hadmits⟩

end Completes

section

variable (world) {σ α β : Type} (view : σ → Session)

/-- The action finds out whether a condition holds and whether there is anything wrong with these values.  If
    it ends well, the one holds and the others are settled; if it stops, one of that is not so, or the write
    runs over. -/
def Checks (P : Prop) (vs : List Value) (x : Action σ α) : Prop :=
  ∀ s, WriteM.Serves world (view s) → x.EnsuresIn
    (fun e s' => e.RunsOver (view s').growth ∨ ¬ P ∨ ∃ v ∈ vs, ¬ world.Sound v)
    (fun _ s' => world.Completes (view s) (view s') ∧ P ∧ ∀ v ∈ vs, world.Settled (view s') v) s

namespace Checks

variable {world view} {P P' : Prop} {vs vs' : List Value} {x : Action σ α} {f : α → Action σ β}

/-- An action that finds out nothing. -/
theorem of_steady (hstops : RunsOver (fun s => (view s).growth) x)
    (hsteady : ∀ {s a s'}, x.Yields s a s' → (view s).Steady (view s')) :
    world.Checks view True [] x :=
  fun s _ => ⟨fun h => ⟨.of_steady (hsteady h), trivial, nofun⟩, (hstops s).mono fun _ _ => .inl⟩

/-- Conditions that say the same can stand for each other. -/
theorem congr (h : world.Checks view P vs x) (hP : P ↔ P') : world.Checks view P' vs x :=
  propext hP ▸ h

/-- One action behind another finds out what both find out. -/
theorem bind (hx : world.Checks view P vs x) (hf : ∀ a, world.Checks view P' vs' (f a)) :
    world.Checks view (P ∧ P') (vs ++ vs') (x >>= f) := by
  intro s hs
  -- What stops the first action stops both, and what it finds out otherwise is left to the second.
  refine ((hx s hs).weaken fun {e s'} he => ?_).bind fun {a s₁} h₁ => ?_
  · obtain hover | hP | ⟨v, hv, hflaw⟩ := he
    · exact .inl hover
    · exact .inr (.inl fun h => hP h.1)
    · exact .inr (.inr ⟨v, List.mem_append_left _ hv, hflaw⟩)
  · obtain ⟨hcompletes, hP, hsettled⟩ := h₁
    constructor
    · intro b s' hb
      obtain ⟨hcompletes', hP', hsettled'⟩ := (hf a s₁ (hcompletes.serves hs)).result hb
      exact ⟨hcompletes.trans hcompletes', ⟨hP, hP'⟩, List.forall_mem_append.mpr
        ⟨fun v hv => (hsettled v hv).mono hcompletes'.seen, hsettled'⟩⟩
    · refine (hf a s₁ (hcompletes.serves hs)).stops.mono fun e s' he => ?_
      obtain hover | hP' | ⟨v, hv, hflaw⟩ := he
      · exact .inl hover
      · exact .inr (.inl fun h => hP' h.2)
      · exact .inr (.inr ⟨v, List.mem_append_right _ hv, hflaw⟩)

/-- What an action ensures that finds out nothing. -/
theorem quiet (h : world.Checks view True [] x) {s : σ} (hs : WriteM.Serves world (view s)) :
    x.EnsuresIn (fun e s' => e.RunsOver (view s').growth)
      (fun _ s' => world.Completes (view s) (view s')) s := by
  refine ((h s hs).weaken fun he => ?_).mono And.left
  obtain hover | hfalse | ⟨v, hv, -⟩ := he
  · exact hover
  · exact absurd trivial hfalse
  · cases hv

/-- What an action ensures that finds out about one value. -/
theorem one_iff {v : Value} : world.Checks view True [v] x ↔
    ∀ s, WriteM.Serves world (view s) → x.EnsuresIn
      (fun e s' => e.RunsOver (view s').growth ∨ ¬ world.Sound v)
      (fun _ s' => world.Completes (view s) (view s') ∧ world.Settled (view s') v) s := by
  refine forall₂_congr fun s hs => ⟨fun h => ?_, fun h => ?_⟩
  · refine (h.weaken fun he => ?_).mono fun h => ⟨h.1, h.2.2 v (List.mem_singleton_self v)⟩
    obtain hover | hfalse | ⟨u, hu, hflaw⟩ := he
    · exact .inl hover
    · exact absurd trivial hfalse
    · obtain rfl := List.mem_singleton.mp hu
      exact .inr hflaw
  · refine (h.weaken fun he => ?_).mono fun h => ⟨h.1, trivial, List.forall_mem_singleton.mpr h.2⟩
    exact he.imp_right fun hflaw => .inr ⟨v, List.mem_singleton_self v, hflaw⟩

/-- An action that finds out nothing, before another one. -/
theorem before (hx : world.Checks view True [] x) (hf : ∀ a, world.Checks view P vs (f a)) :
    world.Checks view P vs (x >>= f) := (hx.bind hf).congr (Iff.of_eq (true_and P))

/-- An action that finds out nothing, behind another one. -/
theorem behind (hx : world.Checks view P vs x) (hf : ∀ a, world.Checks view True [] (f a)) :
    world.Checks view P vs (x >>= f) := by
  have h := (hx.bind hf).congr (Iff.of_eq (and_true P))
  rwa [List.append_nil] at h

theorem pure (a : α) : world.Checks view True [] (pure a : Action σ α) := by
  refine of_steady (.pure a) fun h => ?_
  obtain ⟨-, rfl⟩ := (yields_pure ..).mp h
  exact ⟨rfl, rfl, .refl _⟩

theorem read (f : σ → α) : world.Checks view True [] (Action.read f) := by
  refine of_steady (.read f) fun h => ?_
  obtain ⟨-, rfl⟩ := (yields_read ..).mp h
  exact ⟨rfl, rfl, .refl _⟩

/-- A length that is too much is a slip of this one write, and nothing was found out. -/
theorem length (what : String) (n : Nat) :
    world.Checks view True [] (ofExcept (wireLength what n) : Action σ Int32) := by
  refine of_steady (.length what n) fun h => ?_
  obtain ⟨-, rfl⟩ := (yields_ofExcept ..).mp h
  exact ⟨rfl, rfl, .refl _⟩

theorem update {f : σ → σ} (hf : ∀ s, (view s).Steady (view (f s))) :
    world.Checks view True [] (Action.update f) := by
  refine of_steady (.update f) fun {s _ s'} h => ?_
  obtain rfl := (yields_update ..).mp h
  exact hf s

/-- A loop finds out what its turns find out. -/
theorem forEach {f : α → Action σ Unit} {P : α → Prop} {vs : α → List Value} {as : List α}
    (h : ∀ a ∈ as, world.Checks view (P a) (vs a) (f a)) :
    world.Checks view (∀ a ∈ as, P a) (as.flatMap vs) (Action.forEach f as) := by
  induction as with
  | nil => exact (pure ()).congr ⟨fun _ => nofun, fun _ => trivial⟩
  | cons a as ih =>
    obtain ⟨ha, has⟩ := List.forall_mem_cons.mp h
    rw [List.flatMap_cons]
    exact (ha.bind fun _ => ih has).congr List.forall_mem_cons.symm

end Checks

end

end World

namespace WriteM

open World

variable {world : World} {α : Type}

/-- An action that runs alike in any two sessions side by side, and stops only where it runs over. -/
theorem checks_of_mirrors {x : WriteM α} (hstops : RunsOver Session.growth x)
    (hx : ∀ {P : Pairing}, TypeService.Mirrored (fun _ => False) P.service →
      Mirrors (fun _ => False) (Session.Beside P) x x) : world.Checks id True [] x :=
  .of_steady hstops (steady_of_mirrors hx)

/-- On the tape there is nothing to find out. -/
theorem checks_onTape {x : Action Tape α} (hstops : RunsOver Tape.growth x) :
    world.Checks id True [] (onTape x) :=
  checks_of_mirrors (over_onTape hstops) fun _ => mirrors_onTape x

theorem checks_writeWord [Word α] (a : α) : world.Checks id True [] (onTape (Tape.writeWord a)) :=
  checks_onTape (Tape.over_write _)

theorem checks_tagged (tag : Tag) (payload : Bytes) :
    world.Checks id True [] (onTape (Encode.tagged tag payload)) :=
  checks_onTape (Encode.over_tagged _ _)

/-- There is nothing wrong with a value without a type. -/
theorem checks_writePlain (v : Plain) : world.Checks id True [] (writePlain v) :=
  checks_of_mirrors (over_writePlain v) fun hV => mirrors_writePlain hV v

theorem checks_writeCount (what : String) (count : Nat) :
    world.Checks id True [] (writeCount what count) :=
  (Checks.length what count).before fun _ => checks_writeWord _

/-- The options in force are those of the world. -/
theorem checks_config {P : Prop} {vs : List Value} {f : Config → WriteM α}
    (hf : ∀ config, config.failIfUnregistered = world.strict → world.Checks id P vs (f config)) :
    world.Checks id P vs (config >>= f) := by
  intro s hs
  have hstrict : s.service.config.failIfUnregistered = world.strict :=
    congrArg Config.failIfUnregistered hs.service.config
  exact .of_run (run_read_bind ..) (hf s.service.config hstrict s hs)

/-- A name resolves, or it is not one that does. -/
theorem checks_resolve (name : String) (kind : TypeKind) (strict : Bool) :
    world.Checks id (world.Resolves strict name) []
      (onService (TypeService.resolve name kind strict)) := by
  intro s hs
  have htypes : s.service.registry.types = world.service.registry.types := hs.service.registry.types
  constructor
  · intro resolved s' h
    have hsteady : Session.Steady s s' := steady_of_mirrors (fun hV => mirrors_resolve hV _ _ _) h
    refine ⟨.of_steady hsteady, ?_, nofun⟩
    obtain ⟨service, hservice, rfl⟩ := (yields_onService ..).mp h
    obtain ⟨r, hr, rfl⟩ := (TypeService.yields_onRegistry ..).mp hservice
    rw [Resolves, ← htypes]
    exact Registry.resolve_yields hr
  · refine .part (fun service => { s with service }) rfl
      (.part (fun registry => { s.service with registry }) rfl fun e r h => .inr (.inl ?_))
    obtain ⟨-, hnone, hrefused⟩ := Registry.resolve_error h
    rintro (hsome | ⟨hlenient, hid⟩)
    · rw [← htypes] at hsome
      cases hnone ▸ hsome
    · -- Only a name without an id is refused where types need not be registered.
      rw [hlenient] at h
      cases h.symm.trans (Registry.resolve_derived hnone hid)

end WriteM

end ObjectWire
