import ObjectWire.Proofs.NodeStops

/-!
# Writes side by side

`Mirrors E R x y` compares two actions from states in the relation `R`: either the first one stops for a
reason that `E` excuses, or both end in the same way, with one result or one reason to stop, and in states
that are in the relation again.  It goes through all ways in which actions are composed.

What is compared here is one write in two sessions with the same tape and the same handles
(`Session.Beside`); a `Pairing` says what more is asked of them.  `TypeService.Mirrored` collects what a writer
asks of its service, and what the answers have to agree on; `WriteM.mirrors_writeDepth` says that nothing
else matters, for values of dynamic objects.  The two writes may also differ in the depth to which values
may be nested, and the second one may mark the nodes that it enters (`WriteM.mirrors_markedNode`).
-/

namespace ObjectWire

namespace Action

variable {σ τ α β : Type}

/-- One run stopped for an excused reason, or both runs ended in the same way and in related states. -/
def Matches (E : Stop → Prop) (R : σ → τ → Prop) (a : Except Stop α × σ) (b : Except Stop α × τ) : Prop :=
  (∃ e, a.1 = .error e ∧ E e) ∨ b.1 = a.1 ∧ R a.2 b.2

/-- Runs from related states match. -/
def Mirrors (E : Stop → Prop) (R : σ → τ → Prop) (x : Action σ α) (y : Action τ α) : Prop :=
  ∀ ⦃s t⦄, R s t → Matches E R (x s) (y t)

namespace Mirrors

variable {E : Stop → Prop} {R : σ → τ → Prop}

theorem pure (a : α) : Mirrors E R (pure a) (pure a) := fun _ _ h => .inr ⟨rfl, h⟩

theorem stop (e : Stop) : Mirrors E R (stop e : Action σ α) (stop e) := fun _ _ h => .inr ⟨rfl, h⟩

/-- A first action that stops for an excused reason matches anything. -/
theorem excused {e : Stop} (he : E e) (y : Action τ α) : Mirrors E R (Action.stop e : Action σ α) y :=
  fun _ _ _ => .inl ⟨e, rfl, he⟩

theorem ofExcept (r : Except Error α) : Mirrors E R (ofExcept r : Action σ α) (ofExcept r) :=
  fun _ _ h => .inr ⟨rfl, h⟩

/-- What is read from related states has to be the same. -/
theorem read {f : σ → α} {g : τ → α} (hfg : ∀ ⦃s t⦄, R s t → g t = f s) :
    Mirrors E R (read f) (read g) := fun _ _ h => .inr ⟨congrArg Except.ok (hfg h), h⟩

/-- Related states have to be changed into related ones. -/
theorem update {f : σ → σ} {g : τ → τ} (hfg : ∀ ⦃s t⦄, R s t → R (f s) (g t)) :
    Mirrors E R (update f) (update g) := fun _ _ h => .inr ⟨rfl, hfg h⟩

/-- Only what follows a result of the first action has to match. -/
theorem bind_at {x : Action σ α} {y : Action τ α} {f : α → Action σ β} {g : α → Action τ β} {s : σ}
    {t : τ} (hxy : Matches E R (x s) (y t))
    (hfg : ∀ {a s₁ t₁}, x.Yields s a s₁ → R s₁ t₁ → Matches E R (f a s₁) (g a t₁)) :
    Matches E R ((x >>= f) s) ((y >>= g) t) := by
  show Matches E R ((x >>= f).run s) ((y >>= g).run t)
  rw [run_bind, run_bind]
  have hparts : Matches E R (x.run s) (y.run t) := hxy
  -- The second action runs only if the first one had a result, and then on both sides.
  cases hrun : x.run s with
  | mk result s₁ =>
    rw [hrun] at hparts
    generalize y.run t = second at hparts ⊢
    obtain ⟨result', t₁⟩ := second
    obtain ⟨e, rfl, he⟩ | ⟨hresult, h₁⟩ := hparts
    · exact .inl ⟨e, rfl, he⟩
    · obtain rfl : result' = result := hresult
      cases result' with
      | error e => exact .inr ⟨rfl, h₁⟩
      | ok a => exact hfg hrun h₁

/-- Actions that match are followed by actions that match, whatever the result. -/
theorem bind {x : Action σ α} {y : Action τ α} {f : α → Action σ β} {g : α → Action τ β}
    (hxy : Mirrors E R x y) (hfg : ∀ a, Mirrors E R (f a) (g a)) :
    Mirrors E R (x >>= f) (y >>= g) := fun _ _ h => bind_at (hxy h) fun _ h₁ => hfg _ h₁

/-- What is read off the two states may differ, if what comes of it matches. -/
theorem readBind {γ δ : Type} {f : σ → γ} {g : τ → δ} {k : γ → Action σ β} {l : δ → Action τ β}
    (hkl : ∀ ⦃s t⦄, R s t → Matches E R (k (f s) s) (l (g t) t)) :
    Mirrors E R (Action.read f >>= k) (Action.read g >>= l) := hkl

/-- Loops over one list match if their turns do. -/
theorem forEach {f : α → Action σ Unit} {g : α → Action τ Unit} {as : List α}
    (hfg : ∀ a ∈ as, Mirrors E R (f a) (g a)) : Mirrors E R (forEach f as) (forEach g as) := by
  induction as with
  | nil => exact .pure ()
  | cons a as ih =>
    obtain ⟨ha, has⟩ := List.forall_mem_cons.mp hfg
    exact ha.bind fun _ => ih has

/-- A failure that is swallowed is one in both runs, if none is excused. -/
theorem attempt {x : Action σ α} {y : Action τ α} (hxy : Mirrors (fun _ => False) R x y) :
    Mirrors (fun _ => False) R (attempt x) (attempt y) := by
  intro s t h
  have hruns := hxy h
  unfold Action.attempt
  generalize x s = first at hruns ⊢
  generalize y t = second at hruns ⊢
  obtain ⟨result, s₁⟩ := first
  obtain ⟨result', t₁⟩ := second
  obtain ⟨_, -, hfalse⟩ | ⟨hresult, h₁⟩ := hruns
  · exact hfalse.elim
  · -- Both sides have the same result, and what is swallowed of it on one side is so on the other.
    obtain rfl : result' = result := hresult
    obtain (e | e) | a := result'
    all_goals exact .inr ⟨rfl, h₁⟩

/-- An action behind another that is taken only if a condition holds. -/
theorem whenBind {c : Prop} [Decidable c] {x : Action σ Unit} {y : Action τ Unit} {k : Action σ β}
    {l : Action τ β} (hxy : Mirrors E R x y) (hkl : Mirrors E R k l) :
    Mirrors E R (if c then x >>= fun _ => k else k) (if c then y >>= fun _ => l else l) := by
  split
  · exact hxy.bind fun _ => hkl
  · exact hkl

end Mirrors

end Action

open ObjectWire.Action

namespace TypeService

/-- A service that is told a schema, unless it knows one under the id in an object's header. -/
def learn (s : TypeService) (typeId schemaId : Int32) (schema : Schema) : TypeService :=
  if s.hasSchema typeId schemaId then s else s.addSchema typeId schema

/-- All that a writer asks of its type service.  Related services agree in what no write changes, and in
    the answers, save that the first one may lack the id of a field if that is excused. -/
structure Mirrored (E : Stop → Prop) (V : TypeService → TypeService → Prop) : Prop where
  static : ∀ {a b}, V a b → b.registry.static = a.registry.static
  resolve : ∀ name kind failIfUnregistered,
    Mirrors E V (resolve name kind failIfUnregistered) (resolve name kind failIfUnregistered)
  fieldId : ∀ {a b}, V a b → ∀ typeId field, b.fieldId? typeId field = a.fieldId? typeId field ∨
    a.fieldId? typeId field = none ∧ E (.error (.unresolvedField typeId field))
  learn : ∀ {a b}, V a b → ∀ typeId schemaId schema,
    V (a.learn typeId schemaId schema) (b.learn typeId schemaId schema)

end TypeService

/-- What is asked of two sessions side by side, beyond having the same tape, the same fields and the same
    handles. -/
structure Pairing where
  /-- The nodes that both graphs have. -/
  graph : Graph
  service : TypeService → TypeService → Prop
  /-- What holds of both graphs and journals when the nodes seen so far are these. -/
  rest : (NodeId → Option Nat) → Graph × Journal → Graph × Journal → Prop

/-- Two sessions with the same tape, fields and handles. -/
structure Session.Beside (P : Pairing) (s t : Session) : Prop where
  same : t = { s with service := t.service, graph := t.graph, journal := t.journal }
  service : P.service s.service t.service
  first : P.graph.Extends s.graph
  second : P.graph.Extends t.graph
  rest : P.rest s.handles.find? (s.graph, s.journal) (t.graph, t.journal)

/-- Two objects with the same writer in such sessions. -/
structure OpenObject.Beside (P : Pairing) (o p : OpenObject) : Prop where
  writer : p.writer = o.writer
  session : o.session.Beside P p.session

variable {P : Pairing} {E : Stop → Prop}

namespace Session.Beside

variable {s t : Session} (h : s.Beside P t)

include h

/-- Only service, graph and journal may differ. -/
theorem others : ∃ service graph journal, t = { s with service, graph, journal } := ⟨_, _, _, h.same⟩

theorem tape : t.tape = s.tape := by rw [h.same]

theorem fields : t.fields = s.fields := by rw [h.same]

end Session.Beside

namespace WriteM

open Session

/-- The two tapes are the same, so whatever is done to one is done to the other. -/
theorem mirrors_onTape {α : Type} (x : Action Tape α) :
    Mirrors E (Beside P) (onTape x) (onTape x) := by
  intro s t h
  obtain ⟨service, graph, journal, rfl⟩ := h.others
  exact .inr ⟨rfl, rfl, h.service, h.first, h.second, h.rest⟩

/-- What matches between the services matches in the sessions. -/
theorem mirrors_onService {α : Type} {x : Action TypeService α} (hx : Mirrors E P.service x x) :
    Mirrors E (Beside P) (onService x) (onService x) := by
  intro s t h
  obtain ⟨service, graph, journal, rfl⟩ := h.others
  exact (hx h.service).imp id fun hsame => ⟨hsame.1, rfl, hsame.2, h.first, h.second, h.rest⟩

theorem mirrors_position : Mirrors E (Beside P) position position :=
  .read fun _ _ h => congrArg Tape.cursor h.tape

theorem mirrors_distance (start stop : Nat) :
    Mirrors E (Beside P) (distance start stop) (distance start stop) := by
  unfold distance
  split
  · exact .pure _
  · exact .stop _

/-- A back reference is made of places alone, and these agree. -/
theorem mirrors_writeBack (first here : Nat) :
    Mirrors E (Beside P) (writeBack first here) (writeBack first here) := by
  apply (mirrors_distance _ _).bind
  intro delta
  exact Mirrors.bind (.ofExcept _) fun delta => mirrors_onTape _

/-- A node that was not seen is recorded in both sessions. -/
theorem mirrors_writeOnce {node : NodeId} {x y : WriteM Unit}
    (hnew : ∀ ⦃s t⦄, s.Beside P t → s.handles.find? node = none →
      Matches E (Beside P) (x (recorded node s)) (y (recorded node t))) :
    Mirrors E (Beside P) (writeOnce node x) (writeOnce node y) := by
  intro s t h
  show Matches E (Beside P) ((writeOnce node x).run s) ((writeOnce node y).run t)
  cases hfind : s.handles.find? node with
  | none =>
    have hfind' : t.handles.find? node = none := by rw [h.same, hfind]
    rw [writeOnce_new hfind, writeOnce_new hfind']
    exact hnew h hfind
  | some first =>
    have hfind' : t.handles.find? node = some first := by rw [h.same, hfind]
    rw [writeOnce_seen hfind, writeOnce_seen hfind', h.tape]
    -- The table tells the same as before.
    have hseen : (recorded node s).handles.find? = s.handles.find? := by
      funext other
      rw [recorded, HandleTable.find?_put_snd]
      split
      · next heq => rw [← heq, hfind, Option.getD_some]
      · rfl
    obtain ⟨service, graph, journal, rfl⟩ := h.others
    exact mirrors_writeBack first s.tape.cursor ⟨rfl, h.service, h.first, h.second, hseen ▸ h.rest⟩

end WriteM

section

variable (hV : TypeService.Mirrored E P.service)

include hV

namespace WriteM

open Session

/-- Both services have the same options. -/
theorem mirrors_config : Mirrors E (Beside P) config config := by
  refine .read fun s t h => ?_
  have hconfig := congrArg Registry.config (hV.static h.service)
  exact hconfig

theorem mirrors_writePlain (v : Plain) : Mirrors E (Beside P) (writePlain v) (writePlain v) :=
  (mirrors_config hV).bind fun _ => mirrors_onTape _

/-- Both services resolve a name in the same way, or the first one is excused. -/
theorem mirrors_resolve (name : String) (kind : TypeKind) (failIfUnregistered : Bool) :
    Mirrors E (Beside P) (onService (TypeService.resolve name kind failIfUnregistered))
      (onService (TypeService.resolve name kind failIfUnregistered)) :=
  mirrors_onService (hV.resolve _ _ _)

/-- The same id is written for a type in both sessions, and the same name behind it. -/
theorem mirrors_writeTypeRef (name : String) (kind : TypeKind) (failIfUnregistered : Bool) :
    Mirrors E (Beside P) (writeTypeRef name kind failIfUnregistered)
      (writeTypeRef name kind failIfUnregistered) := by
  apply (mirrors_resolve hV _ _ _).bind
  intro resolved
  split
  · exact mirrors_onTape _
  · exact (mirrors_onTape _).bind fun _ => mirrors_writePlain hV _

omit hV in
theorem mirrors_writeCount (what : String) (count : Nat) :
    Mirrors E (Beside P) (writeCount what count) (writeCount what count) :=
  Mirrors.bind (.ofExcept _) fun _ => mirrors_onTape _

/-- An enum is its type and its ordinal. -/
theorem mirrors_writeEnum (v : EnumConstant) : Mirrors E (Beside P) (writeEnum v) (writeEnum v) := by
  apply (mirrors_config hV).bind
  intro config
  apply (mirrors_onTape _).bind
  intro _
  exact (mirrors_writeTypeRef hV _ _ _).bind fun _ => mirrors_onTape _

/-- All constants of an array are of types that both services resolve. -/
theorem mirrors_writeEnumArray (typeName : String) (items : List (Option EnumConstant)) :
    Mirrors E (Beside P) (writeEnumArray typeName items) (writeEnumArray typeName items) := by
  apply (mirrors_config hV).bind
  intro config
  apply (mirrors_onTape _).bind
  intro _
  apply (mirrors_writeTypeRef hV _ _ _).bind
  intro _
  apply (mirrors_writeCount _ _).bind
  intro _
  refine .forEach fun item _ => ?_
  cases item with
  | none => exact mirrors_onTape Encode.null
  | some v => exact mirrors_writeEnum hV v

/-- A binary enum asks its service for nothing but the encoding of a name. -/
theorem mirrors_writeBinaryEnum (v : BinaryEnum) :
    Mirrors E (Beside P) (writeBinaryEnum v) (writeBinaryEnum v) := by
  apply (mirrors_onTape _).bind
  intro _
  split
  · split
    · exact (mirrors_writePlain hV _).bind fun _ => mirrors_onTape _
    · exact Mirrors.bind (.stop _) fun _ => mirrors_onTape _
  · exact mirrors_onTape _

/-- The head of a container takes types, options and categories from its service. -/
theorem mirrors_writeHead (n : Node) : Mirrors E (Beside P) (writeHead n) (writeHead n) := by
  cases n with
  | object o => exact .pure ()
  | array componentType items =>
    apply (mirrors_config hV).bind
    intro config
    apply (mirrors_onTape _).bind
    intro _
    exact (mirrors_writeTypeRef hV _ _ _).bind fun _ => mirrors_writeCount _ _
  | collection typeName items =>
    refine Mirrors.bind (.ofExcept _) fun size => ?_
    refine Mirrors.bind (.read fun s t h => ?_) fun kind => mirrors_onTape _
    -- The kind is among what never differs between the two services.
    have hkind := congrArg (Registry.collectionKind · typeName) (hV.static h.service)
    exact hkind
  | map typeName entries =>
    refine Mirrors.bind (.ofExcept _) fun size => ?_
    refine Mirrors.bind (.read fun s t h => ?_) fun kind => mirrors_onTape _
    have hkind := congrArg (Registry.mapKind · typeName) (hV.static h.service)
    exact hkind
  | proxy interfaces handler =>
    apply (mirrors_config hV).bind
    intro config
    apply (mirrors_onTape _).bind
    exact fun _ => .forEach fun _ _ => mirrors_writeTypeRef hV _ _ _

/-- Whether the type of an object must be registered is one of the options. -/
theorem mirrors_resolveObject (o : UserObject) :
    Mirrors E (Beside P) (resolveObject o) (resolveObject o) :=
  (mirrors_config hV).bind fun _ => mirrors_resolve hV _ _ _

end WriteM

namespace ObjectM

open OpenObject

omit hV in
/-- Writers in related sessions go on in the same way. -/
theorem mirrors_inSession {α : Type} {x y : WriteM α} (hxy : Mirrors E (Session.Beside P) x y) :
    Mirrors E (Beside P) (inSession x) (inSession y) := by
  intro o p h
  exact (hxy h.session).imp id fun hsame => ⟨hsame.1, h.writer, hsame.2⟩

omit hV in
theorem mirrors_writer : Mirrors E (Beside P) writer writer := .read fun _ _ h => h.writer

omit hV in
theorem mirrors_updateWriter (f : ObjectWriter → ObjectWriter) :
    Mirrors E (Beside P) (updateWriter f) (updateWriter f) :=
  .update fun _ _ h => ⟨congrArg f h.writer, h.session⟩

omit hV in
/-- Whether a field is refused depends on the writer, the field stack and the cursor, and all these
    agree. -/
theorem mirrors_pushField (id : Int32) (fold : Bool) :
    Mirrors E (Beside P) (pushField id fold) (pushField id fold) := by
  refine mirrors_writer.bind fun w => .whenBind (.stop _) ?_
  refine Mirrors.bind (.read fun o p h => ?_) fun known => .whenBind (.stop _) ?_
  · rw [h.session.fields]
  -- The object starts at the same place, so the field is as far behind its start.
  have hoffset : Mirrors E (Beside P)
      (inSession (do WriteM.distance w.start (← WriteM.position)))
      (inSession (do WriteM.distance w.start (← WriteM.position))) :=
    mirrors_inSession (WriteM.mirrors_position.bind fun _ => WriteM.mirrors_distance _ _)
  refine hoffset.bind fun offset => .whenBind (.stop _) ?_
  refine Mirrors.bind (.update fun o p h => ⟨h.writer, ?_, h.session.service, h.session.first,
    h.session.second, h.session.rest⟩) fun _ =>
    mirrors_updateWriter _
  rw [h.session.same]

/-- A field may lack its id in the first session only if that is excused. -/
theorem mirrors_beginField (name : String) :
    Mirrors E (Beside P) (beginField name) (beginField name) := by
  refine mirrors_writer.bind fun w => .whenBind (.stop _) ?_
  refine .readBind fun o p h => ?_
  obtain hid | ⟨hnone, hexcused⟩ := hV.fieldId h.session.service w.typeId name
  · rw [hid]
    cases o.session.service.fieldId? w.typeId name with
    | none => exact .inr ⟨rfl, h⟩
    | some id => exact mirrors_pushField id true h
  · -- The first session has no id for the field although the second one has.
    rw [hnone]
    exact .inl ⟨_, rfl, hexcused⟩

omit hV in
theorem mirrors_enterRaw : Mirrors E (Beside P) enterRaw enterRaw :=
  (mirrors_inSession WriteM.mirrors_position).bind fun _ => mirrors_updateWriter _

end ObjectM

namespace ObjectWriter

open Session WriteM

/-- An object is begun at the same place in both sessions, and takes the same room. -/
theorem mirrors_begin (typeId : Int32) (inlineName : Option String) :
    Mirrors E (Beside P) (begin typeId inlineName) (begin typeId inlineName) := by
  apply mirrors_position.bind
  intro start
  apply (mirrors_onTape _).bind
  intro _
  apply (mirrors_onTape _).bind
  intro _
  cases inlineName with
  | none => exact mirrors_position.bind fun _ => .pure _
  | some name => exact (mirrors_writePlain hV _).bind fun _ => mirrors_position.bind fun _ => .pure _

omit hV in
theorem mirrors_relative (w : ObjectWriter) (position : Nat) :
    Mirrors E (Beside P) (w.relative position) (w.relative position) :=
  (mirrors_distance _ _).bind fun _ => .ofExcept _

omit hV in
/-- The footer is made from the field stack, which is the same in both sessions. -/
theorem mirrors_writeEnding (w : ObjectWriter) (compact : Bool) :
    Mirrors E (Beside P) (w.writeEnding compact) (w.writeEnding compact) := by
  unfold writeEnding
  split
  · apply mirrors_position.bind
    intro here
    apply (mirrors_relative w _).bind
    intro offset
    refine Mirrors.bind (.read fun s t h => h.fields) fun fields => ?_
    apply (mirrors_onTape _).bind
    intro width
    split
    · exact (mirrors_relative w _).bind fun _ => (mirrors_onTape _).bind fun _ => .pure _
    · exact .pure _
  · split
    · exact (mirrors_relative w _).bind fun _ => .pure _
    · exact .pure _

omit hV in
/-- To register the schema of an object is to have the service learn it. -/
theorem registerSchema_eq (w : ObjectWriter) (schemaId : Int32) :
    w.registerSchema schemaId = Action.update fun s =>
      { s with service := s.service.learn w.typeId schemaId (s.fields.schema w.fieldCount) } := by
  unfold registerSchema TypeService.learn
  congr 1
  funext s
  split <;> rfl

/-- Either service may know the schema already. -/
theorem mirrors_registerSchema (w : ObjectWriter) (schemaId : Int32) :
    Mirrors E (Beside P) (w.registerSchema schemaId) (w.registerSchema schemaId) := by
  rw [registerSchema_eq]
  refine .update fun s t h => ?_
  obtain ⟨service, graph, journal, rfl⟩ := h.others
  exact ⟨rfl, hV.learn h.service _ _ _, h.first, h.second, h.rest⟩

omit hV in
/-- The hash is taken from the bytes on the tape. -/
theorem mirrors_writeHash (w : ObjectWriter) (dataEnd : Nat) :
    Mirrors E (Beside P) (w.writeHash dataEnd) (w.writeHash dataEnd) := by
  refine Mirrors.bind (.read fun s t h => ?_) fun data => ?_
  · rw [h.tape]
  · cases data with
    | none => exact .stop _
    | some data => exact mirrors_onTape _

/-- An object is finished in the same way in both sessions, even if only one has to learn its schema. -/
theorem mirrors_finish (w : ObjectWriter) (userType : Bool) :
    Mirrors E (Beside P) (w.finish userType) (w.finish userType) := by
  apply (mirrors_config hV).bind
  intro config
  apply mirrors_position.bind
  intro dataEnd
  apply (mirrors_writeEnding w _).bind
  intro ending
  apply mirrors_position.bind
  intro stop
  apply (mirrors_relative w _).bind
  intro totalLength
  apply (mirrors_onTape _).bind
  intro _
  exact .whenBind (mirrors_registerSchema hV w _) (.whenBind (mirrors_writeHash w _) (.pure _))

omit hV in
/-- Sessions that differ in service, graph and journal do so without the fields of the object too. -/
theorem beside_release {w : ObjectWriter} {s t : Session} (h : s.Beside P t) :
    (w.release s).Beside P (w.release t) := by
  obtain ⟨service, graph, journal, rfl⟩ := h.others
  exact ⟨rfl, h.service, h.first, h.second, h.rest⟩

end ObjectWriter

namespace WriteM

open Session

/-- However both writes of an object end, its fields come off both stacks. -/
theorem mirrors_writeFramed {typeId : Int32} {inlineName : Option String} {x y : ObjectM Unit}
    {userType : Bool} (hxy : Mirrors E (OpenObject.Beside P) x y) :
    Mirrors E (Beside P) (writeFramed typeId inlineName x (some userType))
      (writeFramed typeId inlineName y (some userType)) := by
  refine (ObjectWriter.mirrors_begin hV _ _).bind fun w s t h => ?_
  have hbody := hxy (s := ⟨w, s⟩) (t := ⟨w, t⟩) ⟨rfl, h⟩
  simp only
  -- Both bodies have come to an end, and so will both objects, in the same way.
  generalize x ⟨w, s⟩ = first at hbody ⊢
  generalize y ⟨w, t⟩ = second at hbody ⊢
  obtain ⟨result, writer, s₁⟩ := first
  obtain ⟨result', writer', t₁⟩ := second
  obtain ⟨e, rfl, he⟩ | ⟨hresult, h₁⟩ := hbody
  · exact .inl ⟨e, rfl, he⟩
  · obtain rfl : result' = result := hresult
    obtain rfl : writer' = writer := h₁.writer
    cases result' with
    | error e => exact .inr ⟨rfl, ObjectWriter.beside_release h₁.session⟩
    | ok u =>
      have hfinish := ObjectWriter.mirrors_finish hV writer' userType h₁.session
      simp only
      generalize writer'.finish userType s₁ = first at hfinish ⊢
      generalize writer'.finish userType t₁ = second at hfinish ⊢
      obtain ⟨result, s₂⟩ := first
      obtain ⟨result', t₂⟩ := second
      obtain ⟨e, rfl, he⟩ | ⟨hresult, h₂⟩ := hfinish
      · exact .inl ⟨e, rfl, he⟩
      · obtain rfl : result' = result := hresult
        cases result' with
        | error e => exact .inr ⟨rfl, ObjectWriter.beside_release h₂⟩
        | ok written => exact .inr ⟨rfl, ObjectWriter.beside_release h₂⟩

section

variable {rec rec' : Value → WriteM Unit}

/-- A container matches if the values inside it do. -/
theorem mirrors_writeContents {n : Node} (hrec : ∀ v ∈ n.values, Mirrors E (Beside P) (rec v) (rec' v)) :
    Mirrors E (Beside P) (writeContents rec n) (writeContents rec' n) :=
  (mirrors_writeHead hV n).bind fun _ => .forEach hrec

/-- An object of fields matches if the values of these do. -/
theorem mirrors_writeBody {node : NodeId} {d : DynamicObject}
    (hrec : ∀ v ∈ (Node.object (.dynamic d)).values, Mirrors E (Beside P) (rec v) (rec' v)) :
    Mirrors E (OpenObject.Beside P) (writeBody rec node (.dynamic d)) (writeBody rec' node (.dynamic d)) := by
  refine Mirrors.bind (.forEach fun field hmem => ?_) fun _ => ?_
  · apply (ObjectM.mirrors_beginField hV field.1).bind
    exact fun _ => ObjectM.mirrors_inSession (hrec field.2 (List.mem_map_of_mem hmem))
  · split
    · exact ObjectM.mirrors_enterRaw.bind fun _ => ObjectM.mirrors_inSession (mirrors_onTape _)
    · exact .pure ()

/-- A node of dynamic objects is written the same way twice, the second time with marks, if the values
    inside it are. -/
theorem mirrors_markedNode (hdynamic : P.graph.Dynamic) {mark : WriteM Unit → WriteM Unit} {node : NodeId}
    {n : Node} (hn : P.graph.node? node = some n)
    (hmark : ∀ {x y}, Mirrors E (Beside P) x y → ∀ ⦃s t⦄, s.Beside P t → s.handles.find? node = none →
      Matches E (Beside P) (x (recorded node s)) (mark y (recorded node t)))
    (hrec : ∀ v ∈ n.values, Mirrors E (Beside P) (rec v) (rec' v)) :
    Mirrors E (Beside P) (writeNode rec node n) (markedNode mark rec' node n) := by
  have hcontents := mirrors_writeContents hV hrec
  -- No object of the graph asks for a replacement, so a node is what `writeNode_eq` says.
  rw [writeNode_eq rec node fun o ho => hdynamic node o (ho ▸ hn)]
  cases n with
  | object o =>
    obtain ⟨d, rfl⟩ := hdynamic node o hn
    refine (mirrors_resolveObject hV _).bind fun resolved => mirrors_writeOnce (hmark ?_)
    exact (mirrors_writeFramed hV (mirrors_writeBody hV hrec)).bind fun _ => .pure ()
  | array componentType items => exact mirrors_writeOnce (hmark hcontents)
  | collection typeName items => exact mirrors_writeOnce (hmark hcontents)
  | map typeName entries => exact mirrors_writeOnce (hmark hcontents)
  | proxy interfaces handler => exact hcontents

/-- So is a node without marks, if it does not matter which nodes were seen. -/
theorem mirrors_writeNode (hdynamic : P.graph.Dynamic)
    (hseen : ∀ {seen seen' a b}, P.rest seen a b → P.rest seen' a b) {node : NodeId} {n : Node}
    (hn : P.graph.node? node = some n) (hrec : ∀ v ∈ n.values, Mirrors E (Beside P) (rec v) (rec' v)) :
    Mirrors E (Beside P) (writeNode rec node n) (writeNode rec' node n) := by
  rw [writeNode_eq rec' node fun o ho => hdynamic node o (ho ▸ hn)]
  -- Without marks both sessions record the node alike.
  refine mirrors_markedNode hV hdynamic hn (fun hxy s t h _ => ?_) hrec
  obtain ⟨service, graph, journal, rfl⟩ := h.others
  exact hxy ⟨rfl, h.service, h.first, h.second, hseen h.rest⟩

omit hV in
/-- A reference is written as the node that it leads to. -/
theorem mirrors_ref {node : NodeId} {n : Node} {f f' : Node → WriteM Unit}
    (hn : P.graph.node? node = some n) (hf : Mirrors E (Beside P) (f n) (f' n)) :
    Mirrors E (Beside P)
      (Action.read (·.graph.node? node) >>= fun
        | some n => f n
        | none => Action.stop .outOfRange)
      (Action.read (·.graph.node? node) >>= fun
        | some n => f' n
        | none => Action.stop .outOfRange) := by
  refine .readBind fun s t h => ?_
  rw [h.first node n hn, h.second node n hn]
  exact hf h

/-- A value that refers to no node has none inside it. -/
theorem mirrors_leaf {v : Value} (hleaf : ∀ node, v ≠ .ref node) :
    Mirrors E (Beside P) (writeWith rec v) (writeWith rec' v) := by
  cases v with
  | plain v => exact mirrors_writePlain hV v
  | enum v => exact mirrors_writeEnum hV v
  | enumArray typeName items => exact mirrors_writeEnumArray hV typeName items
  | binaryEnum v => exact mirrors_writeBinaryEnum hV v
  | classRef typeName => exact (mirrors_onTape _).bind fun _ => mirrors_writeTypeRef hV _ _ _
  | ref node => exact absurd rfl (hleaf node)

end

/-- Over two related services a value of dynamic objects is written the same way.  Where the second write
    may nest values deeper, the first one may stop for that. -/
theorem mirrors_writeDepth (hdynamic : P.graph.Dynamic) (hclosed : P.graph.Closed)
    (hseen : ∀ {seen seen' a b}, P.rest seen a b → P.rest seen' a b) {depth depth' : Nat}
    (hdepth : depth = depth' ∨ depth ≤ depth' ∧ E .tooDeep) {v : Value} (hv : P.graph.Has v) :
    Mirrors E (Beside P) (writeDepth depth v) (writeDepth depth' v) := by
  -- Values inside a node are nested one level deeper on both sides, which carries the induction.
  induction depth generalizing depth' v with
  | zero =>
    obtain rfl | ⟨-, hdeep⟩ := hdepth
    · exact .stop _
    · exact .excused hdeep _
  | succ depth ih =>
    obtain ⟨deeper, rfl⟩ : ∃ deeper, depth' = deeper + 1 :=
      Nat.exists_eq_add_one.mpr (by omega)
    have hdepth' : depth = deeper ∨ depth ≤ deeper ∧ E .tooDeep :=
      hdepth.imp Nat.succ.inj fun h => ⟨Nat.le_of_succ_le_succ h.1, h.2⟩
    cases v with
    | ref node =>
      obtain ⟨n, hn⟩ := hv.node?
      have hvalues := hclosed.values hn
      exact mirrors_ref hn (mirrors_writeNode hV hdynamic hseen hn fun w hw => ih hdepth' (hvalues w hw))
    | _ => exact mirrors_leaf hV nofun

end WriteM

end

end ObjectWire
