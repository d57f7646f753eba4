import Mathlib.Data.List.Dedup
import ObjectWire.Proofs.Histories
import ObjectWire.Proofs.Ledger
import ObjectWire.Proofs.Stability

/-!
# What becomes of cached schemas

Schemas reach a registry from two sides: they are added by calls, and by the objects that writes finish,
however deep inside and whether the write as a whole succeeds or not.  Both sides come together in the
history of a type service (`TypeService.used`).  The history has a ledger of its own
(`TypeService.entered`), the schemas are its sum (`TypeService.schemas_used`), and so what one entry does to
the schemas is what the history does.
-/

namespace ObjectWire

open ObjectWire.Action

/-- The ids that a schema was added under, if it was. -/
def Finished.key? (f : Finished) : Option (Int32 × Int32) :=
  if f.added then some (f.typeId, f.schema.id) else none

namespace TypeService

/-- A use of a type service. -/
inductive Use where
  /-- A call on the registry. -/
  | call (c : Registry.Call)
  /-- A value is written. -/
  | write (c : RootCall)
  /-- Calls on a session, some of them on the writers of objects. -/
  | session (s : Session) (ops : List SessionOp)

namespace Use

/-- What a use leaves of a type service, whether it succeeds or not. -/
def after (service : TypeService) : Use → TypeService
  | .call c => { service with registry := c.after service.registry }
  | .write c => c.after service
  | .session s ops => (WriteM.runProgram ops { s with service }).2.service

/-- The ledger of a use, the latest entry first: all objects that it finishes. -/
def entries (service : TypeService) : Use → List Finished
  | .call (.addSchema typeId schema) => [⟨typeId, schema, true⟩]
  | .call _ => []
  | .write c => (RecordM.writeValue c.value (c.start service, [])).2.2
  | .session s ops => (RecordM.runSessionOps RecordM.writeValue ops ({ s with service }, [])).2.2

/-- A recorded run enters what the run itself adds. -/
theorem schemas_recorded {x : WriteM Unit} {y : RecordM Session Unit} {s : Session}
    (h : WriteM.Recorded s.service.registry.schemas x y) :
    (x s).2.service.registry.schemas =
      (y (s, [])).2.2.foldr Finished.file s.service.registry.schemas := by
  have hstart : Books s.service.registry.schemas (·.service) s (s, []) := ⟨rfl, rfl⟩
  obtain ⟨ledger, hrun, hfiled⟩ := RecordM.eq_of_matches (h hstart)
  rw [hrun]
  exact hfiled

/-- The schemas after a use are those from before it with the ledger's added. -/
theorem schemas_after (use : Use) (service : TypeService) :
    (use.after service).registry.schemas =
      (use.entries service).foldr Finished.file service.registry.schemas := by
  -- A call files at most the schema that it names; a write files what its ledger holds.
  cases use with
  | call c =>
    cases c with
    | register name =>
      show (Registry.register name service.registry).2.schemas = _
      rw [Registry.register_state]
      cases Registry.derivedId name <;> rfl
    | resolve name kind failIfUnregistered =>
      exact Registry.untaught_resolve name kind failIfUnregistered service.registry
    | _ => rfl
  | write c =>
    rw [after, RootCall.after_eq, schemas_recorded (RecordM.recorded_writeValue c.value), c.service_start]
    rfl
  | session s ops =>
    exact schemas_recorded
      (RecordM.recorded_runSessionOps WriteM.keeps_writeValue RecordM.recorded_writeValue ops)

end Use

/-- A type service after some uses. -/
def used (service : TypeService) (uses : List Use) : TypeService := uses.foldl Use.after service

/-- The ledger of some uses, the latest entry first. -/
def entered (service : TypeService) : List Use → List Finished
  | [] => []
  | use :: uses => entered (use.after service) uses ++ use.entries service

/-- The ids of all schemas that some uses add. -/
def added (service : TypeService) (uses : List Use) : List (Int32 × Int32) :=
  (service.entered uses).filterMap Finished.key?

/-- The schemas are those from before with the ledger's added. -/
theorem schemas_used (uses : List Use) (service : TypeService) :
    (service.used uses).registry.schemas =
      (service.entered uses).foldr Finished.file service.registry.schemas := by
  induction uses generalizing service with
  | nil => rfl
  | cons use uses ih =>
    rw [entered, List.foldr_append, ← use.schemas_after service]
    exact ih (use.after service)

end TypeService

section

variable (ledger : List Finished)

/-- Entries take no schema away, and they file each under its own id. -/
theorem Registry.evolves_filed (r : Registry) :
    r.Evolves { r with schemas := ledger.foldr Finished.file r.schemas } := by
  induction ledger with
  | nil => exact .refl r
  | cons f ledger ih =>
    refine ih.trans ?_
    simp only [List.foldr_cons, Finished.file]
    split
    · exact Registry.evolves_addSchema _ f.typeId f.schema
    · exact .refl _

/-- Each entry adds one schema at most. -/
theorem size_filed (schemas : Dict (Int32 × Int32) Schema) :
    schemas.size ≤ (ledger.foldr Finished.file schemas).size ∧
      (ledger.foldr Finished.file schemas).size ≤ schemas.size + ledger.length := by
  induction ledger with
  | nil => exact ⟨Nat.le_refl _, Nat.le_refl _⟩
  | cons f ledger ih =>
    have hsize := (ledger.foldr Finished.file schemas).size_insertNew (f.typeId, f.schema.id) f.schema
    rw [List.foldr_cons, Finished.file, List.length_cons]
    split <;> omega

/-- The keys are those that schemas were added under, each once. -/
theorem keys_filed : (ledger.foldr Finished.file {}).keys.Nodup ∧
    ∀ key, key ∈ (ledger.foldr Finished.file {}).keys ↔ key ∈ ledger.filterMap Finished.key? := by
  induction ledger with
  | nil => exact ⟨List.nodup_nil, fun _ => Iff.rfl⟩
  | cons f ledger ih =>
    obtain ⟨hnodup, hkeys⟩ := ih
    rw [List.foldr_cons, Finished.file, List.filterMap_cons, Finished.key?]
    split
    · refine ⟨Dict.nodup_keys_insertNew hnodup _ _, fun key => ?_⟩
      rw [Dict.mem_keys_insertNew, hkeys key]
      exact List.mem_cons.symm
    · exact ⟨hnodup, hkeys⟩

/-- A registry that starts without schemas has as many as the ledger has keys. -/
theorem size_filed_empty : (ledger.foldr Finished.file {}).size =
    (ledger.filterMap Finished.key?).dedup.length := by
  obtain ⟨hnodup, hkeys⟩ := keys_filed ledger
  have hperm : (ledger.foldr Finished.file {}).keys.Perm (ledger.filterMap Finished.key?).dedup :=
    (List.perm_ext_iff_of_nodup hnodup (List.nodup_dedup _)).mpr fun key =>
      (hkeys key).trans List.mem_dedup.symm
  rw [← Dict.length_keys]
  exact hperm.length_eq

end

/-- Whatever a new registry is used for, in whatever order and with whatever success: each of its schemas
    is filed under its own id, which is the fold of its field ids, and stays there for good; it has a schema
    if and only if it finds one; a use adds no more schemas than it finishes objects, or than it is told;
    and there are as many schemas as ids that some were added under. -/
theorem TypeService.schemas_after_uses (config : Config) (keepsSchemas mapsFields : Bool)
    (uses : List Use) :
    let start : TypeService := ⟨Registry.new config, keepsSchemas, mapsFields⟩
    let service := start.used uses
    (∀ typeId schemaId,
      (∀ schema, service.registry.schema? typeId schemaId = some schema →
        schema.id = schemaId ∧ schema.fieldIds.foldl SchemaId.push SchemaId.seed = schemaId ∧
        ∀ later, (service.used later).registry.schema? typeId schemaId = some schema) ∧
      (service.registry.hasSchema typeId schemaId = true ↔
        ∃ schema, service.registry.schema? typeId schemaId = some schema)) ∧
    (∀ use : Use, service.registry.schemaCount ≤ (use.after service).registry.schemaCount ∧
      (use.after service).registry.schemaCount ≤
        service.registry.schemaCount + (use.entries service).length) ∧
    service.registry.schemaCount = (start.added uses).dedup.length := by
  intro start service
  -- Every schema was filed under its own id, so it is found under no other one.
  have hkeyed : service.registry.Keyed := by
    have hfiled := (Registry.evolves_filed (start.entered uses) start.registry).keyed
    intro typeId schemaId schema h
    rw [Registry.schema?, schemas_used] at h
    exact hfiled (Registry.keyed_new config) typeId schemaId schema h
  refine ⟨fun typeId schemaId => ⟨fun schema h => ?_, Option.isSome_iff_exists⟩, fun use => ?_, ?_⟩
  · have hid : schema.id = schemaId := hkeyed typeId schemaId schema h
    refine ⟨hid, hid, fun later => ?_⟩
    rw [Registry.schema?, schemas_used]
    exact (Registry.evolves_filed _ service.registry).schemas typeId schemaId schema h
  · rw [Registry.schemaCount, Registry.schemaCount, use.schemas_after]
    exact size_filed _ _
  · rw [Registry.schemaCount, schemas_used]
    exact size_filed_empty _

end ObjectWire
