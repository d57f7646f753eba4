import ObjectWire.Proofs.Action
import ObjectWire.Proofs.Keeps

/-!
# Registries and their histories

A registry is what the calls on it have made of a new one (`Registry.after`).  Each call registers at most
one name (`Call.registration?`), so a name is registered as what some call has registered it as, or as
what it was in the new registry (`find?_after`).  From that follow the two things that writers count on: which
names can stand under the id of unregistered types, and which types have fields with ids
(`Registry.Covered`).
-/

namespace ObjectWire

open ObjectWire.Action

namespace Registry

/-- A call on a registry. -/
inductive Call where
  | register (name : String)
  | registerAs (name : String) (typeId : Int32) (userType : Bool)
  | setCollectionKind (name : String) (kind : CollectionKind)
  | setMapKind (name : String) (kind : MapKind)
  | resolve (name : String) (kind : TypeKind) (failIfUnregistered : Bool)
  | fieldId (typeId : Int32) (field : String)
  | addSchema (typeId : Int32) (schema : Schema)

namespace Call

/-- What a call leaves of a registry, whether it succeeds or not. -/
def after (r : Registry) : Call → Registry
  | .register name => (Registry.register name r).2
  | .registerAs name typeId userType => r.registerAs name typeId userType
  | .setCollectionKind name kind => r.setCollectionKind name kind
  | .setMapKind name kind => r.setMapKind name kind
  | .resolve name kind failIfUnregistered => (Registry.resolve name kind failIfUnregistered r).2
  | .fieldId _ _ => r
  | .addSchema typeId schema => r.addSchema typeId schema

/-- The name that a call registers, and what it registers it as. -/
def registration? : Call → Option (String × TypeEntry)
  | .register name => (derivedId name).toOption.map fun typeId => (name, ⟨typeId, true⟩)
  | .registerAs name typeId userType => some (name, ⟨typeId, userType⟩)
  | _ => none

end Call

/-- A registry after some calls. -/
def after (r : Registry) (calls : List Call) : Registry := calls.foldl Call.after r

/-- An id that is mapped joins those that were. -/
@[simp] theorem mem_addMapped {r : Registry} {typeId id : Int32} :
    id ∈ (r.addMapped typeId).mapped ↔ id = typeId ∨ id ∈ r.mapped := List.mem_insert_iff

/-- A derived id is that of the name, and it is not reserved. -/
theorem derivedId_ok {name : String} {typeId : Int32} (h : derivedId name = .ok typeId) :
    typeId = NameId.ofName name ∧ typeId ≠ unregisteredTypeId := by
  simp only [derivedId] at h
  split at h
  · cases h
  · next hne =>
    cases h
    exact ⟨rfl, hne⟩

/-- A name with a derived id is registered under it, and any other name is refused. -/
theorem register_state (name : String) (r : Registry) :
    (register name r).2 = (derivedId name).toOption.elim r (r.registerAs name · true) := by
  show ((register name).run r).2 = _
  rw [register, run_bind]
  cases derivedId name <;> rfl

namespace Call

variable {r : Registry} {name : String} {entry : TypeEntry}

/-- A call registers one name or none, and the others stay registered as they are. -/
theorem types_after (c : Call) (r : Registry) :
    (c.after r).types = c.registration?.elim r.types fun (name, entry) => r.types.insert name entry := by
  cases c with
  | register name =>
    rw [after, register_state, registration?]
    cases derivedId name <;> rfl
  | resolve name kind failIfUnregistered => exact (evolves_resolve name kind failIfUnregistered r).types
  | _ => rfl

/-- A type that is found after a call was found before, or is the one that the call registers. -/
theorem find?_after {c : Call} (h : (c.after r).types.find? name = some entry) :
    c.registration? = some (name, entry) ∨ r.types.find? name = some entry := by
  rw [types_after] at h
  cases hc : c.registration? with
  | none =>
    rw [hc] at h
    exact .inr h
  | some registration =>
    rw [hc, Option.elim, Dict.find?_insert] at h
    split at h
    · next heq =>
      rw [← heq, ← Option.some.inj h]
      exact .inl rfl
    · exact .inr h

/-- The types whose fields have ids keep them. -/
theorem mapped_after (c : Call) : ∀ id ∈ r.mapped, id ∈ (c.after r).mapped := by
  intro id hid
  cases c with
  | register name =>
    rw [after, register_state]
    cases derivedId name with
    | error e => exact hid
    | ok typeId => exact mem_addMapped.mpr (.inr hid)
  | registerAs name typeId userType => exact mem_addMapped.mpr (.inr hid)
  | resolve name kind failIfUnregistered => exact (evolves_resolve name kind failIfUnregistered r).mapped id hid
  | _ => exact hid

/-- A type that is registered has fields with ids from then on. -/
theorem registration?_mapped {c : Call} (h : c.registration? = some (name, entry)) :
    entry.typeId ∈ (c.after r).mapped := by
  -- Both ways to register a type map its id; to resolve a name registers nothing.
  cases c with
  | register name =>
    rw [after, register_state]
    rw [registration?] at h
    cases hderived : derivedId name with
    | error e =>
      rw [hderived] at h
      cases h
    | ok typeId =>
      rw [hderived] at h
      cases h
      exact mem_addMapped.mpr (.inl rfl)
  | registerAs name typeId userType =>
    cases h
    exact mem_addMapped.mpr (.inl rfl)
  | _ => cases h

/-- Only a call that gives the reserved id itself registers a name under it. -/
theorem eq_registerAs_of_zero {c : Call} (h : c.registration? = some (name, entry))
    (hzero : entry.typeId = unregisteredTypeId) :
    c = .registerAs name unregisteredTypeId entry.userType := by
  cases c with
  | register name =>
    rw [registration?] at h
    cases hderived : derivedId name with
    | error e =>
      rw [hderived] at h
      cases h
    | ok typeId =>
      rw [hderived] at h
      cases h
      -- An id derived from a name is never zero.
      exact absurd hzero (derivedId_ok hderived).2
  | registerAs name typeId userType =>
    cases h
    rw [← hzero]
  | _ => cases h

end Call

/-- A name is registered as one of the calls has registered it, or as before. -/
theorem find?_after {r : Registry} {calls : List Call} {name : String} {entry : TypeEntry}
    (h : (r.after calls).types.find? name = some entry) :
    r.types.find? name = some entry ∨ ∃ c ∈ calls, c.registration? = some (name, entry) := by
  -- The entry comes from a later call, from the first one, or from before all of them.
  induction calls generalizing r with
  | nil => exact .inl h
  | cons c calls ih =>
    obtain h | ⟨d, hd, hentry⟩ := ih h
    · obtain hentry | h := Call.find?_after h
      · exact .inr ⟨c, List.mem_cons_self, hentry⟩
      · exact .inl h
    · exact .inr ⟨d, List.mem_cons_of_mem _ hd, hentry⟩

/-- No call takes back an id that was mapped. -/
theorem mapped_after {r : Registry} (calls : List Call) :
    ∀ id ∈ r.mapped, id ∈ (r.after calls).mapped := by
  induction calls generalizing r with
  | nil => exact fun _ hid => hid
  | cons c calls ih => exact fun id hid => ih id (c.mapped_after id hid)

/-- A new registry knows one type. -/
theorem find?_new {config : Config} {name : String} {entry : TypeEntry}
    (h : (new config).types.find? name = some entry) :
    name = objectTypeName ∧ entry = ⟨objectTypeId, false⟩ := by
  have htypes : (new config).types = Dict.insert {} objectTypeName ⟨objectTypeId, false⟩ := rfl
  rw [htypes, Dict.find?_insert] at h
  split at h
  · next heq =>
    cases h
    exact ⟨heq.symm, rfl⟩
  · cases h

/-- A name stands under the reserved id only if a call has put it there. -/
theorem registerAs_of_zero {config : Config} {calls : List Call} {name : String} {entry : TypeEntry}
    (h : ((new config).after calls).types.find? name = some entry)
    (hzero : entry.typeId = unregisteredTypeId) :
    .registerAs name unregisteredTypeId entry.userType ∈ calls := by
  obtain hnew | ⟨c, hc, hentry⟩ := find?_after h
  · obtain ⟨-, rfl⟩ := find?_new hnew
    cases hzero
  · exact Call.eq_registerAs_of_zero hentry hzero ▸ hc

/-- The fields of every registered type have ids, but perhaps for those of the predefined one. -/
def Covered (r : Registry) : Prop :=
  ∀ name entry, r.types.find? name = some entry →
    entry.typeId ∈ r.mapped ∨ name = objectTypeName ∧ entry = ⟨objectTypeId, false⟩

namespace Covered

variable {r r' : Registry}

/-- In a new registry every type is mapped but the one of all objects. -/
theorem new (config : Config) : (Registry.new config).Covered := fun _ _ h => .inr (find?_new h)

/-- A call that registers a type gives its fields ids. -/
theorem call (h : r.Covered) (c : Call) : (c.after r).Covered := by
  intro name entry hfind
  obtain hentry | hold := Call.find?_after hfind
  · exact .inl (Call.registration?_mapped hentry)
  · exact (h name entry hold).imp_left (c.mapped_after _)

/-- Calls keep it so. -/
theorem after (h : r.Covered) (calls : List Call) : (r.after calls).Covered := by
  induction calls generalizing r with
  | nil => exact h
  | cons c calls ih => exact ih (h.call c)

/-- So do writes. -/
theorem evolves (h : r.Covered) (hr : r.Evolves r') : r'.Covered := by
  intro name entry hfind
  rw [hr.types] at hfind
  exact (h name entry hfind).imp_left (hr.mapped _)

/-- A type that resolves has fields with ids from then on, unless it is the predefined one. -/
theorem resolve (h : r.Covered) {name : String} {kind : TypeKind} {failIfUnregistered : Bool}
    {resolved : ResolvedType}
    (hresolve : (Registry.resolve name kind failIfUnregistered).Yields r resolved r') :
    resolved.typeId ∈ r'.mapped ∨
      name = objectTypeName ∧ resolved = ⟨objectTypeId, true, false⟩ := by
  obtain ⟨entry, hentry, rfl, rfl⟩ | ⟨typeId, -, -, -, rfl, rfl⟩ := resolve_cases hresolve
  · refine (h name entry hentry).imp_right fun hobject => ?_
    obtain ⟨hname, rfl⟩ := hobject
    exact ⟨hname, rfl⟩
  · exact .inl (mem_addMapped.mpr (.inl rfl))

end Covered

end Registry

end ObjectWire
