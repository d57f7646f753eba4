import Mathlib.Data.List.Induction
import Mathlib.Data.List.Nodup
import ObjectWire.NameId
import ObjectWire.Value

/-!
# Fields that are set

An object's fields come from changes to it (`DynamicObject.Change`).  Setting a field touches the first field
of its name and no other, and adds one at the end if there is none (`setIn_of_not_mem`, `setIn_append`).  So an
object that was only ever set fields of has one of each name, in the order in which the names came first
(`names_setAll`), with the value that was set last (`lookup_setAll`).
-/

namespace ObjectWire.DynamicObject

/-- A change to the fields of an object. -/
inductive Change where
  | withField (name : String) (value : Value)
  | setField (name : String) (value : Value)
  | clear

/-- The object after a change. -/
def Change.after (o : DynamicObject) : Change → DynamicObject
  | .withField name value => o.withField name value
  | .setField name value => o.setField name value
  | .clear => o.clear

/-- An object of a type after some changes. -/
def built (typeName : String) (changes : List Change) : DynamicObject :=
  changes.foldl Change.after { typeName }

/-- The last change is made last. -/
theorem built_concat (typeName : String) (changes : List Change) (c : Change) :
    built typeName (changes ++ [c]) = c.after (built typeName changes) := by
  rw [built, List.foldl_append]
  rfl

/-- No change puts a raw section into an object, or touches its type. -/
theorem parts_built (typeName : String) (changes : List Change) :
    (built typeName changes).typeName = typeName ∧ (built typeName changes).raw = none := by
  induction changes using List.reverseRecOn with
  | nil => exact ⟨rfl, rfl⟩
  | append_singleton changes c ih =>
    rw [built_concat]
    cases c with
    | withField name value => exact ih
    | setField name value => exact ih
    | clear => exact ⟨ih.1, rfl⟩

/-- The names of an object's fields. -/
def names (o : DynamicObject) : List String := o.fields.map (·.1)

/-- The ids of some fields. -/
def idsOf (fields : List (String × Value)) : List Int32 := fields.map fun field => NameId.ofName field.1

/-- The ids of an object's fields. -/
def fieldIds (o : DynamicObject) : List Int32 := idsOf o.fields

/-- The ids behind others, with that of the first field taken to those. -/
theorem append_idsOf_cons (ids : List Int32) (field : String × Value) (fields : List (String × Value)) :
    ids ++ idsOf (field :: fields) = ids ++ [NameId.ofName field.1] ++ idsOf fields :=
  List.append_cons ids (NameId.ofName field.1) (idsOf fields)

/-- The ids of fields are told one by one. -/
theorem idsOf_append (fields fields' : List (String × Value)) :
    idsOf (fields ++ fields') = idsOf fields ++ idsOf fields' := List.map_append

/-- If ids are not distinct, there is a first field whose id was there before. -/
theorem exists_repeat {fields : List (String × Value)} (h : ¬ (idsOf fields).Nodup) :
    ∃ before name v behind, fields = before ++ (name, v) :: behind ∧ (idsOf before).Nodup ∧
      NameId.ofName name ∈ idsOf before := by
  induction fields using List.reverseRecOn with
  | nil => exact absurd List.nodup_nil h
  | append_singleton fields field ih =>
    by_cases hnodup : (idsOf fields).Nodup
    · refine ⟨fields, field.1, field.2, [], rfl, hnodup, ?_⟩
      by_contra hnew
      rw [idsOf_append] at h
      exact h (hnodup.append (List.nodup_singleton _) (List.disjoint_singleton.mpr hnew))
    · obtain ⟨before, name, v, behind, rfl, hfirst⟩ := ih hnodup
      exact ⟨before, name, v, behind ++ [field], List.append_assoc .., hfirst⟩

/-- An id that was there before is there twice. -/
theorem not_nodup_of_repeat {before behind : List (String × Value)} {name : String} {v : Value}
    (h : NameId.ofName name ∈ idsOf before) : ¬ (idsOf (before ++ (name, v) :: behind)).Nodup := by
  intro hnodup
  rw [idsOf_append] at hnodup
  exact (List.nodup_append.mp hnodup).2.2 _ h _ (List.mem_cons_self ..) rfl

section

variable {name : String} {value : Value} {fields : List (String × Value)}

/-- A new name comes last. -/
theorem setIn_of_not_mem (h : name ∉ fields.map (·.1)) :
    setIn name value fields = fields ++ [(name, value)] := by
  induction fields with
  | nil => rfl
  | cons field fields ih =>
    obtain ⟨hne, hrest⟩ := not_or.mp (mt List.mem_cons.mpr h)
    rw [setIn, if_neg (Ne.symm hne), ih hrest]
    rfl

/-- The first field of a name gets its value where it stands. -/
theorem setIn_append {old : Value} {behind : List (String × Value)} (h : name ∉ fields.map (·.1)) :
    setIn name value (fields ++ (name, old) :: behind) = fields ++ (name, value) :: behind := by
  induction fields with
  | nil => exact if_pos rfl
  | cons field fields ih =>
    obtain ⟨hne, hrest⟩ := not_or.mp (mt List.mem_cons.mpr h)
    rw [List.cons_append, setIn, if_neg (Ne.symm hne), ih hrest]
    rfl

/-- A field that is set is where it was before, or behind the others. -/
theorem names_setIn : (setIn name value fields).map (·.1) =
    if name ∈ fields.map (·.1) then fields.map (·.1) else fields.map (·.1) ++ [name] := by
  split
  · next hmem =>
    -- A field that is set again stays where it is.
    induction fields with
    | nil => cases hmem
    | cons field fields ih =>
      rw [setIn]
      split
      · rfl
      · next hne =>
        have hrest := (List.mem_cons.mp hmem).resolve_left (Ne.symm hne)
        rw [List.map_cons, ih hrest]
        rfl
  · next hnew =>
    rw [setIn_of_not_mem hnew, List.map_append]
    rfl

/-- A field is looked up among the first ones first. -/
theorem lookup_field (n : String) (v : Value) (other : String) :
    ((n, v) :: fields).lookup other = if other = n then some v else fields.lookup other := by
  by_cases h : other = n
  · rw [if_pos h, h, List.lookup_cons_self]
  · rw [if_neg h, List.lookup_cons, beq_eq_false_iff_ne.mpr h]

/-- The first field of the name has the value, and the first fields of other names are as before. -/
theorem lookup_setIn (other : String) : (setIn name value fields).lookup other =
    if other = name then some value else fields.lookup other := by
  induction fields with
  | nil => exact lookup_field name value other
  | cons field fields ih =>
    obtain ⟨n, v⟩ := field
    rw [setIn]
    split
    · next hn =>
      subst hn
      rw [lookup_field, lookup_field]
      split <;> rfl
    · next hn =>
      rw [lookup_field, lookup_field, ih]
      by_cases h : other = n
      · rw [if_pos h, if_pos h, if_neg (h ▸ hn)]
      · rw [if_neg h, if_neg h]

end

/-- An object of a type with fields set one after the other. -/
def setAll (typeName : String) (sets : List (String × Value)) : DynamicObject :=
  built typeName (sets.map fun (name, value) => .setField name value)

/-- The field that is set last is set on what all the others made. -/
theorem fields_setAll_concat (typeName : String) (sets : List (String × Value)) (name : String)
    (value : Value) : (setAll typeName (sets ++ [(name, value)])).fields =
      setIn name value (setAll typeName sets).fields := by
  rw [setAll, List.map_append, List.map_singleton, built_concat]
  rfl

/-- There is one field of each name that was set, in the order in which they were set first. -/
theorem names_setAll (typeName : String) (sets : List (String × Value)) :
    (setAll typeName sets).names = (sets.map (·.1)).eraseDups := by
  induction sets using List.reverseRecOn with
  | nil => rfl
  | append_singleton sets set ih =>
    obtain ⟨name, value⟩ := set
    rw [names] at ih
    rw [names, fields_setAll_concat, names_setIn, ih, List.map_append, List.map_singleton,
      List.eraseDups_append]
    by_cases h : name ∈ sets.map (·.1)
    · simp [h, List.removeAll]
    · simp [h, List.removeAll, List.eraseDups_cons]

/-- Each field has the value that was set last. -/
theorem lookup_setAll (typeName : String) (sets : List (String × Value)) (name : String) :
    (setAll typeName sets).fields.lookup name = sets.reverse.lookup name := by
  induction sets using List.reverseRecOn with
  | nil => rfl
  | append_singleton sets set ih =>
    obtain ⟨n, value⟩ := set
    rw [fields_setAll_concat, lookup_setIn, ih, List.reverse_append]
    exact (lookup_field n value name).symm

end ObjectWire.DynamicObject
