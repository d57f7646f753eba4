import ObjectWire.Proofs.RawImage

/-!
# Writer calls as steps of a draft

Every regular call on an object's writer that succeeds takes the draft one step on, and so does every
step of a dynamic object.  With `finish_drawn` this gives the image of a user object
(`drawn_framed`), and by induction on the depth the image of any value (`writeDepth_draws`).
-/

namespace ObjectWire

open ObjectWire.Action Image WriteM

section

variable {r : Registry} {base : Nat} {o₀ o o' : OpenObject} {st : Progress} {d : Draft}

/-- What a call leaves in the journal is of no account. -/
theorem Drafted.journal (h : Drafted r base o₀ o st d) (journal : Journal) :
    Drafted r base o₀ { o with session := { o.session with journal } } st d where
  follows := ⟨h.follows.cursor, h.follows.graph, h.follows.regular, h.follows.static,
    h.follows.find, h.follows.size⟩
  writer := h.writer
  data := h.data
  inside := h.inside
  fields := h.fields
  offsets := h.offsets

/-- A line about a call leaves the draft of the object as it is. -/
theorem Drafted.noted {op : ObjectOp} {outcome : Outcome} {u : Unit} (h : Drafted r base o₀ o st d)
    (hx : (ObjectM.noteObject op outcome).Yields o u o') : Drafted r base o₀ o' st d := by
  obtain ⟨journal, rfl⟩ := ObjectM.noteObject_yields hx
  exact h.journal journal

/-- A field adds its value to the data, its entry to the stack, and itself to the draft. -/
theorem field_drafted {start : Nat} {id : Int32} {fold : Bool} {x : WriteM Unit} {y : Sketch Wire}
    {u : Unit} (h : Drafted r base o₀ o st d) (hstart : o₀.writer.start = base + start)
    (hxy : Draws r x y Wire.bytes)
    (hx : (do ObjectM.pushField id fold; ObjectM.inSession x).Yields o u o') :
    ∃ d' st', Gives (Image.field start id fold y d) st d' st' ∧ Drafted r base o₀ o' st' d' := by
  simp only [yields_bind, ObjectM.yields_inSession] at hx
  obtain ⟨_, o₁, hpush, s', hvalue, rfl⟩ := hx
  obtain ⟨hraw, hnew, -, hsize, rfl⟩ := ObjectM.pushField_yields hpush
  have hw_start : o.writer.start = base + start := by rw [h.writer, hstart]
  have hnone : d.raw = none := by
    rw [h.writer] at hraw
    exact Option.map_eq_none_iff.mp hraw
  have hdistinct : ∀ f ∈ d.fields, f.id ≠ id := by
    rw [FieldStack.contains, h.last, List.any_map, List.any_eq_false] at hnew
    intro f hf heq
    exact hnew f hf (by simp [Placed.entry, heq])
  have hoffset : o.session.tape.cursor - o.writer.start = st.place - start := by
    have := h.follows.cursor
    omega
  rw [hoffset] at hsize
  -- The entry on the stack is no part of what the session and the image have in common.
  have hf₁ : Follows r base (ObjectM.withField o id fold).session st :=
    ⟨h.follows.cursor, h.follows.graph, h.follows.regular, h.follows.static, h.follows.find,
      h.follows.size⟩
  obtain ⟨w, st', hw, hf', ha, hfields⟩ := hxy hvalue hf₁
  -- The field stands from where the session was before its value to where it is now.
  let placed : Placed := ⟨id, st.place - start, st'.place, w⟩
  have hnone' : ∀ {schemaId}, (Draft.mk (d.fields ++ [placed]) d.raw schemaId).rawSoFar = {} :=
    Draft.rawSoFar_of_none hnone
  refine ⟨{ d with
      fields := d.fields ++ [placed]
      schemaId := if fold then SchemaId.push d.schemaId id else d.schemaId }, st', ?_, hf', ?_, ?_, ?_, ?_,
    ?_⟩
  · -- The image asks of a field what the writer asks: no raw section, and a new id.
    simp only [Image.field, gives_bind, gives_guard, gives_place, gives_pure]
    exact ⟨(), st, ⟨⟨by rw [hnone]; rfl, hdistinct⟩, rfl⟩, _, _, ⟨rfl, rfl⟩, w, st', hw, _, _,
      ⟨rfl, rfl⟩, rfl, rfl⟩
  · simp only [ObjectM.withField, h.writer, hnone, Draft.rawSoFar, List.length_append,
      List.length_singleton, Option.map_none]
    rfl
  · -- Without a raw section nothing lies behind the fields.
    have hdata := (h.appended (Draft.isClosed_of_none hnone)).trans ha
    refine ⟨[], ?_, hnone' ▸ .nil⟩
    rw [Draft.data_of_none hnone] at hdata
    simpa [Draft.fieldBytes, placed] using hdata
  · exact hnone' ▸ .empty
  · rw [hfields]
    simp only [ObjectM.withField, FieldStack.push, h.fields, hoffset, List.map_append, List.map_cons,
      List.map_nil, List.reverse_append, List.reverse_cons, List.reverse_nil, List.nil_append,
      List.cons_append]
    rfl
  · intro f hf
    obtain hf | hf := List.mem_append.mp hf
    · exact h.offsets f hf
    · rw [List.mem_singleton.mp hf]
      exact hsize

/-- A named field has the id that its name hashes to. -/
theorem named_drafted {start : Nat} {name : String} {x : WriteM Unit} {y : Sketch Wire} {u : Unit}
    (h : Drafted r base o₀ o st d) (hstart : o₀.writer.start = base + start)
    (hxy : Draws r x y Wire.bytes)
    (hx : (do ObjectM.beginField name; ObjectM.inSession x).Yields o u o') :
    ∃ d' st', Gives (Image.field start (NameId.ofName name) true y d) st d' st' ∧
      Drafted r base o₀ o' st' d' := by
  obtain ⟨_, o₁, hbegin, hx⟩ := (yields_bind ..).mp hx
  exact field_drafted h hstart hxy
    ((yields_bind ..).mpr ⟨(), o₁, ObjectM.beginField_yields hbegin, hx⟩)

/-- What a call leaves in the journal behind it is no part of the draft. -/
theorem call_noted {x : ObjectM Unit} {y : Sketch Draft} {op : ObjectOp} {outcome : Outcome} {u : Unit}
    (h : ∀ {o₁ : OpenObject}, x.Yields o () o₁ →
      ∃ d' st', Gives y st d' st' ∧ Drafted r base o₀ o₁ st' d')
    (hx : (do x; ObjectM.noteObject op outcome).Yields o u o') :
    ∃ d' st', Gives y st d' st' ∧ Drafted r base o₀ o' st' d' := by
  obtain ⟨_, o₁, hcall, hnote⟩ := (yields_bind ..).mp hx
  obtain ⟨d', st', hd', h'⟩ := h hcall
  exact ⟨d', st', hd', h'.noted hnote⟩

section

variable {rec : Value → WriteM Unit} {image : Value → Sketch Wire}
  (hrec : ∀ v, Draws r (rec v) (image v) Wire.bytes)

include hrec

/-- A typed field is written straight from its value where that is plain, and has the same image. -/
theorem draws_typed (v : TypedField) :
    Draws r (match v.toValue with
      | .plain p => writePlain p
      | v => rec v) (Image.typed r image v) Wire.bytes := by
  unfold Image.typed
  cases v.toValue with
  | plain p => exact draws_plain p
  | _ => exact hrec _

/-- A regular call takes the draft one step on. -/
theorem runOp_drafted {start : Nat} {op : ObjectOp} {u : Unit} (hop : op.isRegular = true)
    (h : Drafted r base o₀ o st d) (hstart : o₀.writer.start = base + start)
    (hx : (ObjectM.runOp rec op).Yields o u o') :
    ∃ d' st', Gives (Image.call r image start d op) st d' st' ∧ Drafted r base o₀ o' st' d' := by
  -- Fields differ in their ids and contents alone; the other calls leave the data as they are or go on in it.
  cases op with
  | session _ | attempt _ => cases hop
  | typed name v =>
    rw [ObjectM.runOp, ObjectM.writeTyped_eq] at hx
    exact call_noted (named_drafted h hstart (draws_typed hrec v)) hx
  | field name v =>
    rw [ObjectM.runOp] at hx
    exact call_noted (named_drafted h hstart (hrec v)) hx
  | detached name v =>
    rw [ObjectM.runOp] at hx
    exact call_noted (named_drafted h hstart (draws_detached (hrec v))) hx
  | fieldId id v =>
    rw [ObjectM.runOp] at hx
    exact call_noted (field_drafted h hstart (hrec v)) hx
  | fieldIdUnfolded id v =>
    rw [ObjectM.runOp] at hx
    exact call_noted (field_drafted h hstart (hrec v)) hx
  | setSchemaId id =>
    simp only [ObjectM.runOp, yields_bind, ObjectM.yields_updateWriter] at hx
    obtain ⟨_, _, rfl, hnote⟩ := hx
    refine ⟨{ d with schemaId := id }, st, (gives_pure ..).mpr ⟨rfl, rfl⟩, ?_⟩
    have h' : Drafted r base o₀ { o with writer := { o.writer with schemaId := id } } st
        { d with schemaId := id } :=
      ⟨h.follows, by rw [h.writer]; rfl, h.data, h.inside, h.fields, h.offsets⟩
    exact h'.noted hnote
  | schema =>
    simp only [ObjectM.runOp, ObjectM.schema, yields_bind, yields_read] at hx
    obtain ⟨_, _, ⟨-, rfl⟩, hnote⟩ := hx
    exact ⟨d, st, (gives_pure ..).mpr ⟨rfl, rfl⟩, h.noted hnote⟩
  | raw ops =>
    simp only [ObjectM.runOp, yields_bind] at hx
    obtain ⟨_, o₁, henter, _, o₂, hraws, hnote⟩ := hx
    obtain ⟨d', st', hd', h'⟩ := runRaws_drafted hrec h henter hraws
    exact ⟨d', st', hd', h'.noted hnote⟩

/-- Regular calls take the draft as many steps on. -/
theorem runOps_drafted {start : Nat} {ops : List ObjectOp} {u : Unit}
    (hops : ∀ op ∈ ops, op.isRegular = true) (h : Drafted r base o₀ o st d)
    (hstart : o₀.writer.start = base + start) (hx : (ObjectM.runOps rec ops).Yields o u o') :
    ∃ d' st', Gives (Image.calls r image start d ops) st d' st' ∧ Drafted r base o₀ o' st' d' := by
  -- The draft behind one call is the draft before the next one.
  induction ops generalizing o st d with
  | nil =>
    simp only [ObjectM.runOps, yields_pure] at hx
    obtain ⟨-, rfl⟩ := hx
    exact ⟨d, st, (gives_pure ..).mpr ⟨rfl, rfl⟩, h⟩
  | cons op ops ih =>
    simp only [ObjectM.runOps, yields_bind] at hx
    obtain ⟨_, o₁, hop, hrest⟩ := hx
    obtain ⟨d₁, st₁, hd₁, h₁⟩ := runOp_drafted hrec (hops op (List.mem_cons_self ..)) h hstart hop
    obtain ⟨d₂, st₂, hd₂, h₂⟩ := ih (fun op hop => hops op (List.mem_cons_of_mem _ hop)) h₁ hrest
    exact ⟨d₂, st₂, (gives_bind ..).mpr ⟨d₁, st₁, hd₁, hd₂⟩, h₂⟩

omit hrec in
/-- Calls behind others go on with their draft. -/
theorem calls_append {start : Nat} {d d₁ d₂ : Draft} {ops ops' : List ObjectOp}
    {st st₁ st₂ : Progress} (h₁ : Gives (Image.calls r image start d ops) st d₁ st₁)
    (h₂ : Gives (Image.calls r image start d₁ ops') st₁ d₂ st₂) :
    Gives (Image.calls r image start d (ops ++ ops')) st d₂ st₂ := by
  induction ops generalizing d st with
  | nil =>
    obtain ⟨rfl, rfl⟩ := (gives_pure ..).mp h₁
    exact h₂
  | cons op ops ih =>
    obtain ⟨d', st', hop, hops⟩ := (gives_bind ..).mp h₁
    exact (gives_bind ..).mpr ⟨d', st', hop, ih hops⟩

/-- The fields of a dynamic object are calls one after the other. -/
theorem writeFields_drafted {start : Nat} {fields : List (String × Value)} {u : Unit}
    (h : Drafted r base o₀ o st d) (hstart : o₀.writer.start = base + start)
    (hx : (forEach (fun (name, v) => ObjectM.writeField rec name v) fields).Yields o u o') :
    ∃ d' st', Gives (Image.calls r image start d (fields.map fun (name, v) => .field name v)) st
      d' st' ∧ Drafted r base o₀ o' st' d' := by
  -- The fields of a dynamic object are calls by name, one for each.
  induction fields generalizing o st d with
  | nil =>
    obtain rfl := (yields_forEach_nil ..).mp hx
    exact ⟨d, st, (gives_pure ..).mpr ⟨rfl, rfl⟩, h⟩
  | cons field fields ih =>
    obtain ⟨o₁, hfield, hrest⟩ := (yields_forEach_cons ..).mp hx
    obtain ⟨d₁, st₁, hd₁, h₁⟩ := named_drafted h hstart (hrec field.2) hfield
    obtain ⟨d₂, st₂, hd₂, h₂⟩ := ih h₁ hrest
    exact ⟨d₂, st₂, (gives_bind ..).mpr ⟨d₁, st₁, hd₁, hd₂⟩, h₂⟩

/-- The body of a regular object makes the draft that its calls say. -/
theorem writeBody_drafted {start : Nat} {node : NodeId} {u : UserObject} {v : Unit}
    (hu : u.IsRegular) (h : Drafted r base o₀ o st d) (hstart : o₀.writer.start = base + start)
    (hx : (writeBody rec node u).Yields o v o') :
    ∃ d' st', Gives (Image.calls r image start d u.calls) st d' st' ∧ Drafted r base o₀ o' st' d' := by
  cases u with
  | programmed p =>
    -- That it begins goes to the journal, and then its calls run.
    simp only [writeBody, yields_bind, ObjectM.yields_writer, ObjectM.yields_inSession,
      WriteM.note, yields_update] at hx
    obtain ⟨_, _, ⟨rfl, rfl⟩, _, _, ⟨_, rfl, rfl⟩, hops⟩ := hx
    exact runOps_drafted hrec hu.call (h.journal _) hstart hops
  | dynamic dyn =>
    simp only [writeBody, yields_bind] at hx
    obtain ⟨_, o₁, hfields, hraw⟩ := hx
    obtain ⟨d₁, st₁, hd₁, h₁⟩ := writeFields_drafted hrec h hstart hfields
    cases hd : dyn.raw with
    | none =>
      simp only [hd, yields_pure] at hraw
      obtain ⟨-, rfl⟩ := hraw
      refine ⟨d₁, st₁, ?_, h₁⟩
      simpa [UserObject.calls, hd] using hd₁
    | some raw =>
      simp only [hd, yields_bind] at hraw
      obtain ⟨_, o₂, henter, hwrite⟩ := hraw
      -- The bytes of the raw section are a raw section of one call.
      have hraws : (ObjectM.runRaws rec [.bytes raw]).Yields o₂ (o'.writer.slots.drop o₂.writer.slots.length)
          o' := by
        simp only [ObjectM.runRaws, yields_bind, ObjectM.yields_writer, yields_pure]
        exact ⟨_, _, ⟨rfl, rfl⟩, (), o', (yields_forEach_cons ..).mpr
          ⟨o', hwrite, (yields_forEach_nil ..).mpr rfl⟩, _, _, ⟨rfl, rfl⟩, rfl, rfl⟩
      obtain ⟨d₂, st₂, hd₂, h₂⟩ := runRaws_drafted hrec h₁ henter hraws
      refine ⟨d₂, st₂, ?_, h₂⟩
      rw [UserObject.calls, hd]
      exact calls_append hd₁ ((gives_bind ..).mpr ⟨d₂, st₂, hd₂, (gives_pure ..).mpr ⟨rfl, rfl⟩⟩)

end

end

end ObjectWire
