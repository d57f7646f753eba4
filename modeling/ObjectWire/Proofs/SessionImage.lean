import ObjectWire.Proofs.EncodeImage
import ObjectWire.Proofs.Regular
import ObjectWire.Write

/-!
# Sessions that follow an image

A session keeps step with the progress of an image (`Follows`) if its cursor is where the image's place
is, its handles are the places of the image's log, and both look at the same graph and the same
registered types.  `Drawn` says that a stretch of writing did what a part of an image says: the image of
that part exists, its bytes were appended to the tape, and the session follows the image still.  The
lemmas here are about all values but user objects.
-/

namespace ObjectWire

open ObjectWire.Action

/-- A type name is resolved by looking it up among the registered ones, which stay as they are. -/
theorem TypeService.resolve_yields {name : String} {kind : TypeKind} {failIfUnregistered : Bool}
    {s s' : TypeService} {resolved : ResolvedType}
    (h : (TypeService.resolve name kind failIfUnregistered).Yields s resolved s') :
    s'.registry.static = s.registry.static ∧
      (∀ entry, s.registry.static.types.find? name = some entry →
        resolved = ⟨entry.typeId, true, entry.userType⟩) ∧
      (s.registry.static.types.find? name = none →
        resolved.registered = false ∧ resolved.userType = decide (kind ≠ .builtin)) := by
  obtain ⟨r, hr, rfl⟩ := (yields_onRegistry ..).mp h
  have hfind : s.registry.static.types.find? name = s.registry.types.find? name := rfl
  rw [hfind]
  obtain ⟨entry, hentry, rfl, rfl⟩ | ⟨typeId, hnone, -, -, rfl, rfl⟩ := Registry.resolve_cases hr
  · rw [hentry]
    refine ⟨rfl, fun _ h => Option.some.inj h ▸ rfl, fun h => ?_⟩
    cases h
  · rw [hnone]
    refine ⟨rfl, fun _ h => ?_, fun _ => ⟨rfl, rfl⟩⟩
    cases h

namespace WriteM

/-- `s'` is `s` after bytes were written and perhaps types resolved. -/
structure Laid (s s' : Session) (bs : Bytes) : Prop where
  tape : s.tape.Appended s'.tape bs
  fields : s'.fields = s.fields
  handles : s'.handles = s.handles
  graph : s'.graph = s.graph
  static : s'.service.registry.static = s.service.registry.static

namespace Laid

theorem refl (s : Session) : Laid s s [] := ⟨.refl _, rfl, rfl, rfl, rfl⟩

/-- What is laid behind what was laid is laid with it. -/
theorem trans {s s' s'' : Session} {as bs : Bytes} (h₁ : Laid s s' as) (h₂ : Laid s' s'' bs) :
    Laid s s'' (as ++ bs) where
  tape := h₁.tape.trans h₂.tape
  fields := h₂.fields.trans h₁.fields
  handles := h₂.handles.trans h₁.handles
  graph := h₂.graph.trans h₁.graph
  static := h₂.static.trans h₁.static

end Laid

/-- A write to the tape alone. -/
theorem laid_onTape {s s' : Session} {x : Action Tape Unit} {u : Unit} {bs : Bytes}
    (h : (onTape x).Yields s u s') (hx : ∀ t', x.Yields s.tape () t' → s.tape.Appended t' bs) :
    Laid s s' bs := by
  obtain ⟨t, ht, rfl⟩ := (yields_onTape ..).mp h
  exact ⟨hx t ht, rfl, rfl, rfl, rfl⟩

/-- The options stand in the part of a registry that does not change. -/
theorem config_eq (s : Session) : s.service.config = s.service.registry.static.config := rfl

/-- Writing text writes its image. -/
theorem writePlain_string_laid {s s' : Session} {v : String} {u : Unit}
    (h : (writePlain (.string v)).Yields s u s') :
    (Image.text s.service.registry.static v).length ≤ maxWireLength ∧
      Laid s s' (nameBytes (Image.text s.service.registry.static v)) := by
  simp only [writePlain, yields_bind, yields_config] at h
  obtain ⟨_, _, ⟨rfl, rfl⟩, h⟩ := h
  obtain ⟨t, ht, rfl⟩ := (yields_onTape ..).mp h
  obtain ⟨hle, ha⟩ := Encode.textBytes_appended ht
  exact ⟨hle, ha, rfl, rfl, rfl, rfl⟩

/-- A type is written by its id if it is registered, and otherwise by its name. -/
theorem writeTypeRef_laid {s s' : Session} {name : String} {kind : TypeKind} {f : Bool} {u : Unit}
    (h : (writeTypeRef name kind f).Yields s u s') :
    Image.fitsType (Image.typeRef s.service.registry.static name) = true ∧
      Laid s s' (Image.typeRef s.service.registry.static name).bytes := by
  simp only [writeTypeRef, yields_bind] at h
  obtain ⟨resolved, s₁, hres, h⟩ := h
  obtain ⟨v, hv, rfl⟩ := (yields_onService ..).mp hres
  obtain ⟨hstatic, hknown, hunknown⟩ := TypeService.resolve_yields hv
  have h₀ : Laid s { s with service := v } [] := ⟨.refl _, rfl, rfl, rfl, hstatic⟩
  rw [Image.typeRef]
  -- What resolving does to the service leaves the registered types as they are.
  cases hfind : s.service.registry.static.types.find? name with
  | some entry =>
    rw [hknown entry hfind, if_pos rfl] at h
    exact ⟨rfl, h₀.trans (laid_onTape h fun _ => Tape.writeWord_appended)⟩
  | none =>
    rw [if_neg (by simp [(hunknown hfind).1])] at h
    obtain ⟨_, s₂, hid, hname⟩ := (yields_bind ..).mp h
    have hl := h₀.trans (laid_onTape hid fun _ => Tape.writeWord_appended)
    obtain ⟨hle, hn⟩ := writePlain_string_laid hname
    have hst : s₂.service.registry.static = s.service.registry.static := hl.static
    rw [hst] at hle hn
    exact ⟨by simpa [Image.fitsType] using hle, hl.trans hn⟩

/-- A tag is one byte. -/
theorem writeTag_laid {s s' : Session} {tag : Tag} {u : Unit} (h : (writeTag tag).Yields s u s') :
    Laid s s' [tag.code] := by
  rw [← Word.bytes_byte]
  exact laid_onTape h fun _ => Tape.writeWord_appended

/-- A count is laid in four bytes, and it was in range. -/
theorem writeCount_laid {s s' : Session} {what : String} {n : Nat} {u : Unit}
    (h : (writeCount what n).Yields s u s') : n ≤ maxWireLength ∧ Laid s s' (countBytes n) := by
  simp only [writeCount, yields_bind, yields_ofExcept] at h
  obtain ⟨v, _, ⟨hv, rfl⟩, h⟩ := h
  obtain ⟨hle, rfl⟩ := wireLength_ok hv
  exact ⟨hle, laid_onTape h fun _ => Tape.writeWord_appended⟩

/-- What stands before the values of a list that names a type: its tag, the type, and their number. -/
theorem typedHead_laid {s s₁ s₂ s' : Session} {tag : Tag} {name what : String} {kind : TypeKind}
    {f : Bool} {n : Nat} {u v w : Unit} (htag : (writeTag tag).Yields s u s₁)
    (htype : (writeTypeRef name kind f).Yields s₁ v s₂) (hcount : (writeCount what n).Yields s₂ w s') :
    Image.fitsType (Image.typeRef s.service.registry.static name) = true ∧ n ≤ maxWireLength ∧
      Laid s s' ([tag.code] ++
        ((Image.typeRef s.service.registry.static name).bytes ++ countBytes n)) := by
  have hl₁ := writeTag_laid htag
  obtain ⟨hfits, hl₂⟩ := writeTypeRef_laid htype
  obtain ⟨hle, hl₃⟩ := writeCount_laid hcount
  rw [hl₁.static] at hfits hl₂
  exact ⟨hfits, hle, hl₁.trans (hl₂.trans hl₃)⟩

/-- The session has come as far as the image, which was begun at `base`. -/
structure Follows (r : Registry) (base : Nat) (s : Session) (st : Image.Progress) : Prop where
  cursor : s.tape.cursor = base + st.place
  graph : s.graph = st.graph
  regular : st.graph.Regular
  static : s.service.registry.static = r
  find : ∀ node, s.handles.find? node = (Image.placeOf node st.log).map (base + ·)
  size : s.handles.size = Image.fullCount st.log

/-- From `s` to `s'` the session wrote what `y` works out in `st`. -/
def Drawn {β : Type} (r : Registry) (base : Nat) (s s' : Session) (st : Image.Progress)
    (y : Image.Sketch β) (out : β → Bytes) : Prop :=
  ∃ b st', Gives y st b st' ∧ Follows r base s' st' ∧ s.tape.Appended s'.tape (out b) ∧
    s'.fields = s.fields

/-- `x` writes what `y` works out, wherever that is. -/
def Draws {β : Type} (r : Registry) (x : WriteM Unit) (y : Image.Sketch β) (out : β → Bytes) : Prop :=
  ∀ ⦃s s' u⦄, x.Yields s u s' → ∀ ⦃base st⦄, Follows r base s st → Drawn r base s s' st y out

section

variable {r : Registry} {base : Nat} {s s' : Session} {st : Image.Progress} {u : Unit}

/-- Bytes without a node in them take the image forward by their number. -/
theorem Follows.laid {bs : Bytes} (h : Follows r base s st) (hl : Laid s s' bs) :
    Follows r base s' { st with place := st.place + bs.length } where
  cursor := by rw [hl.tape.cursor, h.cursor, Nat.add_assoc]
  graph := hl.graph.trans h.graph
  regular := h.regular
  static := hl.static.trans h.static
  find := by rw [hl.handles]; exact h.find
  size := by rw [hl.handles]; exact h.size

/-- A value without others inside is drawn if its bytes are laid, since nothing in it is recorded. -/
theorem drawn_atom {a : Atom} (h : Follows r base s st) (hfits : Image.fitsAtom a = true)
    (hl : Laid s s' a.bytes) : Drawn r base s s' st (Image.atom a) Wire.bytes :=
  ⟨.atom a, _, (Image.gives_atom ..).mpr ⟨hfits, rfl, rfl⟩, h.laid hl, hl.tape, hl.fields⟩

/-- If each element is drawn, so are all of them in their order. -/
theorem draws_each {α : Type} {x : α → WriteM Unit} {y : α → Image.Sketch Wire} (as : List α)
    (h : ∀ a, Draws r (x a) (y a) Wire.bytes) :
    Draws r (forEach x as) (Image.each y as) Wire.itemBytes := by
  induction as with
  | nil =>
    intro s s' u hx base st hf
    obtain rfl := (yields_forEach_nil ..).mp hx
    exact ⟨[], st, (Image.gives_each_nil ..).mpr ⟨rfl, rfl⟩, hf, .refl _, rfl⟩
  | cons a as ih =>
    -- The first item takes session and image to one place, from where the others go on.
    intro s s' u hx base st hf
    obtain ⟨s₁, ha, has⟩ := (yields_forEach_cons ..).mp hx
    obtain ⟨w, st₁, hw, hf₁, ht₁, hfields₁⟩ := h a ha hf
    obtain ⟨ws, st₂, hws, hf₂, ht₂, hfields₂⟩ := ih has hf₁
    exact ⟨w :: ws, st₂, (Image.gives_each_cons ..).mpr ⟨w, ws, st₁, hw, hws, rfl⟩, hf₂,
      ht₁.trans ht₂, hfields₂.trans hfields₁⟩

/-- A list is its head, then its values one behind the other. -/
theorem drawn_list {α : Type} {x : α → WriteM Unit} {y : α → Image.Sketch Wire} {items : List α}
    {head : ListHead} {s₁ : Session} (h : Follows r base s st)
    (hfits : Image.fitsList items.length head = true) (hl : Laid s s₁ (head.bytes items.length))
    (hitems : (forEach x items).Yields s₁ u s') (hx : ∀ a, Draws r (x a) (y a) Wire.bytes) :
    Drawn r base s s' st (Image.list y head items) Wire.bytes := by
  obtain ⟨ws, st', hws, hf, ht, hfields⟩ := draws_each items hx hitems (h.laid hl)
  have hlen : ws.length = items.length := Image.length_each hws
  refine ⟨.list head ws, st', (Image.gives_list ..).mpr ⟨hfits, ws, rfl, hws⟩, hf, ?_,
    hfields.trans hl.fields⟩
  rw [Wire.bytes, hlen]
  exact hl.tape.trans ht

/-- What follows a session of its own follows the log of its own. -/
theorem draws_detached {x : WriteM Unit} {y : Image.Sketch Wire} (h : Draws r x y Wire.bytes) :
    Draws r (detached x) (Image.detached y) Wire.bytes := by
  intro s s' u hx base st hf
  obtain ⟨s₁, hs₁, rfl⟩ := (yields_detached ..).mp hx
  have hf₀ : Follows r base { s with handles := .empty } { st with log := [] } :=
    ⟨hf.cursor, hf.graph, hf.regular, hf.static, fun _ => rfl, rfl⟩
  obtain ⟨w, st₁, hw, hf₁, ht, hfields⟩ := h hs₁ hf₀
  refine ⟨w, _, (Image.gives_detached ..).mpr ⟨st₁, hw, rfl⟩, ?_, ht, hfields⟩
  -- Behind it the handles and the log from before are in force again.
  exact ⟨hf₁.cursor, hf₁.graph, hf₁.regular, hf₁.static, hf.find, hf.size⟩

/-- The session once a node's position was asked for and, if it had none, recorded. -/
def recorded (node : NodeId) (s : Session) : Session :=
  { s with handles := (s.handles.put node s.tape.cursor).2 }

/-- A new node is recorded and nothing is written.  For a node that has a position, the way back to it
    is written. -/
theorem writeHandle_cases {node : NodeId} {found : Bool}
    (h : (writeHandle node).Yields s found s') :
    (s.handles.find? node = none ∧ found = false ∧ s' = recorded node s) ∨
      ∃ first, s.handles.find? node = some first ∧ found = true ∧ first ≤ s.tape.cursor ∧
        s.tape.cursor - first ≤ maxWireLength ∧
        (onTape (Encode.tagged .handle (countBytes (s.tape.cursor - first)))).Yields
          (recorded node s) () s' := by
  simp only [writeHandle, yields_bind, yields_position] at h
  obtain ⟨_, _, ⟨rfl, rfl⟩, h⟩ := h
  obtain ⟨seen, s₁, hput, h⟩ := (yields_bind ..).mp h
  obtain ⟨hseen, rfl⟩ := Prod.mk.inj hput
  obtain rfl := (HandleTable.put_fst ..).symm.trans (Except.ok.inj hseen)
  -- A node that is new is recorded here; one that is known is written as its distance.
  cases hfind : s.handles.find? node with
  | none =>
    rw [hfind] at h
    simp only [yields_pure] at h
    exact .inl ⟨rfl, h.1.symm, h.2.symm⟩
  | some first =>
    rw [hfind] at h
    simp only [yields_bind, yields_distance, yields_ofExcept, yields_pure] at h
    obtain ⟨_, _, ⟨⟨hle, rfl⟩, rfl⟩, delta, _, ⟨hdelta, rfl⟩, _, _, htag, rfl, rfl⟩ := h
    obtain ⟨hmax, rfl⟩ := wireLength_ok hdelta
    exact .inr ⟨first, rfl, rfl, hle, hmax, htag⟩

/-- A node that was met before is written as a reference back; one that was not is recorded, and then
    the rest of the write is the node in full. -/
theorem drawn_tracked {node : NodeId} {rest : WriteM Unit} {y : Image.Sketch Wire}
    (h : Follows r base s st)
    (hx : (do if ← writeHandle node then pure () else rest).Yields s u s')
    (hrest : Draws r rest y Wire.bytes) :
    Drawn r base s s' st (Image.tracked node y) Wire.bytes := by
  obtain ⟨found, s₁, hhandle, hx⟩ := (yields_bind ..).mp hx
  have hfind := h.find node
  obtain ⟨hnone, rfl, rfl⟩ | ⟨first, hsome, rfl, hle, hmax, htag⟩ := writeHandle_cases hhandle
  · -- The node is new to the table, and so to the log.
    have hplace : Image.placeOf node st.log = none := by
      rw [hnone] at hfind
      exact Option.map_eq_none_iff.mp hfind.symm
    have hf₁ : Follows r base (recorded node s)
        { st with log := .full node st.place :: st.log } := by
      refine ⟨h.cursor, h.graph, h.regular, h.static, fun other => ?_, ?_⟩
      · rw [recorded, HandleTable.find?_put_snd, hnone, Image.placeOf_cons_full]
        split
        · simp [h.cursor]
        · exact h.find other
      · rw [recorded, HandleTable.size_put, hnone, h.size]
        rfl
    obtain ⟨w, st', hw, hf', ht, hfields⟩ := hrest (by simpa using hx) hf₁
    exact ⟨w, st', (Image.gives_tracked_none hplace ..).mpr hw, hf', ht, hfields⟩
  · simp only [if_true, yields_pure] at hx
    obtain ⟨-, rfl⟩ := hx
    obtain ⟨target, hplace, rfl⟩ := Option.map_eq_some_iff.mp (hsome ▸ hfind).symm
    have hcur := h.cursor
    have hrel : s.tape.cursor - (base + target) = st.place - target := by omega
    rw [hrel] at hmax htag
    -- Nothing new is recorded for a node that is known.
    have hf₁ : Follows r base (recorded node s)
        { st with log := .back node st.place target :: st.log } := by
      refine ⟨h.cursor, h.graph, h.regular, h.static, fun other => ?_, ?_⟩
      · rw [recorded, HandleTable.find?_put_snd, hsome]
        split
        · next heq => exact heq ▸ hsome ▸ hfind
        · exact h.find other
      · rw [recorded, HandleTable.size_put, hsome]
        exact h.size
    have hl := laid_onTape htag fun _ ht =>
      (Encode.tagged_appended ht : Tape.Appended _ _ (Atom.handle st.place target).bytes)
    have hle' : target ≤ st.place := by omega
    obtain ⟨w, st', hw, hf', ht, hfields⟩ := drawn_atom (a := .handle st.place target) hf₁
      (by simp [Image.fitsAtom, hle', hmax]) hl
    exact ⟨w, st', (Image.gives_tracked_some hplace ..).mpr hw, hf', ht, hfields⟩

end

end WriteM

end ObjectWire
