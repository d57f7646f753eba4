import ObjectWire.Proofs.SessionImage

/-!
# Values without fields

Constants, types and containers are written as their images say.  `rec` writes the values inside a
container, and `image` works out their images.
-/

namespace ObjectWire

open ObjectWire.Action

/-- A map with so many entries has twice as many values, each key before its value. -/
theorem length_pairs {α : Type} (entries : List (α × α)) :
    (entries.flatMap fun (key, value) => [key, value]).length = 2 * entries.length := by
  induction entries with
  | nil => rfl
  | cons entry entries ih =>
    simp only [List.flatMap_cons, List.length_append, ih, List.length_cons, List.length_nil]
    omega

namespace WriteM

variable {r : Registry} {base : Nat} {s s' : Session} {st : Image.Progress} {u : Unit}

/-- A plain value is written as its image, with the encoding of texts that the registry is set to. -/
theorem draws_plain (v : Plain) : Draws r (writePlain v) (Image.plain r v) Wire.bytes := by
  intro s s' u h base st hf
  simp only [writePlain, yields_bind, yields_config] at h
  obtain ⟨_, _, ⟨rfl, rfl⟩, h⟩ := h
  obtain ⟨t, ht, rfl⟩ := (yields_onTape ..).mp h
  -- The session encodes texts as the image's registry says.
  have hconfig : s.service.config.stringEncoding = r.config.stringEncoding := by
    rw [config_eq, hf.static]
  rw [hconfig] at ht
  obtain ⟨w, hw, ha⟩ := Encode.realizes_plain r v _ _ _ ht st
  exact ⟨w, _, hw, hf.laid ⟨ha, rfl, rfl, rfl, rfl⟩, ha, rfl⟩

/-- A constant lays down its tag, its type and its ordinal; its type fits, or the write would have
    stopped. -/
theorem writeEnum_laid {v : EnumConstant} (h : (writeEnum v).Yields s u s') :
    Image.fitsAtom (Image.enumAtom s.service.registry.static v) = true ∧
      Laid s s' (Image.enumAtom s.service.registry.static v).bytes := by
  simp only [writeEnum, yields_bind, yields_config] at h
  obtain ⟨_, _, ⟨rfl, rfl⟩, _, s₁, htag, _, s₂, htype, hordinal⟩ := h
  have hl₁ := writeTag_laid htag
  obtain ⟨hfits, hl₂⟩ := writeTypeRef_laid htype
  have hl₃ := laid_onTape hordinal fun _ => Tape.writeWord_appended
  -- The tag has changed nothing that a type is resolved by.
  rw [hl₁.static] at hfits hl₂
  refine ⟨hfits, ?_⟩
  have hl := (hl₁.trans hl₂).trans hl₃
  rwa [List.append_assoc] at hl

/-- A constant of an enumeration is written as its image. -/
theorem draws_enum (v : EnumConstant) :
    Draws r (writeEnum v) (Image.atom (Image.enumAtom r v)) Wire.bytes := by
  intro s s' u h base st hf
  obtain ⟨hfits, hl⟩ := writeEnum_laid h
  rw [hf.static] at hfits hl
  exact drawn_atom hf hfits hl

/-- An array of constants is written as the image of its head and of its items, a null where there is no
    constant. -/
theorem draws_enumArray (typeName : String) (items : List (Option EnumConstant)) :
    Draws r (writeEnumArray typeName items)
      (Image.list (fun item => Image.atom (item.elim .null (Image.enumAtom r)))
        (.enumArray (Image.typeRef r typeName)) items) Wire.bytes := by
  intro s s' u h base st hf
  simp only [writeEnumArray, yields_bind, yields_config] at h
  obtain ⟨_, _, ⟨rfl, rfl⟩, _, s₁, htag, _, s₂, htype, _, s₃, hcount, hitems⟩ := h
  -- Tag, type and count are the head; what follows are the items, one write for each.
  obtain ⟨hfits, hle, hl⟩ := typedHead_laid htag htype hcount
  rw [hf.static] at hfits hl
  refine drawn_list hf ?_ hl hitems fun item => ?_
  · simp [Image.fitsList, hfits, hle]
  · cases item with
    | none =>
      intro s s' u h base st hf
      have hnull : (onTape Encode.null).Yields s u s' := h
      exact drawn_atom (a := .null) hf rfl (laid_onTape hnull fun _ => Encode.tagged_appended)
    | some v => exact draws_enum v

/-- A constant by type id is written as its image.  The name of its type is written only where the id says
    that there is none. -/
theorem draws_binaryEnum (v : BinaryEnum) :
    Draws r (writeBinaryEnum v) (Image.atom (.binaryEnum v.typeId
      (if v.typeId = unregisteredTypeId then v.typeName.map (Image.text r) else none) v.ordinal))
      Wire.bytes := by
  intro s s' u h base st hf
  simp only [writeBinaryEnum, yields_bind] at h
  obtain ⟨_, s₁, hid, h⟩ := h
  have hl₁ := laid_onTape hid fun _ => Encode.tagged_appended
  split at h
  · next hzero =>
    -- Without an id the type has to have a name.
    split at h
    · next name hname =>
      simp only [yields_bind] at h
      obtain ⟨_, s₂, htext, hordinal⟩ := h
      obtain ⟨hle, hl₂⟩ := writePlain_string_laid htext
      have hl₃ := laid_onTape hordinal fun _ => Tape.writeWord_appended
      rw [hl₁.static, hf.static] at hle hl₂
      have hl := (hl₁.trans hl₂).trans hl₃
      rw [if_pos hzero, hname]
      apply drawn_atom hf
      · simp [Image.fitsAtom, hzero, hle]
      · simpa [Atom.bytes, Atom.payload, Atom.tag, List.append_assoc] using hl
    · -- Without a name the write would have failed.
      simp at h
  · next hne =>
    -- With an id the ordinal follows at once.
    have hl := hl₁.trans (laid_onTape h fun _ => Tape.writeWord_appended)
    rw [if_neg hne]
    apply drawn_atom hf
    · simp [Image.fitsAtom, hne]
    · simpa [Atom.bytes, Atom.payload, Atom.tag] using hl

/-- A reference to a class is written as its image. -/
theorem draws_classRef (typeName : String) :
    Draws r (writeClassRef typeName) (Image.atom (.classRef (Image.typeRef r typeName)))
      Wire.bytes := by
  intro s s' u h base st hf
  simp only [writeClassRef, yields_bind] at h
  obtain ⟨_, s₁, htag, htype⟩ := h
  have hl₁ := writeTag_laid htag
  obtain ⟨hfits, hl₂⟩ := writeTypeRef_laid htype
  rw [hl₁.static, hf.static] at hfits hl₂
  exact drawn_atom hf hfits (hl₁.trans hl₂)

/-- The interfaces of a proxy are laid down one after the other, and every one of them fits. -/
theorem writeTypeRefs_laid {kind : TypeKind} {f : Bool} {names : List String}
    (h : (forEach (fun name => writeTypeRef name kind f) names).Yields s u s') :
    (names.map (Image.typeRef s.service.registry.static)).all Image.fitsType = true ∧
      Laid s s' ((names.map (Image.typeRef s.service.registry.static)).flatMap TypeRef.bytes) := by
  induction names generalizing s with
  | nil =>
    obtain rfl := (yields_forEach_nil ..).mp h
    exact ⟨rfl, .refl s⟩
  | cons name names ih =>
    obtain ⟨s₁, hname, hnames⟩ := (yields_forEach_cons ..).mp h
    obtain ⟨hfits, hl⟩ := writeTypeRef_laid hname
    obtain ⟨hall, hls⟩ := ih hnames
    rw [hl.static] at hall hls
    exact ⟨by simp [hfits] at hall ⊢; exact hall, hl.trans hls⟩

section

variable {rec : Value → WriteM Unit} {image : Value → Image.Sketch Wire}
  (hrec : ∀ v, Draws r (rec v) (image v) Wire.bytes)

include hrec

/-- An object array is written as its image where it is met first, and as a reference back after that. -/
theorem draws_array (node : NodeId) (componentType : String) (items : List Value) :
    Draws r (writeArray rec node componentType items)
      (Image.tracked node (Image.list image (.objectArray (Image.typeRef r componentType)) items))
      Wire.bytes := by
  intro s s' u h base st hf
  -- A reference back is written alike for all nodes, so only the node in full is left.
  apply drawn_tracked hf h
  intro s s' u h base st hf
  simp only [yields_bind, yields_config] at h
  obtain ⟨_, _, ⟨rfl, rfl⟩, _, s₁, htag, _, s₂, htype, _, s₃, hcount, hitems⟩ := h
  obtain ⟨hfits, hle, hl⟩ := typedHead_laid htag htype hcount
  rw [hf.static] at hfits hl
  have hhead : Image.fitsList items.length (.objectArray (Image.typeRef r componentType)) = true := by
    simp [Image.fitsList, hfits, hle]
  exact drawn_list hf hhead hl hitems hrec

/-- So is a collection, with the kind that the registry has for its type's name. -/
theorem draws_collection (node : NodeId) (typeName : String) (items : List Value) :
    Draws r (writeCollection rec node typeName items)
      (Image.tracked node (Image.list image (.collection (r.collectionKind typeName).code) items))
      Wire.bytes := by
  intro s s' u h base st hf
  apply drawn_tracked hf h
  intro s s' u h base st hf
  simp only [yields_bind, yields_ofExcept, yields_read] at h
  obtain ⟨size, _, ⟨hsize, rfl⟩, _, _, ⟨rfl, rfl⟩, _, s₁, hhead, hitems⟩ := h
  obtain ⟨hle, rfl⟩ := wireLength_ok hsize
  have hl := laid_onTape hhead fun _ => Encode.tagged_appended
  -- The session's registry has the kinds that the image's has.
  have hkind : s.service.registry.collectionKind typeName = r.collectionKind typeName := by
    rw [← hf.static]
    rfl
  rw [hkind] at hl
  have hfits : Image.fitsList items.length (.collection (r.collectionKind typeName).code) = true := by
    simpa [Image.fitsList] using hle
  exact drawn_list hf hfits hl hitems hrec

/-- So is a map.  Its image is a list of twice as many values as it has entries. -/
theorem draws_map (node : NodeId) (typeName : String) (entries : List (Value × Value)) :
    Draws r (writeMap rec node typeName entries)
      (Image.tracked node (Image.list image (.map (r.mapKind typeName).code)
        (entries.flatMap fun (key, value) => [key, value]))) Wire.bytes := by
  intro s s' u h base st hf
  apply drawn_tracked hf h
  intro s s' u h base st hf
  simp only [yields_bind, yields_ofExcept, yields_read] at h
  obtain ⟨size, _, ⟨hsize, rfl⟩, _, _, ⟨rfl, rfl⟩, _, s₁, hhead, hitems⟩ := h
  obtain ⟨hle, rfl⟩ := wireLength_ok hsize
  have hl := laid_onTape hhead fun _ => Encode.tagged_appended
  have hkind : s.service.registry.mapKind typeName = r.mapKind typeName := by
    rw [← hf.static]
    rfl
  -- The map's entries are counted, and each of them is two values.
  have hhalf : 2 * entries.length / 2 = entries.length := by omega
  rw [hkind] at hl
  rw [forEach_pairs] at hitems
  refine drawn_list hf ?_ ?_ hitems hrec
  · rw [length_pairs]
    simpa [Image.fitsList, hhalf] using hle
  · rw [length_pairs, ListHead.bytes, ListHead.payload, hhalf]
    exact hl

/-- A proxy is written as its image wherever it is met, since no reference leads back to one. -/
theorem draws_proxy (interfaces : List String) (handler : Value) :
    Draws r (writeProxy rec interfaces handler)
      (Image.list image (.proxy (interfaces.map (Image.typeRef r))) [handler]) Wire.bytes := by
  intro s s' u h base st hf
  simp only [writeProxy, yields_bind, yields_config] at h
  obtain ⟨_, _, ⟨rfl, rfl⟩, _, s₁, hhead, _, s₂, htypes, hhandler⟩ := h
  -- The head is written only if the interfaces are not too many.
  have hle : interfaces.length ≤ maxWireLength := by
    obtain ⟨t, ht, -⟩ := (yields_onTape ..).mp hhead
    exact (Encode.proxyHead_appended ht).1
  have hl₁ := laid_onTape hhead fun _ ht => (Encode.proxyHead_appended ht).2
  obtain ⟨hall, hl₂⟩ := writeTypeRefs_laid htypes
  rw [hl₁.static, hf.static] at hall hl₂
  have hl := hl₁.trans hl₂
  -- The handler is the one value behind the head.
  have hitem : (forEach rec [handler]).Yields s₂ u s' :=
    (yields_forEach_cons ..).mpr ⟨s', hhandler, (yields_forEach_nil ..).mpr rfl⟩
  refine drawn_list hf ?_ ?_ hitem hrec
  · simp [Image.fitsList, hle] at hall ⊢
    exact hall
  · simpa [ListHead.bytes, ListHead.payload, ListHead.tag, countBytes] using hl

end

end WriteM

end ObjectWire
