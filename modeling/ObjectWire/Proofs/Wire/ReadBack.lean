import ObjectWire.Proofs.Wire.Reads

/-!
# Reading back what was written

A reader that comes to a tree in its place reads this tree and nothing behind it (`reads_value`).  A
value inside another one starts at a later place, so the number of bytes that are left bounds how deep
values can be nested; the proof is by induction on that number.
-/

namespace ObjectWire

namespace Reader

variable {bs : Bytes}

/-- Values without others inside are not confused with lists and objects. -/
theorem atom_tag {a : Atom} {place : Nat} (h : a.Fits place) :
    a.tag ≠ .object ∧ a.tag.opensList = false := by
  cases a with
  | words tag count payload =>
    obtain ⟨width, hwidth, -⟩ := h
    show tag ≠ .object ∧ tag.opensList = false
    cases tag <;> cases hwidth <;> decide
  | _ =>
    constructor
    · intro h
      cases h
    · rfl

/-- A value without others inside is read back from what stands behind its tag. -/
theorem reads_atom {a : Atom} {place : Nat} (h : a.Fits place) :
    Reads bs (atom bs place a.tag) a.payload a := by
  cases a with
  | null => exact .pure _
  | byte v => exact (reads_u8 v).last (.pure _)
  | short v => exact (reads_i16 v).last (.pure _)
  | int v => exact (reads_i32 v).last (.pure _)
  | long v => exact (reads_i64 v).last (.pure _)
  | float v => exact (reads_u32 v.bits).last (.pure _)
  | double v => exact (reads_u64 v.bits).last (.pure _)
  | char v => exact (reads_u16 v).last (.pure _)
  | bool v =>
    cases v with
    | false => exact (reads_u8 0).last (.pure _)
    | true => exact (reads_u8 1).last (.pure _)
  | string text => exact (reads_payload h).last (.pure _)
  | uuid most least => exact (reads_u64 most).bind ((reads_u64 least).last (.pure _))
  | date millis => exact (reads_i64 millis).last (.pure _)
  | timestamp millis nanos => exact (reads_i64 millis).bind ((reads_i32 nanos).last (.pure _))
  | time millis => exact (reads_i64 millis).last (.pure _)
  | decimal scale magnitude => exact (reads_i32 scale).bind ((reads_payload h).last (.pure _))
  | words tag count payload =>
    obtain ⟨width, hwidth, hlen, hcount⟩ := h
    have hread : Reads bs (do
        let n ← Reader.count bs
        return Atom.words tag n (← take bs (n * width)))
        (countBytes count ++ payload) (.words tag count payload) :=
      (reads_count hcount).bind ((reads_take hlen.symm).last (.pure _))
    show Reads bs (atom bs place tag) (countBytes count ++ payload) (.words tag count payload)
    cases tag <;> cases hwidth <;> exact hread
  | enum type ordinal => exact (reads_typeRef h).bind ((reads_i32 ordinal).last (.pure _))
  | binaryEnum typeId name ordinal =>
    obtain ⟨hname, hlen⟩ := h
    exact (reads_i32 typeId).bind ((reads_optional hname fun text ht => reads_text (hlen text ht)).bind
      ((reads_i32 ordinal).last (.pure _)))
  | classRef type => exact (reads_typeRef h).last (.pure _)
  | encoded bytes start => exact (reads_payload h).bind ((reads_i32 start).last (.pure _))
  | handle at_ target =>
    obtain ⟨rfl, hle, hmax⟩ := h
    have hback : at_ - (at_ - target) = target := by omega
    -- The reader takes the distance off the place of the reference itself.
    apply (reads_count hmax).last
    rw [hback]
    exact .pure _

/-- Lists are not confused with objects and values without others inside. -/
theorem listHead_tag {head : ListHead} {items : Nat} (h : head.Fits items) :
    head.tag ≠ .object ∧ head.tag.opensList = true := by
  cases head with
  | elements tag =>
    obtain ⟨htag, -⟩ := h
    show tag ≠ .object ∧ tag.opensList = true
    cases tag <;> cases htag <;> decide
  | _ =>
    constructor
    · intro h
      cases h
    · rfl

/-- The head of a list is read back with the number of items. -/
theorem reads_listHead {head : ListHead} {items : Nat} (h : head.Fits items) :
    Reads bs (listHead bs head.tag) (head.payload items) (head, items) := by
  cases head with
  | elements tag =>
    obtain ⟨htag, hle⟩ := h
    have hread : Reads bs (do return (ListHead.elements tag, ← count bs)) (countBytes items)
        (.elements tag, items) := (reads_count hle).last (.pure _)
    show Reads bs (listHead bs tag) (countBytes items) (.elements tag, items)
    cases tag <;> cases htag <;> exact hread
  | objectArray type => exact (reads_typeRef h.1).bind ((reads_count h.2).last (.pure _))
  | collection kind =>
    have hkind : Reads bs (do return (ListHead.collection (← u8 bs), items)) [kind]
        (.collection kind, items) := by
      rw [← Word.bytes_byte]
      exact (reads_u8 kind).last (.pure _)
    exact (reads_count h).bind hkind
  | map kind =>
    -- A map counts its entries, which are two values each.
    have htwice : 2 * (items / 2) = items := by
      have := h.1
      omega
    have hkind : Reads bs (do return (ListHead.map (← u8 bs), 2 * (items / 2))) [kind]
        (.map kind, items) := by
      rw [← Word.bytes_byte, htwice]
      exact (reads_u8 kind).last (.pure _)
    exact (reads_count h.2).bind hkind
  | enumArray type => exact (reads_typeRef h.1).bind ((reads_count h.2).last (.pure _))
  | proxy interfaces =>
    obtain ⟨rfl, hall, hle⟩ := h
    refine (reads_count hle).bind ?_
    exact (reads_times (f := TypeRef.bytes) fun type htype => reads_typeRef (hall type htype)).last
      (.pure _)

/-- A header is read as it was written if its lengths are some. -/
theorem reads_header {h : Header} {length offset : Nat} (hlength : h.totalLength = Int32.ofNat length)
    (hle : length ≤ maxWireLength) (hoffset : h.offset = Int32.ofNat offset)
    (hle' : offset ≤ maxWireLength) :
    Reads bs (header bs) (Header.version :: (Word.bytes h.flags ++ Word.bytes h.typeId ++
      Word.bytes h.hashCode ++ Word.bytes h.totalLength ++ Word.bytes h.schemaId ++
      Word.bytes h.offset)) h := by
  obtain ⟨flags, typeId, hashCode, totalLength, schemaId, offset'⟩ := h
  simp only at hlength hoffset
  subst hlength hoffset
  have hversion : Reads bs (u8 bs) [Header.version] Header.version := reads_u8 Header.version
  simp only [List.append_assoc]
  -- Both lengths are read as counts, so they have to be such.
  refine hversion.bind ((reads_u16 flags).bind ((reads_i32 typeId).bind ((reads_i32 hashCode).bind
    ((reads_count hle).bind ((reads_i32 schemaId).bind ((reads_count hle').last ?_))))))
  rw [if_pos rfl]
  exact .pure _

/-- Reading values one behind the other. -/
theorem gives_items {x : Reader Wire} {items : List Wire} {place : Nat}
    (hfits : Wire.itemsFit place items) (hholds : Holds bs place (Wire.itemBytes items))
    (hx : ∀ w p, place ≤ p → w.Fits p → Holds bs p w.bytes → Gives x p w (p + w.bytes.length)) :
    Gives (times x items.length) place items (place + (Wire.itemBytes items).length) := by
  induction items generalizing place with
  | nil => exact (gives_pure ..).mpr ⟨rfl, rfl⟩
  | cons item items ih =>
    obtain ⟨hitem, hitems⟩ := hfits
    rw [Wire.itemBytes] at hholds
    obtain ⟨h₁, h₂⟩ := holds_append.mp hholds
    -- The other items stand behind the first one, and so still where `x` can read.
    have hrest := ih hitems h₂ fun w p hp => hx w p (by omega)
    simp only [List.length_cons, times, gives_bind, gives_pure]
    refine ⟨item, _, hx item place (Nat.le_refl _) hitem h₁, items, _, hrest, rfl, ?_⟩
    rw [Wire.itemBytes, List.length_append, Nat.add_assoc]

/-- An offset is read back from as many bytes as its width has. -/
theorem reads_offset {width : OffsetWidth} {n : Nat} (h : n < 256 ^ width.bytes)
    (hmax : n ≤ maxWireLength) :
    Reads bs (offset bs width) (LittleEndian.encode width.bytes n) n := by
  unfold offset
  split
  · next hfour =>
    -- The widest offset is read as a count, which is signed.
    have hpattern : Word.pattern (Int32.ofNat n) = n := by
      show (UInt32.ofNat n).toNat = n
      exact UInt32.toNat_ofNat_of_lt' (by simp only [maxWireLength, UInt32.size] at *; omega)
    have hbytes : countBytes n = LittleEndian.encode 4 n := by
      rw [countBytes, Word.bytes, hpattern]
      rfl
    exact hfour ▸ hbytes ▸ reads_count hmax
  · exact reads_number _ h

/-- One entry of a footer, and the value it tells the place of. -/
theorem gives_field {x : Reader Wire} {start place here : Nat} {width : OffsetWidth} {compact : Bool}
    {f : FieldAt Wire} (hplace : start + f.offset = place)
    (hstop : f.stop = place + f.value.bytes.length) (hid : f.id = none ↔ compact = true)
    (hoffset : f.offset < 256 ^ width.bytes) (hmax : f.offset ≤ maxWireLength)
    (hvalue : Gives x place f.value (place + f.value.bytes.length))
    (hholds : Holds bs here (f.entry width)) :
    Gives (field bs x start width compact) here f (here + (f.entry width).length) := by
  obtain ⟨id, offset, stop, value⟩ := f
  simp only at hplace hstop hid hoffset hmax hvalue
  subst hplace hstop
  obtain ⟨h₁, h₂⟩ := holds_append.mp hholds
  -- The id stands in front of the offset unless the footer is compact.
  have hpresent : compact = false ↔ id.isSome := by
    cases compact <;> cases id <;> simp_all
  simp only [field, gives_bind, gives_pure]
  refine ⟨id, _, reads_optional hpresent (fun id _ => reads_i32 id) _ h₁, offset, _,
    reads_offset hoffset hmax _ h₂, (value, _), _, gives_lookup hvalue, rfl, ?_⟩
  rw [FieldAt.entry, List.length_append, Nat.add_assoc]

/-- The fields of an object are read entry by entry. -/
theorem gives_entries {x : Reader Wire} {start place here : Nat} {width : OffsetWidth} {compact : Bool}
    {fields : List (FieldAt Wire)} (hfits : Wire.fieldsFit start place fields)
    (hids : ∀ f ∈ fields, f.id = none ↔ compact = true)
    (hoffsets : ∀ f ∈ fields, f.offset < 256 ^ width.bytes)
    (hmax : place + (Wire.fieldBytes fields).length ≤ start + maxWireLength)
    (hx : ∀ w p, place ≤ p → w.Fits p → Holds bs p w.bytes → Gives x p w (p + w.bytes.length))
    (hvalues : Holds bs place (Wire.fieldBytes fields))
    (hentries : Holds bs here (fields.flatMap (FieldAt.entry width))) :
    Gives (times (field bs x start width compact) fields.length) here fields
      (here + (fields.flatMap (FieldAt.entry width)).length) := by
  induction fields generalizing place here with
  | nil => exact (gives_pure ..).mpr ⟨rfl, rfl⟩
  | cons f fields ih =>
    obtain ⟨id, offset, stop, value⟩ := f
    obtain ⟨hplace, rfl, hvalue, hrest⟩ := hfits
    rw [Wire.fieldBytes] at hvalues hmax
    rw [List.length_append] at hmax
    rw [List.flatMap_cons] at hentries
    -- The first value and the first entry, and then all the others.
    obtain ⟨hv₁, hv₂⟩ := holds_append.mp hvalues
    obtain ⟨he₁, he₂⟩ := holds_append.mp hentries
    have hfirst := gives_field (x := x) (f := ⟨id, offset, _, value⟩) hplace rfl
      (hids _ (List.mem_cons_self ..)) (hoffsets _ (List.mem_cons_self ..)) (by simp only; omega)
      (hx value place (Nat.le_refl _) hvalue hv₁) he₁
    have hothers := ih hrest (fun f hf => hids f (List.mem_cons_of_mem _ hf))
      (fun f hf => hoffsets f (List.mem_cons_of_mem _ hf)) (by omega)
      (fun w p hp => hx w p (by omega)) hv₂ he₂
    simp only [List.length_cons, times, gives_bind, gives_pure]
    refine ⟨_, _, hfirst, _, _, hothers, rfl, ?_⟩
    rw [List.flatMap_cons, List.length_append, Nat.add_assoc]

/-- A slice is looked up where it stands, and the reader stays where it is. -/
theorem gives_slice {start stop here : Nat} {seg : Bytes} (h : Holds bs start seg)
    (hstop : stop = start + seg.length) : Gives (slice bs start stop) here seg here := by
  subst hstop
  unfold slice
  rw [if_pos (Nat.le_add_right _ _), Nat.add_sub_cancel_left]
  simp only [gives_bind, gives_pure]
  exact ⟨_, _, gives_lookup (reads_take rfl _ h), rfl, rfl⟩

section

variable {header : Header} {name : Option Bytes} {fields : List (FieldAt Wire)} {raw : Option Bytes}

/-- The fields of an object are found by its footer. -/
theorem gives_fields {x : Reader Wire} {place dataStart footerStart stop here : Nat}
    (h : header.Fits name fields raw) (hfits : Wire.fieldsFit place dataStart fields)
    (hmax : dataStart + (Wire.fieldBytes fields).length ≤ place + maxWireLength)
    (hx : ∀ w p, dataStart ≤ p → w.Fits p → Holds bs p w.bytes → Gives x p w (p + w.bytes.length))
    (hvalues : Holds bs dataStart (Wire.fieldBytes fields))
    (hfooter : fields ≠ [] →
      Holds bs footerStart (fields.flatMap (FieldAt.entry (.ofFlags header.flags))))
    (hstop : fields ≠ [] → stop = footerStart +
      (fields.flatMap (FieldAt.entry (.ofFlags header.flags))).length + if raw.isSome then 4 else 0) :
    ∃ here', Gives (Reader.fields bs x place footerStart stop header.flags) here fields here' := by
  unfold Reader.fields
  by_cases hempty : fields = []
  · rw [if_neg fun hc => h.hasSchema.mp hc hempty]
    exact ⟨here, (gives_pure ..).mpr ⟨hempty.symm, rfl⟩⟩
  · rw [if_pos (h.hasSchema.mpr hempty)]
    -- The footer ends before the word behind it, if there is one.
    have hlength : (if header.flags &&& Flag.hasRaw ≠ 0 then stop - 4 else stop) - footerStart =
        (fields.flatMap (FieldAt.entry (.ofFlags header.flags))).length := by
      have := hstop hempty
      by_cases hraw : raw.isSome
      · rw [if_pos (h.hasRaw.mpr hraw)]
        rw [if_pos hraw] at this
        omega
      · rw [if_neg fun hc => hraw (h.hasRaw.mp hc)]
        rw [if_neg hraw] at this
        omega
    have hids : ∀ f ∈ fields,
        f.id = none ↔ decide (header.flags &&& Flag.compactFooter ≠ 0) = true :=
      fun f hf => (h.ids f hf).trans decide_eq_true_iff.symm
    have hpos : 0 < (OffsetWidth.ofFlags header.flags).bytes +
        (if decide (header.flags &&& Flag.compactFooter ≠ 0) = true then 0 else 4) := by
      have : 0 < (OffsetWidth.ofFlags header.flags).bytes := by
        cases OffsetWidth.ofFlags header.flags <;> decide
      omega
    have hentries := gives_entries hfits hids h.offsets hmax hx hvalues (hfooter hempty)
    -- Its length tells the number of its entries, which all have one length.
    have hread : Gives (footer bs x place header.flags
        (fields.flatMap (FieldAt.entry (.ofFlags header.flags))).length) footerStart fields
        (footerStart + (fields.flatMap (FieldAt.entry (.ofFlags header.flags))).length) := by
      have hlen := length_entries (.ofFlags header.flags) hids
      unfold footer
      simp only
      rw [hlen, if_pos (Nat.mul_mod_left ..), Nat.mul_div_cancel _ hpos, ← hlen]
      exact hentries
    exact ⟨_, (gives_bind ..).mpr ⟨(), footerStart, (gives_set ..).mpr rfl, hlength ▸ hread⟩⟩

/-- The raw section of an object is found by the word behind the footer or, if there is no footer, by the
    header. -/
theorem gives_rawSection {place footerStart stop offset here : Nat} (h : header.Fits name fields raw)
    (hraw : ∀ bytes ∈ raw, ∃ start, start ≤ maxWireLength ∧ Holds bs (place + start) bytes ∧
      footerStart = place + start + bytes.length ∧
      (fields ≠ [] → Holds bs (stop - 4) (countBytes start)) ∧ (fields = [] → offset = start)) :
    Gives (rawSection bs place footerStart stop offset header.flags) here raw here := by
  unfold rawSection optional
  cases raw with
  | none =>
    rw [if_neg fun hc => Bool.false_ne_true (h.hasRaw.mp hc)]
    exact (gives_pure ..).mpr ⟨rfl, rfl⟩
  | some bytes =>
    obtain ⟨start, hmax, hholds, hstop, hschema, hnone⟩ := hraw bytes rfl
    rw [if_pos (h.hasRaw.mpr rfl)]
    -- With fields the offset stands at the very end of the object, and without them in the header.
    have hoffset : Gives (rawOffset bs stop offset header.flags) here start here := by
      unfold rawOffset
      by_cases hempty : fields = []
      · rw [if_neg fun hc => h.hasSchema.mp hc hempty]
        exact (gives_pure ..).mpr ⟨hnone hempty, rfl⟩
      · rw [if_pos (h.hasSchema.mpr hempty)]
        have hread : Gives (lookup (stop - 4) (count bs)) here (start, _) here :=
          gives_lookup (reads_count hmax _ (hschema hempty))
        exact (gives_map ..).mpr ⟨_, hread, rfl⟩
    exact (gives_map ..).mpr ⟨bytes, (gives_bind ..).mpr ⟨start, here, hoffset,
      gives_slice hholds hstop⟩, rfl⟩

/-- The header of an object is read behind its tag, which is the header's first byte. -/
theorem gives_header {place : Nat} (h : header.Fits name fields raw)
    (hholds : Holds bs place header.bytes) :
    Gives (Reader.header bs) (place + 1) header (place + Header.size) := by
  have hsplit : header.bytes = [Tag.object.code] ++ header.bytes.tail := rfl
  rw [hsplit] at hholds
  exact reads_header h.totalLength h.short h.offset h.offset_le _ (holds_append.mp hholds).2

/-- An object is read as it was written, behind its tag. -/
theorem gives_object {x : Reader Wire} {place : Nat} (h : header.Fits name fields raw)
    (hfits : Wire.fieldsFit place (place + frontLength name) fields)
    (hx : ∀ w p, place < p → w.Fits p → Holds bs p w.bytes → Gives x p w (p + w.bytes.length))
    (hholds : Holds bs place (Wire.object place header name fields raw).bytes) :
    Gives (object bs x place) (place + 1) (.object place header name fields raw)
      (place + (Wire.object place header name fields raw).bytes.length) := by
  have hshort : (Wire.object place header name fields raw).bytes.length ≤ maxWireLength := h.short
  have hlen := length_parts place header name fields raw
  have hfront : frontLength name = Header.size + (name.elim [] nameBytes).length := rfl
  have hsize : Header.size = 24 := rfl
  rw [bytes_parts] at hholds
  obtain ⟨hheader, hholds⟩ := holds_append.mp hholds
  obtain ⟨hname, hholds⟩ := holds_append.mp hholds
  obtain ⟨hvalues, hholds⟩ := holds_append.mp hholds
  obtain ⟨hraw, hholds⟩ := holds_append.mp hholds
  obtain ⟨hentries, htail⟩ := holds_append.mp hholds
  rw [Header.length_bytes] at hname hvalues hraw hentries htail
  have hread_header := gives_header h hheader
  have hread_name := reads_optional h.unnamed (fun text ht => reads_text (h.nameShort text ht)) _ hname
  have hdataStart : place + Header.size + (name.elim [] nameBytes).length = place + frontLength name := by
    omega
  rw [hdataStart] at hread_name hvalues hraw hentries htail
  -- The header says where the footer is and where the object ends.
  have hfooter := h.footerStart place
  have hstop : place + header.totalLength.toInt.toNat =
      place + (Wire.object place header name fields raw).bytes.length := by
    rw [h.totalLength_toNat place]
  rw [hstop] at hfooter
  generalize hend : place + (Wire.object place header name fields raw).bytes.length = stop at *
  generalize hfooterStart : place + frontLength name + (Wire.fieldBytes fields).length +
    (raw.getD []).length = footerStart at *
  obtain ⟨here, hread_fields⟩ : ∃ here, Gives (Reader.fields bs x place footerStart stop header.flags)
      (place + frontLength name) fields here := by
    refine gives_fields h hfits (by omega) (fun w p hp => hx w p (by omega)) hvalues
      (fun _ => hentries) (fun hne => ?_)
    have hafter : (tailBytes name fields raw).length = if raw.isSome then 4 else 0 :=
      length_tailBytes hne
    omega
  have hread_raw : Gives (rawSection bs place footerStart stop header.offset.toInt.toNat header.flags)
      here raw here := by
    refine gives_rawSection h fun bytes hbytes => ?_
    obtain rfl := Option.mem_def.mp hbytes
    have hwithout : fields = [] →
        header.offset.toInt.toNat = frontLength name + (Wire.fieldBytes fields).length := by
      intro hempty
      rw [h.offset_toNat, if_pos (by simpa using hempty), hempty]
      rfl
    have hwith : fields ≠ [] → Holds bs (stop - 4)
        (countBytes (frontLength name + (Wire.fieldBytes fields).length)) := by
      intro hne
      have hplace : stop - 4 = footerStart +
          (fields.flatMap (FieldAt.entry (.ofFlags header.flags))).length := by
        have hfour : (tailBytes name fields (some bytes)).length = 4 := length_tailBytes hne
        omega
      have hbytes : tailBytes name fields (some bytes) =
          countBytes (frontLength name + (Wire.fieldBytes fields).length) := by
        simp [tailBytes, hne]
      rw [hplace, ← hbytes]
      exact htail
    have hstart : place + frontLength name + (Wire.fieldBytes fields).length =
        place + (frontLength name + (Wire.fieldBytes fields).length) := Nat.add_assoc ..
    exact ⟨_, by omega, hstart ▸ hraw, hstart ▸ hfooterStart.symm, hwith, hwithout⟩
  simp only [object, gives_bind, gives_set, gives_pure]
  refine ⟨header, _, hread_header, name, _, hread_name, ?_⟩
  rw [hstop, hfooter]
  exact ⟨fields, here, hread_fields, raw, here, hread_raw, (), stop, rfl, rfl, rfl⟩

end

/-- Every tree has its tag at least. -/
theorem bytes_pos (w : Wire) : 0 < w.bytes.length := by
  cases w with
  | atom a => exact Nat.succ_pos _
  | list head items =>
    rw [Wire.bytes, List.length_append]
    exact Nat.add_pos_left (Nat.succ_pos _) _
  | object start header name fields raw =>
    rw [bytes_parts, List.length_append, Header.length_bytes]
    exact Nat.add_pos_left (by decide) _

/-- A tree in its place is read as it is, and the reader goes on behind it. -/
theorem gives_value {depth : Nat} {w : Wire} {place : Nat} (hfits : w.Fits place)
    (hholds : Holds bs place w.bytes) (hdepth : bs.length ≤ place + depth) :
    Gives (value bs depth) place w (place + w.bytes.length) := by
  induction depth generalizing w place with
  | zero =>
    -- No tree has no bytes.
    have := hholds.length_le
    have := bytes_pos w
    omega
  | succ depth ih =>
    -- A value inside stands behind the tag, so fewer bytes are left for it.
    have hx : ∀ w p, place < p → w.Fits p → Holds bs p w.bytes →
        Gives (value bs depth) p w (p + w.bytes.length) :=
      fun w p hp hw hholds => ih hw hholds (by omega)
    simp only [value, gives_bind, gives_get]
    refine ⟨place, place, ⟨rfl, rfl⟩, ?_⟩
    cases w with
    | atom a =>
      obtain ⟨hne, hlist⟩ := atom_tag hfits
      have hbytes : (Wire.atom a).bytes = [a.tag.code] ++ a.payload := rfl
      rw [hbytes] at hholds ⊢
      obtain ⟨htag, hpayload⟩ := holds_append.mp hholds
      refine ⟨a.tag, _, reads_tag a.tag _ htag, ?_⟩
      rw [if_neg hne, hlist, if_neg Bool.false_ne_true]
      refine (gives_bind ..).mpr ⟨a, _, reads_atom hfits _ hpayload, (gives_pure ..).mpr ⟨rfl, ?_⟩⟩
      rw [List.length_append, Nat.add_assoc]
    | list head items =>
      obtain ⟨hhead, hitems⟩ := hfits
      obtain ⟨hne, hlist⟩ := listHead_tag hhead
      have hbytes : (Wire.list head items).bytes =
          [head.tag.code] ++ (head.payload items.length ++ Wire.itemBytes items) := rfl
      rw [hbytes] at hholds ⊢
      obtain ⟨htag, hholds⟩ := holds_append.mp hholds
      obtain ⟨hpayload, hvalues⟩ := holds_append.mp hholds
      refine ⟨head.tag, _, reads_tag head.tag _ htag, ?_⟩
      rw [if_neg hne, if_pos hlist]
      have hplace : place + [head.tag.code].length + (head.payload items.length).length =
          place + (head.bytes items.length).length := by
        simp only [ListHead.bytes, List.length_cons, List.length_nil]
        omega
      have hread := gives_items (hplace ▸ hitems) hvalues fun w p hp => hx w p (by
        simp only [List.length_singleton] at hp
        omega)
      refine (gives_bind ..).mpr ⟨(head, items.length), _, reads_listHead hhead _ hpayload,
        (gives_bind ..).mpr ⟨items, _, hread, (gives_pure ..).mpr ⟨rfl, ?_⟩⟩⟩
      simp only [List.length_append]
      omega
    | object start header name fields raw =>
      obtain ⟨rfl, hheader, hfields⟩ := hfits
      -- The tag of an object is the first byte of its header.
      have htag : Holds bs start [Tag.object.code] := by
        have hsplit : header.bytes = [Tag.object.code] ++ header.bytes.tail := rfl
        have hholds := hholds
        rw [bytes_parts, hsplit] at hholds
        exact (holds_append.mp (holds_append.mp hholds).1).1
      refine ⟨.object, _, reads_tag .object _ htag, ?_⟩
      rw [if_pos rfl]
      exact gives_object hheader hfields hx hholds

end Reader

/-- A tree that fits at the start is read off its bytes, and nothing is left. -/
theorem Wire.read_bytes {w : Wire} (h : w.Fits 0) : Wire.read w.bytes = some (w, w.bytes.length) := by
  have hread := Reader.gives_value h (Reader.holds_self w.bytes) (Nat.le_add_left _ _)
  rwa [Nat.zero_add] at hread

end ObjectWire
