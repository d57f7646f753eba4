import ObjectWire.Proofs.CheckedWrites
import ObjectWire.Proofs.Image

/-!
# Encoders and images of plain values

Every encoder that succeeds appends the bytes of the image of its value: an atom for a value without
others inside, a list for an array of tagged elements.
-/

namespace ObjectWire

open ObjectWire.Action Tape

namespace Encode

variable {t t' : Tape} {u : Unit}

/-- A tag and its payload are appended to the tape. -/
theorem tagged_appended {tag : Tag} {payload : Bytes} (h : (tagged tag payload).Yields t u t') :
    t.Appended t' (tag.code :: payload) := reserve_put_appended h

/-- The head of an array is appended, and its count is one that the wire can tell. -/
theorem arrayHeader_appended {code : UInt8} {n : Nat} (h : (arrayHeader code n).Yields t u t') :
    n ≤ maxWireLength ∧ t.Appended t' (code :: countBytes n) := by
  simp only [arrayHeader, yields_bind, yields_ofExcept] at h
  obtain ⟨v, _, ⟨hv, rfl⟩, _, _, hr, hp⟩ := h
  obtain ⟨hle, rfl⟩ := wireLength_ok hv
  exact ⟨hle, .of_grown (reserve_grown hr).1 (put_appended hp)⟩

/-- A proxy whose head is written has no more interfaces than the wire can count. -/
theorem proxyHead_appended {n : Nat} (h : (proxyHead n).Yields t u t') :
    n ≤ maxWireLength ∧ t.Appended t' (Tag.proxy.code :: countBytes n) :=
  (proxyHead_yields h).imp_right tagged_appended

/-- A text that is written is not too long, and is appended with its length. -/
theorem textBytes_appended {bs : Bytes} (h : (textBytes bs).Yields t u t') :
    bs.length ≤ maxWireLength ∧ t.Appended t' (Atom.string bs).bytes := by
  simp only [textBytes, yields_bind, yields_ofExcept] at h
  obtain ⟨v, _, ⟨hv, rfl⟩, ht⟩ := h
  obtain ⟨hle, rfl⟩ := wireLength_ok hv
  exact ⟨hle, tagged_appended ht⟩

/-- `x` writes the value `a`, which can be written. -/
def Writes (x : Action Tape Unit) (a : Atom) : Prop :=
  ∀ t u t', x.Yields t u t' → Image.fitsAtom a = true ∧ t.Appended t' a.bytes

/-- A tag with a payload that needs no check. -/
theorem writes_tagged {a : Atom} (hfits : Image.fitsAtom a = true) :
    Writes (tagged a.tag a.payload) a :=
  fun _ _ _ h => ⟨hfits, tagged_appended h⟩

/-- A text is written as one. -/
theorem writes_text (bs : Bytes) : Writes (textBytes bs) (.string bs) := fun _ _ _ h => by
  obtain ⟨hle, ha⟩ := textBytes_appended h
  exact ⟨by simpa [Image.fitsAtom] using hle, ha⟩

/-- A decimal is written as its scale and its magnitude. -/
theorem writes_decimal (v : Decimal) : Writes (decimal v) (Image.decimalAtom v) := fun t u t' h => by
  simp only [decimal, yields_bind, yields_ofExcept] at h
  obtain ⟨n, _, ⟨hn, rfl⟩, ht⟩ := h
  obtain ⟨hle, rfl⟩ := wireLength_ok hn
  refine ⟨by simpa [Image.decimalAtom, Image.fitsAtom] using hle, ?_⟩
  have ha := tagged_appended ht
  rwa [List.append_assoc] at ha

/-- An object encoded before is written with its length and with where it starts in its bytes. -/
theorem writes_encoded (v : EncodedObject) (t t' : Tape) (u : Unit) (h : (encoded v).Yields t u t') :
    v.start ≤ maxWireLength ∧ Image.fitsAtom (.encoded v.bytes (Int32.ofNat v.start)) = true ∧
      t.Appended t' (Atom.encoded v.bytes (Int32.ofNat v.start)).bytes := by
  simp only [encoded, yields_bind, yields_ofExcept] at h
  obtain ⟨n, _, ⟨hn, rfl⟩, start, _, ⟨hstart, rfl⟩, ht⟩ := h
  obtain ⟨hle, rfl⟩ := wireLength_ok hn
  obtain ⟨hle', rfl⟩ := wireLength_ok hstart
  exact ⟨hle', by simpa [Image.fitsAtom] using hle, tagged_appended ht⟩

/-- An array of words is written as one value, if its tag is that of words of this width. -/
theorem writes_words {α : Type} [Word α] {tag : Tag} (xs : List α)
    (hwidth : tag.wordWidth? = some (Word.width α)) :
    Writes (words tag xs) (Image.wordsAtom tag xs) := fun t u t' h => by
  simp only [words, yields_bind] at h
  obtain ⟨_, t₁, hh, hw⟩ := h
  obtain ⟨hle, hhead⟩ := arrayHeader_appended hh
  -- The words are laid down in one go, each as wide as the tag says.
  refine ⟨?_, hhead.trans (writeWords_appended hw)⟩
  simp only [Image.wordsAtom, Image.fitsAtom, hwidth, Option.any_some, Word.length_flatMap_bytes,
    decide_true, Bool.true_and, decide_eq_true_eq]
  exact hle

/-- What may be a null is written as whichever it is. -/
theorem writes_orNull {α : Type} {write : α → Action Tape Unit} {f : α → Atom}
    (h : ∀ v, Writes (write v) (f v)) (v : Option α) : Writes (orNull write v) (v.elim .null f) := by
  cases v with
  | none => exact writes_tagged (a := .null) rfl
  | some v => exact h v

/-- `x` writes the image that `y` works out, whatever was written before. -/
def Realizes {β : Type} (x : Action Tape Unit) (y : Image.Sketch β) (out : β → Bytes) : Prop :=
  ∀ t u t', x.Yields t u t' → ∀ st : Image.Progress, ∃ b,
    Gives y st b { st with place := st.place + (out b).length } ∧ t.Appended t' (out b)

/-- A value without others inside realizes its image. -/
theorem realizes_atom {x : Action Tape Unit} {a : Atom} (h : Writes x a) :
    Realizes x (Image.atom a) Wire.bytes := fun t u t' hx st => by
  obtain ⟨hfits, ha⟩ := h t u t' hx
  exact ⟨.atom a, (Image.gives_atom ..).mpr ⟨hfits, rfl, rfl⟩, ha⟩

/-- A loop over values realizes their images, one behind the other. -/
theorem realizes_each {α : Type} {x : α → Action Tape Unit} {y : α → Image.Sketch Wire}
    (h : ∀ a, Realizes (x a) (y a) Wire.bytes) (as : List α) :
    Realizes (forEach x as) (Image.each y as) Wire.itemBytes := by
  -- The items are images of their own, each begun where the one before it ends.
  induction as with
  | nil =>
    intro t u t' hx st
    simp only [yields_forEach_nil] at hx
    subst hx
    exact ⟨[], (Image.gives_each_nil ..).mpr ⟨rfl, rfl⟩, .refl t⟩
  | cons a as ih =>
    intro t u t' hx st
    obtain ⟨t₁, ha, has⟩ := (yields_forEach_cons ..).mp hx
    obtain ⟨w, hw, hwa⟩ := h a _ _ _ ha st
    obtain ⟨ws, hws, hwsa⟩ := ih _ _ _ has { st with place := st.place + w.bytes.length }
    refine ⟨w :: ws, (Image.gives_each_cons ..).mpr ⟨w, ws, _, hw, ?_, rfl⟩, hwa.trans hwsa⟩
    simpa [Wire.itemBytes, Nat.add_assoc] using hws

/-- An array of elements that may be null realizes its head and its elements. -/
theorem realizes_elements {α : Type} {tag : Tag} {write : α → Action Tape Unit} {f : α → Atom}
    (htag : tag.hasElements = true) (h : ∀ v, Writes (write v) (f v)) (xs : List (Option α)) :
    Realizes (elements tag write xs) (Image.elements f tag xs) Wire.bytes := fun t u t' hx st => by
  simp only [elements, yields_bind] at hx
  obtain ⟨_, t₁, hh, hitems⟩ := hx
  obtain ⟨hle, hhead⟩ := arrayHeader_appended hh
  obtain ⟨ws, hws, hwsa⟩ := realizes_each (fun v => realizes_atom (writes_orNull h v)) xs _ _ _ hitems
    { st with place := st.place + ((ListHead.elements tag).bytes xs.length).length }
  -- The head of the list has the number of its items.
  have hlen : ws.length = xs.length := Image.length_each hws
  refine ⟨.list (.elements tag) ws, (Image.gives_list ..).mpr ⟨?_, ws, rfl, ?_⟩, ?_⟩
  · simp [Image.fitsList, htag, hle]
  · simpa [Wire.bytes, hlen, Nat.add_assoc] using hws
  · rw [Wire.bytes, hlen]
    exact hhead.trans hwsa

/-- The encoder of a plain value writes its image. -/
theorem realizes_plain (r : Registry) (v : Plain) :
    Realizes (plain r.config.stringEncoding v) (Image.plain r v) Wire.bytes := by
  cases v with
  | string v => exact realizes_atom (writes_text _)
  | utf16 v => exact realizes_atom (writes_text _)
  | decimal v => exact realizes_atom (writes_decimal v)
  | bytes v => exact realizes_atom (writes_words v rfl)
  | shorts v => exact realizes_atom (writes_words v rfl)
  | ints v => exact realizes_atom (writes_words v rfl)
  | longs v => exact realizes_atom (writes_words v rfl)
  | floats v => exact realizes_atom (writes_words v rfl)
  | doubles v => exact realizes_atom (writes_words v rfl)
  | chars v => exact realizes_atom (writes_words v rfl)
  | bools v => exact realizes_atom (writes_words v rfl)
  | strings v => exact realizes_elements rfl (fun v => writes_text _) v
  | uuids v => exact realizes_elements rfl (fun v => writes_tagged (a := Image.uuidAtom v) rfl) v
  | dates v => exact realizes_elements rfl (fun v => writes_tagged (a := Image.dateAtom v) rfl) v
  | timestamps v =>
    exact realizes_elements rfl (fun v => writes_tagged (a := Image.timestampAtom v) rfl) v
  | times v => exact realizes_elements rfl (fun v => writes_tagged (a := Image.timeAtom v) rfl) v
  | decimals v => exact realizes_elements rfl writes_decimal v
  | encoded v =>
    -- Where the object starts is checked by the encoder alone; the atom takes any place.
    intro t u t' hx st
    obtain ⟨hstart, hfits, ha⟩ := writes_encoded v t t' u hx
    rw [Image.plain, if_pos hstart]
    exact ⟨.atom _, (Image.gives_atom ..).mpr ⟨hfits, rfl, rfl⟩, ha⟩
  -- All other values are a tag and a payload of fixed length.
  | null => exact realizes_atom (writes_tagged (a := .null) rfl)
  | byte v => exact realizes_atom (writes_tagged (a := .byte v) rfl)
  | short v => exact realizes_atom (writes_tagged (a := .short v) rfl)
  | int v => exact realizes_atom (writes_tagged (a := .int v) rfl)
  | long v => exact realizes_atom (writes_tagged (a := .long v) rfl)
  | float v => exact realizes_atom (writes_tagged (a := .float v) rfl)
  | double v => exact realizes_atom (writes_tagged (a := .double v) rfl)
  | char v => exact realizes_atom (writes_tagged (a := .char v) rfl)
  | bool v => exact realizes_atom (writes_tagged (a := .bool v) rfl)
  | uuid v => exact realizes_atom (writes_tagged (a := Image.uuidAtom v) rfl)
  | date v => exact realizes_atom (writes_tagged (a := Image.dateAtom v) rfl)
  | timestamp v => exact realizes_atom (writes_tagged (a := Image.timestampAtom v) rfl)
  | time v => exact realizes_atom (writes_tagged (a := Image.timeAtom v) rfl)

end Encode

end ObjectWire
