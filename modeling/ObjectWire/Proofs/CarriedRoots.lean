import ObjectWire.Proofs.CarriedWrites
import ObjectWire.Proofs.ImageDepth
import ObjectWire.Proofs.RootImage
import ObjectWire.Proofs.Stability

/-!
# Root writes of what was written elsewhere

A value that a session without handles has written can be encoded by itself, over the same service and
whether or not hash codes are filled in there (`encode_of_writeDepth`).  Its bytes are those of its image
(`encode_eq_image`), and a graph that has other nodes as well gives the same ones.
-/

namespace ObjectWire

open ObjectWire.Action Image

/-- What was written without handles can be encoded, if the tape it was written to reaches no farther than
    a new one can. -/
theorem encode_of_writeDepth {depth : Nat} {v : Value} {s s' : Session} (hdynamic : s.graph.Dynamic)
    (hclosed : s.graph.Closed) (hv : s.graph.Has v) (hscope : s.handles = .empty)
    (hreach : max s.tape.capacity s.tape.growth.largest ≤
      s.tape.cursor + max s.service.config.initialCapacity Growth.maxCapacity)
    (h : (WriteM.writeDepth depth v).Yields s () s') (hashes : Bool) (journal : Journal) :
    ∃ bs, (encode v ⟨s.service.hashing hashes, s.graph, journal⟩).1 = .ok bs := by
  let world : World := ⟨s.service.hashing hashes, s.graph, journal⟩
  let t : Session := world.session (Tape.new .heap s.service.config.initialCapacity) {}
  let c : Shift := ⟨s.tape.cursor, max s.tape.capacity s.tape.growth.largest, s.graph, hashes⟩
  have hahead : s.Ahead c s.fields.entries [] t := by
    constructor
    case tape =>
      constructor
      case cursor => rfl
      case growth => rfl
      case reach => exact Nat.le_refl _
      case room =>
        show _ ≤ s.tape.cursor + max (Tape.zeros s.service.config.initialCapacity).size _
        rw [Tape.size_zeros]
        exact hreach
    case first => rfl
    case second => rfl
    case service => rfl
    case handles =>
      intro node
      rw [hscope]
      rfl
    case graph => exact .refl _
    case graph' => exact .refl _
  have hcarried : Carried (Session.Ahead c s.fields.entries []) Eq () s' (WriteM.writeValue v t) :=
    WriteM.carries_writeDepth hdynamic hclosed hv h hahead
  have hbehind : t.HandlesBehind := fun _ _ h => nomatch h
  have hends : t.tape.Ends (WriteM.writeValue v t).1 :=
    WriteM.ends_writeValue hdynamic hclosed hv hbehind (Nat.zero_le _)
  have hkeeps : t.Keeps (WriteM.writeValue v t).2 := WriteM.keeps_writeValue v t
  have htold : (encode v world).1 = Session.told (WriteM.writeValue v t) := encode_told v world
  show ∃ bs, (encode v world).1 = .ok bs
  rw [htold]
  obtain ⟨_, t', hrun, -, -⟩ | ⟨e, t', hrun, he⟩ := hcarried
  · rw [hrun] at hkeeps ⊢
    -- What was written is in the storage.
    obtain ⟨bytes, hbytes⟩ := Tape.written?_eq (hkeeps.tape.room (Nat.zero_le _))
    exact ⟨bytes, by simp only [Session.told, hbytes, Option.elim]⟩
  · -- A whole write ends with errors that its caller is told.
    rw [hrun] at hends
    obtain ⟨cause, rfl, -⟩ := hends e rfl
    exact he.elim

/-- Only the bytes of its image are ever told of a value. -/
theorem encode_eq_image {depth : Nat} {v : Value} {world : World} {bs : Bytes} {w : Wire} {st : Progress}
    (hregular : world.graph.Regular)
    (hw : Gives (Image.value world.service.registry.static depth v) { place := 0, graph := world.graph } w st)
    (h : (encode v world).1 = .ok bs) : bs = w.bytes := by
  have hyields : (encode v).Yields world bs (encode v world).2 := Prod.ext h rfl
  obtain ⟨w', himage, rfl⟩ := encode_image hregular hyields
  rw [himage.unique ⟨depth, st, hw⟩]

end ObjectWire
