import ObjectWire.Proofs.ImageFits
import ObjectWire.Proofs.RootImage
import ObjectWire.Proofs.Wire.ReadBack

/-!
# Round trips

What was written is read back: the bytes of a value, read by the wire's grammar, are all used up and are
the image of the value.  The argument goes through the image.  The write leaves the image's bytes
(`encode_image`), the image fits its place (`stands_value`), and what fits its place is read back
(`Wire.read_bytes`).
-/

namespace ObjectWire

open ObjectWire.Action Image

/-- What an image holds is read back from its bytes, and its fields tile their objects. -/
theorem Wire.IsImage.read {r : Registry} {g : Graph} {v : Value} {w : Wire} (hr : r.Announces)
    (h : w.IsImage r g v) : Wire.read w.bytes = some (w, w.bytes.length) ∧ w.Tiled := by
  obtain ⟨depth, st, hw⟩ := h
  have hfits : w.Fits 0 := stands_value hr depth v hw
  exact ⟨Wire.read_bytes hfits, hfits.tiled⟩

/-- Reading the bytes of a value from their start uses them up and gives the image of the value, in which
    the fields of every object tile its data.  This needs no more than that no type is registered under
    the id which announces a name, and that the objects write themselves by regular calls, as all
    dynamic objects do (`Graph.Dynamic.regular`). -/
theorem encode_read {v : Value} {world world' : World} {bs : Bytes} (hregular : world.graph.Regular)
    (hr : world.service.registry.Announces) (h : (encode v).Yields world bs world') :
    ∃ w : Wire, Wire.read bs = some (w, bs.length) ∧
      w.IsImage world.service.registry.static world.graph v ∧ w.Tiled := by
  obtain ⟨w, himage, rfl⟩ := encode_image hregular h
  have hstatic : world.service.registry.static.Announces := hr
  obtain ⟨hread, htiled⟩ := himage.read hstatic
  exact ⟨w, hread, himage, htiled⟩

theorem encode_read_sample : ∃ w : Wire, Wire.read sampleBytes = some (w, sampleBytes.length) ∧
    w.IsImage sampleWorld.service.registry.static sampleGraph (.ref 0) ∧ w.Tiled :=
  encode_read sampleGraph_regular (Registry.announces_new _) encode_sample

end ObjectWire
