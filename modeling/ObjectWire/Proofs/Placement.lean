import ObjectWire.Proofs.ImageDepth
import ObjectWire.Proofs.RootImage
import ObjectWire.Proofs.Wire.ReadBack

/-!
# Placement

What a value is written as does not depend on where it is written: not on the place, not on what lay on
the tape before, and not on the objects that were open around it.  All root writes leave the bytes of one
image (`value_unique`), and that image is worked out from the value, the graph and the registry alone.
-/

namespace ObjectWire

open ObjectWire.Action Image

/-- A value written at the cursor of any tape, behind any fields of open objects, is written as on a tape
    of its own: the write tells the old position, the bytes from there to the new one are those of
    `encode`, and what lay before it and the fields stay.  So do the bytes told by a write to a scratch
    tape, whatever that held before. -/
theorem encodeInto_placement {v : Value} {world world₁ world₂ : World} {scratch scratch' : Scratch}
    {start : Nat} {bs : Bytes} (hregular : world.graph.Regular)
    (hinto : (encodeInto v).Yields (world, scratch) start (world₁, scratch'))
    (hown : (encode v).Yields world bs world₂) :
    start = scratch.tape.cursor ∧
      scratch'.tape.slice? scratch.tape.cursor scratch'.tape.cursor = some bs ∧
      scratch.tape.bytes.take scratch.tape.cursor <+: scratch'.tape.bytes ∧
      scratch'.fields = scratch.fields ∧
      ∀ used bs' state, (encodeWith v).Yields (world, used) bs' state → bs' = bs := by
  obtain ⟨w, ⟨_, _, hw⟩, rfl⟩ := encode_image hregular hown
  obtain ⟨hstart, s, hs, -, rfl⟩ := encodeInto_yields hinto
  obtain ⟨w', _, hw', -, happended, hfields⟩ := writeValue_image hregular rfl hs
  -- Both writes leave the image of the value, and there is one only.
  obtain ⟨rfl, -⟩ := value_unique hw hw'
  have hne : w.bytes ≠ [] := List.ne_nil_of_length_pos (Reader.bytes_pos w)
  have hbefore := Tape.take_prefix happended.capacity fun _ => happended.byteAt_before
  refine ⟨hstart, happended.slice?_between hne, hbefore, hfields, ?_⟩
  intro used bs' state hwith
  obtain ⟨w'', _, hw'', rfl⟩ := encodeWith_image hregular hwith
  rw [(value_unique hw hw'').1]

/-- A tape that has been used, with the cursor in the midst of stale bytes and a field of an object that
    is still open. -/
def usedScratch : Scratch where
  tape := { storage := ⟨#[1, 2, 3, 4, 5, 6, 7, 8, 9, 10, 11, 12]⟩, cursor := 3, growth := .offHeap }
  fields := FieldStack.push {} 7 40

theorem encodeInto_placement_sample :
    ∃ state scratch', (encodeInto (.ref 0)).Yields (sampleWorld, usedScratch) 3 (state, scratch') ∧
      scratch'.tape.slice? 3 scratch'.tape.cursor = some sampleBytes ∧
      [1, 2, 3] <+: scratch'.tape.bytes ∧ scratch'.fields = usedScratch.fields := by
  have hinto : ∃ state, (encodeInto (.ref 0)).Yields (sampleWorld, usedScratch) 3 state :=
    ⟨_, yields_of_toOption (by decide +kernel)⟩
  obtain ⟨⟨state, scratch'⟩, hinto⟩ := hinto
  obtain ⟨-, hslice, hbefore, hfields, -⟩ :=
    encodeInto_placement sampleGraph_regular hinto encode_sample
  exact ⟨state, scratch', hinto, hslice, hbefore, hfields⟩

end ObjectWire
