import ObjectWire.NameId

/-!
# Names that differ in the case of ASCII letters

The id of a name does not tell the case of its ASCII letters (`NameId.ofName_congr`), whichever other
characters stand around them.  For a name of ASCII letters only, lower-casing a byte hides the case.  In any
other name a letter and its lower-case form are the same to all three tables, so they are mapped to the same
characters, and so are the letters around them: a sigma sees no difference in its neighbours.
-/

namespace ObjectWire

/-- What does not tell an ASCII capital from the small letter does not see ASCII letters lower-cased. -/
theorem Casing.apply_toLower {α : Type} {f : Char → α}
    (hcapital : ∀ n < 91, 65 ≤ n → f (Char.ofNat n).toLower = f (Char.ofNat n)) (c : Char) :
    f c.toLower = f c := by
  by_cases h : 65 ≤ c.toNat ∧ c.toNat < 91
  · have hc := hcapital c.toNat h.2 h.1
    rwa [Char.ofNat_toNat] at hc
  · have hsame : c.toLower = c := by
      refine dif_neg fun hletter => h ⟨?_, ?_⟩
      · exact UInt32.le_iff_toNat_le.mp hletter.1
      · exact Nat.lt_succ_of_le (UInt32.le_iff_toNat_le.mp hletter.2)
    rw [hsame]

namespace Lowercase

open Casing (apply_toLower)

/-- A character alone is mapped to the same characters whether it is lower-cased before or not. -/
theorem ofChar_toLower (c : Char) : ofChar c.toLower = ofChar c :=
  apply_toLower (f := ofChar) (by decide +kernel) c

/-- Lower-casing ASCII letters passes over the same characters, and leaves letters with case what they
    are. -/
theorem startsCased_map_toLower (cs : List Char) :
    startsCased (cs.map Char.toLower) = startsCased cs := by
  have hignorable : Casing.isIgnorable ∘ Char.toLower = Casing.isIgnorable :=
    funext (apply_toLower (by decide +kernel))
  have hcased := apply_toLower (f := Casing.isCased) (by decide +kernel)
  rw [startsCased, startsCased, List.dropWhile_map, hignorable]
  cases cs.dropWhile Casing.isIgnorable with
  | nil => rfl
  | cons c rest => exact hcased c

/-- The same holds of a name from any place on, because a sigma looks only at whether its neighbours are
    cased. -/
theorem ofRest_map_toLower (before cs : List Char) :
    ofRest (before.map Char.toLower) (cs.map Char.toLower) = ofRest before cs := by
  induction cs generalizing before with
  | nil => rfl
  | cons c cs ih =>
    have hsigma := apply_toLower (f := fun c => decide (c = '\u03A3')) (by decide +kernel) c
    have hrest := ih (c :: before)
    rw [List.map_cons] at hrest
    rw [List.map_cons, ofRest, ofRest, hrest, ofChar_toLower, sigma, sigma, startsCased_map_toLower,
      startsCased_map_toLower]
    simp only [decide_eq_decide.mp hsigma]

end Lowercase

namespace NameId

open Casing (apply_toLower)

/-- The id of a name given by its characters. -/
def ofChars (cs : List Char) : Int32 :=
  if cs.all (·.toNat < 128) then ofBytes (cs.map fun c => UInt8.ofNat c.toNat) else general cs

/-- To lower-case the ASCII letters of a name first does not change its lower-case form. -/
theorem ofChars_map_toLower (cs : List Char) : ofChars (cs.map Char.toLower) = ofChars cs := by
  have hascii : (cs.map Char.toLower).all (·.toNat < 128) = cs.all (·.toNat < 128) := by
    rw [List.all_map]
    congr 1
    exact funext (apply_toLower (f := fun c => decide (c.toNat < 128)) (by decide +kernel))
  have hbyte := apply_toLower (f := fun c => lowerByte (UInt8.ofNat c.toNat)) (by decide +kernel)
  have hgeneral : general (cs.map Char.toLower) = general cs :=
    congrArg (fun cs => ofUnits (Utf16.ofText cs)) (Lowercase.ofRest_map_toLower [] cs)
  have hbytes : ofBytes ((cs.map Char.toLower).map fun c => UInt8.ofNat c.toNat) =
      ofBytes (cs.map fun c => UInt8.ofNat c.toNat) := by
    simp only [ofBytes, List.foldl_map, hbyte]
  rw [ofChars, ofChars, hascii, hbytes, hgeneral]

/-- Names that differ only in the case of ASCII letters have the same id. -/
theorem ofName_congr {a b : String} (h : a.toList.map Char.toLower = b.toList.map Char.toLower) :
    ofName a = ofName b := by
  show ofChars a.toList = ofChars b.toList
  rw [← ofChars_map_toLower a.toList, h, ofChars_map_toLower]

example : ofName "AΣ b" = ofName "aΣ B" := by decide +kernel

end NameId

end ObjectWire
