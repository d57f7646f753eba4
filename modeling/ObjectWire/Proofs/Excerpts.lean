import Mathlib.Data.Nat.Find
import ObjectWire.Error

/-!
# Where names are cut

The offsets that `isBoundary` accepts are the positions of the string (`isBoundary_iff_isValid`), each of
which can be told by one byte.  The search for one goes down byte by byte (`Descends`) and ends wherever it
starts (`descends_boundaryBelow`), at the greatest boundary that is not above
(`boundaryBelow_eq_findGreatest`).  A character has at most four bytes, so inside a text the search goes down
by three at most (`exists_isBoundary`).  Before its end lies the longest front of the text that fits
(`upTo`), and that is what errors show of a long name.
-/

namespace ObjectWire

namespace Excerpt

open String.Pos.Raw (IsValid isValid_append isValid_empty_iff isValid_iff_exists_append isValid_singleton
  isValid_zero)

/-! ## Boundaries -/

/-- The first character takes its bytes, and the rest takes what is left. -/
theorem utf8ByteSize_ofList_cons (c : Char) (cs : List Char) :
    (String.ofList (c :: cs)).utf8ByteSize = c.utf8Size + (String.ofList cs).utf8ByteSize := by
  rw [String.ofList_cons, String.utf8ByteSize_append, String.utf8ByteSize_singleton]

/-- The offsets between two characters are the positions of the string. -/
theorem isBoundary_iff_isValid {cs : List Char} {i : Nat} :
    isBoundary cs i = true ↔ IsValid (String.ofList cs) ⟨i⟩ := by
  induction cs generalizing i with
  | nil =>
    rw [String.ofList_nil, isValid_empty_iff, String.Pos.Raw.ext_iff]
    cases i with
    | zero => exact iff_of_true rfl rfl
    | succ i => exact iff_of_false Bool.false_ne_true (Nat.succ_ne_zero i)
  | cons c cs ih =>
    have hsub : (⟨i⟩ : String.Pos.Raw) - String.singleton c = ⟨i - c.utf8Size⟩ := by
      rw [String.Pos.Raw.ext_iff, String.Pos.Raw.byteIdx_sub_string, String.utf8ByteSize_singleton]
    have hle : (String.singleton c).rawEndPos ≤ ⟨i⟩ ↔ c.utf8Size ≤ i := by
      rw [String.Pos.Raw.le_iff, String.byteIdx_rawEndPos, String.utf8ByteSize_singleton]
    -- A position is one of the first character or, moved by its size, one of the others.
    rw [String.ofList_cons, isValid_append, isValid_singleton, hsub, hle, ← ih]
    cases i with
    | zero => exact iff_of_true rfl (.inl (.inl rfl))
    | succ i =>
      rw [isBoundary, Bool.and_eq_true, decide_eq_true_iff]
      refine ⟨.inr, ?_⟩
      rintro ((hzero | hend) | hrest)
      · exact absurd (congrArg String.Pos.Raw.byteIdx hzero) (Nat.succ_ne_zero i)
      · -- The end of the first character is the start of the others.
        have hi : i + 1 = c.utf8Size := hend
        rw [hi, Nat.sub_self]
        exact ⟨Nat.le_refl _, isBoundary_zero cs⟩
      · exact hrest

/-- A boundary is a position at which the text can be cut. -/
theorem isBoundary_toList {text : String} {i : Nat} :
    isBoundary text.toList i = true ↔ IsValid text ⟨i⟩ := by
  rw [isBoundary_iff_isValid, String.ofList_toList]

/-- Every offset into a text has a boundary less than one character below it. -/
theorem exists_isBoundary {cs : List Char} {i : Nat} (h : i ≤ (String.ofList cs).utf8ByteSize) :
    ∃ j, isBoundary cs j = true ∧ j ≤ i ∧ i ≤ j + 3 := by
  induction cs generalizing i with
  | nil => exact ⟨0, rfl, Nat.zero_le i, Nat.le_trans h (Nat.zero_le 3)⟩
  | cons c cs ih =>
    by_cases hc : c.utf8Size ≤ i
    · obtain ⟨k, rfl⟩ := Nat.exists_eq_add_of_le hc
      rw [utf8ByteSize_ofList_cons] at h
      obtain ⟨j, hj, hle, hnear⟩ := ih (Nat.le_of_add_le_add_left h)
      exact ⟨c.utf8Size + j, (isBoundary_cons c cs j).trans hj, by omega, by omega⟩
    · -- Inside the first character, so the start of the text is near.
      have hfour := c.utf8Size_le_four
      exact ⟨0, isBoundary_zero _, Nat.zero_le i, by omega⟩

/-! ## The search -/

/-- The run of the search on the bytes of a text, from one offset to another.  It stops at a position, which
    is the end of the text or the first byte of a character; from any other offset it goes down by one byte.
    There is no rule for going below zero. -/
inductive Descends (text : String) : Nat → Nat → Prop where
  | stop {i : Nat} (h : IsValid text ⟨i⟩) : Descends text i i
  | down {i j : Nat} (h : ¬IsValid text ⟨i + 1⟩) (rest : Descends text i j) : Descends text (i + 1) j

/-- The search ends, whatever the text and wherever it starts. -/
theorem descends_boundaryBelow (text : String) (i : Nat) :
    Descends text i (boundaryBelow text.toList i) := by
  -- At zero the search gives its answer without a look, and the run stops there as well.
  induction i with
  | zero => exact .stop isValid_zero
  | succ i ih =>
    rw [boundaryBelow]
    split
    · next h => exact .stop (isBoundary_toList.mp h)
    · next h => exact .down (mt isBoundary_toList.mpr h) ih

/-- The boundary found below a position is the greatest one that is not behind it. -/
theorem boundaryBelow_eq_findGreatest (cs : List Char) (i : Nat) :
    boundaryBelow cs i = Nat.findGreatest (isBoundary cs · = true) i := by
  induction i with
  | zero => rfl
  | succ i ih => rw [boundaryBelow, Nat.findGreatest_succ, ih]

/-- It is a boundary. -/
theorem isBoundary_boundaryBelow (cs : List Char) (i : Nat) :
    isBoundary cs (boundaryBelow cs i) = true := by
  rw [boundaryBelow_eq_findGreatest]
  exact Nat.findGreatest_spec (P := (isBoundary cs · = true)) (Nat.zero_le i) (isBoundary_zero cs)

/-- It is not behind the position. -/
theorem boundaryBelow_le (cs : List Char) (i : Nat) : boundaryBelow cs i ≤ i := by
  rw [boundaryBelow_eq_findGreatest]
  exact Nat.findGreatest_le i

/-- No boundary up to the position is behind it. -/
theorem le_boundaryBelow {cs : List Char} {i j : Nat} (hj : isBoundary cs j = true) (h : j ≤ i) :
    j ≤ boundaryBelow cs i := by
  rw [boundaryBelow_eq_findGreatest]
  exact Nat.le_findGreatest h hj

/-! ## Fronts of a text -/

/-- A text cut where its first part ends is that part. -/
theorem before_append (front back : List Char) :
    before (front ++ back) (String.ofList front).utf8ByteSize = front := by
  induction front with
  | nil =>
    cases back with
    | nil => rfl
    | cons c cs => exact if_neg (Nat.not_le_of_lt c.utf8Size_pos)
  | cons c cs ih => rw [utf8ByteSize_ofList_cons, List.cons_append, before_cons, ih]

/-- What lies before a position is the front that it splits off. -/
theorem ofList_before {text front back : String} {cut : text.Pos} (h : cut.Splits front back) :
    String.ofList (before text.toList cut.offset.byteIdx) = front := by
  have hbefore := before_append front.toList back.toList
  rw [String.ofList_toList, ← String.toList_append, ← h.eq_append] at hbefore
  rw [h.offset_eq_rawEndPos, String.byteIdx_rawEndPos, hbefore, String.ofList_toList]

/-- The longest front of a text of at most so many bytes. -/
def upTo (text : String) (limit : Nat) : String :=
  String.ofList (before text.toList (boundaryBelow text.toList limit))

section

variable (text : String) (limit : Nat)

/-- The search ends at a position of the text, the one behind this front. -/
theorem exists_splits_upTo : ∃ (cut : text.Pos) (rest : String),
    cut.offset.byteIdx = boundaryBelow text.toList limit ∧ cut.Splits (upTo text limit) rest := by
  have hvalid := isBoundary_toList.mp (isBoundary_boundaryBelow text.toList limit)
  have hsplits := (text.pos _ hvalid).splits
  have hfront : upTo text limit = (text.sliceTo (text.pos _ hvalid)).copy := ofList_before hsplits
  rw [hfront]
  exact ⟨text.pos _ hvalid, _, rfl, hsplits⟩

/-- The cut text is as long as the boundary tells. -/
theorem utf8ByteSize_upTo : (upTo text limit).utf8ByteSize = boundaryBelow text.toList limit := by
  obtain ⟨cut, rest, hcut, hsplits⟩ := exists_splits_upTo text limit
  rw [← hcut, hsplits.offset_eq_rawEndPos, String.byteIdx_rawEndPos]

/-- It is not longer than the limit. -/
theorem utf8ByteSize_upTo_le : (upTo text limit).utf8ByteSize ≤ limit := by
  rw [utf8ByteSize_upTo]
  exact boundaryBelow_le text.toList limit

variable {text limit}

/-- No front that fits is longer. -/
theorem le_utf8ByteSize_upTo {front back : String} (htext : text = front ++ back)
    (hfits : front.utf8ByteSize ≤ limit) : front.utf8ByteSize ≤ (upTo text limit).utf8ByteSize := by
  have hvalid : IsValid text ⟨front.utf8ByteSize⟩ := isValid_iff_exists_append.mpr ⟨front, back, htext, rfl⟩
  rw [utf8ByteSize_upTo]
  exact le_boundaryBelow (isBoundary_toList.mpr hvalid) hfits

/-- Less than a character's worth of bytes is given away. -/
theorem le_utf8ByteSize_upTo_add (h : limit ≤ text.utf8ByteSize) :
    limit ≤ (upTo text limit).utf8ByteSize + 3 := by
  rw [← String.ofList_toList (s := text)] at h
  obtain ⟨j, hj, hle, hnear⟩ := exists_isBoundary h
  have hfront := le_boundaryBelow hj hle
  rw [utf8ByteSize_upTo]
  omega

end

end Excerpt

namespace Error

open Excerpt (Descends boundaryBelow upTo)

/-- The search for a place to cut a name ends, whatever the name and wherever it starts.  Both errors about a
    type show the same text for its name: a name of at most 100 bytes as it is, and a longer one up to the
    position at which the search from 100 ends, which is after 97 bytes at least, and then three dots.  What
    lies before this position is the longest front of the name that fits in 100 bytes. -/
theorem typeName_cut (name : String) :
    (∀ i, Descends name i (boundaryBelow name.toList i)) ∧
    ∃ text, unresolved name = .unresolvedType text ∧ unregistered name = .unregisteredType text ∧
      (name.utf8ByteSize ≤ 100 → text = name) ∧
      (100 < name.utf8ByteSize → ∃ (cut : name.Pos) (kept rest : String),
        cut.offset.byteIdx = boundaryBelow name.toList 100 ∧ cut.Splits kept rest ∧
        text = kept ++ "..." ∧ 97 ≤ kept.utf8ByteSize ∧ kept.utf8ByteSize ≤ 100 ∧
        ∀ front back, name = front ++ back → front.utf8ByteSize ≤ 100 →
          front.utf8ByteSize ≤ kept.utf8ByteSize) := by
  refine ⟨Excerpt.descends_boundaryBelow name, Excerpt.ofName name, rfl, rfl,
    fun hshort => if_pos hshort, fun hlong => ?_⟩
  obtain ⟨cut, rest, hcut, hsplits⟩ := Excerpt.exists_splits_upTo name 100
  have hnear := Excerpt.le_utf8ByteSize_upTo_add (Nat.le_of_lt hlong)
  exact ⟨cut, upTo name 100, rest, hcut, hsplits, if_neg (Nat.not_le_of_lt hlong), by omega,
    Excerpt.utf8ByteSize_upTo_le name 100,
    fun front back happend hfits => Excerpt.le_utf8ByteSize_upTo happend hfits⟩

/-- A short name, and one in which the bytes from 97 to 100 belong to one character. -/
theorem typeName_cut_sample :
    unresolved "Person" = .unresolvedType "Person" ∧
      unregistered (String.ofList ('x' :: List.replicate 30 '😀')) =
        .unregisteredType (String.ofList ('x' :: List.replicate 24 '😀') ++ "...") := by
  obtain ⟨-, text, hunresolved, -, hshort, -⟩ := typeName_cut "Person"
  obtain ⟨-, long, -, hunregistered, -, hlong⟩ :=
    typeName_cut (String.ofList ('x' :: List.replicate 30 '😀'))
  obtain ⟨cut, kept, rest, hcut, hsplits, hkept, -⟩ := hlong (by decide +kernel)
  refine ⟨by rw [hunresolved, hshort (by decide)], ?_⟩
  have hends : boundaryBelow (String.ofList ('x' :: List.replicate 30 '😀')).toList 100 = 97 := by
    decide +kernel
  -- A position splits a name in one way only.
  have hsplits' : cut.Splits (String.ofList ('x' :: List.replicate 24 '😀'))
      (String.ofList (List.replicate 6 '😀')) :=
    ⟨by rw [← String.ofList_append]; rfl, by
      rw [String.Pos.Raw.ext_iff, hcut, hends]; decide +kernel⟩
  rw [hunregistered, hkept, hsplits.eq_left hsplits']

end Error

end ObjectWire
