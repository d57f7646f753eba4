import ObjectWire.Proofs.Decimal.Literal
import ObjectWire.Text.Excerpt

/-!
# Decimal literals are read

The parser takes a text apart at its first exponent mark and its first point and strips signs.  Each part
it accepts is the text of one part of a `Literal`, and the text of each part is accepted
(`exponent?_eq_some_iff`, `mantissa?_eq_some_iff`); so the parser accepts the texts of literals and nothing
else.
-/

namespace ObjectWire.Decimal

/-- An integer that fits is that word. -/
theorem word?_eq_some_iff {n : Int} {w : Int32} : word? n = some w ↔ w.toInt = n := by
  unfold word?
  split
  · next h =>
    have hn : (Int32.ofInt n).toInt = n := Int32.toInt_ofInt_of_le h.1 (by omega)
    rw [Option.some_inj, ← Int32.toInt_inj, hn, eq_comm]
  · next h =>
    have hlow := w.le_toInt
    have hhigh := w.toInt_lt
    constructor
    · exact nofun
    · rintro rfl
      exact absurd ⟨hlow, by omega⟩ h

/-- An integer fits if some word has its value. -/
theorem isWord_iff {n : Int} : IsWord n ↔ ∃ w : Int32, w.toInt = n := by
  constructor
  · rintro ⟨hlow, hhigh⟩
    exact ⟨Int32.ofInt n, Int32.toInt_ofInt_of_le hlow hhigh⟩
  · rintro ⟨w, rfl⟩
    exact ⟨w.le_toInt, w.toInt_lt⟩

/-! ## Signs -/

@[simp] theorem Digit.isSign_char (d : Digit) : isSign d.char = false :=
  Bool.or_eq_false_iff.mpr ⟨decide_eq_false (d.char_ne rfl), decide_eq_false (d.char_ne rfl)⟩

@[simp] theorem Sign.isSign_char (s : Sign) : isSign s.char = true := by
  cases s <;> rfl

/-- Before digits there is no sign to drop. -/
theorem dropWhile_isSign_text (ds : List Digit) : (Digit.text ds).dropWhile isSign = Digit.text ds := by
  cases ds with
  | nil => rfl
  | cons d ds => exact List.dropWhile_cons_of_neg (by simp)

/-- The text behind its first character, if that one is a sign. -/
def unsigned (text : List Char) : List Char := if text.head?.any isSign then text.drop 1 else text

/-- A text starts with a sign or not, and the sign decides what its number is worth. -/
theorem exists_sign (text : List Char) :
    ∃ s, text = Sign.text s ++ unsigned text ∧ ∀ n, applySign text n = Sign.apply s n := by
  cases text with
  | nil => exact ⟨none, rfl, fun _ => rfl⟩
  | cons c cs =>
    -- A plus is dropped, a minus is dropped and changes the number, and anything else stays.
    by_cases hplus : c = '+'
    · subst hplus
      exact ⟨some .plus, rfl, fun _ => rfl⟩
    · by_cases hminus : c = '-'
      · subst hminus
        exact ⟨some .minus, rfl, fun _ => rfl⟩
      · refine ⟨none, ?_, fun n => ?_⟩
        · simp [Sign.text, unsigned, isSign, hplus, hminus]
        · simp [applySign, Sign.apply, hminus]

section

variable (s : Option Sign) (ds : List Digit)

/-- Without its sign the text of digits with a sign is that of the digits. -/
theorem unsigned_text : unsigned (Sign.text s ++ Digit.text ds) = Digit.text ds := by
  cases s with
  | some s => simp [unsigned, Sign.text]
  | none =>
    cases ds with
    | nil => rfl
    | cons d ds => simp [unsigned, Sign.text, Digit.text]

theorem dropWhile_isSign_signed :
    (Sign.text s ++ Digit.text ds).dropWhile isSign = Digit.text ds := by
  rw [List.dropWhile_append_of_pos (by cases s <;> simp [Sign.text]), dropWhile_isSign_text]

/-- The sign in a text is applied to the number behind it. -/
theorem applySign_text (n : Nat) : applySign (Sign.text s ++ Digit.text ds) n = Sign.apply s n := by
  cases s with
  | some s => cases s <;> rfl
  | none =>
    cases ds with
    | nil => rfl
    | cons d ds =>
      have hminus : d.char ≠ '-' := d.char_ne rfl
      simp [applySign, Sign.apply, Sign.text, Digit.text, hminus]

end

/-- If stripping all signs takes one character at most, it takes the sign that the text starts with. -/
theorem dropWhile_isSign_eq {text : List Char}
    (h : text.length - (text.dropWhile isSign).length ≤ 1) : text.dropWhile isSign = unsigned text := by
  cases text with
  | nil => rfl
  | cons c cs =>
    by_cases hc : isSign c = true
    · rw [List.dropWhile_cons_of_pos hc] at h ⊢
      have hsuffix := List.dropWhile_suffix isSign (l := cs)
      rw [List.length_cons] at h
      -- Only one sign was dropped, so there is none behind it.
      have hall : cs.dropWhile isSign = cs := hsuffix.eq_of_length_le (by omega)
      rw [hall]
      simp [unsigned, hc]
    · rw [List.dropWhile_cons_of_neg hc]
      simp [unsigned, hc]

/-! ## The parts of a literal -/

/-- What stands behind an exponent mark is read iff it is the rest of an exponent. -/
theorem exponent?_eq_some_iff {text : List Char} {e : Int32} :
    exponent? text = some e ↔ ∃ s ds, ds ≠ [] ∧ Sign.text s ++ Digit.text ds = text ∧
      e.toInt = Sign.apply s (Digit.number ds) := by
  have hread : exponent? text = if (unsigned text).isEmpty || !(unsigned text).all Char.isDigit then none
      else word? (applySign text (ofDigits (unsigned text))) := rfl
  -- The parser as conditions on the text without its sign.
  have hconditions : exponent? text = some e ↔
      (unsigned text ≠ [] ∧ ∀ c ∈ unsigned text, c.isDigit = true) ∧
      e.toInt = applySign text (ofDigits (unsigned text)) := by
    rw [hread, Option.ite_none_left_eq_some, word?_eq_some_iff]
    simp
  rw [hconditions]
  constructor
  · rintro ⟨⟨hne, hdigits⟩, hvalue⟩
    obtain ⟨s, htext, hsign⟩ := exists_sign text
    obtain ⟨ds, hds⟩ := Digit.exists_text hdigits
    rw [← hds] at hne htext hvalue
    rw [hsign, Digit.ofDigits_text] at hvalue
    exact ⟨s, ds, mt Digit.text_eq_nil_iff.mpr hne, htext.symm, hvalue⟩
  · rintro ⟨s, ds, hne, rfl, hvalue⟩
    rw [unsigned_text, applySign_text, Digit.ofDigits_text]
    exact ⟨⟨mt Digit.text_eq_nil_iff.mp hne, fun _ => Digit.isDigit_of_mem⟩, hvalue⟩

/-- A text is cut at its first point, if it has one. -/
theorem exists_point (text : List Char) :
    ∃ tail : Option (List Char), text = (splitPoint text).1 ++ tail.elim [] ('.' :: ·) ∧
      (splitPoint text).2 = tail.getD [] := by
  have hcut := List.takeWhile_append_dropWhile (p := fun c => decide (c ≠ '.')) (l := text)
  have hhead := List.head?_dropWhile_not (fun c => decide (c ≠ '.')) text
  unfold splitPoint
  -- What follows the longest front without a point is empty or begins with one.
  cases htail : text.dropWhile (fun c => decide (c ≠ '.')) with
  | nil =>
    rw [htail, List.append_nil] at hcut
    exact ⟨none, (List.append_nil _).symm ▸ hcut.symm, rfl⟩
  | cons c cs =>
    rw [htail] at hcut hhead
    obtain rfl : c = '.' := by simpa using hhead
    exact ⟨some cs, hcut.symm, rfl⟩

@[simp] theorem Digit.char_ne_point (d : Digit) : d.char ≠ '.' := d.char_ne rfl

@[simp] theorem Sign.char_ne_point (s : Sign) : s.char ≠ '.' := by
  cases s <;> decide

/-- A text is taken apart at its point, since neither a sign nor a digit is one. -/
theorem splitPoint_text (s : Option Sign) (whole : List Digit) (fraction : Option (List Digit)) :
    splitPoint (Sign.text s ++ Digit.text whole ++ Literal.pointText fraction) =
      (Sign.text s ++ Digit.text whole, Digit.text (fraction.getD [])) := by
  have hwhole : ∀ c ∈ Sign.text s ++ Digit.text whole, decide (c ≠ '.') = true := by
    intro c hc
    rw [List.mem_append] at hc
    obtain hc | hc := hc <;> obtain ⟨x, -, rfl⟩ := List.mem_map.mp hc <;> simp
  unfold splitPoint
  rw [List.takeWhile_append_of_pos hwhole, List.dropWhile_append_of_pos hwhole]
  cases fraction <;> simp [Literal.pointText, Digit.text]

/-- What stands before the exponent is read iff it is a sign and digits with or without a point. -/
theorem mantissa?_eq_some_iff {text : List Char} {n : Int} {places : Nat} :
    mantissa? text = some (n, places) ↔ ∃ s whole fraction,
      (whole ≠ [] ∨ fraction.getD [] ≠ []) ∧
      Sign.text s ++ Digit.text whole ++ Literal.pointText fraction = text ∧
      n = Sign.apply s (Digit.number (whole ++ fraction.getD [])) ∧
      places = (fraction.getD []).length := by
  have hread : mantissa? text =
      if ((splitPoint text).1.dropWhile isSign).isEmpty && (splitPoint text).2.isEmpty then none
      else if !((splitPoint text).1.dropWhile isSign ++ (splitPoint text).2).all Char.isDigit then none
      else if 1 < (splitPoint text).1.length - ((splitPoint text).1.dropWhile isSign).length then none
      else some (applySign (splitPoint text).1
        (ofDigits ((splitPoint text).1.dropWhile isSign ++ (splitPoint text).2)),
        (splitPoint text).2.length) := rfl
  have hconditions : mantissa? text = some (n, places) ↔
      ((splitPoint text).1.dropWhile isSign ≠ [] ∨ (splitPoint text).2 ≠ []) ∧
      (∀ c ∈ (splitPoint text).1.dropWhile isSign ++ (splitPoint text).2, c.isDigit = true) ∧
      (splitPoint text).1.length - ((splitPoint text).1.dropWhile isSign).length ≤ 1 ∧
      n = applySign (splitPoint text).1
        (ofDigits ((splitPoint text).1.dropWhile isSign ++ (splitPoint text).2)) ∧
      places = (splitPoint text).2.length := by
    rw [hread, Option.ite_none_left_eq_some, Option.ite_none_left_eq_some, Option.ite_none_left_eq_some,
      Option.some_inj, Prod.mk.injEq, Nat.not_lt, eq_comm (b := n), eq_comm (b := places), Bool.and_eq_true,
      not_and_or, List.isEmpty_iff, List.isEmpty_iff, Bool.not_eq_true', Bool.not_eq_false, List.all_eq_true]
  rw [hconditions]
  constructor
  · -- Stripping all signs and finding one gone is stripping that sign.
    rintro ⟨hne, hdigits, hshort, hvalue, hplaces⟩
    obtain ⟨tail, htext, htail⟩ := exists_point text
    obtain ⟨s, hwhole, hsign⟩ := exists_sign (splitPoint text).1
    rw [← dropWhile_isSign_eq hshort] at hwhole
    obtain ⟨whole, hds⟩ := Digit.exists_text (List.forall_mem_append.mp hdigits).1
    obtain ⟨places, hfs⟩ := Digit.exists_text (List.forall_mem_append.mp hdigits).2
    rw [hsign, ← hds, ← hfs, ← Digit.text_append, Digit.ofDigits_text] at hvalue
    rw [← hds, ← hfs, ne_eq, ne_eq, Digit.text_eq_nil_iff, Digit.text_eq_nil_iff] at hne
    rw [← hfs, Digit.length_text] at hplaces
    rw [htext, hwhole, ← hds]
    -- A point with no digits behind it is not the same text as no point.
    cases tail with
    | none =>
      obtain rfl : places = [] := Digit.text_eq_nil_iff.mp (hfs.trans htail)
      exact ⟨s, whole, none, hne, rfl, hvalue, hplaces⟩
    | some cs =>
      obtain rfl : cs = Digit.text places := (hfs.trans htail).symm
      exact ⟨s, whole, some places, hne, rfl, hvalue, hplaces⟩
  · rintro ⟨s, whole, fraction, hne, rfl, hvalue, hplaces⟩
    rw [splitPoint_text, dropWhile_isSign_signed, applySign_text, ← Digit.text_append, Digit.ofDigits_text,
      ne_eq, ne_eq, Digit.text_eq_nil_iff, Digit.text_eq_nil_iff]
    refine ⟨hne, fun _ => Digit.isDigit_of_mem, ?_, hvalue, hplaces.trans (Digit.length_text _).symm⟩
    cases s <;> simp [Sign.text]

/-! ## The whole literal -/

/-- An exponent mark is one of two letters. -/
theorem exists_mark {c : Char} (h : isExponentMark c = true) :
    ∃ capital : Bool, (if capital then 'E' else 'e') = c := by
  simp only [isExponentMark, Bool.or_eq_true, decide_eq_true_iff] at h
  obtain rfl | rfl := h
  · exact ⟨false, rfl⟩
  · exact ⟨true, rfl⟩

@[simp] theorem Exponent.isExponentMark_mark (e : Exponent) : isExponentMark e.mark = true := by
  unfold Exponent.mark
  cases e.capital <;> rfl

/-- The exponent of a text from its mark on, zero if nothing is left of the text. -/
def exponentOf : List Char → Option Int32
  | [] => some 0
  | _ :: rest => exponent? rest

/-- What stands from the mark on is an exponent in range, or nothing, which counts as zero. -/
theorem exponentOf_eq_some_iff {tail : List Char} {e : Int32}
    (hmark : ∀ c ∈ tail.head?, isExponentMark c = true) :
    exponentOf tail = some e ↔ ∃ x : Option Exponent, x.elim [] Exponent.text = tail ∧
      e.toInt = x.elim 0 Exponent.value := by
  cases tail with
  | nil =>
    rw [exponentOf, Option.some_inj, eq_comm, ← Int32.toInt_inj]
    constructor
    · intro h
      exact ⟨none, rfl, h⟩
    · rintro ⟨x, htext, hvalue⟩
      cases x with
      | none => exact hvalue
      | some x => exact absurd htext (List.cons_ne_nil _ _)
  | cons c rest =>
    -- Behind the mark, whichever of the two it is, the rest is read as the exponent.
    obtain ⟨capital, hc⟩ := exists_mark (hmark c rfl)
    rw [exponentOf, exponent?_eq_some_iff]
    constructor
    · rintro ⟨s, ds, hne, rfl, hvalue⟩
      exact ⟨some ⟨capital, s, ds, hne⟩, by rw [← hc]; rfl, hvalue⟩
    · rintro ⟨x, htext, hvalue⟩
      cases x with
      | none => exact absurd htext (List.cons_ne_nil _ _).symm
      | some x => exact ⟨x.sign, x.digits, x.digits_ne_nil, (List.cons.inj htext).2, hvalue⟩

namespace Literal

variable (l : Literal)

/-- In front of the exponent there is no such mark. -/
theorem not_isExponentMark_of_mem {c : Char} (h : c ∈ l.mantissa) : isExponentMark c = false := by
  have hdigit (d : Digit) : isExponentMark d.char = false :=
    Bool.or_eq_false_iff.mpr ⟨decide_eq_false (d.char_ne rfl), decide_eq_false (d.char_ne rfl)⟩
  simp only [mantissa, List.mem_append] at h
  -- A sign, a digit in front of the point, or something behind it.
  obtain (h | h) | h := h
  · obtain ⟨s, -, rfl⟩ := List.mem_map.mp h
    cases s <;> rfl
  · obtain ⟨d, -, rfl⟩ := List.mem_map.mp h
    exact hdigit d
  · cases hfraction : l.fraction with
    | none => simp [hfraction, pointText] at h
    | some ds =>
      rw [hfraction, pointText, List.mem_cons] at h
      obtain rfl | h := h
      · rfl
      · obtain ⟨d, -, rfl⟩ := List.mem_map.mp h
        exact hdigit d

/-- So the first mark is where the exponent begins. -/
theorem takeWhile_text : l.text.takeWhile (!isExponentMark ·) = l.mantissa := by
  rw [text, List.takeWhile_append_of_pos fun c hc => by rw [l.not_isExponentMark_of_mem hc]; rfl]
  cases l.exponent <;> simp [Exponent.text]

theorem dropWhile_text : l.text.dropWhile (!isExponentMark ·) = l.exponent.elim [] Exponent.text := by
  rw [text, List.dropWhile_append_of_pos fun c hc => by rw [l.not_isExponentMark_of_mem hc]; rfl]
  cases l.exponent <;> simp [Exponent.text]

end Literal

/-- The parser accepts the texts of the literals that fit, and gives the decimal they stand for. -/
theorem parse_eq_some_iff {text : List Char} {d : Decimal} :
    parse text = some d ↔
      ∃ l : Literal, l.text = text ∧ l.Fits ∧ d.unscaled = l.unscaled ∧ d.scale.toInt = l.scale := by
  have hread : parse text = (exponentOf (text.dropWhile (!isExponentMark ·))).bind fun e =>
      (mantissa? (text.takeWhile (!isExponentMark ·))).bind fun m =>
        (word? m.2).bind fun places =>
          (word? (places.toInt - e.toInt)).bind fun scale => some ⟨m.1, scale⟩ := by
    unfold parse exponentOf
    cases text.dropWhile (!isExponentMark ·) <;> rfl
  have hmark : ∀ c ∈ (text.dropWhile (!isExponentMark ·)).head?, isExponentMark c = true := by
    intro c hc
    have hhead := List.head?_dropWhile_not (!isExponentMark ·) text
    rw [hc] at hhead
    simpa using hhead
  rw [hread]
  constructor
  · -- What each step accepts is a part of the literal, and the parts stand where the text was cut.
    intro h
    simp only [Option.bind_eq_some_iff, Option.some_inj] at h
    obtain ⟨e, he, ⟨n, places⟩, hm, w, hw, scale, hscale, rfl⟩ := h
    obtain ⟨x, hx, hpower⟩ := (exponentOf_eq_some_iff hmark).mp he
    obtain ⟨s, whole, fraction, hne, htext, hn, rfl⟩ := mantissa?_eq_some_iff.mp hm
    rw [word?_eq_some_iff] at hw hscale
    rw [hw, hpower] at hscale
    refine ⟨⟨s, whole, fraction, x, hne⟩, ?_, ⟨isWord_iff.mpr ⟨e, hpower⟩, isWord_iff.mpr ⟨w, hw⟩,
      isWord_iff.mpr ⟨scale, hscale⟩⟩, hn, hscale⟩
    rw [Literal.text, Literal.mantissa, htext, hx, List.takeWhile_append_dropWhile]
  · -- No mark stands before the exponent, so the text is cut between the parts of the literal.
    rintro ⟨l, rfl, ⟨hpower, hplaces, -⟩, hn, hscale⟩
    obtain ⟨e, he⟩ := isWord_iff.mp hpower
    obtain ⟨w, hw⟩ := isWord_iff.mp hplaces
    have hexponent : exponentOf (l.text.dropWhile (!isExponentMark ·)) = some e :=
      (exponentOf_eq_some_iff hmark).mpr ⟨l.exponent, l.dropWhile_text.symm, he⟩
    have hmantissa :
        mantissa? (l.text.takeWhile (!isExponentMark ·)) = some (d.unscaled, l.places.length) :=
      mantissa?_eq_some_iff.mpr ⟨l.sign, l.whole, l.fraction, l.some_digit, l.takeWhile_text.symm, hn, rfl⟩
    have hdifference : word? (w.toInt - e.toInt) = some d.scale := by
      rw [word?_eq_some_iff, hscale, hw, he, Literal.scale]
    rw [hexponent, Option.bind_some, hmantissa, Option.bind_some, word?_eq_some_iff.mpr hw, Option.bind_some,
      hdifference, Option.bind_some]

/-- The error message aside, the parser of texts is the parser of characters. -/
theorem ofLiteral_eq_ok_iff {text : String} {d : Decimal} :
    ofLiteral text = .ok d ↔ parse text.toList = some d := by
  unfold ofLiteral
  cases parse text.toList <;> simp

/-! ## Where the text is cut -/

/-- The byte offset of the first exponent mark. -/
def markOffset? : List Char → Option Nat
  | [] => none
  | c :: cs => if isExponentMark c then some 0 else (markOffset? cs).map (c.utf8Size + ·)

/-- The text is cut before and behind the mark, and both places lie between two characters. -/
theorem markOffset?_boundary {text : List Char} {i : Nat} (h : markOffset? text = some i) :
    Excerpt.before text i = text.takeWhile (!isExponentMark ·) ∧
      Excerpt.isBoundary text i = true ∧ Excerpt.isBoundary text (i + 1) = true := by
  induction text generalizing i with
  | nil => exact nomatch h
  | cons c cs ih =>
    by_cases hc : isExponentMark c = true
    · rw [markOffset?, if_pos hc, Option.some_inj] at h
      subst h
      -- A mark takes one byte.
      have hone : c.utf8Size = 1 := by
        obtain ⟨capital, rfl⟩ := exists_mark hc
        cases capital <;> rfl
      refine ⟨by simp [Excerpt.before, hone, hc], Excerpt.isBoundary_zero _, ?_⟩
      rw [Nat.zero_add, ← hone, ← Nat.add_zero c.utf8Size, Excerpt.isBoundary_cons]
      exact Excerpt.isBoundary_zero cs
    · rw [markOffset?, if_neg hc, Option.map_eq_some_iff] at h
      obtain ⟨j, hj, rfl⟩ := h
      obtain ⟨hbefore, hat, hbehind⟩ := ih hj
      rw [Excerpt.before_cons, Excerpt.isBoundary_cons, Nat.add_assoc, Excerpt.isBoundary_cons, hbefore]
      exact ⟨by simp [hc], hat, hbehind⟩

/-- A text is accepted iff it is a literal whose exponent, number of digits after the point and scale are
    words of 32 bits; the result is the integer of all its digits with their sign, and the number of digits
    after the point less the exponent.  Every other text is answered by the error that shows it.  Whatever
    the text, it is cut only between two of its characters. -/
theorem ofLiteral_grammar (text : String) :
    (∀ d, ofLiteral text = .ok d ↔
      ∃ l : Literal, l.text = text.toList ∧ l.Fits ∧
        d.unscaled = l.unscaled ∧ d.scale.toInt = l.scale) ∧
    (∀ message, ofLiteral text = .error message ↔
      (¬∃ l : Literal, l.text = text.toList ∧ l.Fits) ∧
        message = "invalid decimal literal: " ++ text) ∧
    ∀ i, markOffset? text.toList = some i →
      Excerpt.before text.toList i = text.toList.takeWhile (!isExponentMark ·) ∧
      Excerpt.isBoundary text.toList i = true ∧ Excerpt.isBoundary text.toList (i + 1) = true := by
  refine ⟨fun d => ?_, fun message => ?_, fun i => markOffset?_boundary⟩
  · rw [ofLiteral_eq_ok_iff, parse_eq_some_iff]
  · have hsome : (∃ d, parse text.toList = some d) ↔ ∃ l : Literal, l.text = text.toList ∧ l.Fits := by
      constructor
      · rintro ⟨d, hd⟩
        obtain ⟨l, htext, hfits, -⟩ := parse_eq_some_iff.mp hd
        exact ⟨l, htext, hfits⟩
      · rintro ⟨l, htext, hfits⟩
        obtain ⟨scale, hscale⟩ := isWord_iff.mp hfits.2.2
        exact ⟨⟨l.unscaled, scale⟩, parse_eq_some_iff.mpr ⟨l, htext, hfits, rfl, hscale⟩⟩
    rw [← hsome, ofLiteral]
    -- The text is either parsed or told in the error.
    cases parse text.toList with
    | some d => simp
    | none => simp [eq_comm]

theorem ofLiteral_grammar_sample :
    ofLiteral "-.5E-3" = .ok ⟨-5, 4⟩ ∧
      Excerpt.isBoundary "é5e".toList 3 = true ∧ Excerpt.isBoundary "é5e".toList 4 = true := by
  obtain ⟨hok, -⟩ := ofLiteral_grammar "-.5E-3"
  obtain ⟨-, -, hcut⟩ := ofLiteral_grammar "é5e"
  let l : Literal := ⟨some .minus, [], some [5], some ⟨true, some .minus, [3], by decide⟩, by decide⟩
  have hl : l.Fits := by decide
  exact ⟨(hok _).mpr ⟨l, by decide, hl, by decide, by decide⟩, (hcut 3 (by decide)).2⟩

end ObjectWire.Decimal
