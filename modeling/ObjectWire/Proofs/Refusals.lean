import ObjectWire.Proofs.WriterCalls

/-!
# What stops a write

`StopsIn E x s` says that, if the action `x` stops in the state `s`, the reason and the state it leaves
satisfy `E`; it goes through a composed action from each state to the next.  Most writes stop for one
kind of reason only, whatever the state (`StopsOnly`): a value does not fit, a type does not resolve, or
the storage does not grow (`Refuses`).  An encoder is one of them, because it makes room for just as many
bytes as it writes; it knows no types, so it runs short at most (`RunsShort`).  No such reason is about a
place that the writers themselves keep (`Error.Misplaces`): that depends on how far the tape reaches, and is
left to the states in `InRange`.  Neither is one about the name of a field (`Error.NamesField`), which
depends on the types that the registry has mapped.
-/

namespace ObjectWire

/-- The error tells that an offset or a length that the writers work out for themselves does not fit its
    slot: how long an object is so far, how far back a handle leads, or where a field starts. -/
def Error.Misplaces (e : Error) : Prop :=
  ∃ n, wireLength "object" n = .error e ∨ wireLength "handle offset" n = .error e ∨
    e = .tooLarge ("field offset " ++ toString n)

namespace Error

/-- How the details of such errors begin. -/
def placeTexts : List String := ["object length ", "handle offset length ", "field offset "]

/-- A length is refused if it takes more than 31 bits, and the error tells what it is the length of. -/
theorem wireLength_error {what : String} {n : Nat} {e : Error} (h : wireLength what n = .error e) :
    maxWireLength < n ∧ e = .tooLarge (what ++ " length " ++ toString n) := by
  unfold wireLength at h
  split at h
  · cases h
  · next hlt => exact ⟨Nat.lt_of_not_le hlt, (Except.error.inj h).symm⟩

/-- Each error of this kind begins with one of these texts, and a number follows. -/
theorem Misplaces.detail {e : Error} (h : e.Misplaces) :
    ∃ own ∈ placeTexts, ∃ n : Nat, e = .tooLarge (own ++ toString n) := by
  obtain ⟨n, h | h | rfl⟩ := h
  · exact ⟨"object length ", by simp [placeTexts], n, (wireLength_error h).2⟩
  · exact ⟨"handle offset length ", by simp [placeTexts], n, (wireLength_error h).2⟩
  · exact ⟨"field offset ", by simp [placeTexts], n, rfl⟩

/-- Only lengths and offsets can be misplaced. -/
theorem not_misplaces {e : Error} (h : ∀ detail, e ≠ .tooLarge detail) : ¬ e.Misplaces := by
  intro hmis
  obtain ⟨own, -, n, he⟩ := hmis.detail
  exact h _ he

/-- What is told of the length of a value is something else, as its first letters show. -/
theorem not_misplaces_length {what : String} {n : Nat} {e : Error}
    (hwhat : ∀ own ∈ placeTexts, own.toList.take 8 ≠ (what ++ " length ").toList.take 8)
    (h : wireLength what n = .error e) : ¬ e.Misplaces := by
  intro hmis
  obtain ⟨own, hown, k, he⟩ := hmis.detail
  have hlong : ∀ own ∈ placeTexts, 8 ≤ own.toList.length := by decide
  have hfront : 8 ≤ (what ++ " length ").toList.length := by
    rw [String.toList_append, List.length_append]
    exact Nat.le_add_left _ _
  -- The first letters of both details, with the numbers cut off.
  have hsame := congrArg (fun detail => detail.toList.take 8)
    (Error.tooLarge.inj (he.symm.trans (wireLength_error h).2))
  simp only [String.toList_append (s := own), String.toList_append (s := what ++ " length "),
    List.take_append_of_le_length (hlong own hown), List.take_append_of_le_length hfront] at hsame
  exact hwhat own hown hsame

end Error

/-- The error is about the name of a field. -/
def Error.NamesField (e : Error) : Prop := ∃ typeId field, e = .unresolvedField typeId field

/-- A reason to stop that the caller is told, and that neither a place on the tape nor the name of a field
    is the cause of. -/
def Stop.IsRefusal : Stop → Prop
  | .error cause => ¬ cause.Misplaces ∧ ¬ cause.NamesField
  | .outOfRange | .tooDeep => False

namespace Stop

/-- An error that is neither about a length or an offset nor about a field's name. -/
theorem isRefusal_error {e : Error} (hlarge : ∀ detail, e ≠ .tooLarge detail)
    (hfield : ∀ typeId field, e ≠ .unresolvedField typeId field) : (error e).IsRefusal :=
  ⟨Error.not_misplaces hlarge, fun ⟨typeId, field, he⟩ => hfield typeId field he⟩

/-- What is told of the length of a value is about that length only. -/
theorem isRefusal_length {what : String} {n : Nat} {e : Error}
    (hwhat : ∀ own ∈ Error.placeTexts, own.toList.take 8 ≠ (what ++ " length ").toList.take 8)
    (h : wireLength what n = .error e) : (error e).IsRefusal := by
  refine ⟨Error.not_misplaces_length hwhat h, fun ⟨typeId, field, he⟩ => ?_⟩
  cases he.symm.trans (Error.wireLength_error h).2

/-- The reason is that the id of a type was not found. -/
def IsResolution : Stop → Prop
  | .error cause => cause.isResolution = true
  | .outOfRange | .tooDeep => False

/-- An error about a length does not come from resolving a type. -/
theorem not_isResolution_length {what : String} {n : Nat} {e : Error} (h : wireLength what n = .error e) :
    ¬ (error e).IsResolution := by
  rw [(Error.wireLength_error h).2]
  exact Bool.false_ne_true

/-- A refusal that no type is the cause of: a value does not fit, or the storage does not grow. -/
def IsShortage (e : Stop) : Prop := e.IsRefusal ∧ ¬ e.IsResolution

end Stop

namespace Action

variable {σ τ α β : Type}

/-- If the action stops in the state, the reason and the state that it leaves satisfy the condition. -/
def StopsIn (E : Stop → σ → Prop) (x : Action σ α) (s : σ) : Prop :=
  ∀ e s', x s = (.error e, s') → E e s'

namespace StopsIn

variable {E : Stop → σ → Prop} {s : σ}

theorem pure (a : α) : (pure a : Action σ α).StopsIn E s := fun _ _ h => nomatch h

theorem read (f : σ → α) : (read f).StopsIn E s := fun _ _ h => nomatch h

theorem update (f : σ → σ) : (update f).StopsIn E s := fun _ _ h => nomatch h

/-- A reason for which the action stops at once. -/
theorem stop {e : Stop} (h : E e s) : (stop e : Action σ α).StopsIn E s := by
  intro e' s' hrun
  cases hrun
  exact h

theorem fail {e : Error} (h : E (.error e) s) : (fail e : Action σ α).StopsIn E s := stop h

/-- A result worked out beforehand may be an error, and the action stops for that. -/
theorem ofExcept {r : Except Error α} (h : ∀ cause, r = .error cause → E (.error cause) s) :
    (ofExcept r).StopsIn E s := by
  intro e s' hrun
  cases r with
  | error cause =>
    cases hrun
    exact h cause rfl
  | ok a => cases hrun

/-- The second action starts where the first one ends. -/
theorem bind {x : Action σ α} {f : α → Action σ β} (hx : x.StopsIn E s)
    (hf : ∀ {a s₁}, x.Yields s a s₁ → (f a).StopsIn E s₁) : (x >>= f).StopsIn E s := by
  intro e s' h
  change (x >>= f).run s = _ at h
  rw [run_bind] at h
  -- Either the first action stops, or the second one does where the first one ended.
  cases hrun : x.run s with
  | mk result s₁ =>
    rw [hrun] at h
    cases result with
    | error e₁ =>
      cases h
      exact hx _ _ hrun
    | ok a => exact hf hrun e s' h

/-- An action behind a guard starts only if the guard lets it pass. -/
theorem guard {c : Prop} [Decidable c] {e : Error} {k : Unit → Action σ β} (he : c → E (.error e) s)
    (hk : ¬ c → (k ()).StopsIn E s) :
    (if c then (Action.fail e : Action σ Unit) >>= k else k ()).StopsIn E s := by
  split
  · next hc => exact (StopsIn.fail (he hc)).bind fun h => (yields_fail _ _ _ _ h).elim
  · next hc => exact hk hc

/-- An action behind another that is taken only if a condition holds. -/
theorem whenBind {c : Prop} [Decidable c] {x : Action σ Unit} {k : Action σ β}
    (hx : c → x.StopsIn E s)
    (hk : ∀ {s₁}, (if c then x else Pure.pure ()).Yields s () s₁ → k.StopsIn E s₁) :
    (if c then x >>= fun _ => k else k).StopsIn E s := by
  split
  · next hc =>
    rw [if_pos hc] at hk
    exact (hx hc).bind fun h => hk h
  · next hc =>
    rw [if_neg hc] at hk
    exact hk ((yields_pure ..).mpr ⟨rfl, rfl⟩)

/-- The state of a loop satisfies a condition at each turn. -/
theorem forEach {f : α → Action σ Unit} {as : List α} (P : σ → Prop)
    (hstop : ∀ a ∈ as, ∀ {s}, P s → (f a).StopsIn E s)
    (hkeep : ∀ a ∈ as, ∀ {s s'}, P s → (f a).Yields s () s' → P s') (hs : P s) :
    (forEach f as).StopsIn E s := by
  induction as generalizing s with
  | nil => exact .pure ()
  | cons a as ih =>
    obtain ⟨hstopA, hstopAs⟩ := List.forall_mem_cons.mp hstop
    obtain ⟨hkeepA, hkeepAs⟩ := List.forall_mem_cons.mp hkeep
    exact (hstopA hs).bind fun ha => ih hstopAs hkeepAs (hkeepA hs ha)

/-- An action on one part of the state, put back into the whole. -/
theorem part {y : Action σ α} {x : Action τ α} {t : τ} (back : τ → σ)
    (h : y s = ((x t).1, back (x t).2)) (hx : x.StopsIn (fun e t' => E e (back t')) t) :
    y.StopsIn E s := by
  intro e s' hrun
  rw [h] at hrun
  obtain ⟨hresult, rfl⟩ := Prod.mk.inj hrun
  exact hx _ _ (Prod.ext hresult rfl)

/-- A condition may be replaced by a weaker one. -/
theorem mono {E' : Stop → σ → Prop} {x : Action σ α} (h : x.StopsIn E s)
    (hE : ∀ e s', E e s' → E' e s') : x.StopsIn E' s := fun e s' hrun => hE e s' (h e s' hrun)

end StopsIn

/-- If the action stops in the state, the reason satisfies the condition. -/
abbrev StopsFor (E : Stop → Prop) (x : Action σ α) (s : σ) : Prop := x.StopsIn (fun e _ => E e) s

/-- Whatever the state, the action stops only for reasons that satisfy the condition. -/
def StopsOnly (E : Stop → Prop) (x : Action σ α) : Prop := ∀ s, x.StopsFor E s

namespace StopsOnly

variable {E : Stop → Prop}

theorem pure (a : α) : StopsOnly E (pure a : Action σ α) := fun _ => .pure a

theorem read (f : σ → α) : StopsOnly E (read f) := fun _ => .read f

theorem update (f : σ → σ) : StopsOnly E (update f) := fun _ => .update f

theorem stop {e : Stop} (h : E e) : StopsOnly E (stop e : Action σ α) := fun _ => .stop h

theorem ofExcept {r : Except Error α} (h : ∀ cause, r = .error cause → E (.error cause)) :
    StopsOnly E (ofExcept r : Action σ α) := fun _ => .ofExcept h

theorem mono {E' : Stop → Prop} {x : Action σ α} (h : x.StopsOnly E) (hE : ∀ e, E e → E' e) :
    x.StopsOnly E' := fun s => (h s).mono fun e _ => hE e

/-- One action behind another stops for the reasons of either. -/
theorem bind {x : Action σ α} {f : α → Action σ β} (hx : x.StopsOnly E)
    (hf : ∀ a, (f a).StopsOnly E) : (x >>= f).StopsOnly E := fun s => (hx s).bind fun _ => hf _ _

/-- An action behind a guard. -/
theorem guard {c : Prop} [Decidable c] {e : Error} {k : Unit → Action σ β} (he : E (.error e))
    (hk : (k ()).StopsOnly E) :
    StopsOnly E (if c then (Action.fail e : Action σ Unit) >>= k else k ()) :=
  fun s => .guard (fun _ => he) fun _ => hk s

/-- An action behind another that is taken only if a condition holds. -/
theorem whenBind {c : Prop} [Decidable c] {x : Action σ Unit} {k : Action σ β} (hx : x.StopsOnly E)
    (hk : k.StopsOnly E) : StopsOnly E (if c then x >>= fun _ => k else k) :=
  fun s => .whenBind (fun _ => hx s) fun _ => hk _

/-- A loop stops only if one of its turns does. -/
theorem forEach {f : α → Action σ Unit} (h : ∀ a, (f a).StopsOnly E) (as : List α) :
    (forEach f as).StopsOnly E := by
  induction as with
  | nil => exact .pure ()
  | cons a as ih => exact (h a).bind fun _ => ih

end StopsOnly

/-- Whatever the state, the action stops for reasons only that its caller is told. -/
abbrev Refuses (x : Action σ α) : Prop := x.StopsOnly Stop.IsRefusal

namespace Refuses

/-- A refusal is any error that is not about a length, an offset or the name of a field. -/
theorem fail {e : Error} (hlarge : ∀ detail, e ≠ .tooLarge detail)
    (hfield : ∀ typeId field, e ≠ .unresolvedField typeId field) : Refuses (fail e : Action σ α) :=
  fun _ => .fail (Stop.isRefusal_error hlarge hfield)

end Refuses

/-- Whatever the state, the action stops only for want of room, or for a value that does not fit. -/
abbrev RunsShort (x : Action σ α) : Prop := x.StopsOnly Stop.IsShortage

namespace RunsShort

/-- What runs short is refused. -/
theorem refuses {x : Action σ α} (h : x.RunsShort) : x.Refuses := h.mono fun _ he => he.1

/-- The length of a value is measured. -/
theorem length {what : String} (n : Nat)
    (hwhat : ∀ own ∈ Error.placeTexts, own.toList.take 8 ≠ (what ++ " length ").toList.take 8) :
    RunsShort (ofExcept (wireLength what n) : Action σ Int32) :=
  fun _ => .ofExcept fun _ h => ⟨Stop.isRefusal_length hwhat h, Stop.not_isResolution_length h⟩

end RunsShort

end Action

open ObjectWire.Action

namespace Tape

/-- Room is refused only by the storage. -/
theorem short_reserve (n : Nat) : (reserve n).RunsShort := by
  intro t e t' h
  obtain ⟨-, cause, rfl⟩ := reserve_error h
  exact ⟨Stop.isRefusal_error (by simp) (by simp), Bool.false_ne_true⟩

/-- Bytes that room was made for can be put on the tape. -/
theorem stopsIn_put {bs : Bytes} {t : Tape} {E : Stop → Tape → Prop}
    (h : t.cursor + bs.length ≤ t.capacity) : (put bs).StopsIn E t := by
  intro e t' hrun
  simp only [put, if_pos h] at hrun
  cases hrun

/-- Bytes can be put at a place that the tape reaches. -/
theorem stopsIn_patch {offset : Nat} {bs : Bytes} {t : Tape} {E : Stop → Tape → Prop}
    (h : offset + bs.length ≤ t.capacity) : (patch offset bs).StopsIn E t := by
  intro e t' hrun
  simp only [patch, if_pos h] at hrun
  cases hrun

/-- Room that was made is room for as many bytes. -/
theorem reserved_room {n : Nat} {bs : Bytes} {t t' : Tape} {u : Unit} (h : bs.length ≤ n)
    (hreserve : (reserve n).Yields t u t') : t'.cursor + bs.length ≤ t'.capacity := by
  obtain ⟨hgrown, hroom⟩ := reserve_grown hreserve
  rw [hgrown.cursor]
  omega

/-- Once room was made, as many bytes can be put: only to make room can fail. -/
theorem short_reserve_put {n : Nat} {bs : Bytes} (h : bs.length ≤ n) :
    (reserve n >>= fun _ => put bs).RunsShort :=
  fun t => (short_reserve n t).bind fun hreserve => stopsIn_put (reserved_room h hreserve)

theorem short_write (bs : Bytes) : (write bs).RunsShort := short_reserve_put (Nat.le_refl _)

/-- Words of one width need room for all of them, and their number may be too large to count that in
    bytes. -/
theorem short_writeWords {α : Type} [Word α] (xs : List α) : (writeWords xs).RunsShort := by
  have hput := short_reserve_put (Nat.le_of_eq (Word.length_flatMap_bytes xs))
  unfold writeWords
  simp only
  split
  · -- Their number of bytes is beyond what can be counted, and the sink is told so.
    have hfull : ∀ n, Stop.IsShortage (.error (.sink (.capacityOverflow n))) :=
      fun n => ⟨Stop.isRefusal_error (by simp) (by simp), Bool.false_ne_true⟩
    exact (StopsOnly.stop (hfull _)).bind fun _ => hput
  · exact hput

end Tape

namespace Encode

open Tape

theorem short_tagged {tag : Tag} {payload : Bytes} : (tagged tag payload).RunsShort :=
  short_reserve_put (Nat.le_refl _)

/-- A proxy with too many interfaces is refused for their number, the tag being written by then. -/
theorem short_proxyHead (interfaces : Nat) : (proxyHead interfaces).RunsShort := by
  rw [proxyHead_eq]
  split
  · exact short_tagged
  · next hlong =>
    have hcount : wireLength "proxy interfaces" interfaces = .error _ := if_neg hlong
    have hshortage : Stop.IsShortage (.error _) :=
      ⟨Stop.isRefusal_length (by decide) hcount, Stop.not_isResolution_length hcount⟩
    exact fun t => (short_reserve 5 t).bind fun hreserve =>
      (stopsIn_put (reserved_room (by decide) hreserve)).bind fun _ => .fail hshortage

/-- An optional value is either nothing but a tag or the value. -/
theorem short_orNull {α : Type} {write : α → Action Tape Unit} (h : ∀ a, (write a).RunsShort)
    (v : Option α) : (orNull write v).RunsShort := by
  cases v with
  | none => exact short_tagged
  | some v => exact h v

/-- A text is refused for its length or for want of room. -/
theorem short_textBytes (bs : Bytes) : (textBytes bs).RunsShort :=
  (RunsShort.length _ (by decide)).bind fun _ => short_tagged

theorem short_decimal (v : Decimal) : (decimal v).RunsShort :=
  (RunsShort.length _ (by decide)).bind fun _ => short_tagged

theorem short_encoded (v : EncodedObject) : (encoded v).RunsShort :=
  (RunsShort.length _ (by decide)).bind fun _ =>
    (RunsShort.length _ (by decide)).bind fun _ => short_tagged

/-- The five bytes that room is made for are the tag and the number of elements. -/
theorem short_arrayHeader {tag : UInt8} {n : Nat} : (arrayHeader tag n).RunsShort :=
  (RunsShort.length _ (by decide)).bind fun _ => short_reserve_put (by simp [Word.width])

/-- An array of words is its header and the words, and either may want room. -/
theorem short_words {α : Type} [Word α] {tag : Tag} {xs : List α} : (words tag xs).RunsShort :=
  short_arrayHeader.bind fun _ => short_writeWords xs

/-- An array whose elements may be missing is written one element after the other. -/
theorem short_elements {α : Type} {tag : Tag} {write : α → Action Tape Unit}
    (h : ∀ a, (write a).RunsShort) (xs : List (Option α)) : (elements tag write xs).RunsShort :=
  short_arrayHeader.bind fun _ => .forEach (short_orNull h) xs

/-- Encoders put no more bytes on the tape than they made room for. -/
theorem short_plain (encoding : StringEncoding) (v : Plain) : (plain encoding v).RunsShort := by
  cases v with
  | string v => exact short_textBytes _
  | utf16 v => exact short_textBytes _
  | decimal v => exact short_decimal v
  | encoded v => exact short_encoded v
  | bytes v => exact short_words
  | shorts v => exact short_words
  | ints v => exact short_words
  | longs v => exact short_words
  | floats v => exact short_words
  | doubles v => exact short_words
  | chars v => exact short_words
  | bools v => exact short_words
  | strings v => exact short_elements (fun _ => short_textBytes _) v
  | uuids v => exact short_elements (fun _ => short_tagged) v
  | dates v => exact short_elements (fun _ => short_tagged) v
  | timestamps v => exact short_elements (fun _ => short_tagged) v
  | times v => exact short_elements (fun _ => short_tagged) v
  | decimals v => exact short_elements short_decimal v
  -- What is left has a fixed width or none.
  | _ => exact short_tagged

end Encode

/-- A name that does not resolve is refused for itself. -/
theorem Registry.refuses_resolve (name : String) (kind : TypeKind) (failIfUnregistered : Bool) :
    (resolve name kind failIfUnregistered).Refuses := by
  refine StopsOnly.bind (.read _) fun entry => ?_
  cases entry with
  | some entry => exact .pure _
  | none =>
    -- The id derived from a name is refused only if it is the one that stands for no type.
    have hderived : Refuses (ofExcept (derivedId name) : Action Registry Int32) := by
      refine fun _ => .ofExcept fun cause h => ?_
      simp only [derivedId] at h
      split at h
      · cases h
        exact Stop.isRefusal_error (by simp [Error.unresolved]) (by simp [Error.unresolved])
      · cases h
    have hmap := hderived.bind fun typeId =>
      (StopsOnly.update (·.addMapped typeId)).bind fun _ =>
        StopsOnly.pure (ResolvedType.mk typeId false (kind ≠ .builtin))
    simp only
    split
    · have hrefused : Refuses (Action.fail (.unregistered name) : Action Registry Unit) :=
        .fail (by simp [Error.unregistered]) (by simp [Error.unregistered])
      exact hrefused.bind fun _ => hmap
    · exact hmap

namespace WriteM

/-- What stops on the tape stops in the session for the same reason. -/
theorem stopsOnly_onTape {α : Type} {E : Stop → Prop} {x : Action Tape α} (h : x.StopsOnly E) :
    (onTape x).StopsOnly E :=
  fun s => .part (fun tape => { s with tape }) rfl (h s.tape)

/-- To resolve a name through the session is to ask the registry. -/
theorem refuses_resolve (name : String) (kind : TypeKind) (failIfUnregistered : Bool) :
    (onService (TypeService.resolve name kind failIfUnregistered)).Refuses :=
  fun s => .part (fun service => { s with service }) rfl
    (.part (fun registry => { s.service with registry }) rfl
      (Registry.refuses_resolve name kind failIfUnregistered s.service.registry))

theorem short_writeWord {α : Type} [Word α] (x : α) : (onTape (Tape.writeWord x)).RunsShort :=
  stopsOnly_onTape (Tape.short_write _)

/-- A value without a type runs short, if anything. -/
theorem short_writePlain (v : Plain) : (writePlain v).RunsShort :=
  StopsOnly.bind (.read _) fun _ => stopsOnly_onTape (Encode.short_plain _ v)

theorem short_writeCount {what : String} (count : Nat)
    (hwhat : ∀ own ∈ Error.placeTexts, own.toList.take 8 ≠ (what ++ " length ").toList.take 8) :
    (writeCount what count).RunsShort := (RunsShort.length _ hwhat).bind fun _ => short_writeWord _

/-- The reference to a type is refused if the name does not resolve, or for want of room. -/
theorem refuses_writeTypeRef (name : String) (kind : TypeKind) (failIfUnregistered : Bool) :
    (writeTypeRef name kind failIfUnregistered).Refuses := by
  apply (refuses_resolve _ _ _).bind
  intro resolved
  split
  · exact (short_writeWord _).refuses
  · exact (short_writeWord _).refuses.bind fun _ => (short_writePlain _).refuses

/-- An enum is refused for its type or for want of room. -/
theorem refuses_writeEnum (v : EnumConstant) : (writeEnum v).Refuses := by
  refine StopsOnly.bind (.read _) fun config => ?_
  apply (short_writeWord _).refuses.bind
  intro _
  exact (refuses_writeTypeRef _ _ _).bind fun _ => (short_writeWord _).refuses

/-- An array of enums is refused for its own type, its number or one of its elements. -/
theorem refuses_writeEnumArray (typeName : String) (items : List (Option EnumConstant)) :
    (writeEnumArray typeName items).Refuses := by
  refine StopsOnly.bind (.read _) fun config => ?_
  apply (short_writeWord _).refuses.bind
  intro _
  apply (refuses_writeTypeRef _ _ _).bind
  intro _
  apply (short_writeCount _ (by decide)).refuses.bind
  intro _
  refine .forEach (fun item => ?_) items
  cases item with
  | none => exact stopsOnly_onTape Encode.short_tagged.refuses
  | some v => exact refuses_writeEnum v

/-- A binary enum without an id must have a name, or it is refused. -/
theorem refuses_writeBinaryEnum (v : BinaryEnum) : (writeBinaryEnum v).Refuses := by
  apply (stopsOnly_onTape Encode.short_tagged.refuses).bind
  intro _
  split
  · split
    · exact (short_writePlain _).refuses.bind fun _ => (short_writeWord _).refuses
    · -- Without a name there is nothing to write for the id zero.
      have hunnamed : Refuses (Action.fail (.unresolved "<unnamed binary enum>") : WriteM Unit) :=
        .fail (by simp [Error.unresolved]) (by simp [Error.unresolved])
      exact hunnamed.bind fun _ => (short_writeWord _).refuses
  · exact (short_writeWord _).refuses

theorem refuses_writeClassRef (typeName : String) : (writeClassRef typeName).Refuses :=
  (short_writeWord _).refuses.bind fun _ => refuses_writeTypeRef _ _ _

theorem refuses_resolveObject (o : UserObject) : (resolveObject o).Refuses :=
  StopsOnly.bind (.read _) fun _ => refuses_resolve _ _ _

end WriteM

/-- A writer can be begun wherever there is room, or else the storage has refused to grow. -/
theorem ObjectWriter.short_begin (typeId : Int32) (inlineName : Option String) :
    (begin typeId inlineName).RunsShort := by
  refine StopsOnly.bind (.read _) fun start => ?_
  apply (WriteM.stopsOnly_onTape (Tape.short_reserve _)).bind
  intro _
  apply (WriteM.stopsOnly_onTape (.update _)).bind
  intro _
  have hend : ∀ w : Nat → ObjectWriter, RunsShort (WriteM.position >>= fun here => pure (w here)) :=
    fun w => StopsOnly.bind (.read _) fun _ => .pure _
  cases inlineName with
  | none => exact hend _
  | some name => exact (WriteM.short_writePlain _).bind fun _ => hend _

/-- All entries of a footer are of one length. -/
theorem length_footer_entries (fields : List FieldEntry) (compact : Bool) :
    (footer fields compact).length =
      fields.length * ((footerWidth fields).bytes + if compact then 0 else 4) := by
  have hentry : ∀ width (f : FieldEntry),
      (footerEntry width compact f).length = width.bytes + if compact then 0 else 4 := by
    intro width f
    cases compact <;> simp [footerEntry, Word.width, Nat.add_comm]
  simp only [footer, List.length_flatMap, hentry, List.map_const', List.sum_replicate_nat]

/-- The room made for a footer is as long as the footer. -/
theorem FieldStack.short_writeFooter (fields : FieldStack) (count : Nat) (compact : Bool) :
    (fields.writeFooter count compact).RunsShort := by
  refine fun t => (Tape.short_reserve _ t).bind fun hreserve => ?_
  refine StopsIn.bind (Tape.stopsIn_put ?_) fun _ => .pure _
  exact Tape.reserved_room (Nat.le_of_eq (length_footer_entries _ _)) hreserve

end ObjectWire
