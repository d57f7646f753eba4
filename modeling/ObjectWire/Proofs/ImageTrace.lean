import ObjectWire.Proofs.ImageLog

/-!
# Images keep their log

Every part of an image adds sound lines to the log: `Traces` says so of a part of an image, `traces_value`
of every value.  Nodes that are tracked begin with their tag (`Headed`), and what is inside them is
behind it.
-/

namespace ObjectWire

open Reader

namespace Image

/-- `x` adds lines to the log which the bytes of its image show. -/
def Traces (x : Sketch Wire) : Prop :=
  ∀ ⦃st w st'⦄, Sound st.place st.log → Gives x st w st' →
    Met (Holds · st.place w.bytes) w.references st.place st st'

/-- `x` begins with a tag, and adds its lines behind it. -/
def Headed (tag : Tag) (x : Sketch Wire) : Prop :=
  ∀ ⦃st w st'⦄, Sound (st.place + 1) st.log → Gives x st w st' →
    (∃ rest, w.bytes = tag.code :: rest) ∧
      Met (Holds · st.place w.bytes) w.references (st.place + 1) st st'

/-- What begins with a tag leaves its traces in the log. -/
theorem Headed.traces {tag : Tag} {x : Sketch Wire} (h : Headed tag x) : Traces x := by
  intro st w st' hsound hw
  obtain ⟨-, hmet⟩ := h (hsound.mono (Nat.le_succ _)) hw
  exact hmet.weaken (fun _ h => h) (List.Subset.refl _) (Nat.le_succ _)

/-- A value without others inside leaves none, unless it is a reference back. -/
theorem traces_atom {a : Atom} (h : a.isHandle = false) : Traces (atom a) := by
  intro st w st' hsound hw
  have hspan := spans_atom a hw
  obtain ⟨-, rfl, rfl⟩ := (gives_atom ..).mp hw
  -- Only a reference back is in the log, and those are made elsewhere.
  rw [Wire.references_atom h]
  exact .nothing (hsound.mono (Nat.le_add_right ..)) rfl rfl (Nat.le_add_right ..)

/-- Several images leave the traces of each of them, one behind the other. -/
theorem traces_each {α : Type} {item : α → Sketch Wire} (hspans : ∀ a, Spans (item a))
    (h : ∀ a, Traces (item a)) {as : List α} {st st' : Progress} {ws : List Wire}
    (hsound : Sound st.place st.log) (hws : Gives (each item as) st ws st') :
    Met (Holds · st.place (Wire.itemBytes ws)) (Wire.itemReferences ws) st.place st st' := by
  induction as generalizing st ws with
  | nil =>
    obtain ⟨rfl, rfl⟩ := (gives_each_nil ..).mp hws
    exact .nothing hsound rfl rfl (Nat.le_refl _)
  | cons a as ih =>
    obtain ⟨w, ws, st₁, hw, hrest, rfl⟩ := (gives_each_cons ..).mp hws
    have hmet := h a hsound hw
    -- The bytes of the first item show its own lines, the bytes behind them those of the others.
    rw [Wire.itemReferences, Wire.itemBytes]
    apply hmet.trans (ih hmet.sound hrest)
    · intro bs hbs
      exact (holds_append.mp hbs).1
    · intro bs hbs
      rw [hspans a hw]
      exact (holds_append.mp hbs).2

/-- A list begins with the tag of its head, and leaves the traces of its items. -/
theorem headed_list {α : Type} {item : α → Sketch Wire} {head : ListHead} {items : List α}
    (hspans : ∀ a, Spans (item a)) (h : ∀ a, Traces (item a)) :
    Headed head.tag (list item head items) := by
  intro st w st' hsound hw
  obtain ⟨-, ws, rfl, hws⟩ := (gives_list ..).mp hw
  have hhead : 1 ≤ (head.bytes items.length).length := Nat.succ_pos _
  have hlen := length_each hws
  refine ⟨⟨head.payload ws.length ++ Wire.itemBytes ws, rfl⟩, ?_⟩
  -- The items stand behind the head, which has the tag and perhaps more.
  have hle : st.place + 1 ≤ st.place + (head.bytes items.length).length :=
    Nat.add_le_add_left hhead _
  have hsound' : Sound (st.place + (head.bytes items.length).length) st.log := hsound.mono hle
  have hmet := (traces_each hspans h (by exact hsound') hws).moved
  apply hmet.weaken _ (List.Subset.refl _) hle
  intro bs hbs
  rw [Wire.bytes, hlen] at hbs
  exact (holds_append.mp hbs).2

/-- The traces of a value with a log of its own are inside one line. -/
theorem traces_detached {x : Sketch Wire} (h : Traces x) : Traces (detached x) := by
  intro st w st' hsound hw
  obtain ⟨inner, hx, rfl⟩ := (gives_detached ..).mp hw
  -- Inside, no node has been met yet.
  exact (h (.empty st.place) hx).detached hsound

/-- The distance of a reference back that can be written is a positive word. -/
theorem shown_back {bs : Bytes} {g : Graph} {node : NodeId} {place target : Nat} (hlt : target < place)
    (hmax : place - target ≤ maxWireLength)
    (hholds : Holds bs place (Wire.atom (.handle place target)).bytes) :
    (Occurrence.back node place target).Shown bs g := by
  -- The distance is written as a signed word, which holds it since it can be written at all.
  have hdelta := toInt_ofNat hmax
  refine ⟨Int32.ofNat (place - target), ?_, ?_, hholds⟩
  · rw [Int32.lt_iff_toInt_lt, hdelta]
    show (0 : Int) < _
    omega
  · omega

/-- A node is in full at most once: after that its log leads back to it. -/
theorem traces_tracked {node : NodeId} {x : Sketch Wire} {tag : Tag} (h : Headed tag x)
    {st st' : Progress} {w : Wire} {n : Node} (hn : st.graph.node? node = some n)
    (htag : n.tag? = some tag) (hsound : Sound st.place st.log)
    (hw : Gives (tracked node x) st w st') :
    Met (Holds · st.place w.bytes) w.references st.place st st' := by
  cases hplace : placeOf node st.log with
  | none =>
    -- The node gets its line first, so that what is inside it may refer back to it.
    have hx := (gives_tracked_none hplace ..).mp hw
    have hsound₁ : Sound (st.place + 1) (.full node st.place :: st.log) := by
      refine ⟨.full hplace hsound.linked, fun other p hp => ?_⟩
      rw [placeOf_cons_full] at hp
      split at hp
      · cases hp
        exact Nat.lt_succ_self _
      · exact Nat.lt_succ_of_lt (hsound.before other p hp)
    obtain ⟨⟨rest, hrest⟩, hmet⟩ := h hsound₁ hx
    refine hmet.noted (List.pairwise_singleton ..) (fun p hp => ?_) (Nat.le_succ _) fun bs hbs o ho => ?_
    · rw [List.mem_singleton.mp hp]
      exact ⟨Nat.le_refl _, Nat.lt_succ_self _⟩
    · rw [List.mem_singleton.mp ho]
      refine ⟨n, tag, hmet.graph _ _ hn, htag, ?_⟩
      rw [hrest] at hbs
      exact (holds_append.mp (show Holds bs st.place ([tag.code] ++ rest) from hbs)).1
  | some target =>
    have hlt := hsound.before node target hplace
    have hx := (gives_tracked_some hplace ..).mp hw
    obtain ⟨hfits, rfl, rfl⟩ := (gives_atom ..).mp hx
    simp only [fitsAtom, Bool.and_eq_true, decide_eq_true_eq] at hfits
    have hlen : 1 ≤ (Atom.handle st.place target).bytes.length := Nat.succ_pos _
    -- The line and the reference in the tree come together.
    refine ⟨[.back node st.place target], ?_⟩
    constructor
    · refine ⟨.back hplace hsound.linked, fun other p hp => ?_⟩
      have := hsound.before other p hp
      show p < st.place + _
      omega
    · rfl
    · exact .refl _
    · exact Nat.le_add_right ..
    · exact List.pairwise_singleton ..
    · intro p hp
      rw [List.mem_singleton.mp hp]
      show _ ∧ st.place < st.place + _
      omega
    · intro bs hbs o ho
      rw [List.mem_singleton.mp ho]
      exact shown_back hlt hfits.2 hbs
    · intro ref href
      rw [List.mem_singleton.mp href]
      exact ⟨node, List.mem_singleton.mpr rfl⟩

/-- What has no image leaves no trace. -/
theorem traces_failure : Traces failure := fun _ _ _ _ h => (gives_failure _ _ _ h).elim

/-- A plain value leaves no traces. -/
theorem traces_plain (r : Registry) (v : Plain) : Traces (plain r v) := by
  apply plain_of_atoms traces_failure
  · intro a _ hhandle
    exact traces_atom hhandle
  · intro α item tag xs _ hhandle
    exact (headed_list (fun x => spans_atom _) fun x => traces_atom (hhandle x)).traces

end Image

end ObjectWire
