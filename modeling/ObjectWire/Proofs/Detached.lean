import ObjectWire.Proofs.BackReferences
import ObjectWire.Proofs.CarriedRoots
import ObjectWire.Proofs.Wire.ReadBack

/-!
# Detached values

A value that is written with handles of its own is written as it would be by itself: its bytes are those
that encoding it gives, its references back lead to places inside it, and the handles from before are in
force again afterwards, whether the write succeeds or fails (`detached_isolated`).

References behind it lead to what the table had before it, or to what was written after it.  The table has
nothing inside the value, with one exception: a write that failed may have recorded a node at the cursor
without putting a byte there, and what is written next begins at that place (`detached_stale`).
-/

namespace ObjectWire

open ObjectWire.Action Image

namespace Image

/-- The place that an occurrence refers back to. -/
def Occurrence.target? : Occurrence → Option Nat
  | .back _ _ target => some target
  | .full _ _ | .replaced _ _ | .detached _ => none

/-- The places that are referred back to, from this log and those of detached values. -/
def targetsOf (log : List Occurrence) : List Nat := (allOf log).filterMap Occurrence.target?

/-- The targets of a log are those of the references back in it, wherever they are. -/
theorem mem_targetsOf {log : List Occurrence} {target : Nat} :
    target ∈ targetsOf log ↔ ∃ node place, .back node place target ∈ allOf log := by
  rw [targetsOf, List.mem_filterMap]
  constructor
  · intro hmem
    obtain ⟨o, ho, htarget⟩ := hmem
    cases o with
    | back node place target' =>
      cases htarget
      exact ⟨node, place, ho⟩
    | _ => cases htarget
  · intro hmem
    obtain ⟨node, place, ho⟩ := hmem
    exact ⟨_, ho, rfl⟩

/-- A node that is referred back to is in full at the place referred to. -/
theorem Linked.full_of_back {log : List Occurrence} (h : Linked log) {node : NodeId} {place target : Nat}
    (hback : .back node place target ∈ allOf log) : .full node target ∈ allOf log := by
  -- By induction on the log: a reference is its newest line only if the node is in full in the lines before.
  induction h with
  | nil => cases hback
  | full new rest ih =>
    rw [allOf, List.mem_append] at hback ⊢
    obtain hback | hback := hback
    · cases List.mem_singleton.mp hback
    · exact .inr (ih hback)
  | back known rest ih =>
    rw [allOf, List.mem_append] at hback ⊢
    obtain hback | hback := hback
    · cases List.mem_singleton.mp hback
      exact .inr (mem_allOf (mem_of_placeOf known) rfl)
    · exact .inr (ih hback)
  | replaced rest ih =>
    rw [allOf, List.mem_append] at hback ⊢
    obtain hback | hback := hback
    · cases List.mem_singleton.mp hback
    · exact .inr (ih hback)
  | detached inside rest ihInside ihRest =>
    rw [allOf, List.mem_append] at hback ⊢
    obtain hback | hback := hback
    · exact .inl (ihInside hback)
    · exact .inr (ihRest hback)

/-- Nodes in full at places, one line for each. -/
def linesOf (entries : List (NodeId × Nat)) : List Occurrence :=
  entries.map fun (node, place) => .full node place

/-- A log made of entries has a line for each of them. -/
theorem mem_linesOf {entries : List (NodeId × Nat)} {node : NodeId} {place : Nat} :
    .full node place ∈ linesOf entries ↔ (node, place) ∈ entries := by
  simp [linesOf]

/-- It has no logs inside it. -/
theorem allOf_linesOf (entries : List (NodeId × Nat)) : allOf (linesOf entries) = linesOf entries := by
  induction entries with
  | nil => rfl
  | cons entry entries ih => exact congrArg (.full entry.1 entry.2 :: ·) ih

/-- It counts as many nodes as there are entries. -/
theorem fullCount_linesOf (entries : List (NodeId × Nat)) :
    fullCount (linesOf entries) = entries.length := by
  induction entries with
  | nil => rfl
  | cons entry entries ih => exact congrArg (· + 1) ih

section

variable {entries : List (NodeId × Nat)} (hdistinct : entries.Pairwise fun a b => a.1 ≠ b.1)

include hdistinct

/-- It has no references back that could lead astray. -/
theorem linked_linesOf : Linked (linesOf entries) := by
  induction hdistinct with
  | nil => exact .nil
  | @cons entry entries hnew hrest ih =>
    have hnone : placeOf entry.1 (linesOf entries) = none := by
      rw [Option.eq_none_iff_forall_ne_some]
      intro place hplace
      exact hnew _ (mem_linesOf.mp (mem_of_placeOf hplace)) rfl
    exact .full hnone ih

/-- Each node has the place of its entry. -/
theorem placeOf_linesOf {node : NodeId} {place : Nat} :
    placeOf node (linesOf entries) = some place ↔ (node, place) ∈ entries := by
  refine ⟨fun h => mem_linesOf.mp (mem_of_placeOf h), fun h => ?_⟩
  induction hdistinct with
  | nil => cases h
  | @cons entry entries hnew hrest ih =>
    show placeOf node (.full entry.1 entry.2 :: linesOf entries) = _
    rw [placeOf_cons_full]
    obtain rfl | h := List.mem_cons.mp h
    · exact if_pos rfl
    · rw [if_neg (hnew _ h)]
      exact ih h

end

end Image

namespace HandleTable

/-- The nodes of a table with their positions. -/
def entries : HandleTable → List (NodeId × Nat)
  | .empty => []
  | .one identity position => [(identity, position)]
  | .many positions => positions.toList

/-- The entries of a handle table are what is found in it. -/
theorem mem_entries {t : HandleTable} {identity position : Nat} :
    (identity, position) ∈ t.entries ↔ t.find? identity = some position := by
  cases t with
  | empty => simp [entries, find?]
  | one known first =>
    by_cases h : known = identity
    · simp [entries, find?, h, eq_comm]
    · simp [entries, find?, h, Ne.symm h]
  | many positions => exact Std.TreeMap.mem_toList_iff_getElem?_eq_some

/-- There are as many as the table counts. -/
theorem length_entries (t : HandleTable) : t.entries.length = t.size := by
  cases t with
  | many positions => exact Std.TreeMap.length_toList
  | _ => rfl

/-- No node has two of them. -/
theorem distinct_entries (t : HandleTable) : t.entries.Pairwise fun a b => a.1 ≠ b.1 := by
  cases t with
  | empty => exact .nil
  | one known first => exact List.pairwise_singleton ..
  | many positions =>
    refine Std.TreeMap.distinct_keys_toList.imp fun hne heq => hne ?_
    rw [heq]
    exact Std.ReflCmp.compare_self

end HandleTable

namespace WriteM

variable {s s' : Session}

/-- Amid a write, an image goes on from the nodes of the table. -/
theorem Follows.resume (hregular : s.graph.Regular) :
    Follows s.service.registry.static 0 s
      { place := s.tape.cursor, graph := s.graph, log := linesOf s.handles.entries } where
  cursor := (Nat.zero_add _).symm
  graph := rfl
  regular := hregular
  static := rfl
  find node := by
    rw [Option.map_congr fun first _ => Nat.zero_add first, Option.map_id']
    refine Option.ext fun place => ?_
    rw [placeOf_linesOf s.handles.distinct_entries, HandleTable.mem_entries]
  size := by rw [fullCount_linesOf, HandleTable.length_entries]

/-- What is written in the middle of a session refers back to nodes of the table and to itself only. -/
theorem forEach_targets {depth : Nat} {vs : List Value} (hregular : s.graph.Regular)
    (hbehind : ∀ node first, s.handles.find? node = some first → first < s.tape.cursor)
    (h : (forEach (writeDepth depth) vs).Yields s () s') :
    ∃ ws st new, Gives (Image.each (Image.value s.service.registry.static depth) vs)
        { place := s.tape.cursor, graph := s.graph, log := linesOf s.handles.entries } ws st ∧
      s.tape.Appended s'.tape (Wire.itemBytes ws) ∧ st.log = new ++ linesOf s.handles.entries ∧
      (∀ ref ∈ Wire.itemReferences ws, ref.2 ∈ targetsOf new) ∧
      ∀ target ∈ targetsOf new,
        (∃ node, s.handles.find? node = some target) ∨ s.tape.cursor ≤ target := by
  have hsound : Sound s.tape.cursor (linesOf s.handles.entries) := by
    refine ⟨linked_linesOf s.handles.distinct_entries, fun node place hplace => ?_⟩
    rw [placeOf_linesOf s.handles.distinct_entries, HandleTable.mem_entries] at hplace
    exact hbehind node place hplace
  obtain ⟨ws, st, hws, -, happended, -⟩ :=
    draws_each vs (fun v => writeDepth_draws _ depth v) h (Follows.resume hregular)
  obtain ⟨new, hadded⟩ := traces_each (fun v => spans_value _ depth v)
    (fun v => traces_value _ depth v) hsound hws
  refine ⟨ws, st, new, hws, happended, hadded.log, fun ref href => ?_, fun target htarget => ?_⟩
  · obtain ⟨node, hnode⟩ := hadded.refs ref href
    exact mem_targetsOf.mpr ⟨node, ref.1, hnode⟩
  · obtain ⟨node, place, hback⟩ := mem_targetsOf.mp htarget
    -- The node stands in full where the reference leads, among the new lines or the old ones.
    have hlinked : Linked (new ++ linesOf s.handles.entries) := hadded.log ▸ hadded.sound.linked
    have hback' : .back node place target ∈ allOf (new ++ linesOf s.handles.entries) := by
      rw [allOf_append]
      exact List.mem_append_left _ hback
    have hfull := hlinked.full_of_back hback'
    rw [allOf_append, List.mem_append, allOf_linesOf, mem_linesOf] at hfull
    obtain hnew | hold := hfull
    · have hplace : target ∈ placesOf new := List.mem_filterMap.mpr ⟨_, hnew, rfl⟩
      exact .inr (hadded.inside target hplace).1
    · exact .inl ⟨node, HandleTable.mem_entries.mp hold⟩

/-- The same write in a graph that has fewer nodes. -/
theorem yields_within {depth : Nat} {v : Value} {g : Graph} (hdynamic : g.Dynamic) (hclosed : g.Closed)
    (hv : g.Has v) (hgraph : g.Extends s.graph) (h : (writeDepth depth v).Yields s () s') :
    s'.graph = s.graph ∧ ∃ t', (writeDepth depth v).Yields { s with graph := g } () t' ∧
      t'.tape = s'.tape ∧ t'.graph = g := by
  -- The same write beside itself over the smaller graph, which has all that it comes to.
  let P : Pairing := ⟨g, TypeService.Includes, fun _ a b => a.1 = s.graph ∧ b.1 = g⟩
  have hbeside : s.Beside P { s with graph := g } :=
    ⟨rfl, (TypeService.Evolves.refl _).includes, hgraph, .refl _, rfl, rfl⟩
  have hmatches : Matches Stop.LacksId (Session.Beside P) (writeDepth depth v s)
      (writeDepth depth v { s with graph := g }) :=
    mirrors_writeDepth TypeService.mirrored_includes hdynamic hclosed id (.inl rfl) hv hbeside
  rw [h] at hmatches
  simp only [Yields]
  generalize writeDepth depth v { s with graph := g } = run at hmatches ⊢
  obtain ⟨result, t'⟩ := run
  obtain ⟨e, he, -⟩ | ⟨hresult, hs⟩ := hmatches
  · cases he
  · exact ⟨hs.rest.1, t', Prod.ext hresult rfl, hs.tape, hs.rest.2⟩

/-- What was written without handles is the value's image, and what encoding it tells. -/
theorem writeDepth_encodes {depth : Nat} {v : Value} {g : Graph} (hdynamic : g.Dynamic) (hclosed : g.Closed)
    (hv : g.Has v) (hgraph : g.Extends s.graph) (hscope : s.handles = .empty)
    (h : (writeDepth depth v).Yields s () s') :
    ∃ w st, Gives (Image.value s.service.registry.static depth v) { place := 0, graph := g } w st ∧
      s.tape.Appended s'.tape w.bytes ∧ Exact st.log w.bytes g ∧
      (∀ ref ∈ w.references, ref.2 ∈ targetsOf st.log) ∧
      ∀ journal,
        (∀ bs, (encode v ⟨s.service, s.graph, journal⟩).1 = .ok bs → bs = w.bytes) ∧
        (max s.tape.capacity s.tape.growth.largest ≤ Growth.maxCapacity →
          (encode v ⟨s.service, s.graph, journal⟩).1 = .ok w.bytes) := by
  obtain ⟨-, t', ht, htape, hg⟩ := yields_within hdynamic hclosed hv hgraph h
  obtain ⟨w, st, hw, happended, hexact, hrefs, -⟩ :=
    writeDepth_references (s := { s with graph := g }) hdynamic.regular hscope ht
  rw [htape] at happended
  rw [hg] at hexact
  have hincludes : s.service.Includes s.service := (TypeService.Evolves.refl _).includes
  refine ⟨w, st, hw, happended, hexact, fun ref href => ?_, fun journal => ⟨fun bs hbs => ?_, fun hreach => ?_⟩⟩
  · obtain ⟨node, hnode⟩ := hrefs ref href
    exact mem_targetsOf.mpr ⟨node, ref.1, hnode⟩
  · -- The graph with fewer nodes gives the same bytes, and there the image is known.
    have hmatches := @encode_matches g v ⟨s.service, s.graph, journal⟩ ⟨s.service, g, journal⟩
      hincludes hdynamic hclosed hv hgraph (.refl _)
    obtain ⟨e, he, -⟩ | hsame := hmatches
    · cases hbs.symm.trans he
    · exact encode_eq_image hdynamic.regular hw (hsame.trans hbs)
  · have hlimit : max s.tape.capacity s.tape.growth.largest ≤
        s.tape.cursor + max s.service.config.initialCapacity Growth.maxCapacity := by omega
    obtain ⟨bs, hbs⟩ := encode_of_writeDepth (s := { s with graph := g }) hdynamic hclosed hv hscope hlimit
      ht s.service.config.identityHash journal
    have hbs' : (encode v ⟨s.service, g, journal⟩).1 = .ok bs := hbs
    obtain rfl := encode_eq_image hdynamic.regular hw hbs'
    have hmatches := @encode_matches g v ⟨s.service, g, journal⟩ ⟨s.service, s.graph, journal⟩
      hincludes hdynamic hclosed hv (.refl _) hgraph
    obtain ⟨e, he, -⟩ | hsame := hmatches
    · cases hbs'.symm.trans he
    · exact hsame.trans hbs'

/-- A detached value leaves the handles as they were, whether it is written or not.  If it is written, its
    bytes are those of its image, which are all that encoding it by itself can tell, and what encoding
    tells if the tape reaches no farther than one that doubles.  Its references back lead to places inside it.

    What is written behind it refers back to places before it or behind it, or else to its very beginning.
    The last can only be if a node had been recorded there before, as a write that fails does which has not
    put a byte on the tape. -/
theorem detached_isolated {depth : Nat} {v : Value} {g : Graph} (s : Session) (hdynamic : g.Dynamic)
    (hclosed : g.Closed) (hv : g.Has v) (hgraph : g.Extends s.graph) :
    (detached (writeDepth depth v) s).2.handles = s.handles ∧
    ∀ s', (detached (writeDepth depth v)).Yields s () s' →
      ∃ w st, Gives (Image.value s.service.registry.static depth v) { place := 0, graph := g } w st ∧
        s.tape.Appended s'.tape w.bytes ∧
        (∀ journal,
          (∀ bs, (encode v ⟨s.service, s.graph, journal⟩).1 = .ok bs → bs = w.bytes) ∧
          (max s.tape.capacity s.tape.growth.largest ≤ Growth.maxCapacity →
            (encode v ⟨s.service, s.graph, journal⟩).1 = .ok w.bytes)) ∧
        Exact st.log w.bytes g ∧
        (∀ ref ∈ w.references, ref.2 ∈ targetsOf st.log) ∧
        (∀ target ∈ targetsOf st.log, target < w.bytes.length) ∧
        (s.graph.Regular → s.HandlesBehind →
          ∀ deeper vs s'', (forEach (writeDepth deeper) vs).Yields s' () s'' →
            ∃ ws st' new, Gives (Image.each (Image.value s.service.registry.static deeper) vs)
                { place := s'.tape.cursor, graph := s.graph, log := linesOf s.handles.entries } ws st' ∧
              s'.tape.Appended s''.tape (Wire.itemBytes ws) ∧ st'.log = new ++ linesOf s.handles.entries ∧
              (∀ ref ∈ Wire.itemReferences ws, ref.2 ∈ targetsOf new) ∧
              ∀ target ∈ targetsOf new, target < s.tape.cursor ∨ s'.tape.cursor ≤ target ∨
                target = s.tape.cursor ∧ ∃ node, s.handles.find? node = some target) := by
  refine ⟨rfl, fun s' h => ?_⟩
  obtain ⟨s₁, hrun, rfl⟩ := (yields_detached ..).mp h
  obtain ⟨w, st, hw, happended, hexact, hrefs, hencode⟩ :=
    writeDepth_encodes (s := { s with handles := .empty }) hdynamic hclosed hv hgraph rfl hrun
  refine ⟨w, st, hw, happended, hencode, hexact, hrefs, fun target htarget => ?_, ?_⟩
  · -- A reference in the detached bytes leads back from a place within them.
    obtain ⟨node, place, hback⟩ := mem_targetsOf.mp htarget
    obtain ⟨delta, hpos, hdelta, hholds⟩ := hexact.shown _ hback
    rw [Int32.lt_iff_toInt_lt, hdelta] at hpos
    have hplace := hholds.length_le
    rw [List.length_cons] at hplace
    have hzero : (0 : Int32).toInt = 0 := rfl
    omega
  · intro hregular hbehind deeper vs s'' hlater
    have hkeeps : Session.KeepsFrom 0 { s with handles := .empty } s₁ :=
      (keeps_writeDepth depth v).of_yields hrun
    have hstatic : s₁.service.registry.static = s.service.registry.static := hkeeps.service.registry.static
    have hsame : s₁.graph = s.graph := (yields_within (s := { s with handles := .empty }) hdynamic hclosed
      hv hgraph hrun).1
    have hcursor : s₁.tape.cursor = s.tape.cursor + w.bytes.length := happended.cursor
    have hpos := Reader.bytes_pos w
    -- The old handles are back, and all of them lead before the bytes written in between.
    have hbefore : ∀ node first, s.handles.find? node = some first → first < s₁.tape.cursor := by
      intro node first hfind
      have hle := hbehind node first hfind
      omega
    obtain ⟨ws, st', new, hws, hbytes, hlog, hitems, htargets⟩ :=
      forEach_targets (s := { s₁ with handles := s.handles }) (hsame ▸ hregular) hbefore hlater
    simp only [hstatic, hsame] at hws
    refine ⟨ws, st', new, hws, hbytes, hlog, hitems, fun target htarget => ?_⟩
    obtain ⟨node, hfind⟩ | hbehind' := htargets target htarget
    · -- A handle at the place where the detached value begins belongs to a write that failed there.
      obtain heq | hlt := Nat.eq_or_lt_of_le (hbehind node target hfind)
      · exact .inr (.inr ⟨heq, node, hfind⟩)
      · exact .inl hlt
    · exact .inr (.inl hbehind')

/-- A session that has written the list of the object that refers to itself, and with it the object. -/
def ringSession : Session :=
  (writeDepth 16 (.ref 1) (ringWorld.session (Tape.new .heap 16) {})).2

/-- The session of the ring is one that a write has left behind. -/
theorem ringSession_yields :
    (writeDepth 16 (.ref 1)).Yields (ringWorld.session (Tape.new .heap 16) {}) () ringSession :=
  yields_of_toOption (by decide +kernel)

/-- A value written apart from the ring's handles leaves them as they are, and what follows is written
    anew. -/
theorem detached_isolated_sample :
    (detached (writeDepth 16 (.ref 0)) ringSession).2.handles = ringSession.handles ∧
    ∃ w : Wire, ringSession.tape.Appended (detached (writeDepth 16 (.ref 0)) ringSession).2.tape w.bytes ∧
      (encode (.ref 0) ⟨ringSession.service, ringSession.graph, []⟩).1 = .ok w.bytes ∧
      ∃ ws : List Wire, (detached (writeDepth 16 (.ref 0)) ringSession).2.tape.Appended
        (forEach (writeDepth 16) [.ref 0] (detached (writeDepth 16 (.ref 0)) ringSession).2).2.tape
        (Wire.itemBytes ws) := by
  have hclosed : ringWorld.graph.Closed := by decide
  have hgraph : ringSession.graph = ringWorld.graph :=
    (yields_within ringWorld_dynamic hclosed (by decide) (.refl _) ringSession_yields).1
  have hbehind : ringSession.HandlesBehind := by
    have hkeeps : Session.KeepsFrom 0 _ ringSession := (keeps_writeDepth 16 (.ref 1)).of_yields ringSession_yields
    exact hkeeps.handles fun _ _ h => nomatch h
  have hextends : ringWorld.graph.Extends ringSession.graph := hgraph ▸ .refl _
  obtain ⟨hhandles, hwritten⟩ := @detached_isolated 16 (.ref 0) _ ringSession ringWorld_dynamic hclosed
    (by decide) hextends
  have hrun : (detached (writeDepth 16 (.ref 0))).Yields ringSession () _ :=
    yields_of_toOption (by decide +kernel)
  have hlater : (forEach (writeDepth 16) [.ref 0]).Yields
      (detached (writeDepth 16 (.ref 0)) ringSession).2 () _ := yields_of_toOption (by decide +kernel)
  obtain ⟨w, st, -, happended, hencode, -, -, -, hbehind'⟩ := hwritten _ hrun
  obtain ⟨ws, -, -, -, hbytes, -⟩ := hbehind' (hgraph ▸ ringWorld_dynamic.regular) hbehind 16 _ _ hlater
  exact ⟨hhandles, w, happended, (hencode []).2 (by decide +kernel), ws, hbytes⟩

/-- A session with too little storage for an object. -/
def crampedSession : Session where
  tape := Tape.new (.limited 10) 0
  fields := {}
  service := { registry := Registry.new {} }
  handles := .empty
  graph := { nodes := #[.object (.dynamic { typeName := "A", fields := [] })] }
  journal := []

/-- The object is refused before a byte of it is on the tape, but it stays recorded at the cursor.  A
    detached number takes the place, and the object is written as a reference back to it. -/
theorem detached_stale :
    let refused := writeDepth 2 (.ref 0) crampedSession
    let isolated := detached (writeDepth 1 (.plain (.int 5))) refused.2
    let later := writeDepth 2 (.ref 0) isolated.2
    refused.1.toOption = none ∧ refused.2.tape.cursor = 0 ∧
      isolated.1.toOption = some () ∧ isolated.2.tape.written? = some [3, 5, 0, 0, 0] ∧
      later.1.toOption = some () ∧
      later.2.tape.written? = some ([3, 5, 0, 0, 0] ++ Tag.handle.code :: Word.bytes (5 : Int32)) := by
  decide +kernel

end WriteM

end ObjectWire
