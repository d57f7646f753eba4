import Mathlib.Data.Finset.Card
import Mathlib.Data.List.Induction
import ObjectWire.HandleTable

/-!
# First positions

Through any calls on it, a handle table is a map that keeps the first position of each identity.  What an
identity is found at after some calls is what it was found at before, or else the position of its first call
(`find?_after`), and a new table grows to as many entries as the calls have identities (`size_after`).
Neither depends on the form that the table takes, which its size decides: there is a search tree exactly from
the second identity on (`isTree_iff`).
-/

namespace ObjectWire.HandleTable

/-- The table after some calls, each with an identity and a position. -/
def after (t : HandleTable) (calls : List (Nat × Nat)) : HandleTable :=
  calls.foldl (fun t call => (t.put call.1 call.2).2) t

/-- Whether the table has taken the form of a search tree. -/
def isTree : HandleTable → Bool
  | .many _ => true
  | _ => false

/-- Calls that come later find what the earlier ones have put in. -/
theorem after_append (t : HandleTable) (calls later : List (Nat × Nat)) :
    t.after (calls ++ later) = (t.after calls).after later := List.foldl_append

/-- The last call is put in last. -/
theorem after_concat (t : HandleTable) (calls : List (Nat × Nat)) (call : Nat × Nat) :
    t.after (calls ++ [call]) = ((t.after calls).put call.1 call.2).2 := after_append t calls [call]

/-- What was found before the calls is found after them, and otherwise the first call counts. -/
theorem find?_after (t : HandleTable) (calls : List (Nat × Nat)) (identity : Nat) :
    (t.after calls).find? identity = (t.find? identity).or (calls.lookup identity) := by
  induction calls generalizing t with
  | nil => exact Option.or_none.symm
  | cons call calls ih =>
    have hcall : t.after (call :: calls) = (t.put call.1 call.2).2.after calls := rfl
    rw [hcall, ih, find?_put_snd, List.lookup_cons]
    by_cases h : call.1 = identity
    · -- The head of the calls counts before those behind it, and after what the table holds.
      subst h
      cases t.find? call.1 <;> simp
    · rw [if_neg h, beq_false_of_ne (Ne.symm h)]

/-- From an empty table on, a node is found where the first call for it has put it. -/
theorem find?_after_empty (calls : List (Nat × Nat)) (identity : Nat) :
    (empty.after calls).find? identity = calls.lookup identity := find?_after empty calls identity

/-- Nothing is found for an identity exactly if no call has it. -/
theorem lookup_eq_none (calls : List (Nat × Nat)) (identity : Nat) :
    calls.lookup identity = none ↔ identity ∉ calls.map Prod.fst := by
  rw [List.lookup_eq_none_iff]
  constructor
  · intro h hmem
    obtain ⟨call, hcall, rfl⟩ := List.mem_map.mp hmem
    exact bne_iff_ne.mp (h call hcall) rfl
  · intro h call hcall
    exact bne_iff_ne.mpr fun heq => h (List.mem_map.mpr ⟨call, hcall, heq.symm⟩)

/-- A new table grows to the number of different identities. -/
theorem size_after (calls : List (Nat × Nat)) :
    (empty.after calls).size = (calls.map Prod.fst).dedup.length := by
  rw [← List.card_toFinset]
  induction calls using List.reverseRecOn with
  | nil => rfl
  | append_singleton calls call ih =>
    -- The last call puts its identity into the set of those before, where it may be already.
    have hinsert : ((calls ++ [call]).map Prod.fst).toFinset =
        insert call.1 (calls.map Prod.fst).toFinset := by
      rw [List.map_append, List.toFinset_append, Finset.union_comm]
      rfl
    rw [after_concat, size_put, ih, find?_after_empty, hinsert]
    cases hfind : calls.lookup call.1 with
    | none =>
      have hnew := (lookup_eq_none calls call.1).mp hfind
      rw [Finset.card_insert_of_notMem (mt List.mem_toFinset.mp hnew)]
      rfl
    | some first =>
      have hknown : call.1 ∈ calls.map Prod.fst := by
        by_contra hnew
        rw [(lookup_eq_none calls call.1).mpr hnew] at hfind
        cases hfind
      rw [Finset.insert_eq_of_mem (List.mem_toFinset.mpr hknown)]
      rfl

/-- A call builds a search tree only for a second identity. -/
theorem isTree_put {t : HandleTable} (h : t.isTree = true ↔ 2 ≤ t.size) (identity position : Nat) :
    (t.put identity position).2.isTree = true ↔ 2 ≤ (t.put identity position).2.size := by
  rw [size_put]
  cases t with
  | empty => simp [put, isTree, find?, size]
  | one known first =>
    -- Only another identity turns the single entry into a tree.
    by_cases hknown : known = identity <;> simp [put, isTree, find?, size, hknown]
  | many positions =>
    have hsize : 2 ≤ positions.size := h.mp rfl
    have htree : (put (.many positions) identity position).2.isTree = true := by
      cases hfind : positions[identity]? <;> simp [put, isTree, hfind]
    simp only [htree, size, true_iff]
    omega

/-- A table that comes from calls on a new one is a search tree exactly if it has two entries or more. -/
theorem isTree_iff (calls : List (Nat × Nat)) :
    (empty.after calls).isTree = true ↔ 2 ≤ (empty.after calls).size := by
  induction calls using List.reverseRecOn with
  | nil => decide
  | append_singleton calls call ih =>
    rw [after_concat]
    exact isTree_put ih call.1 call.2

/-- After any calls on a new table: a call answers with no position exactly if its identity is new, and
    otherwise with the position of the first call that has the identity, and then the table stays as it is.
    The table has as many entries as the calls have identities, and none exactly if there were no calls.  No
    later call loses or alters an entry, whichever form the table takes: from the second entry on it is a
    search tree. -/
theorem put_after (calls : List (Nat × Nat)) :
    let t := empty.after calls
    (∀ identity position,
      ((t.put identity position).1 = none ↔ identity ∉ calls.map Prod.fst) ∧
      ∀ before first behind, calls = before ++ (identity, first) :: behind →
        identity ∉ before.map Prod.fst → t.put identity position = (some first, t)) ∧
    t.size = (calls.map Prod.fst).dedup.length ∧
    (t.isEmpty = true ↔ calls = []) ∧
    (∀ identity first, t.find? identity = some first →
      ∀ later, (t.after later).find? identity = some first) ∧
    (t.isTree = true ↔ 2 ≤ t.size) := by
  intro t
  -- The table answers as a search through the calls would, whatever its form.
  have hsize : t.size = (calls.map Prod.fst).dedup.length := size_after calls
  refine ⟨fun identity position => ⟨?_, fun before first behind hcalls hnew => ?_⟩, hsize, ?_,
    fun identity first hfind later => ?_, isTree_iff calls⟩
  · rw [put_fst, find?_after_empty]
    exact lookup_eq_none calls identity
  · have hfirst : calls.lookup identity = some first := by
      rw [hcalls, List.lookup_append, (lookup_eq_none before identity).mpr hnew, List.lookup_cons_self,
        Option.none_or]
    exact put_of_find? ((find?_after_empty calls identity).trans hfirst) position
  · rw [isEmpty, hsize, decide_eq_true_iff, List.length_eq_zero_iff, List.dedup_eq_nil, List.map_eq_nil_iff]
  · rw [find?_after, hfind, Option.some_or]

/-- The entry of the first call outlives both changes of form, and the calls that repeat it. -/
theorem put_after_sample :
    (empty.after [(7, 10), (7, 50), (8, 20), (9, 30), (7, 60)]).put 7 70 =
        (some 10, empty.after [(7, 10), (7, 50), (8, 20), (9, 30), (7, 60)]) ∧
      ((empty.after [(7, 10), (7, 50), (8, 20), (9, 30), (7, 60)]).put 6 70).1 = none ∧
      (empty.after [(7, 10), (7, 50), (8, 20), (9, 30), (7, 60)]).size = 3 := by
  obtain ⟨hput, hsize, -⟩ := put_after [(7, 10), (7, 50), (8, 20), (9, 30), (7, 60)]
  exact ⟨(hput 7 70).2 [] 10 _ rfl List.not_mem_nil, (hput 6 70).1.mpr (by decide),
    hsize.trans (by decide)⟩

end ObjectWire.HandleTable
