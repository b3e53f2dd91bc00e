import Mathlib
import Contrail.Lib.SortedMerge

/-! `set_synchronize` of `base/set_util.h`, and `map_synchronize` and the two forms of
`map_difference` of `base/map_util.h`. Each walks the current set and the future sequence in
key order and calls `del_fn` on a key only in the current, `add_fn` on one only in the future
and, in `map_difference`, `eq_fn` on a pair with equal keys. Three of them change the current
set while they walk it: `del_fn` erases the element at `it1` (so `next1` is taken first) and
`add_fn` inserts the key at `it2`. The current set is modelled by its keys, an iterator of it
by the key it points at with `⊤` at `end()`, and the future sequence from `it2` on as a list;
the loop state records the steps the walk has taken. -/
namespace Contrail.Base

/-- The loop state: the current set as the callbacks have left it, `it1`, the future sequence
from `it2` on, `modified`, and the steps so far (`.left` a `del_fn`, `.right` an `add_fn`,
`.both` the step on equal keys). -/
structure SyncState (κ β : Type) where
  set1 : Finset κ
  it1 : WithTop κ
  it2 : List β
  modified : Bool
  calls : List (MergeStep κ β)

namespace SyncState

variable {κ β : Type} [LinearOrder κ] (key : β → κ)

/-- `set1->begin()` and `set2->begin()`. -/
def start (set1 : Finset κ) (range : List β) : SyncState κ β :=
  ⟨set1, set1.min, range, false, []⟩

/-- `++next1; modified = true; del_fn(it1); it1 = next1`. -/
def del (st : SyncState κ β) (a : κ) : SyncState κ β :=
  { st with
    set1 := st.set1.erase a
    it1 := iterNext st.set1 a
    modified := true
    calls := st.calls ++ [.left a] }

/-- `modified = true; add_fn(it2); ++it2`. -/
def add (st : SyncState κ β) (b : β) (rest : List β) : SyncState κ β :=
  { st with
    set1 := insert (key b) st.set1
    it2 := rest
    modified := true
    calls := st.calls ++ [.right b] }

/-- `++it1; ++it2` on equal keys, after `eq_fn(it1, it2)` in `map_difference`. -/
def skip (st : SyncState κ β) (a : κ) (b : β) (rest : List β) : SyncState κ β :=
  { st with
    it1 := iterNext st.set1 a
    it2 := rest
    calls := st.calls ++ [.both a b] }

/-- One iteration: of the `while` loop while both iterators are in range, then of the `for`
loop that deletes from `it1` on, then of the one that adds from `it2` on; `none` once both
are at the end. -/
def step (st : SyncState κ β) : Option (SyncState κ β) :=
  match st.it1, st.it2 with
  | (a : κ), b :: rest =>
    if a < key b then some (st.del a)
    else if a > key b then some (st.add key b rest)
    else some (st.skip a b rest)
  | (a : κ), [] => some (st.del a)
  | ⊤, b :: rest => some (st.add key b rest)
  | ⊤, [] => none

/-- What the loops have still to do. -/
def measure (st : SyncState κ β) : Nat := unvisited st.set1 st.it1 + st.it2.length

/-- Everything one iteration can do. -/
theorem step_cases {st st' : SyncState κ β} (stepped : st.step key = some st') :
    (∃ a : κ, st.it1 = ↑a ∧ (∀ b rest, st.it2 = b :: rest → a < key b) ∧ st' = st.del a) ∨
    (∃ b rest, st.it2 = b :: rest ∧ ↑(key b) < st.it1 ∧ st' = st.add key b rest) ∨
    (∃ (a : κ) (b : β) (rest : List β), st.it1 = ↑a ∧ st.it2 = b :: rest ∧ key b = a ∧ st' = st.skip a b rest) := by
  unfold step at stepped
  split at stepped
  · rename_i a b rest at1 at2
    split_ifs at stepped with lt gt
    · exact .inl ⟨a, at1, fun b' rest' at2' => by simp_all, (Option.some.inj stepped).symm⟩
    · refine .inr (.inl ⟨b, rest, at2, ?_, (Option.some.inj stepped).symm⟩)
      rw [at1]
      exact WithTop.coe_lt_coe.mpr gt
    · have same : key b = a := le_antisymm (not_lt.mp lt) (not_lt.mp gt)
      exact .inr (.inr ⟨a, b, rest, at1, at2, same, (Option.some.inj stepped).symm⟩)
  · rename_i a at1 at2
    exact .inl ⟨a, at1, fun b rest at2' => by simp_all, (Option.some.inj stepped).symm⟩
  · rename_i b rest at1 at2
    refine .inr (.inl ⟨b, rest, at2, ?_, (Option.some.inj stepped).symm⟩)
    rw [at1]
    exact WithTop.coe_lt_top _
  · cases stepped

theorem step_measure {st st' : SyncState κ β} (stepped : st.step key = some st') :
    st'.measure < st.measure := by
  rcases step_cases key stepped with ⟨a, at1, -, rfl⟩ | ⟨b, rest, at2, below, rfl⟩ |
    ⟨a, b, rest, at1, at2, -, rfl⟩
  · have fewer := unvisited_iterNext_lt (Finset.erase_subset a st.set1) a
    simp only [measure, del, at1]
    omega
  · have same := unvisited_insert_of_lt (s := st.set1) below
    simp only [measure, add, at2, List.length_cons, same]
    omega
  · have fewer := unvisited_iterNext_lt (subset_refl st.set1) a
    simp only [measure, skip, at1, at2, List.length_cons]
    omega

/-- The loops from `st` to their end. -/
def run (st : SyncState κ β) : SyncState κ β :=
  match _stepped : st.step key with
  | some st' => run st'
  | none => st
termination_by st.measure
decreasing_by exact step_measure key _stepped

/-- The states the loops pass through from `st`. -/
def Reaches (st : SyncState κ β) : SyncState κ β → Prop :=
  Relation.ReflTransGen (fun s s' => s.step key = some s') st

/-- `it1` points at an element of the current set, or at `end()`. -/
def Valid (st : SyncState κ β) : Prop := ∀ a : κ, st.it1 = ↑a → a ∈ st.set1


/-! ## The loop invariant -/

section Invariant

variable {key} {set1 : Finset κ} {range : List β} {st st' : SyncState κ β}

/-- What holds at every iteration of the loops started on `set1` and `range`: `it1` is valid;
the callbacks have left the set ahead of `it1` as it was; the keys behind `it1` are those of
the future sequence before `it2`; the steps so far followed by the walk over what is left are
the walk over the inputs; `modified` says whether a callback was called. -/
structure Inv (key : β → κ) (set1 : Finset κ) (range : List β) (st : SyncState κ β) : Prop where
  valid : st.Valid
  ahead : iterAhead st.set1 st.it1 = iterAhead set1 st.it1
  behind : ∃ done, done ++ st.it2 = range ∧ (∀ b ∈ done, ↑(key b) < st.it1) ∧
    iterBehind st.set1 st.it1 = (done.map key).toFinset
  calls : st.calls ++ mergeWalk id key ((iterAhead st.set1 st.it1).sort (· ≤ ·)) st.it2 =
    mergeWalk id key (set1.sort (· ≤ ·)) range
  modified : st.modified = st.calls.any MergeStep.oneSided

omit [LinearOrder κ] in
/-- Stepping `it2` past `b` moves `b` to the part of the future sequence already passed. -/
theorem passed_cons {done rest : List β} {b : β} (split : done ++ st.it2 = range)
    (at2 : st.it2 = b :: rest) : (done ++ [b]) ++ rest = range := by
  rw [List.append_assoc, List.singleton_append, ← at2]
  exact split

theorem inv_start : Inv key set1 range (start set1 range) where
  valid _ least := Finset.mem_of_min least
  ahead := rfl
  behind := ⟨[], rfl, by simp, by simp [start]⟩
  calls := by simp [start]
  modified := rfl

theorem Inv.del {a : κ} (inv : Inv key set1 range st) (at1 : st.it1 = ↑a)
    (first : ∀ b rest, st.it2 = b :: rest → a < key b) : Inv key set1 range (st.del a) := by
  have member : a ∈ st.set1 := inv.valid a at1
  have ahead : iterAhead st.set1 ↑a = iterAhead set1 ↑a := at1 ▸ inv.ahead
  have later : (↑a : WithTop κ) < iterNext st.set1 a := lt_iterNext st.set1 a
  obtain ⟨done, split, older, passed⟩ := inv.behind
  refine ⟨fun c next => ?_, ?_, ⟨done, split, fun b held => ?_, ?_⟩, ?_, ?_⟩
  · obtain ⟨held, lt⟩ := iterNext_mem next
    exact Finset.mem_erase.mpr ⟨lt.ne', held⟩
  · show iterAhead (st.set1.erase a) (iterNext st.set1 a) = iterAhead set1 (iterNext st.set1 a)
    rw [iterAhead_erase_of_lt later]
    exact iterAhead_congr_of_le ahead later.le
  · exact lt_trans (at1 ▸ older b held) later
  · show iterBehind (st.set1.erase a) (iterNext st.set1 a) = _
    rw [iterBehind_erase_iterNext, ← at1, passed]
  · show (st.calls ++ [.left a]) ++
      mergeWalk id key ((iterAhead (st.set1.erase a) (iterNext st.set1 a)).sort (· ≤ ·)) st.it2 = _
    rw [iterAhead_erase_of_lt later, List.append_assoc, List.singleton_append,
      ← mergeWalk_cons_left _ first, ← sort_iterAhead_of_mem member, ← at1]
    exact inv.calls
  · simp [SyncState.del, MergeStep.oneSided]

theorem Inv.add {b : β} {rest : List β} (inv : Inv key set1 range st) (at2 : st.it2 = b :: rest)
    (below : ↑(key b) < st.it1) : Inv key set1 range (st.add key b rest) := by
  obtain ⟨done, split, older, passed⟩ := inv.behind
  refine ⟨fun c at1 => Finset.mem_insert_of_mem (inv.valid c at1), ?_,
    ⟨done ++ [b], ?_, fun b' held => ?_, ?_⟩, ?_, ?_⟩
  · show iterAhead (insert (key b) st.set1) st.it1 = _
    rw [iterAhead_insert_of_lt below]
    exact inv.ahead
  · exact passed_cons split at2
  · rcases List.mem_append.mp held with old | new
    · exact older b' old
    · rw [List.mem_singleton.mp new]
      exact below
  · show iterBehind (insert (key b) st.set1) st.it1 = _
    rw [iterBehind_insert_of_lt below, passed]
    ext x
    simp
  · show (st.calls ++ [.right b]) ++
      mergeWalk id key ((iterAhead (insert (key b) st.set1) st.it1).sort (· ≤ ·)) rest = _
    rw [iterAhead_insert_of_lt below, List.append_assoc, List.singleton_append,
      ← mergeWalk_cons_right rest fun a l sorted => ?_, ← at2]
    · exact inv.calls
    have held : a ∈ iterAhead st.set1 st.it1 := by
      rw [← Finset.mem_sort (· ≤ ·), sorted]
      exact List.mem_cons_self
    exact WithTop.coe_lt_coe.mp (lt_of_lt_of_le below (Finset.mem_filter.mp held).2)
  · simp [SyncState.add, MergeStep.oneSided]

theorem Inv.skip {a : κ} {b : β} {rest : List β} (inv : Inv key set1 range st) (at1 : st.it1 = ↑a)
    (at2 : st.it2 = b :: rest) (same : key b = a) : Inv key set1 range (st.skip a b rest) := by
  have member : a ∈ st.set1 := inv.valid a at1
  have ahead : iterAhead st.set1 ↑a = iterAhead set1 ↑a := at1 ▸ inv.ahead
  have later : (↑a : WithTop κ) < iterNext st.set1 a := lt_iterNext st.set1 a
  obtain ⟨done, split, older, passed⟩ := inv.behind
  refine ⟨fun c next => (iterNext_mem next).1, iterAhead_congr_of_le ahead later.le,
    ⟨done ++ [b], ?_, fun b' held => ?_, ?_⟩, ?_, ?_⟩
  · exact passed_cons split at2
  · rcases List.mem_append.mp held with old | new
    · exact lt_trans (at1 ▸ older b' old) later
    · rw [List.mem_singleton.mp new, same]
      exact later
  · show iterBehind st.set1 (iterNext st.set1 a) = _
    rw [iterBehind_iterNext member, ← at1, passed, ← same]
    ext x
    simp
  · show (st.calls ++ [.both a b]) ++
      mergeWalk id key ((iterAhead st.set1 (iterNext st.set1 a)).sort (· ≤ ·)) rest = _
    rw [List.append_assoc, List.singleton_append, ← mergeWalk_eq _ _ same.symm,
      ← sort_iterAhead_of_mem member, ← at1, ← at2]
    exact inv.calls
  · simp [SyncState.skip, MergeStep.oneSided, inv.modified]

theorem Inv.step (inv : Inv key set1 range st) (stepped : st.step key = some st') :
    Inv key set1 range st' := by
  rcases step_cases key stepped with ⟨a, at1, first, rfl⟩ | ⟨b, rest, at2, below, rfl⟩ |
    ⟨a, b, rest, at1, at2, same, rfl⟩
  · exact inv.del at1 first
  · exact inv.add at2 below
  · exact inv.skip at1 at2 same

/-- Every state the loops pass through keeps the invariant. -/
theorem Inv.reaches (inv : Inv key set1 range st) (reached : Reaches key st st') :
    Inv key set1 range st' := by
  induction reached with
  | refl => exact inv
  | tail _ stepped ih => exact ih.step stepped

end Invariant

/-! ## The loops to their end -/

theorem step_eq_none {st : SyncState κ β} (stopped : st.step key = none) :
    st.it1 = ⊤ ∧ st.it2 = [] := by
  unfold step at stopped
  split at stopped
  · split_ifs at stopped
  · cases stopped
  · cases stopped
  · rename_i at1 at2
    exact ⟨at1, at2⟩

/-- The run passes through states the loops reach and stops where no iteration is left. -/
theorem run_reaches (st : SyncState κ β) :
    Reaches key st (st.run key) ∧ (st.run key).step key = none := by
  fun_induction run key st with
  | case1 st st' stepped ih => exact ⟨Relation.ReflTransGen.head stepped ih.1, ih.2⟩
  | case2 st stopped => exact ⟨Relation.ReflTransGen.refl, stopped⟩

/-- The loops end with the current set holding the keys of the future sequence, having taken
the steps of the walk over the two inputs, and with `modified` set when a callback was called. -/
theorem run_start (set1 : Finset κ) (range : List β) :
    ((start set1 range).run key).calls = mergeWalk id key (set1.sort (· ≤ ·)) range ∧
      ((start set1 range).run key).set1 = (range.map key).toFinset ∧
      ((start set1 range).run key).modified =
        ((start set1 range).run key).calls.any MergeStep.oneSided := by
  obtain ⟨reached, stopped⟩ := run_reaches key (start set1 range)
  have inv := inv_start.reaches reached
  obtain ⟨at1, at2⟩ := step_eq_none key stopped
  obtain ⟨done, split, -, passed⟩ := inv.behind
  refine ⟨?_, ?_, inv.modified⟩
  · simpa [at1, at2] using inv.calls
  · rw [at1, iterBehind_top] at passed
    rw [passed, ← split, at2, List.append_nil]

/-- Every iteration reads `it1` and `it2` where they point at elements, never where one was erased. -/
theorem reaches_valid {set1 : Finset κ} {range : List β} {st : SyncState κ β}
    (reached : Reaches key (start set1 range) st) : st.Valid :=
  (inv_start.reaches reached).valid

/-- What the walk of the loops meets when the future sequence is strictly ordered: `del_fn` on
the keys of the current set that the future lacks, `add_fn` on the elements of the future whose
key the current set lacks, and the pairs with equal keys. -/
theorem run_steps (set1 : Finset κ) {range : List β} (sorted : KeySorted key range) :
    ((start set1 range).run key).calls.filterMap MergeStep.left? =
        (set1 \ (range.map key).toFinset).sort (· ≤ ·) ∧
      ((start set1 range).run key).calls.filterMap MergeStep.right? =
        range.filter (key · ∉ set1) ∧
      ((start set1 range).run key).calls.filterMap MergeStep.both? =
        (set1.sort (· ≤ ·) ×ˢ range).filter fun p => p.1 = key p.2 := by
  rw [(run_start key set1 range).1]
  refine ⟨?_, ?_, mergeWalk_boths (keySorted_sort set1) sorted⟩
  · rw [mergeWalk_lefts (keySorted_sort set1) sorted, Finset.sdiff_eq_filter, sort_filter]
    simp
  · rw [mergeWalk_rights (keySorted_sort set1) sorted]
    simp

end SyncState

/-! ## The four functions -/

open SyncState

variable {κ β V W : Type} [LinearOrder κ]

/-- `set_synchronize(&set1, &set2, add_fn, del_fn)` with `add_fn` inserting the element at
`it2` into `set1` and `del_fn` erasing the element at `it1`; it returns `modified`. -/
def setSynchronize (set1 set2 : Finset κ) : SyncState κ κ :=
  (start set1 (set2.sort (· ≤ ·))).run id

/-- `map_synchronize(&map1, &map2, add_fn, del_fn)`: `map1` by its keys and `map2` by its
entries in key order, with the callbacks of `setSynchronize`. -/
def mapSynchronize (map1 : Finset κ) (map2 : List (κ × V)) : SyncState κ (κ × V) :=
  (start map1 map2).run Prod.fst

/-- `map_difference(&map, first, last, comp_fn, add_fn, del_fn, eq_fn)`: `comp_fn` compares the
key at `it1` with `key` of the element at `it2`, and the callbacks are those of
`setSynchronize`. -/
def mapDifferenceWith (map : Finset κ) (range : List β) (key : β → κ) : SyncState κ β :=
  (start map range).run key

/-- `map_difference(first1, last1, first2, last2, add_fn, del_fn, eq_fn)` over two ranges of
map entries, which its callbacks leave as they are. -/
def mapDifference (range1 : List (κ × V)) (range2 : List (κ × W)) :
    List (MergeStep (κ × V) (κ × W)) :=
  mergeWalk Prod.fst Prod.fst range1 range2

/-- The reconciliations are exact: `set_synchronize` and `map_synchronize` call `del_fn` once on
each key only in the current set and `add_fn` once on each element whose key only the future
has, read no erased iterator and leave the current set holding the future's keys, and
`set_synchronize` returns whether the two sets differed; the two forms of `map_difference` call
`eq_fn` on exactly the pairs with equal keys and `del_fn` and `add_fn` as above. -/
theorem reconciliation_exact :
    (∀ set1 set2 : Finset κ,
      (setSynchronize set1 set2).calls.filterMap MergeStep.left? = (set1 \ set2).sort (· ≤ ·) ∧
      (setSynchronize set1 set2).calls.filterMap MergeStep.right? = (set2 \ set1).sort (· ≤ ·) ∧
      (∀ st, Reaches id (start set1 (set2.sort (· ≤ ·))) st → st.Valid) ∧
      (setSynchronize set1 set2).set1 = set2 ∧
      ((setSynchronize set1 set2).modified = true ↔ set1 ≠ set2)) ∧
    (∀ (map1 : Finset κ) (map2 : List (κ × V)), KeySorted Prod.fst map2 →
      (mapSynchronize map1 map2).calls.filterMap MergeStep.left? =
        (map1 \ (map2.map Prod.fst).toFinset).sort (· ≤ ·) ∧
      (mapSynchronize map1 map2).calls.filterMap MergeStep.right? = map2.filter (·.1 ∉ map1) ∧
      (∀ st, Reaches Prod.fst (start map1 map2) st → st.Valid) ∧
      (mapSynchronize map1 map2).set1 = (map2.map Prod.fst).toFinset) ∧
    (∀ (range1 : List (κ × V)) (range2 : List (κ × W)),
      KeySorted Prod.fst range1 → KeySorted Prod.fst range2 →
      (mapDifference range1 range2).filterMap MergeStep.both? =
        (range1 ×ˢ range2).filter (fun p => p.1.1 = p.2.1) ∧
      (mapDifference range1 range2).filterMap MergeStep.left? =
        range1.filter (·.1 ∉ range2.map Prod.fst) ∧
      (mapDifference range1 range2).filterMap MergeStep.right? =
        range2.filter (·.1 ∉ range1.map Prod.fst)) ∧
    (∀ (map : Finset κ) (range : List β) (key : β → κ), KeySorted key range →
      (mapDifferenceWith map range key).calls.filterMap MergeStep.both? =
        (map.sort (· ≤ ·) ×ˢ range).filter (fun p => p.1 = key p.2) ∧
      (mapDifferenceWith map range key).calls.filterMap MergeStep.left? =
        (map \ (range.map key).toFinset).sort (· ≤ ·) ∧
      (mapDifferenceWith map range key).calls.filterMap MergeStep.right? =
        range.filter (key · ∉ map) ∧
      (∀ st, Reaches key (start map range) st → st.Valid)) := by
  refine ⟨fun set1 set2 => ?_, fun map1 map2 sorted => ?_, fun range1 range2 sorted1 sorted2 => ?_,
    fun map range key sorted => ?_⟩
  · have lefts : (setSynchronize set1 set2).calls.filterMap MergeStep.left? =
        (set1 \ set2).sort (· ≤ ·) := by
      rw [setSynchronize, (run_steps id set1 (keySorted_sort set2)).1]
      simp
    have rights : (setSynchronize set1 set2).calls.filterMap MergeStep.right? =
        (set2 \ set1).sort (· ≤ ·) := by
      rw [setSynchronize, (run_steps id set1 (keySorted_sort set2)).2.1, Finset.sdiff_eq_filter,
        sort_filter]
      rfl
    have final : (setSynchronize set1 set2).set1 = set2 := by
      rw [setSynchronize, (run_start id set1 _).2.1]
      simp
    refine ⟨lefts, rights, fun st => reaches_valid id, final, ?_⟩
    rw [setSynchronize, (run_start id set1 _).2.2, ← setSynchronize, ← Bool.not_eq_false, ne_eq,
      any_oneSided_eq_false, lefts, rights, sort_eq_nil_iff, sort_eq_nil_iff,
      Finset.sdiff_eq_empty_iff_subset, Finset.sdiff_eq_empty_iff_subset,
      ← Finset.Subset.antisymm_iff]
  · obtain ⟨lefts, rights, -⟩ := run_steps Prod.fst map1 sorted
    exact ⟨lefts, rights, fun st => reaches_valid Prod.fst, (run_start Prod.fst map1 map2).2.1⟩
  · exact ⟨mergeWalk_boths sorted1 sorted2, mergeWalk_lefts sorted1 sorted2,
      mergeWalk_rights sorted1 sorted2⟩
  · obtain ⟨lefts, rights, boths⟩ := run_steps key map sorted
    exact ⟨boths, lefts, rights, fun st => reaches_valid key⟩

/-- The map reconciliations on the ranges keyed 1, 3 and 3, 4, and of the map `{1, 2}` against
them. -/
theorem reconciliation_exact_small :
    let range1 : List (Nat × Nat) := [(1, 10), (3, 30)]
    let range2 : List (Nat × Nat) := [(3, 31), (4, 41)]
    let map : Finset Nat := {1, 2}
    KeySorted Prod.fst range1 ∧ KeySorted Prod.fst range2 ∧
    ((mapSynchronize map range2).calls.filterMap MergeStep.left? =
        (map \ (range2.map Prod.fst).toFinset).sort (· ≤ ·) ∧
      (mapSynchronize map range2).calls.filterMap MergeStep.right? = range2.filter (·.1 ∉ map) ∧
      (∀ st, Reaches Prod.fst (start map range2) st → st.Valid) ∧
      (mapSynchronize map range2).set1 = (range2.map Prod.fst).toFinset) ∧
    ((mapDifference range1 range2).filterMap MergeStep.both? =
        (range1 ×ˢ range2).filter (fun p => p.1.1 = p.2.1) ∧
      (mapDifference range1 range2).filterMap MergeStep.left? =
        range1.filter (·.1 ∉ range2.map Prod.fst) ∧
      (mapDifference range1 range2).filterMap MergeStep.right? =
        range2.filter (·.1 ∉ range1.map Prod.fst)) := by
  intro range1 range2 map
  have sorted1 : KeySorted Prod.fst range1 := by simp [KeySorted, range1]
  have sorted2 : KeySorted Prod.fst range2 := by simp [KeySorted, range2]
  obtain ⟨-, synchronize, difference, -⟩ := @reconciliation_exact Nat Nat Nat Nat _
  exact ⟨sorted1, sorted2, synchronize map range2 sorted2, difference range1 range2 sorted1 sorted2⟩

end Contrail.Base
