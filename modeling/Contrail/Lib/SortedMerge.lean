import Mathlib

/-!
# Merge walks and iterators of ordered sets

Two sequences ordered by a key are reconciled by one walk that steps the side with the
smaller key, or both sides on equal keys. For sequences strictly ordered by their keys the
walk meets each element of one side whose key the other side lacks once, and each pair with
equal keys once. An iterator of a finite set of a linear order is the element it points at,
with `⊤` past the last; `iterNext` steps it and `iterAhead` is what it has still to visit.
-/

namespace Contrail

/-! ## The walk -/

/-- One step of a merge walk: an element only on the left, one only on the right, or the
pair of elements with equal keys. -/
inductive MergeStep (α β : Type) where
  | left (a : α)
  | right (b : β)
  | both (a : α) (b : β)
  deriving DecidableEq, Repr

namespace MergeStep

variable {α β : Type}

/-- The element of a left step. -/
def left? : MergeStep α β → Option α
  | .left a => some a
  | _ => none

/-- The element of a right step. -/
def right? : MergeStep α β → Option β
  | .right b => some b
  | _ => none

/-- The pair of a step on both sides. -/
def both? : MergeStep α β → Option (α × β)
  | .both a b => some (a, b)
  | _ => none

/-- A step on one side only. -/
def oneSided : MergeStep α β → Bool
  | .both _ _ => false
  | _ => true

end MergeStep

section Walk

variable {κ α β : Type} [LinearOrder κ] (key1 : α → κ) (key2 : β → κ)

/-- The walk over two sequences ordered by `key1` and `key2`. -/
def mergeWalk : List α → List β → List (MergeStep α β)
  | [], l2 => l2.map .right
  | a :: l1, [] => (a :: l1).map .left
  | a :: l1, b :: l2 =>
    if key1 a < key2 b then .left a :: mergeWalk (l1) (b :: l2)
    else if key1 a > key2 b then .right b :: mergeWalk (a :: l1) l2
    else .both a b :: mergeWalk l1 l2

variable {key1 key2}

@[simp]
theorem mergeWalk_nil_left (l2 : List β) : mergeWalk key1 key2 [] l2 = l2.map .right := by
  rw [mergeWalk]

@[simp]
theorem mergeWalk_nil_right (l1 : List α) : mergeWalk key1 key2 l1 [] = l1.map .left := by
  cases l1 with
  | nil => rw [mergeWalk]; rfl
  | cons a l1 => rw [mergeWalk]

theorem mergeWalk_lt {a : α} {b : β} (l1 : List α) (l2 : List β) (lt : key1 a < key2 b) :
    mergeWalk key1 key2 (a :: l1) (b :: l2) = .left a :: mergeWalk key1 key2 l1 (b :: l2) := by
  rw [mergeWalk, if_pos lt]

theorem mergeWalk_gt {a : α} {b : β} (l1 : List α) (l2 : List β) (gt : key2 b < key1 a) :
    mergeWalk key1 key2 (a :: l1) (b :: l2) = .right b :: mergeWalk key1 key2 (a :: l1) l2 := by
  rw [mergeWalk, if_neg (not_lt.mpr gt.le), if_pos gt]

theorem mergeWalk_eq {a : α} {b : β} (l1 : List α) (l2 : List β) (same : key1 a = key2 b) :
    mergeWalk key1 key2 (a :: l1) (b :: l2) = .both a b :: mergeWalk key1 key2 l1 l2 := by
  rw [mergeWalk, if_neg (not_lt.mpr same.ge), if_neg (not_lt.mpr same.le)]

/-- A left element below every right one is stepped alone. -/
theorem mergeWalk_cons_left {a : α} (l1 : List α) {l2 : List β}
    (first : ∀ b rest, l2 = b :: rest → key1 a < key2 b) :
    mergeWalk key1 key2 (a :: l1) l2 = .left a :: mergeWalk key1 key2 l1 l2 := by
  cases l2 with
  | nil => simp
  | cons b rest => exact mergeWalk_lt l1 rest (first b rest rfl)

/-- A right element below every left one is stepped alone. -/
theorem mergeWalk_cons_right {b : β} {l1 : List α} (l2 : List β)
    (first : ∀ a rest, l1 = a :: rest → key2 b < key1 a) :
    mergeWalk key1 key2 l1 (b :: l2) = .right b :: mergeWalk key1 key2 l1 l2 := by
  cases l1 with
  | nil => simp
  | cons a rest => exact mergeWalk_gt rest l2 (first a rest rfl)

/-- Strictly increasing keys: a sequence read from a `std::set` or a `std::map`. -/
def KeySorted (key : α → κ) (l : List α) : Prop :=
  l.Pairwise fun a a' => key a < key a'

variable {a : α} {b : β} {l1 : List α} {l2 : List β}

theorem KeySorted.tail {key : α → κ} (sorted : KeySorted key (a :: l1)) : KeySorted key l1 :=
  (List.pairwise_cons.mp sorted).2

theorem KeySorted.head_lt {key : α → κ} (sorted : KeySorted key (a :: l1)) {x : α}
    (member : x ∈ l1) : key a < key x :=
  (List.pairwise_cons.mp sorted).1 x member

theorem KeySorted.head_le {key : α → κ} (sorted : KeySorted key (a :: l1)) {x : α}
    (member : x ∈ a :: l1) : key a ≤ key x := by
  rcases List.mem_cons.mp member with rfl | later
  · exact le_rfl
  · exact (sorted.head_lt later).le

/-- A key below the head of a sorted sequence is none of its keys. -/
theorem KeySorted.not_mem_of_lt {key : α → κ} (sorted : KeySorted key (a :: l1)) {k : κ}
    (lt : k < key a) : k ∉ (a :: l1).map key := by
  simp only [List.mem_map, not_exists, not_and]
  intro x member same
  exact absurd (sorted.head_le member) (not_le.mpr (same ▸ lt))

/-- The left steps: the elements of the left side whose key the right side lacks. -/
theorem mergeWalk_lefts (sorted1 : KeySorted key1 l1) (sorted2 : KeySorted key2 l2) :
    (mergeWalk key1 key2 l1 l2).filterMap MergeStep.left? =
      l1.filter fun a => key1 a ∉ l2.map key2 := by
  induction l1, l2 using mergeWalk.induct key1 key2 with
  | case1 l2 => simp [List.filterMap_map, MergeStep.left?]
  | case2 a l1 =>
    simp [List.filterMap_map, MergeStep.left?, Function.comp_def]
  | case3 a l1 b l2 lt ih =>
    rw [mergeWalk_lt l1 l2 lt, List.filterMap_cons_some (f := MergeStep.left?) rfl, ih sorted1.tail sorted2,
      List.filter_cons_of_pos (by simpa using sorted2.not_mem_of_lt lt)]
  | case4 a l1 b l2 ge gt ih =>
    rw [mergeWalk_gt l1 l2 gt, List.filterMap_cons_none (f := MergeStep.left?) rfl, ih sorted1 sorted2.tail]
    refine List.filter_congr fun x member => ?_
    have apart : key1 x ≠ key2 b := (lt_of_lt_of_le gt (sorted1.head_le member)).ne'
    simp [apart]
  | case5 a l1 b l2 ge le ih =>
    have same : key1 a = key2 b := le_antisymm (not_lt.mp le) (not_lt.mp ge)
    rw [mergeWalk_eq l1 l2 same, List.filterMap_cons_none (f := MergeStep.left?) rfl, ih sorted1.tail sorted2.tail,
      List.filter_cons_of_neg (by simp [same])]
    refine List.filter_congr fun x member => ?_
    have apart : key1 x ≠ key2 b := (same ▸ sorted1.head_lt member).ne'
    simp [apart]

/-- The right steps: the elements of the right side whose key the left side lacks. -/
theorem mergeWalk_rights (sorted1 : KeySorted key1 l1) (sorted2 : KeySorted key2 l2) :
    (mergeWalk key1 key2 l1 l2).filterMap MergeStep.right? =
      l2.filter fun b => key2 b ∉ l1.map key1 := by
  induction l1, l2 using mergeWalk.induct key1 key2 with
  | case1 l2 =>
    simp [List.filterMap_map, MergeStep.right?, Function.comp_def]
  | case2 a l1 => simp [MergeStep.right?]
  | case3 a l1 b l2 lt ih =>
    rw [mergeWalk_lt l1 l2 lt, List.filterMap_cons_none (f := MergeStep.right?) rfl, ih sorted1.tail sorted2]
    refine List.filter_congr fun y member => ?_
    have apart : key1 a ≠ key2 y := (lt_of_lt_of_le lt (sorted2.head_le member)).ne
    simp [apart, eq_comm]
  | case4 a l1 b l2 ge gt ih =>
    rw [mergeWalk_gt l1 l2 gt, List.filterMap_cons_some (f := MergeStep.right?) rfl, ih sorted1 sorted2.tail,
      List.filter_cons_of_pos (by simpa using sorted1.not_mem_of_lt gt)]
  | case5 a l1 b l2 ge le ih =>
    have same : key1 a = key2 b := le_antisymm (not_lt.mp le) (not_lt.mp ge)
    rw [mergeWalk_eq l1 l2 same, List.filterMap_cons_none (f := MergeStep.right?) rfl, ih sorted1.tail sorted2.tail,
      List.filter_cons_of_neg (by simp [same])]
    refine List.filter_congr fun y member => ?_
    have apart : key1 a ≠ key2 y := (same ▸ sorted2.head_lt member).ne
    simp [apart, eq_comm]

/-- Pairs of a left element with right elements of other keys hold no equal keys. -/
theorem filter_pairs_of_apart {p : α × β → Bool} {l : List β}
    (apart : ∀ y ∈ l, p (a, y) = false) : (l.map (a, ·)).filter p = [] := by
  simpa [List.filter_eq_nil_iff] using apart

/-- Dropping a right element whose key no left element has keeps the equal-key pairs. -/
theorem filter_product_cons_right {p : α × β → Bool} (l1 : List α)
    (apart : ∀ x ∈ l1, p (x, b) = false) : (l1 ×ˢ (b :: l2)).filter p = (l1 ×ˢ l2).filter p := by
  induction l1 with
  | nil => rfl
  | cons x l1 ih =>
    rw [List.product_cons, List.product_cons, List.filter_append, List.filter_append,
      ih fun x' member => apart x' (List.mem_cons_of_mem x member), List.map_cons,
      List.filter_cons_of_neg (by simp [apart x List.mem_cons_self])]

/-- The steps on both sides: the pairs of elements with equal keys. -/
theorem mergeWalk_boths (sorted1 : KeySorted key1 l1) (sorted2 : KeySorted key2 l2) :
    (mergeWalk key1 key2 l1 l2).filterMap MergeStep.both? =
      (l1 ×ˢ l2).filter fun p => key1 p.1 = key2 p.2 := by
  induction l1, l2 using mergeWalk.induct key1 key2 with
  | case1 l2 => simp [MergeStep.both?]
  | case2 a l1 => simp [MergeStep.both?]
  | case3 a l1 b l2 lt ih =>
    rw [mergeWalk_lt l1 l2 lt, List.filterMap_cons_none (f := MergeStep.both?) rfl, ih sorted1.tail sorted2,
      List.product_cons, List.filter_append, filter_pairs_of_apart, List.nil_append]
    intro y member
    simpa using (lt_of_lt_of_le lt (sorted2.head_le member)).ne
  | case4 a l1 b l2 ge gt ih =>
    rw [mergeWalk_gt l1 l2 gt, List.filterMap_cons_none (f := MergeStep.both?) rfl, ih sorted1 sorted2.tail,
      filter_product_cons_right]
    intro x member
    simpa using (lt_of_lt_of_le gt (sorted1.head_le member)).ne'
  | case5 a l1 b l2 ge le ih =>
    have same : key1 a = key2 b := le_antisymm (not_lt.mp le) (not_lt.mp ge)
    have later : ∀ y ∈ l2, decide (key1 a = key2 y) = false := fun y member => by
      simpa using (same ▸ sorted2.head_lt member).ne
    rw [mergeWalk_eq l1 l2 same, List.filterMap_cons_some (f := MergeStep.both?) rfl, ih sorted1.tail sorted2.tail,
      List.product_cons, List.map_cons, List.filter_append, List.filter_cons_of_pos (by simpa using same),
      filter_pairs_of_apart later, filter_product_cons_right]
    · rfl
    intro x member
    simpa using (same ▸ sorted1.head_lt member).ne'

/-- A walk steps on one side only if it has a left or a right step. -/
theorem any_oneSided_eq_false {steps : List (MergeStep α β)} :
    steps.any MergeStep.oneSided = false ↔
      steps.filterMap MergeStep.left? = [] ∧ steps.filterMap MergeStep.right? = [] := by
  induction steps with
  | nil => simp
  | cons step steps ih =>
    cases step <;> simp [MergeStep.oneSided, MergeStep.left?, MergeStep.right?, ih]

end Walk

/-! ## Iterators of an ordered set -/

section Iter

variable {κ : Type} [LinearOrder κ] {s t : Finset κ} {a b x : κ} {it it' : WithTop κ}

/-- `++it` from the element `a`: the next element of `s`, `⊤` past the last. -/
def iterNext (s : Finset κ) (a : κ) : WithTop κ := (s.filter (a < ·)).min

/-- The elements of `s` the iterator `it` has still to visit. -/
def iterAhead (s : Finset κ) (it : WithTop κ) : Finset κ := s.filter fun x => it ≤ ↑x

/-- The elements of `s` the iterator `it` has passed. -/
def iterBehind (s : Finset κ) (it : WithTop κ) : Finset κ := s.filter fun x => ↑x < it

/-- The number of steps an iterator can still take through `s`. -/
def unvisited (s : Finset κ) : WithTop κ → Nat
  | none => 0
  | some a => (s.filter (a < ·)).card + 1

theorem iterNext_le_iff (member : x ∈ s) : iterNext s a ≤ ↑x ↔ a < x := by
  constructor
  · intro le
    cases next : iterNext s a with
    | top => rw [next] at le; exact absurd le (by simp)
    | coe c =>
      have above := (Finset.mem_filter.mp (Finset.mem_of_min next)).2
      rw [next, WithTop.coe_le_coe] at le
      exact lt_of_lt_of_le above le
  · intro lt
    exact Finset.min_le (Finset.mem_filter.mpr ⟨member, lt⟩)

theorem iterNext_mem {c : κ} (next : iterNext s a = ↑c) : c ∈ s ∧ a < c :=
  Finset.mem_filter.mp (Finset.mem_of_min next)

theorem lt_iterNext (s : Finset κ) (a : κ) : (↑a : WithTop κ) < iterNext s a := by
  cases next : iterNext s a with
  | top => exact WithTop.coe_lt_top a
  | coe c => exact WithTop.coe_lt_coe.mpr (iterNext_mem next).2

@[simp]
theorem iterAhead_top (s : Finset κ) : iterAhead s ⊤ = ∅ := by
  simp [iterAhead]

theorem iterAhead_iterNext (s : Finset κ) (a : κ) :
    iterAhead s (iterNext s a) = s.filter (a < ·) :=
  Finset.filter_congr fun _ member => iterNext_le_iff member

theorem iterAhead_coe_of_mem (member : a ∈ s) :
    iterAhead s ↑a = insert a (iterAhead s (iterNext s a)) := by
  rw [iterAhead_iterNext]
  ext x
  simp only [iterAhead, Finset.mem_filter, Finset.mem_insert, WithTop.coe_le_coe]
  constructor
  · rintro ⟨held, le⟩
    rcases le.eq_or_lt with rfl | lt
    · exact .inl rfl
    · exact .inr ⟨held, lt⟩
  · rintro (rfl | ⟨held, lt⟩)
    · exact ⟨member, le_rfl⟩
    · exact ⟨held, lt.le⟩

/-- The sorted elements ahead of an iterator at `a`: `a`, then those ahead of `++it`. -/
theorem sort_iterAhead_of_mem (member : a ∈ s) :
    (iterAhead s ↑a).sort (· ≤ ·) = a :: (iterAhead s (iterNext s a)).sort (· ≤ ·) := by
  rw [iterAhead_coe_of_mem member, Finset.sort_insert]
  · intro x ahead
    rw [iterAhead_iterNext, Finset.mem_filter] at ahead
    exact ahead.2.le
  · rw [iterAhead_iterNext]
    simp

theorem iterAhead_of_le (le : it ≤ it') :
    iterAhead s it' = (iterAhead s it).filter fun x : κ => it' ≤ ↑x := by
  ext x
  simp only [iterAhead, Finset.mem_filter]
  exact ⟨fun ⟨held, above⟩ => ⟨⟨held, le.trans above⟩, above⟩, fun ⟨⟨held, _⟩, above⟩ => ⟨held, above⟩⟩

/-- Two sets equal ahead of an iterator are equal ahead of every later one. -/
theorem iterAhead_congr_of_le (same : iterAhead s it = iterAhead t it) (le : it ≤ it') :
    iterAhead s it' = iterAhead t it' := by
  rw [iterAhead_of_le le, same, ← iterAhead_of_le le]

theorem lt_iterNext_iff (member : x ∈ s) : ↑x < iterNext s a ↔ x ≤ a := by
  rw [← not_le, iterNext_le_iff member, not_lt]

@[simp]
theorem iterBehind_top (s : Finset κ) : iterBehind s ⊤ = s :=
  Finset.filter_true_of_mem fun x _ => WithTop.coe_lt_top x

/-- `begin()` has passed nothing. -/
@[simp]
theorem iterBehind_min (s : Finset κ) : iterBehind s s.min = ∅ :=
  Finset.filter_false_of_mem fun _ member => not_lt.mpr (Finset.min_le member)

/-- `begin()` has everything ahead. -/
@[simp]
theorem iterAhead_min (s : Finset κ) : iterAhead s s.min = s :=
  Finset.filter_true_of_mem fun _ member => Finset.min_le member

/-- Erasing the element at the iterator and stepping past it passes nothing new. -/
theorem iterBehind_erase_iterNext (s : Finset κ) (a : κ) :
    iterBehind (s.erase a) (iterNext s a) = iterBehind s ↑a := by
  ext x
  simp only [iterBehind, Finset.mem_filter, Finset.mem_erase, WithTop.coe_lt_coe]
  constructor
  · rintro ⟨⟨apart, held⟩, before⟩
    exact ⟨held, lt_of_le_of_ne ((lt_iterNext_iff held).mp before) apart⟩
  · rintro ⟨held, lt⟩
    exact ⟨⟨lt.ne, held⟩, (lt_iterNext_iff held).mpr lt.le⟩

/-- Stepping past an element of `s` passes it. -/
theorem iterBehind_iterNext (member : a ∈ s) :
    iterBehind s (iterNext s a) = insert a (iterBehind s ↑a) := by
  ext x
  simp only [iterBehind, Finset.mem_filter, Finset.mem_insert, WithTop.coe_lt_coe]
  constructor
  · rintro ⟨held, before⟩
    rcases ((lt_iterNext_iff held).mp before).eq_or_lt with rfl | lt
    · exact .inl rfl
    · exact .inr ⟨held, lt⟩
  · rintro (rfl | ⟨held, lt⟩)
    · exact ⟨member, (lt_iterNext_iff member).mpr le_rfl⟩
    · exact ⟨held, (lt_iterNext_iff held).mpr lt.le⟩

theorem iterBehind_insert_of_lt (below : (↑b : WithTop κ) < it) :
    iterBehind (insert b s) it = insert b (iterBehind s it) := by
  rw [iterBehind, Finset.filter_insert, if_pos below]
  rfl

theorem keySorted_sort (s : Finset κ) : KeySorted id (s.sort (· ≤ ·)) :=
  (Finset.sortedLT_sort s).pairwise

theorem sort_eq_nil_iff : s.sort (· ≤ ·) = [] ↔ s = ∅ := by
  rw [← List.length_eq_zero_iff, Finset.length_sort, Finset.card_eq_zero]

/-- The sorted list of a filtered set is the sorted list filtered. -/
theorem sort_filter (s : Finset κ) (p : κ → Prop) [DecidablePred p] :
    (s.filter p).sort (· ≤ ·) = (s.sort (· ≤ ·)).filter p := by
  have same : s.filter p = ((s.sort (· ≤ ·)).filter p).toFinset := by
    ext x
    simp
  rw [same, List.toFinset_sort _ ((Finset.sort_nodup s _).filter _)]
  exact (Finset.pairwise_sort s _).filter _

theorem iterAhead_insert_of_lt (below : (↑b : WithTop κ) < it) :
    iterAhead (insert b s) it = iterAhead s it := by
  rw [iterAhead, Finset.filter_insert, if_neg (not_le.mpr below)]
  rfl

theorem iterAhead_erase_of_lt (below : (↑a : WithTop κ) < it) :
    iterAhead (s.erase a) it = iterAhead s it := by
  rw [iterAhead, Finset.filter_erase, Finset.erase_eq_of_notMem]
  · rfl
  · simp [not_le.mpr below]

theorem unvisited_iterNext_lt (sub : t ⊆ s) (a : κ) : unvisited t (iterNext s a) < unvisited s ↑a := by
  cases next : iterNext s a with
  | top => exact Nat.succ_pos _
  | coe c =>
    obtain ⟨member, above⟩ := iterNext_mem next
    have smaller : t.filter (c < ·) ⊂ s.filter (a < ·) := by
      refine Finset.ssubset_iff_of_subset (fun x held => ?_) |>.mpr ⟨c, ?_, ?_⟩
      · obtain ⟨kept, lt⟩ := Finset.mem_filter.mp held
        exact Finset.mem_filter.mpr ⟨sub kept, above.trans lt⟩
      · exact Finset.mem_filter.mpr ⟨member, above⟩
      · simp
    have fewer := Finset.card_lt_card smaller
    show (t.filter (c < ·)).card + 1 < (s.filter (a < ·)).card + 1
    omega

theorem unvisited_insert_of_lt (below : (↑b : WithTop κ) < it) :
    unvisited (insert b s) it = unvisited s it := by
  cases it with
  | top => rfl
  | coe a =>
    have skipped : ¬ a < b := not_lt.mpr (WithTop.coe_lt_coe.mp below).le
    show ((insert b s).filter (a < ·)).card + 1 = (s.filter (a < ·)).card + 1
    rw [Finset.filter_insert, if_neg skipped]

end Iter

end Contrail
