import Contrail.Base.BitSetSearch
import Mathlib

/-! The two allocators over a `BitSet` of taken positions: `LabelBlock` of
`base/label_block.cc` hands out the labels `first` to `last`, position `pos`
standing for label `first + pos`, and `IndexAllocator` of
`base/index_allocator.cc` hands out the indexes 0 to `max_index`. Both resume
after the position they handed out last and wrap around once. Labels are
`uint32_t`; positions and indexes are `size_t`, here natural numbers. The
mutexes, the reference counts and the block manager are left out. -/
namespace Contrail.Base

open BitSet (test_set test_reset findFirstClear_spec findNextClear_spec)

structure LabelBlock where
  first : UInt32
  last : UInt32
  prevPos : Nat
  usedBitset : BitSet

namespace LabelBlock

def init (first last : UInt32) : LabelBlock := ⟨first, last, npos, ⟨[]⟩⟩

/-- One pass of the loop of `AllocateLabel`: the first clear position, or the
next one after `prev_pos_`, taken if its label lies in the block. -/
def allocatePass (block : LabelBlock) : Option (LabelBlock × UInt32) :=
  let pos := if block.prevPos = npos then block.usedBitset.findFirstClear
    else block.usedBitset.findNextClear block.prevPos
  if block.first.toNat + pos ≤ block.last.toNat then
    some ({ block with usedBitset := block.usedBitset.set pos, prevPos := pos },
      UInt32.ofNat (block.first.toNat + pos))
  else none

/-- The loop of `AllocateLabel` with `passes` passes left; a pass that finds no
label restarts from the first position. -/
def allocateLoop (block : LabelBlock) : Nat → LabelBlock × UInt32
  | 0 => (block, 0)
  | passes + 1 =>
    match block.allocatePass with
    | some result => result
    | none => allocateLoop { block with prevPos := npos } passes

def AllocateLabel (block : LabelBlock) : LabelBlock × UInt32 := allocateLoop block 2

/-- `ReleaseLabel`, `none` when its assertion fails. -/
def ReleaseLabel (block : LabelBlock) (value : UInt32) : Option LabelBlock :=
  if block.first ≤ value ∧ value ≤ block.last then
    some { block with usedBitset := block.usedBitset.reset (value - block.first).toNat }
  else none

/-- The labels of the block whose positions are taken. -/
def allocated (block : LabelBlock) (label : UInt32) : Bool :=
  decide (block.first ≤ label ∧ label ≤ block.last) && block.usedBitset.test (label - block.first).toNat

/-! ## Labels and positions -/

/-- Labels of the block with the same position are the same label. -/
theorem offset_eq_iff {first l label : UInt32} (lFirst : first ≤ l) (labelFirst : first ≤ label) :
    (l - first).toNat = (label - first).toNat ↔ l = label := by
  rw [UInt32.le_iff_toNat_le] at lFirst labelFirst
  rw [UInt32.toNat_sub_of_le _ _ (UInt32.le_iff_toNat_le.mpr lFirst),
    UInt32.toNat_sub_of_le _ _ (UInt32.le_iff_toNat_le.mpr labelFirst), ← UInt32.toNat_inj]
  omega

/-- The label of position `pos` when it lies in the block. -/
theorem toNat_label {first last : UInt32} {pos : Nat} (inside : first.toNat + pos ≤ last.toNat) :
    (UInt32.ofNat (first.toNat + pos)).toNat = first.toNat + pos :=
  UInt32.toNat_ofNat_of_lt' (Nat.lt_of_le_of_lt inside last.toNat_lt)

theorem allocated_reset (block : LabelBlock) (value : UInt32) (valueFirst : block.first ≤ value)
    (l : UInt32) :
    (allocated { block with usedBitset := block.usedBitset.reset (value - block.first).toNat } l) =
      (block.allocated l && l != value) := by
  unfold allocated
  dsimp only
  by_cases inside : block.first ≤ l ∧ l ≤ block.last
  · have same : decide ((l - block.first).toNat = (value - block.first).toNat) = (l == value) :=
      Bool.eq_iff_iff.mpr (by
        simp only [decide_eq_true_eq, beq_iff_eq]
        exact offset_eq_iff inside.1 valueFirst)
    rw [test_reset, same]
    simp [inside, bne]
  · simp [inside]

/-! ## `AllocateLabel` -/

/-- What a pass that takes a position does to the labels. -/
theorem allocatePass_some {block block' : LabelBlock} {label : UInt32} (bounded : block.prevPos ≤ npos)
    (passed : block.allocatePass = some (block', label)) :
    block'.first = block.first ∧ block'.last = block.last ∧ block.first ≤ label ∧
      label ≤ block.last ∧ block.allocated label = false ∧
      ∀ l, block'.allocated l = (block.allocated l || l == label) := by
  unfold allocatePass at passed
  -- the position searched for is clear
  have clear : block.usedBitset.test (if block.prevPos = npos then block.usedBitset.findFirstClear
      else block.usedBitset.findNextClear block.prevPos) = false := by
    split
    · exact (findFirstClear_spec _).1
    · rename_i resumed
      exact (findNextClear_spec _ (Nat.lt_of_le_of_ne bounded resumed)).1.2
  generalize (if block.prevPos = npos then block.usedBitset.findFirstClear
    else block.usedBitset.findNextClear block.prevPos) = pos at passed clear
  dsimp only at passed
  split at passed
  · rename_i inside
    cases passed
    have labelNat := toNat_label inside
    have labelFirst : block.first ≤ UInt32.ofNat (block.first.toNat + pos) := by
      rw [UInt32.le_iff_toNat_le, labelNat]
      omega
    have labelLast : UInt32.ofNat (block.first.toNat + pos) ≤ block.last := by
      rw [UInt32.le_iff_toNat_le, labelNat]
      exact inside
    have position : (UInt32.ofNat (block.first.toNat + pos) - block.first).toNat = pos := by
      rw [UInt32.toNat_sub_of_le _ _ labelFirst, labelNat]
      omega
    refine ⟨rfl, rfl, labelFirst, labelLast, ?_, fun l => ?_⟩
    · unfold allocated
      rw [position, clear]
      simp
    · unfold allocated
      dsimp only
      by_cases within : block.first ≤ l ∧ l ≤ block.last
      · have same : decide ((l - block.first).toNat = pos) = (l == UInt32.ofNat (block.first.toNat + pos)) :=
          Bool.eq_iff_iff.mpr (by
            simp only [decide_eq_true_eq, beq_iff_eq]
            rw [← offset_eq_iff within.1 labelFirst, position])
        rw [test_set, same]
        simp [within]
      · have differs : l ≠ UInt32.ofNat (block.first.toNat + pos) := by
          rintro rfl
          exact within ⟨labelFirst, labelLast⟩
        rw [beq_eq_false_iff_ne.mpr differs]
        simp [within]
  · cases passed

/-- A pass from the first position that finds no label: every label of the
block is taken. -/
theorem allocatePass_none {block : LabelBlock} (failed : block.allocatePass = none)
    (fromFirst : block.prevPos = npos) :
    ∀ l, block.first ≤ l → l ≤ block.last → block.allocated l = true := by
  unfold allocatePass at failed
  rw [if_pos fromFirst] at failed
  dsimp only at failed
  split at failed
  · cases failed
  · rename_i past
    intro l lFirst lLast
    -- the least clear position lies past the block
    have least := findFirstClear_spec block.usedBitset
    unfold allocated
    rw [decide_eq_true ⟨lFirst, lLast⟩, Bool.true_and]
    by_contra clear
    have below := least.2 (Bool.eq_false_iff.mpr clear)
    rw [UInt32.toNat_sub_of_le _ _ lFirst] at below
    rw [UInt32.le_iff_toNat_le] at lFirst lLast
    omega

/-- What `AllocateLabel` promises, for a block whose labels are not 0. -/
structure AllocateResult (block block' : LabelBlock) (label : UInt32) : Prop where
  sameFirst : block'.first = block.first
  sameLast : block'.last = block.last
  taken : ∀ l, block'.allocated l = (block.allocated l || (label != 0 && l == label))
  free : label ≠ 0 → block.first ≤ label ∧ label ≤ block.last ∧ block.allocated label = false
  exhausted : label = 0 → ∀ l, block.first ≤ l → l ≤ block.last → block.allocated l = true

theorem allocateResult_of_pass {block block' : LabelBlock} {label : UInt32} (bounded : block.prevPos ≤ npos)
    (passed : block.allocatePass = some (block', label)) (positive : 0 < block.first) :
    AllocateResult block block' label := by
  obtain ⟨sameFirst, sameLast, labelFirst, labelLast, free, taken⟩ := allocatePass_some bounded passed
  have nonzero : label ≠ 0 := by
    rintro rfl
    exact absurd (Nat.lt_of_lt_of_le positive labelFirst) (Nat.lt_irrefl _)
  refine ⟨sameFirst, sameLast, fun l => ?_, fun _ => ⟨labelFirst, labelLast, free⟩,
    fun zero => absurd zero nonzero⟩
  rw [taken, bne_iff_ne.mpr nonzero, Bool.true_and]

/-- What `AllocateLabel` promises does not depend on where the search resumes. -/
theorem AllocateResult.resumed {block block' : LabelBlock} {label : UInt32} {prevPos : Nat}
    (result : AllocateResult { block with prevPos := prevPos } block' label) :
    AllocateResult block block' label :=
  ⟨result.sameFirst, result.sameLast, result.taken, result.free, result.exhausted⟩

theorem allocateLoop_succ (block : LabelBlock) (passes : Nat) :
    allocateLoop block (passes + 1) =
      match block.allocatePass with
      | some result => result
      | none => allocateLoop { block with prevPos := npos } passes := rfl

theorem AllocateLabel_spec (block : LabelBlock) (positive : 0 < block.first) (bounded : block.prevPos ≤ npos) :
    AllocateResult block block.AllocateLabel.1 block.AllocateLabel.2 := by
  rw [AllocateLabel, allocateLoop_succ]
  cases passed : block.allocatePass with
  | some result => exact allocateResult_of_pass bounded passed positive
  | none =>
    -- the second pass starts from the first position
    dsimp only
    rw [allocateLoop_succ]
    cases passedAgain : ({ block with prevPos := npos } : LabelBlock).allocatePass with
    | some result => exact (allocateResult_of_pass (Nat.le_refl _) passedAgain positive).resumed
    | none =>
      -- both passes failed: nothing is taken and 0 comes back
      have full := allocatePass_none passedAgain rfl
      dsimp only [allocateLoop]
      exact ⟨rfl, rfl, fun l => by simp [allocated], fun nonzero => absurd rfl nonzero, fun _ => full⟩

/-- `AllocateLabel` leaves `prev_pos_` at a position of the block, or at `npos`. -/
theorem AllocateLabel_prevPos (block : LabelBlock) : block.AllocateLabel.1.prevPos ≤ npos := by
  -- a pass that takes a position resumes from it, below `last`
  have ofPass : ∀ {b : LabelBlock} {result : LabelBlock × UInt32}, b.allocatePass = some result →
      result.1.prevPos ≤ npos := by
    intro b result passed
    unfold allocatePass at passed
    generalize (if b.prevPos = npos then b.usedBitset.findFirstClear
      else b.usedBitset.findNextClear b.prevPos) = pos at passed
    dsimp only at passed
    split at passed
    · rename_i inside
      cases passed
      have small := b.last.toNat_lt
      show pos ≤ npos
      unfold npos
      omega
    · cases passed
  rw [AllocateLabel, allocateLoop_succ]
  cases passed : block.allocatePass with
  | some result => exact ofPass passed
  | none =>
    dsimp only
    rw [allocateLoop_succ]
    cases passedAgain : ({ block with prevPos := npos } : LabelBlock).allocatePass with
    | some result => exact ofPass passedAgain
    | none => exact Nat.le_refl _

/-! ## `ReleaseLabel` and runs -/

theorem ReleaseLabel_spec {block block' : LabelBlock} {value : UInt32}
    (released : block.ReleaseLabel value = some block') :
    block'.first = block.first ∧ block'.last = block.last ∧ block'.prevPos = block.prevPos ∧
      ∀ l, block'.allocated l = (block.allocated l && l != value) := by
  unfold ReleaseLabel at released
  split at released
  · rename_i inside
    cases released
    exact ⟨rfl, rfl, rfl, allocated_reset block value inside.1⟩
  · cases released

/-- The labels that a run of calls on the block `init first last` has handed out
and not released: `AllocateLabel` adds the label it returns unless it returns
0, and `ReleaseLabel` is called on a label held. -/
inductive Holds (first last : UInt32) : LabelBlock → (UInt32 → Bool) → Prop where
  | init : Holds first last (init first last) fun _ => false
  | allocate {block : LabelBlock} {held : UInt32 → Bool} :
      Holds first last block held →
      Holds first last block.AllocateLabel.1
        fun l => held l || (block.AllocateLabel.2 != 0 && l == block.AllocateLabel.2)
  | release {block block' : LabelBlock} {held : UInt32 → Bool} {value : UInt32} :
      Holds first last block held → held value = true → block.ReleaseLabel value = some block' →
      Holds first last block' fun l => held l && l != value

/-- Along every run the taken positions are the labels held. -/
theorem Holds.allocated_eq {first last : UInt32} {block : LabelBlock} {held : UInt32 → Bool}
    (positive : 0 < first) (holds : Holds first last block held) :
    block.first = first ∧ block.last = last ∧ (∀ l, block.allocated l = held l) ∧ block.prevPos ≤ npos := by
  induction holds with
  | init => exact ⟨rfl, rfl, fun l => by simp [allocated, LabelBlock.init, BitSet.test], Nat.le_refl _⟩
  | allocate _ ih =>
    obtain ⟨sameFirst, sameLast, same, bounded⟩ := ih
    have result := AllocateLabel_spec _ (sameFirst ▸ positive) bounded
    exact ⟨result.sameFirst.trans sameFirst, result.sameLast.trans sameLast,
      fun l => by rw [result.taken, same], AllocateLabel_prevPos _⟩
  | release _ _ released ih =>
    obtain ⟨sameFirst, sameLast, same, bounded⟩ := ih
    obtain ⟨first', last', resumes, taken⟩ := ReleaseLabel_spec released
    exact ⟨first'.trans sameFirst, last'.trans sameLast, fun l => by rw [taken, same], resumes ▸ bounded⟩

end LabelBlock

structure IndexAllocator where
  bitset : BitSet
  maxIndex : Nat
  lastIndex : Nat

namespace IndexAllocator

def init (maxIndex : Nat) : IndexAllocator := ⟨⟨[]⟩, maxIndex, npos⟩

/-- `AllocIndex`: the next clear index after `last_index_`, or the first one,
`npos` past `max_index`. -/
def AllocIndex (a : IndexAllocator) : IndexAllocator × Nat :=
  let index :=
    if a.lastIndex = npos then a.bitset.findFirstClear
    else
      let next := a.bitset.findNextClear a.lastIndex
      if next > a.maxIndex then a.bitset.findFirstClear else next
  let index := if index > a.maxIndex then npos else index
  ({ a with bitset := if index ≠ npos then a.bitset.set index else a.bitset, lastIndex := index },
    index)

/-- `FreeIndex`, `none` when its assertion fails. -/
def FreeIndex (a : IndexAllocator) (index : Nat) : Option IndexAllocator :=
  if index ≤ a.maxIndex then some { a with bitset := a.bitset.reset index } else none

def NoneIndexSet (a : IndexAllocator) : Bool := a.bitset.none

def AnyIndexSet (a : IndexAllocator) : Bool := a.bitset.any

/-- What `AllocIndex` promises: an index other than `npos` was free and is now
taken; `npos` takes nothing and, when `max_index` is below `npos`, comes back
only with every index up to `max_index` taken. -/
structure AllocResult (a a' : IndexAllocator) (index : Nat) : Prop where
  sameMax : a'.maxIndex = a.maxIndex
  taken : ∀ i, a'.bitset.test i = (a.bitset.test i || (index != npos && i == index))
  free : index ≠ npos → index ≤ a.maxIndex ∧ a.bitset.test index = false
  exhausted : index = npos → a.maxIndex < npos → ∀ i ≤ a.maxIndex, a.bitset.test i = true

/-- The candidate of `AllocIndex` before the `max_index` check: clear when it
is in range, and past the range only when every index in it is taken. -/
theorem candidate_spec (a : IndexAllocator) (bounded : a.lastIndex ≤ npos) :
    let index := if a.lastIndex = npos then a.bitset.findFirstClear
      else if a.bitset.findNextClear a.lastIndex > a.maxIndex then a.bitset.findFirstClear
      else a.bitset.findNextClear a.lastIndex
    (index ≤ a.maxIndex → a.bitset.test index = false) ∧
      (a.maxIndex < index → ∀ i ≤ a.maxIndex, a.bitset.test i = true) := by
  -- from the first clear index, both hold at once
  have fromFirst : (a.bitset.findFirstClear ≤ a.maxIndex → a.bitset.test a.bitset.findFirstClear = false) ∧
      (a.maxIndex < a.bitset.findFirstClear → ∀ i ≤ a.maxIndex, a.bitset.test i = true) := by
    have least := findFirstClear_spec a.bitset
    refine ⟨fun _ => least.1, fun past i inside => ?_⟩
    by_contra clear
    have atLeast := least.2 (Bool.eq_false_iff.mpr clear)
    omega
  dsimp only
  split
  · exact fromFirst
  · split
    · exact fromFirst
    · rename_i resumed inRange
      exact ⟨fun _ => (findNextClear_spec _ (Nat.lt_of_le_of_ne bounded resumed)).1.2,
        fun past => absurd past inRange⟩

theorem AllocIndex_spec (a : IndexAllocator) (bounded : a.lastIndex ≤ npos) :
    AllocResult a a.AllocIndex.1 a.AllocIndex.2 := by
  obtain ⟨clear, full⟩ := candidate_spec a bounded
  unfold AllocIndex
  dsimp only at clear full ⊢
  generalize (if a.lastIndex = npos then a.bitset.findFirstClear
    else if a.bitset.findNextClear a.lastIndex > a.maxIndex then a.bitset.findFirstClear
    else a.bitset.findNextClear a.lastIndex) = index at clear full ⊢
  split
  · -- past `max_index`: `npos`, nothing taken
    rename_i past
    refine ⟨rfl, fun i => by simp, fun nonzero => absurd rfl nonzero, fun _ _ => full past⟩
  · rename_i inRange
    by_cases isNpos : index = npos
    · -- `npos` itself within `max_index`: nothing taken either
      subst isNpos
      exact ⟨rfl, fun i => by simp, fun nonzero => absurd rfl nonzero,
        fun _ fits => absurd fits (by omega)⟩
    · refine ⟨rfl, fun i => ?_, fun _ => ⟨by omega, clear (by omega)⟩, fun npos => absurd npos isNpos⟩
      rw [if_pos isNpos, test_set, bne_iff_ne.mpr isNpos, Bool.true_and]
      by_cases same : i = index <;> simp [same]

/-- `AllocIndex` leaves `last_index_` at an index up to `max_index`, or at `npos`. -/
theorem AllocIndex_lastIndex (a : IndexAllocator) (fits : a.maxIndex < npos) :
    a.AllocIndex.1.lastIndex ≤ npos := by
  unfold AllocIndex
  dsimp only
  split_ifs <;> omega

theorem FreeIndex_spec {a a' : IndexAllocator} {index : Nat} (freed : a.FreeIndex index = some a') :
    a'.maxIndex = a.maxIndex ∧ a'.lastIndex = a.lastIndex ∧
      ∀ i, a'.bitset.test i = (a.bitset.test i && i != index) := by
  unfold FreeIndex at freed
  split at freed
  · cases freed
    refine ⟨rfl, rfl, fun i => ?_⟩
    rw [test_reset]
    by_cases same : i = index <;> simp [same]
  · cases freed

/-- The indexes that a run of calls on `init max_index` has handed out and not
freed: `AllocIndex` adds the index it returns unless it returns `npos`, and
`FreeIndex` is called on an index held. -/
inductive Holds (maxIndex : Nat) : IndexAllocator → (Nat → Bool) → Prop where
  | init : Holds maxIndex (init maxIndex) fun _ => false
  | alloc {a : IndexAllocator} {held : Nat → Bool} :
      Holds maxIndex a held →
      Holds maxIndex a.AllocIndex.1 fun i => held i || (a.AllocIndex.2 != npos && i == a.AllocIndex.2)
  | free {a a' : IndexAllocator} {held : Nat → Bool} {index : Nat} :
      Holds maxIndex a held → held index = true → a.FreeIndex index = some a' →
      Holds maxIndex a' fun i => held i && i != index

/-- Along every run the taken indexes are the indexes held. -/
theorem Holds.test_eq {maxIndex : Nat} {a : IndexAllocator} {held : Nat → Bool} (fits : maxIndex < npos)
    (holds : Holds maxIndex a held) :
    a.maxIndex = maxIndex ∧ (∀ i, a.bitset.test i = held i) ∧ a.lastIndex ≤ npos := by
  induction holds with
  | init => exact ⟨rfl, fun i => BitSet.test_clear ⟨[]⟩ i, Nat.le_refl _⟩
  | @alloc a held _ ih =>
    obtain ⟨sameMax, same, bounded⟩ := ih
    have result := AllocIndex_spec a bounded
    exact ⟨result.sameMax.trans sameMax, fun i => by rw [result.taken, same],
      AllocIndex_lastIndex a (sameMax ▸ fits)⟩
  | free _ _ freed ih =>
    obtain ⟨sameMax, same, bounded⟩ := ih
    obtain ⟨max', resumes, taken⟩ := FreeIndex_spec freed
    exact ⟨max'.trans sameMax, fun i => by rw [taken, same], resumes ▸ bounded⟩

end IndexAllocator

theorem allocation_unique_complete :
    (∀ (first last : UInt32) (block : LabelBlock) (held : UInt32 → Bool),
      0 < first → LabelBlock.Holds first last block held →
      ((∃ l, first ≤ l ∧ l ≤ last ∧ held l = false) →
        first ≤ block.AllocateLabel.2 ∧ block.AllocateLabel.2 ≤ last ∧
          held block.AllocateLabel.2 = false) ∧
      (block.AllocateLabel.2 = 0 → ∀ l, first ≤ l → l ≤ last → held l = true)) ∧
    (∀ (maxIndex : Nat) (a : IndexAllocator) (held : Nat → Bool),
      maxIndex < npos → IndexAllocator.Holds maxIndex a held →
      ((∃ i ≤ maxIndex, held i = false) → a.AllocIndex.2 ≤ maxIndex ∧ held a.AllocIndex.2 = false) ∧
      (a.AllocIndex.2 = npos → ∀ i ≤ maxIndex, held i = true)) := by
  constructor
  · intro first last block held positive holds
    obtain ⟨rfl, rfl, same, bounded⟩ := holds.allocated_eq positive
    have result := LabelBlock.AllocateLabel_spec block positive bounded
    constructor
    · rintro ⟨l, lFirst, lLast, free⟩
      -- a free label rules out 0
      have nonzero : block.AllocateLabel.2 ≠ 0 := by
        intro zero
        have taken := result.exhausted zero l lFirst lLast
        rw [same, free] at taken
        cases taken
      obtain ⟨labelFirst, labelLast, labelFree⟩ := result.free nonzero
      exact ⟨labelFirst, labelLast, (same _).symm.trans labelFree⟩
    · intro zero l lFirst lLast
      rw [← same]
      exact result.exhausted zero l lFirst lLast
  · intro maxIndex a held fits holds
    obtain ⟨rfl, same, bounded⟩ := holds.test_eq fits
    have result := IndexAllocator.AllocIndex_spec a bounded
    constructor
    · rintro ⟨i, inside, free⟩
      -- a free index rules out `npos`
      have notNpos : a.AllocIndex.2 ≠ npos := by
        intro isNpos
        have taken := result.exhausted isNpos fits i inside
        rw [same, free] at taken
        cases taken
      obtain ⟨inRange, clear⟩ := result.free notNpos
      exact ⟨inRange, (same _).symm.trans clear⟩
    · intro isNpos i inside
      rw [← same]
      exact result.exhausted isNpos fits i inside

end Contrail.Base
