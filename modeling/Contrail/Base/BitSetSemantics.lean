import Contrail.Base.BitSet
import Mathlib

/-! What the operations of `BitSet` do to its positions, block by block, and
that each one leaves the vector without a zero block at the end, the invariant
`check_invariants` asserts and `operator==`, `empty` and `find_last` rely on. -/
namespace Contrail.Base

namespace BitSet

open WordBits BitScan

/-- `check_invariants`: the last block is not zero. -/
def Valid (b : BitSet) : Prop := NoTrailingZero b.blocks

instance (b : BitSet) : Decidable b.Valid := inferInstanceAs (Decidable (NoTrailingZero b.blocks))

theorem test_eq_bit (b : BitSet) (pos : Nat) : b.test pos = bit b.blocks pos := by
  unfold test
  dsimp only
  split
  · rw [and_one_shiftLeft_ne_zero _ (show blockOffset pos < 64 from Nat.mod_lt pos (by decide))]
    rfl
  · rename_i past
    exact (bit_of_length_le (by decide) (by unfold blockIndex at past; omega)).symm

/-- Two vectors with the same blocks have the same positions. -/
theorem test_congr {left right : BitSet} (same : ∀ idx, word left.blocks idx = word right.blocks idx)
    (pos : Nat) : left.test pos = right.test pos := by
  rw [test_eq_bit, test_eq_bit, bit_congr same]

/-! ## `compact` -/

theorem compactFrom_eq (blocks : List (BitVec 64)) {idx : Nat} (inside : idx < blocks.length) :
    compactFrom blocks idx = (blocks.take (idx + 1)).rdropWhile (· == 0) := by
  induction idx with
  | zero =>
    have first : blocks.take 1 = [] ++ [blocks[0]] := by
      rw [List.take_one, List.head?_eq_getElem?, List.getElem?_eq_getElem inside]
      rfl
    have cut : resize blocks 1 = [blocks[0]] := by
      simp [resize, Nat.sub_eq_zero_of_le inside, first]
    have getFirst : blocks.getD 0 0 = blocks[0] := word_eq_getElem inside
    rw [compactFrom, getFirst, first, List.rdropWhile_concat]
    by_cases zero : blocks[0] = 0
    · rw [if_neg (not_not.mpr zero), if_pos (by simp [zero])]
      rfl
    · rw [if_pos zero, if_neg (by simpa using zero), cut]
      rfl
  | succ idx ih =>
    have next : blocks.take (idx + 2) = blocks.take (idx + 1) ++ [blocks[idx + 1]] := by
      rw [List.take_add_one, List.getElem?_eq_getElem inside]
      rfl
    have cut : resize blocks (idx + 2) = blocks.take (idx + 2) := by
      simp [resize, Nat.sub_eq_zero_of_le inside]
    have getNext : blocks.getD (idx + 1) 0 = blocks[idx + 1] := word_eq_getElem inside
    rw [compactFrom, getNext, next, List.rdropWhile_concat]
    by_cases zero : blocks[idx + 1] = 0
    · rw [if_neg (not_not.mpr zero), if_pos (by simp [zero]), ih (by omega)]
    · rw [if_pos zero, if_neg (by simpa using zero), cut, next]

/-- `compact` cuts off the zero blocks at the end. -/
theorem compact_blocks (b : BitSet) : (compact b).blocks = b.blocks.rdropWhile (· == 0) := by
  unfold compact
  split
  · rename_i empty
    rw [List.length_eq_zero_iff.mp empty]
    rfl
  · rw [compactFrom_eq _ (by omega), Nat.sub_add_cancel (by omega), List.take_length]

theorem word_compact (b : BitSet) (idx : Nat) : word (compact b).blocks idx = word b.blocks idx := by
  rw [compact_blocks, word_rdropWhile_zero]

theorem valid_compact (b : BitSet) : (compact b).Valid := by
  unfold Valid
  rw [compact_blocks]
  exact noTrailingZero_rdropWhile _


/-! ## Setting and resetting one bit -/

theorem blockOffset_lt (pos : Nat) : blockOffset pos < 64 := Nat.mod_lt pos (by decide)

/-- Two positions are equal when their blocks and offsets are. -/
theorem eq_iff_block (i pos : Nat) :
    i = pos ↔ i / 64 = blockIndex pos ∧ i % 64 = blockOffset pos := by
  unfold blockIndex blockOffset
  omega

theorem set_blocks_length (b : BitSet) (pos : Nat) :
    (b.set pos).blocks.length = max b.blocks.length (blockIndex pos + 1) := by
  unfold set
  dsimp only
  split <;> simp [List.length_modify] <;> omega

theorem word_set_blocks (b : BitSet) (pos idx : Nat) :
    word (b.set pos).blocks idx =
      if idx = blockIndex pos then word b.blocks idx ||| 1#64 <<< blockOffset pos
      else word b.blocks idx := by
  unfold set
  dsimp only
  -- growing the vector pads it with zero blocks, which read as the missing ones
  have grown : ∀ j, word (if blockIndex pos ≥ b.blocks.length then
      resize b.blocks (blockIndex pos + 1) else b.blocks) j = word b.blocks j := by
    intro j
    split
    · exact word_resize_of_le (by omega) j
    · rfl
  have inside : blockIndex pos < (if blockIndex pos ≥ b.blocks.length then
      resize b.blocks (blockIndex pos + 1) else b.blocks).length := by
    split
    · simp
    · omega
  rw [WordBits.word_modify, grown, grown]
  by_cases same : idx = blockIndex pos
  · rw [if_pos ⟨same, inside⟩, if_pos same, same]
  · rw [if_neg (fun both => same both.1), if_neg same]

theorem test_set (b : BitSet) (pos i : Nat) : (b.set pos).test i = (b.test i || decide (i = pos)) := by
  rw [test_eq_bit, test_eq_bit, bit, bit, word_set_blocks]
  by_cases same : i / 64 = blockIndex pos
  · rw [if_pos same, BitVec.getLsbD_or, getLsbD_one_shiftLeft (blockOffset_lt pos)]
    have offsetIff : blockOffset pos = i % 64 ↔ i = pos := by
      rw [eq_iff_block i pos]
      exact ⟨fun equal => ⟨same, equal.symm⟩, fun both => both.2.symm⟩
    rw [decide_eq_decide.mpr offsetIff]
  · rw [if_neg same]
    have differs : ¬ i = pos := fun both => same ((eq_iff_block i pos).mp both).1
    simp [differs]

theorem valid_set {b : BitSet} (valid : b.Valid) (pos : Nat) : (b.set pos).Valid := by
  unfold Valid
  rw [noTrailingZero_iff, word_set_blocks, set_blocks_length]
  right
  split
  · -- the last block holds `pos`
    intro zero
    have cleared := congrArg (fun v : BitVec 64 => v.getLsbD (blockOffset pos)) zero
    simp [getLsbD_one_shiftLeft (blockOffset_lt pos)] at cleared
  · -- the last block is the old last block
    rename_i other
    rcases noTrailingZero_iff.mp valid with empty | nonzero
    · rw [empty] at other
      simp at other
    · rwa [Nat.max_eq_left (by omega)]

theorem word_reset_blocks (b : BitSet) (pos idx : Nat) :
    word (b.reset pos).blocks idx =
      if idx = blockIndex pos then word b.blocks idx &&& ~~~(1#64 <<< blockOffset pos)
      else word b.blocks idx := by
  unfold reset
  dsimp only
  split
  · rename_i inside
    rw [word_compact, WordBits.word_modify]
    by_cases same : idx = blockIndex pos
    · rw [if_pos ⟨same, inside⟩, if_pos same, same]
    · rw [if_neg (fun both => same both.1), if_neg same]
  · rename_i past
    split
    · rename_i same
      rw [same, word_of_length_le (by omega)]
      simp
    · rfl

theorem test_reset (b : BitSet) (pos i : Nat) :
    (b.reset pos).test i = (b.test i && !decide (i = pos)) := by
  rw [test_eq_bit, test_eq_bit, bit, bit, word_reset_blocks]
  by_cases same : i / 64 = blockIndex pos
  · rw [if_pos same, BitVec.getLsbD_and, BitVec.getLsbD_not, getLsbD_one_shiftLeft (blockOffset_lt pos)]
    have offset : i % 64 < 64 := Nat.mod_lt i (by decide)
    have offsetIff : blockOffset pos = i % 64 ↔ i = pos := by
      rw [eq_iff_block i pos]
      exact ⟨fun equal => ⟨same, equal.symm⟩, fun both => both.2.symm⟩
    simp [offset, offsetIff]
  · rw [if_neg same]
    have differs : ¬ i = pos := fun both => same ((eq_iff_block i pos).mp both).1
    simp [differs]

theorem valid_reset {b : BitSet} (valid : b.Valid) (pos : Nat) : (b.reset pos).Valid := by
  unfold reset
  dsimp only
  split
  · exact valid_compact _
  · exact valid

theorem test_clear (b : BitSet) (i : Nat) : b.clear.test i = false := by
  rw [test_eq_bit]
  simp [clear, bit]

theorem valid_clear (b : BitSet) : b.clear.Valid := noTrailingZero_nil

/-! ## Operations on two vectors -/

/-- A vector whose blocks combine the blocks of two others by `f` tests the
positions that `g` makes of theirs. -/
theorem test_of_words {result left right : BitSet} {f : BitVec 64 → BitVec 64 → BitVec 64}
    {g : Bool → Bool → Bool}
    (words : ∀ idx, word result.blocks idx = f (word left.blocks idx) (word right.blocks idx))
    (bits : ∀ x y j, j < 64 → (f x y).getLsbD j = g (x.getLsbD j) (y.getLsbD j)) (i : Nat) :
    result.test i = g (left.test i) (right.test i) := by
  rw [test_eq_bit, test_eq_bit, test_eq_bit, bit, bit, bit, words]
  exact bits _ _ _ (Nat.mod_lt i (by decide))

theorem or_blocks_length (b rhs : BitSet) :
    (b.or rhs).blocks.length = max b.blocks.length rhs.blocks.length := by
  simp only [or, List.length_append, List.length_zipWith, List.length_drop]
  omega

theorem word_or_blocks (b rhs : BitSet) (idx : Nat) :
    word (b.or rhs).blocks idx = word b.blocks idx ||| word rhs.blocks idx :=
  word_zipWith_append_drops _ _ _ (fun _ => BitVec.or_zero) (fun _ => BitVec.zero_or) idx

theorem test_or (b rhs : BitSet) (i : Nat) : (b.or rhs).test i = (b.test i || rhs.test i) :=
  test_of_words (word_or_blocks b rhs) (fun _ _ _ _ => BitVec.getLsbD_or) i

theorem valid_or {b rhs : BitSet} (valid : b.Valid) (valid' : rhs.Valid) : (b.or rhs).Valid :=
  noTrailingZero_of_or valid valid' (or_blocks_length b rhs) (word_or_blocks b rhs)

theorem orAssign_blocks_length (b rhs : BitSet) :
    (b.orAssign rhs).blocks.length = max b.blocks.length rhs.blocks.length := by
  unfold orAssign
  dsimp only
  split <;> simp [List.length_zipWith] <;> omega

theorem word_orAssign_blocks (b rhs : BitSet) (idx : Nat) :
    word (b.orAssign rhs).blocks idx = word b.blocks idx ||| word rhs.blocks idx := by
  unfold orAssign
  dsimp only
  -- `b` grown to the length of `rhs`, which reads as `b`
  have grownWords : ∀ j, word (if b.blocks.length < rhs.blocks.length then
      resize b.blocks rhs.blocks.length else b.blocks) j = word b.blocks j := by
    intro j
    split
    · exact word_resize_of_le (by omega) j
    · rfl
  have longer : rhs.blocks.length ≤ (if b.blocks.length < rhs.blocks.length then
      resize b.blocks rhs.blocks.length else b.blocks).length := by
    split
    · simp
    · omega
  generalize (if b.blocks.length < rhs.blocks.length then resize b.blocks rhs.blocks.length
    else b.blocks) = grown at grownWords longer
  rw [word_zipWith_append_drop _ _ _ (fun _ => BitVec.or_zero) (Nat.min_eq_right longer),
    grownWords]
  split
  · rfl
  · rename_i past
    rw [← grownWords, word_of_length_le (by omega), word_of_length_le (show rhs.blocks.length ≤ idx by omega)]
    simp

theorem test_orAssign (b rhs : BitSet) (i : Nat) :
    (b.orAssign rhs).test i = (b.test i || rhs.test i) :=
  test_of_words (word_orAssign_blocks b rhs) (fun _ _ _ _ => BitVec.getLsbD_or) i

theorem valid_orAssign {b rhs : BitSet} (valid : b.Valid) (valid' : rhs.Valid) :
    (b.orAssign rhs).Valid :=
  noTrailingZero_of_or valid valid' (orAssign_blocks_length b rhs) (word_orAssign_blocks b rhs)

theorem word_andAssign_blocks (b rhs : BitSet) (idx : Nat) :
    word (b.andAssign rhs).blocks idx = word b.blocks idx &&& word rhs.blocks idx := by
  unfold andAssign
  rw [word_compact]
  exact word_zipWith_append_zeros _ _ _ (fun _ => BitVec.zero_and) (fun _ => BitVec.and_zero) _ idx

theorem test_andAssign (b rhs : BitSet) (i : Nat) :
    (b.andAssign rhs).test i = (b.test i && rhs.test i) :=
  test_of_words (word_andAssign_blocks b rhs) (fun _ _ _ _ => BitVec.getLsbD_and) i

theorem valid_andAssign (b rhs : BitSet) : (b.andAssign rhs).Valid := valid_compact _

theorem word_andNotBlocks (lhs rhs : List (BitVec 64)) (idx : Nat) :
    word (andNotBlocks lhs rhs) idx = word lhs idx &&& ~~~word rhs idx := by
  unfold andNotBlocks
  rw [word_zipWith_append_drop _ _ _ (fun x => by
    rw [show (~~~0 : BitVec 64) = BitVec.allOnes 64 from BitVec.not_zero, BitVec.and_allOnes]) rfl]
  split
  · rfl
  · rw [word_of_length_le (by omega)]
    simp

/-- The bits of `x &&& ~~~y` inside a block. -/
theorem getLsbD_and_not (x y : BitVec 64) {j : Nat} (inside : j < 64) :
    (x &&& ~~~y).getLsbD j = (x.getLsbD j && !y.getLsbD j) := by
  simp [inside]

theorem test_Reset (b rhs : BitSet) (i : Nat) : (b.Reset rhs).test i = (b.test i && !rhs.test i) :=
  test_of_words (g := fun p q => p && !q)
    (fun idx => (word_compact _ idx).trans (word_andNotBlocks b.blocks rhs.blocks idx))
    (fun x y _ inside => getLsbD_and_not x y inside) i

theorem valid_Reset (b rhs : BitSet) : (b.Reset rhs).Valid := valid_compact _

theorem test_BuildComplement (lhs rhs : BitSet) (i : Nat) :
    (lhs.BuildComplement rhs).test i = (lhs.test i && !rhs.test i) :=
  test_of_words (g := fun p q => p && !q)
    (fun idx => (word_compact _ idx).trans (word_andNotBlocks lhs.blocks rhs.blocks idx))
    (fun x y _ inside => getLsbD_and_not x y inside) i

theorem valid_BuildComplement (lhs rhs : BitSet) : (lhs.BuildComplement rhs).Valid := valid_compact _

/-! ## `BuildIntersection` -/

/-- What the reverse loop of `BuildIntersection` has built once the blocks from
`next` up are done: their intersections, zeros below, no zero block at the end. -/
structure IntersectInvariant (lhs rhs blocks : List (BitVec 64)) (next : Nat) : Prop where
  done : ∀ idx, next ≤ idx → word blocks idx = word lhs idx &&& word rhs idx
  pending : ∀ idx, idx < next → word blocks idx = 0
  clean : NoTrailingZero blocks

theorem intersectInvariant_start (lhs rhs : List (BitVec 64)) :
    IntersectInvariant lhs rhs [] (min lhs.length rhs.length) where
  done idx past := by
    rw [word_nil]
    rcases Nat.le_total lhs.length rhs.length with shorter | shorter
    · rw [word_of_length_le (show lhs.length ≤ idx by omega)]
      simp
    · rw [word_of_length_le (show rhs.length ≤ idx by omega)]
      simp
  pending idx _ := word_nil idx
  clean := noTrailingZero_nil

/-- A vector with a block at or past `next` has it below its length, when the
blocks below `next` are zero and the last one is not. -/
theorem lt_length_of_pending {lhs rhs blocks : List (BitVec 64)} {next : Nat}
    (inv : IntersectInvariant lhs rhs blocks next) (nonempty : blocks ≠ []) : next < blocks.length := by
  rcases noTrailingZero_iff.mp inv.clean with empty | last
  · exact absurd empty nonempty
  · by_contra short
    exact last (inv.pending _ (by have := List.length_pos_of_ne_nil nonempty; omega))

theorem intersectInvariant_step {lhs rhs blocks : List (BitVec 64)} {idx : Nat}
    (inv : IntersectInvariant lhs rhs blocks (idx + 1)) :
    IntersectInvariant lhs rhs (intersectStep lhs rhs blocks idx) idx := by
  unfold intersectStep
  dsimp only
  split
  · rename_i nonzero
    have grownWords : ∀ j, word (if blocks.length = 0 then resize blocks (idx + 1) else blocks) j =
        word blocks j := by
      intro j
      split
      · exact word_resize_of_le (by omega) j
      · rfl
    -- an empty vector is grown to `idx + 1` blocks; any other is longer already
    have grownLength : (if blocks.length = 0 then resize blocks (idx + 1) else blocks).length =
        if blocks = [] then idx + 1 else blocks.length := by
      by_cases empty : blocks = []
      · simp [empty]
      · rw [if_neg (by simpa using empty), if_neg empty]
    generalize (if blocks.length = 0 then resize blocks (idx + 1) else blocks) = grown
      at grownWords grownLength
    have inside : idx < grown.length := by
      rw [grownLength]
      split
      · omega
      · rename_i nonempty
        have := lt_length_of_pending inv nonempty
        omega
    have words : ∀ j, word (grown.set idx (lhs.getD idx 0 &&& rhs.getD idx 0)) j =
        if j = idx then word lhs idx &&& word rhs idx else word blocks j := by
      intro j
      rw [WordBits.word_set, grownWords]
      by_cases same : j = idx
      · rw [if_pos ⟨same, inside⟩, if_pos same]
        rfl
      · rw [if_neg (fun both => same both.1), if_neg same]
    constructor
    · intro j atLeast
      rw [words]
      split
      · rename_i same
        rw [same]
      · exact inv.done j (by omega)
    · intro j below
      rw [words, if_neg (by omega)]
      exact inv.pending j (by omega)
    · rw [noTrailingZero_iff, List.length_set, words]
      right
      by_cases empty : blocks = []
      · rw [if_pos (by rw [grownLength, if_pos empty]; omega)]
        exact nonzero
      · have longer := lt_length_of_pending inv empty
        rw [grownLength, if_neg empty, if_neg (by omega)]
        rcases noTrailingZero_iff.mp inv.clean with stillEmpty | last
        · exact absurd stillEmpty empty
        · exact last
  · rename_i zero
    constructor
    · intro j atLeast
      by_cases same : j = idx
      · rw [same, inv.pending idx (by omega)]
        exact (not_not.mp zero).symm
      · exact inv.done j (by omega)
    · intro j below
      exact inv.pending j (by omega)
    · exact inv.clean

/-- The loop from `k` down to 1 keeps the invariant. -/
theorem intersectInvariant_intersectDown {lhs rhs blocks : List (BitVec 64)} {k : Nat}
    (inv : IntersectInvariant lhs rhs blocks (k + 1)) :
    IntersectInvariant lhs rhs (intersectDown lhs rhs blocks k) 1 := by
  induction k generalizing blocks with
  | zero => exact inv
  | succ k ih => exact ih (intersectInvariant_step inv)

theorem intersectInvariant_BuildIntersection (lhs rhs : BitSet) :
    IntersectInvariant lhs.blocks rhs.blocks (lhs.BuildIntersection rhs).blocks 0 := by
  have start := intersectInvariant_start lhs.blocks rhs.blocks
  unfold BuildIntersection
  dsimp only
  split
  · rename_i empty
    rwa [empty] at start
  · rename_i nonempty
    rw [← Nat.sub_add_cancel (Nat.pos_of_ne_zero nonempty)] at start
    exact intersectInvariant_step (intersectInvariant_intersectDown start)

theorem test_BuildIntersection (lhs rhs : BitSet) (i : Nat) :
    (lhs.BuildIntersection rhs).test i = (lhs.test i && rhs.test i) :=
  test_of_words (fun idx => (intersectInvariant_BuildIntersection lhs rhs).done idx (Nat.zero_le idx))
    (fun _ _ _ _ => BitVec.getLsbD_and) i

theorem valid_BuildIntersection (lhs rhs : BitSet) : (lhs.BuildIntersection rhs).Valid :=
  (intersectInvariant_BuildIntersection lhs rhs).clean

/-! ## `FromString` -/

/-- The loop from `k` down to 1 sets the positions `1` to `k` that hold a `'1'`. -/
theorem test_fromStringDown (str : List Char) (b : BitSet) (k i : Nat) :
    (fromStringDown str b k).test i =
      (b.test i || decide (1 ≤ i ∧ i ≤ k ∧ str.getD i '0' = '1')) := by
  induction k generalizing b with
  | zero =>
    simp [fromStringDown]
    omega
  | succ k ih =>
    rw [fromStringDown, ih]
    by_cases same : i = k + 1
    · subst same
      have above : ¬ k + 1 ≤ k := by omega
      split
      · rename_i one
        rw [test_set, one]
        simp
      · rename_i notOne
        simp only [notOne, above, and_false, decide_false, Bool.or_false]
    · -- position `k + 1` is not `i`, so setting it leaves `i` as it was
      have unchanged : (if str.getD (k + 1) '0' = '1' then b.set (k + 1) else b).test i = b.test i := by
        split
        · simp [test_set, same]
        · rfl
      rw [unchanged]
      congr 1
      exact decide_eq_decide.mpr
        ⟨fun ⟨low, high, isOne⟩ => ⟨low, by omega, isOne⟩,
          fun ⟨low, high, isOne⟩ => ⟨low, by omega, isOne⟩⟩

theorem valid_fromStringDown (str : List Char) {b : BitSet} (valid : b.Valid) (k : Nat) :
    (fromStringDown str b k).Valid := by
  induction k generalizing b with
  | zero => exact valid
  | succ k ih =>
    apply ih
    split
    · exact valid_set valid _
    · exact valid

/-- `FromString` sets exactly the positions that hold a `'1'`. -/
theorem test_FromString (str : List Char) (i : Nat) :
    (FromString str).test i = decide (str.getD i '0' = '1') := by
  unfold FromString
  split
  · rename_i empty
    rw [List.length_eq_zero_iff.mp empty]
    simp [test]
  · rename_i nonempty
    dsimp only
    -- past the end of the string `getD` reads `'0'`
    have bound : str.getD i '0' = '1' → i ≤ str.length - 1 := by
      intro isOne
      by_contra past
      rw [List.getD_eq_default _ _ (by omega)] at isOne
      exact absurd isOne (by decide)
    have empty : (⟨[]⟩ : BitSet).test i = false := by simp [test]
    split
    · rename_i first
      rw [test_set, test_fromStringDown, empty, Bool.false_or]
      by_cases zero : i = 0
      · subst zero
        rw [first]
        simp
      · simp only [zero, decide_false, Bool.or_false]
        apply decide_eq_decide.mpr
        constructor
        · exact fun ⟨_, _, isOne⟩ => isOne
        · exact fun isOne => ⟨by omega, bound isOne, isOne⟩
    · rename_i first
      rw [test_fromStringDown, empty, Bool.false_or]
      apply decide_eq_decide.mpr
      constructor
      · exact fun ⟨_, _, isOne⟩ => isOne
      · intro isOne
        have positive : i ≠ 0 := by
          rintro rfl
          exact first isOne
        exact ⟨by omega, bound isOne, isOne⟩

theorem valid_FromString (str : List Char) : (FromString str).Valid := by
  unfold FromString
  split
  · exact noTrailingZero_nil
  · dsimp only
    have loop := valid_fromStringDown str (b := ⟨[]⟩) noTrailingZero_nil (str.length - 1)
    split
    · exact valid_set loop 0
    · exact loop

/-! ## What the queries say about the positions -/

theorem test_bitPosition (b : BitSet) (idx : Nat) {j : Nat} (inside : j < 64) :
    b.test (bitPosition idx j) = (word b.blocks idx).getLsbD j := by
  rw [test_eq_bit, bitPosition, bit_word (by decide) _ _ inside]

/-- A statement about every position of two vectors, block by block. -/
theorem forall_test_iff {left right : BitSet} {P : Bool → Bool → Prop} :
    (∀ i, P (left.test i) (right.test i)) ↔
      ∀ idx j, j < 64 → P ((word left.blocks idx).getLsbD j) ((word right.blocks idx).getLsbD j) := by
  constructor
  · intro all idx j inside
    have atPosition := all (bitPosition idx j)
    rwa [test_bitPosition _ _ inside, test_bitPosition _ _ inside] at atPosition
  · intro all i
    rw [test_eq_bit, test_eq_bit]
    exact all (i / 64) (i % 64) (Nat.mod_lt i (by decide))

/-- A statement about some position of two vectors, block by block. -/
theorem exists_test_iff {left right : BitSet} {P : Bool → Bool → Prop} :
    (∃ i, P (left.test i) (right.test i)) ↔
      ∃ idx j, j < 64 ∧ P ((word left.blocks idx).getLsbD j) ((word right.blocks idx).getLsbD j) := by
  constructor
  · rintro ⟨i, holds⟩
    rw [test_eq_bit, test_eq_bit] at holds
    exact ⟨i / 64, i % 64, Nat.mod_lt i (by decide), holds⟩
  · rintro ⟨idx, j, inside, holds⟩
    refine ⟨bitPosition idx j, ?_⟩
    rwa [test_bitPosition _ _ inside, test_bitPosition _ _ inside]

/-- `operator==` on valid vectors compares their positions. -/
theorem beq_iff_test {b rhs : BitSet} (valid : b.Valid) (valid' : rhs.Valid) :
    b.beq rhs = true ↔ ∀ i, b.test i = rhs.test i := by
  rw [beq, Bool.and_eq_true, beq_iff_eq]
  constructor
  · rintro ⟨length, same⟩ i
    have equal := (all_zipWith_beq_iff length).mp same
    exact test_congr (fun idx => by rw [equal]) i
  · intro same
    have equal : b.blocks = rhs.blocks :=
      eq_of_bit_eq (by decide) valid valid' fun pos => by rw [← test_eq_bit, ← test_eq_bit, same]
    exact ⟨congrArg List.length equal, (all_zipWith_beq_iff (congrArg List.length equal)).mpr equal⟩

/-- `empty` on a valid vector: no position is set. -/
theorem empty_iff_test {b : BitSet} (valid : b.Valid) : b.empty = true ↔ ∀ i, b.test i = false := by
  rw [empty, beq_iff_eq, List.length_eq_zero_iff, eq_nil_iff (by decide) valid]
  simp only [test_eq_bit]

theorem none_iff_test {b : BitSet} (valid : b.Valid) : b.none = true ↔ ∀ i, b.test i = false :=
  empty_iff_test valid

theorem numBitsSet_eq_countBits (value : BitVec 64) : numBitsSet value = countBits value := by
  fun_induction numBitsSet value with
  | case1 => exact (List.countP_eq_zero.mpr fun i _ => by simp).symm
  | case2 value nonzero ih =>
    rw [ih]
    exact countBits_and_sub_one nonzero

/-- `count` is the number of set positions below `size`. -/
theorem count_eq_countP (b : BitSet) : b.count = (List.range b.size).countP b.test := by
  have blockSum : b.count = (b.blocks.map countBits).sum := by
    rw [count, List.sum_eq_foldl_nat, List.foldl_map]
    simp only [numBitsSet_eq_countBits]
  have tests : b.test = bit b.blocks := funext (test_eq_bit b)
  rw [blockSum, tests, size, countP_bit (by decide)]

/-- Every set position lies below `size`. -/
theorem lt_size_of_test {b : BitSet} {i : Nat} (set : b.test i = true) : i < b.size := by
  by_contra past
  rw [test_eq_bit, bit_of_length_le (by decide) (by unfold size at past; omega)] at set
  cases set

/-- `Contains` on a valid `rhs`: every position of `rhs` is one of `*this`. -/
theorem Contains_iff_test {b rhs : BitSet} (valid' : rhs.Valid) :
    b.Contains rhs = true ↔ ∀ i, rhs.test i = true → b.test i = true := by
  unfold Contains
  split
  · rename_i shorter
    simp only [Bool.false_eq_true, false_iff, not_forall]
    -- the last block of `rhs` is not zero and lies past the blocks of `*this`
    rcases noTrailingZero_iff.mp valid' with empty | last
    · rw [empty] at shorter
      simp at shorter
    · obtain ⟨j, set⟩ : ∃ j, (word rhs.blocks (rhs.blocks.length - 1)).getLsbD j = true := by
        by_contra clear
        exact last (eq_zero_iff_getLsbD.mpr fun j => by simpa using fun set => clear ⟨j, set⟩)
      have inside : j < 64 := lt_of_getLsbD set
      refine ⟨bitPosition (rhs.blocks.length - 1) j, ?_, ?_⟩
      · rw [test_bitPosition _ _ inside, set]
      · rw [test_bitPosition _ _ inside, word_of_length_le (by omega)]
        simp
  · rename_i longer
    have blocks : ∀ idx, word (List.zipWith (fun r x => r &&& ~~~x) rhs.blocks b.blocks) idx =
        word rhs.blocks idx &&& ~~~word b.blocks idx := by
      intro idx
      rw [word_zipWith]
      split
      · rfl
      · rw [word_of_length_le (show rhs.blocks.length ≤ idx by omega)]
        simp
    rw [all_eq_zero_iff, forall_test_iff (P := fun r x => r = true → x = true)]
    simp only [blocks, eq_zero_iff_getLsbD]
    constructor
    · intro clear idx j inside set
      have := clear idx j
      rw [getLsbD_and_not _ _ inside, set] at this
      simpa using this
    · intro contained idx j
      by_cases inside : j < 64
      · rw [getLsbD_and_not _ _ inside]
        cases set : (word rhs.blocks idx).getLsbD j
        · rfl
        · simp [contained idx j inside set]
      · exact BitVec.getLsbD_of_ge _ j (by omega)

/-- `intersects`: some position is set in both. -/
theorem intersects_iff_test (b rhs : BitSet) :
    b.intersects rhs = true ↔ ∃ i, b.test i = true ∧ rhs.test i = true := by
  have blocks : ∀ idx, word (List.zipWith (· &&& ·) b.blocks rhs.blocks) idx =
      word b.blocks idx &&& word rhs.blocks idx :=
    word_zipWith_of_zero _ _ _ (fun _ => by simp) (fun _ => by simp)
  rw [intersects, any_ne_zero_iff, exists_test_iff (P := fun x y => x = true ∧ y = true)]
  simp only [blocks]
  constructor
  · rintro ⟨idx, nonzero⟩
    obtain ⟨j, set⟩ : ∃ j, (word b.blocks idx &&& word rhs.blocks idx).getLsbD j = true := by
      by_contra clear
      exact nonzero (eq_zero_iff_getLsbD.mpr fun j => by simpa using fun set => clear ⟨j, set⟩)
    rw [BitVec.getLsbD_and, Bool.and_eq_true] at set
    exact ⟨idx, j, lt_of_getLsbD set.1, set⟩
  · rintro ⟨idx, j, _, both⟩
    refine ⟨idx, fun zero => ?_⟩
    have cleared := (eq_zero_iff_getLsbD.mp zero) j
    rw [BitVec.getLsbD_and, both.1, both.2] at cleared
    cases cleared

/-! ## Vectors built by the operations -/

/-- The vectors that the operations build from the empty one. -/
inductive Built : BitSet → Prop where
  | empty : Built ⟨[]⟩
  | set {b : BitSet} (pos : Nat) : Built b → Built (b.set pos)
  | reset {b : BitSet} (pos : Nat) : Built b → Built (b.reset pos)
  | clear {b : BitSet} : Built b → Built b.clear
  | fromString (str : List Char) : Built (FromString str)
  | andAssign {b rhs : BitSet} : Built b → Built rhs → Built (b.andAssign rhs)
  | orAssign {b rhs : BitSet} : Built b → Built rhs → Built (b.orAssign rhs)
  | setAll {b rhs : BitSet} : Built b → Built rhs → Built (b.Set rhs)
  | resetAll {b rhs : BitSet} : Built b → Built rhs → Built (b.Reset rhs)
  | buildComplement {lhs rhs : BitSet} : Built lhs → Built rhs → Built (lhs.BuildComplement rhs)
  | buildIntersection {lhs rhs : BitSet} :
      Built lhs → Built rhs → Built (lhs.BuildIntersection rhs)
  | and {b rhs : BitSet} : Built b → Built rhs → Built (b.and rhs)
  | or {b rhs : BitSet} : Built b → Built rhs → Built (b.or rhs)

/-- Every built vector keeps the invariant. -/
theorem Built.valid {b : BitSet} (built : Built b) : b.Valid := by
  induction built with
  | empty => exact noTrailingZero_nil
  | set pos _ ih => exact valid_set ih pos
  | reset pos _ ih => exact valid_reset ih pos
  | clear => exact valid_clear _
  | fromString str => exact valid_FromString str
  | andAssign => exact valid_andAssign _ _
  | orAssign _ _ ih ih' => exact valid_orAssign ih ih'
  | setAll _ _ ih ih' => exact valid_orAssign ih ih'
  | resetAll => exact valid_Reset _ _
  | buildComplement => exact valid_BuildComplement _ _
  | buildIntersection => exact valid_BuildIntersection _ _
  | and => exact valid_BuildIntersection _ _
  | or _ _ ih ih' => exact valid_or ih ih'

theorem bitSet_set_semantics :
    (∀ b : BitSet, Built b → b.Valid) ∧
    (∀ (b : BitSet) pos i, (b.set pos).test i = (b.test i || decide (i = pos))) ∧
    (∀ (b : BitSet) pos i, (b.reset pos).test i = (b.test i && !decide (i = pos))) ∧
    (∀ (b : BitSet) i, b.clear.test i = false) ∧
    (∀ str i, (FromString str).test i = decide (str.getD i '0' = '1')) ∧
    (∀ (b rhs : BitSet) i, (b.andAssign rhs).test i = (b.test i && rhs.test i)) ∧
    (∀ (b rhs : BitSet) i, (b.orAssign rhs).test i = (b.test i || rhs.test i)) ∧
    (∀ (b rhs : BitSet) i, (b.Set rhs).test i = (b.test i || rhs.test i)) ∧
    (∀ (b rhs : BitSet) i, (b.Reset rhs).test i = (b.test i && !rhs.test i)) ∧
    (∀ (lhs rhs : BitSet) i, (lhs.BuildComplement rhs).test i = (lhs.test i && !rhs.test i)) ∧
    (∀ (lhs rhs : BitSet) i, (lhs.BuildIntersection rhs).test i = (lhs.test i && rhs.test i)) ∧
    (∀ (b rhs : BitSet) i, (b.and rhs).test i = (b.test i && rhs.test i)) ∧
    (∀ (b rhs : BitSet) i, (b.or rhs).test i = (b.test i || rhs.test i)) ∧
    (∀ b rhs : BitSet, Built b → Built rhs → (b.beq rhs = true ↔ ∀ i, b.test i = rhs.test i)) ∧
    (∀ b : BitSet, Built b → (b.empty = true ↔ ∀ i, b.test i = false)) ∧
    (∀ b : BitSet, Built b → (b.none = true ↔ ∀ i, b.test i = false)) ∧
    (∀ b : BitSet, b.count = (List.range b.size).countP b.test ∧
      ∀ i, b.test i = true → i < b.size) ∧
    (∀ b rhs : BitSet, Built rhs →
      (b.Contains rhs = true ↔ ∀ i, rhs.test i = true → b.test i = true)) ∧
    (∀ b rhs : BitSet, b.intersects rhs = true ↔ ∃ i, b.test i = true ∧ rhs.test i = true) :=
  ⟨fun _ built => built.valid, test_set, test_reset, test_clear, test_FromString, test_andAssign,
    test_orAssign, test_orAssign, test_Reset, test_BuildComplement, test_BuildIntersection,
    test_BuildIntersection, test_or,
    fun _ _ built built' => beq_iff_test built.valid built'.valid,
    fun _ built => empty_iff_test built.valid, fun _ built => none_iff_test built.valid,
    fun b => ⟨count_eq_countP b, fun _ set => lt_size_of_test set⟩,
    fun _ _ built' => Contains_iff_test built'.valid, intersects_iff_test⟩

/-- The comparisons on `{3, 70}` and `{70}`, both built by `set` from the empty vector. -/
theorem bitSet_set_semantics_two_sets :
    let big : BitSet := ((⟨[]⟩ : BitSet).set 3).set 70
    let small : BitSet := (⟨[]⟩ : BitSet).set 70
    Built big ∧ Built small ∧ big.Valid ∧
    (big.beq small = true ↔ ∀ i, big.test i = small.test i) ∧
    (big.empty = true ↔ ∀ i, big.test i = false) ∧
    (big.Contains small = true ↔ ∀ i, small.test i = true → big.test i = true) := by
  intro big small
  have built : Built big := .set 70 (.set 3 .empty)
  have built' : Built small := .set 70 .empty
  obtain ⟨valid, -, -, -, -, -, -, -, -, -, -, -, -, beq, empty, -, -, contains, -⟩ :=
    bitSet_set_semantics
  exact ⟨built, built', valid big built, beq big small built built', empty big built,
    contains big small built'⟩

end BitSet

end Contrail.Base
