import Contrail.Base.BitSetSemantics

/-! The searches of `BitSet` against the positions it holds: `find_first` and
`find_next` find the least set position (after `pos` for the second),
`find_first_clear` and `find_next_clear` the least clear one, counting the
positions past the blocks as clear, and `find_last` the greatest set position
when the last block is not zero. Underneath are `ffs` over the two halves of a
block and the five narrowing steps of `find_last_set32`. -/
namespace Contrail.Base

open WordBits BitScan

/-! ## The scans of one block -/

theorem ffs_eq_firstSet (value : BitVec 32) : ffs value = firstSet value := rfl

/-- Bit `j` of a block, read from its low or its high half. -/
theorem getLsbD_halves (value : BitVec 64) (j : Nat) :
    value.getLsbD j = if j < 32 then (value.setWidth 32).getLsbD j
      else ((value >>> 32).setWidth 32).getLsbD (j - 32) := by
  split
  · rename_i low
    simp [low]
  · rename_i high
    rw [BitVec.getLsbD_setWidth, BitVec.getLsbD_ushiftRight, Nat.add_sub_cancel' (by omega)]
    by_cases inside : j < 64
    · simp [show j - 32 < 32 by omega]
    · simp [show ¬ j - 32 < 32 by omega, BitVec.getLsbD_of_ge value j (by omega)]

theorem eq_zero_of_halves {value : BitVec 64} (lowZero : value.setWidth 32 = 0)
    (highZero : (value >>> 32).setWidth 32 = 0) : value = 0 := by
  apply eq_zero_iff_getLsbD.mpr
  intro j
  rw [getLsbD_halves]
  split
  · rw [lowZero]
    simp
  · rw [highZero]
    simp

/-- `find_first_set64` is `ffs` on the whole block. -/
theorem findFirstSet64_eq_firstSet (value : BitVec 64) : findFirstSet64 value = firstSet value := by
  unfold findFirstSet64
  dsimp only
  rw [ffs_eq_firstSet, ffs_eq_firstSet]
  split
  · rename_i lowFound
    -- the lowest set bit of the low half is the lowest of the block
    have lowest := isLowestSet_firstSet lowFound
    have inside := lt_of_getLsbD lowest.1
    rw [firstSet_of_isLowestSet (v := value) (i := firstSet (value.setWidth 32) - 1)
      ⟨by rw [getLsbD_halves, if_pos inside]; exact lowest.1,
        fun j below => by rw [getLsbD_halves, if_pos (by omega)]; exact lowest.2 j below⟩]
    omega
  · rename_i lowMissing
    have lowZero : value.setWidth 32 = 0 := firstSet_eq_zero_iff.mp (by omega)
    split
    · rename_i highFound
      -- the lowest set bit of the high half, 32 positions up
      have lowest := isLowestSet_firstSet highFound
      have atBit : value.getLsbD (32 + (firstSet ((value >>> 32).setWidth 32) - 1)) = true := by
        rw [getLsbD_halves, if_neg (by omega), Nat.add_sub_cancel_left]
        exact lowest.1
      have below : ∀ j < 32 + (firstSet ((value >>> 32).setWidth 32) - 1), value.getLsbD j = false := by
        intro j lt
        rw [getLsbD_halves]
        split
        · rw [lowZero]
          simp
        · exact lowest.2 _ (by omega)
      rw [firstSet_of_isLowestSet ⟨atBit, below⟩]
      omega
    · rename_i highMissing
      have highZero : (value >>> 32).setWidth 32 = 0 := firstSet_eq_zero_iff.mp (by omega)
      rw [eq_zero_of_halves lowZero highZero]
      exact (firstSet_eq_zero_iff.mpr rfl).symm

/-- What the steps of `find_last_set32` keep: `state.1` is `value` shifted up by
`32 - state.2`, and the highest set bit of `value` lies below `state.2` and at
most `width` below it. -/
structure LastSetWindow (value : BitVec 32) (width : Nat) (state : BitVec 32 × Nat) : Prop where
  shifted : state.1.toNat = value.toNat * 2 ^ (32 - state.2)
  bitLe : state.2 ≤ 32
  below : value.toNat < 2 ^ state.2
  above : 2 ^ (state.2 - width) ≤ value.toNat

/-- The step that tests the top `k` bits halves the window. -/
theorem LastSetWindow.step {value : BitVec 32} {k : Nat} {state : BitVec 32 × Nat}
    (window : LastSetWindow value (2 * k) state) (positive : 0 < k) (mask : BitVec 32)
    (isMask : mask = ~~~((1#32 <<< (32 - k)) - 1#32)) :
    LastSetWindow value k (lastSetStep mask k state) := by
  obtain ⟨x, bit⟩ := state
  obtain ⟨shifted, bitLe, below, above⟩ := window
  dsimp only at shifted bitLe below above
  have nonzero : 0 < value.toNat := Nat.lt_of_lt_of_le (Nat.two_pow_pos _) above
  -- the top `k` bits of `x` sit above the window's top end
  have cut : ∀ {bit : Nat}, k ≤ bit → bit ≤ 32 → 2 ^ (32 - k) = 2 ^ (bit - k) * 2 ^ (32 - bit) := by
    intro bit low high
    rw [← Nat.pow_add]
    congr 1
    omega
  unfold lastSetStep
  dsimp only
  split
  · rename_i clear
    have small : x.toNat < 2 ^ (32 - k) := by
      rwa [isMask, and_not_low_mask_eq_zero_iff x (by omega)] at clear
    have kLt : k < bit := by
      by_contra atMost
      have wider : 2 ^ (32 - k) ≤ 2 ^ (32 - bit) := Nat.pow_le_pow_right (by decide) (by omega)
      have scaled : 2 ^ (32 - bit) ≤ value.toNat * 2 ^ (32 - bit) := Nat.le_mul_of_pos_left _ nonzero
      omega
    have lower : value.toNat < 2 ^ (bit - k) := by
      rw [shifted, cut kLt.le bitLe] at small
      exact Nat.lt_of_mul_lt_mul_right small
    have fits : x.toNat * 2 ^ k < 2 ^ 32 := by
      calc x.toNat * 2 ^ k < 2 ^ (32 - k) * 2 ^ k := Nat.mul_lt_mul_of_pos_right small (Nat.two_pow_pos k)
        _ = 2 ^ 32 := by rw [← Nat.pow_add, Nat.sub_add_cancel (by omega)]
    refine ⟨?_, by dsimp only; omega, lower, ?_⟩
    · -- shifting up by `k` loses no bit
      dsimp only
      rw [BitVec.toNat_shiftLeft, Nat.shiftLeft_eq, Nat.mod_eq_of_lt fits, shifted, Nat.mul_assoc,
        ← Nat.pow_add]
      congr 2
      omega
    · dsimp only
      rw [show bit - k - k = bit - 2 * k by omega]
      exact above
  · rename_i notClear
    have large : ¬ x.toNat < 2 ^ (32 - k) := by
      rwa [isMask, and_not_low_mask_eq_zero_iff x (by omega)] at notClear
    refine ⟨shifted, bitLe, below, ?_⟩
    dsimp only
    by_cases kLe : k ≤ bit
    · rw [shifted, cut kLe bitLe] at large
      exact Nat.le_of_mul_le_mul_right (Nat.not_lt.mp large) (Nat.two_pow_pos _)
    · rw [show bit - k = 0 by omega]
      exact nonzero

/-- `find_last_set32` of a nonzero word is its highest set bit, counted from 1. -/
theorem findLastSet32_spec {value : BitVec 32} (nonzero : value ≠ 0) :
    0 < findLastSet32 value ∧ IsHighestSet value (findLastSet32 value - 1) := by
  have positive : 0 < value.toNat := by
    by_contra zero
    exact nonzero (BitVec.eq_of_toNat_eq (by simp; omega))
  have start : LastSetWindow value 32 (value, 32) :=
    ⟨by simp, Nat.le_refl 32, value.isLt, by rw [Nat.sub_self, Nat.pow_zero]; exact positive⟩
  have final := ((((start.step (k := 16) (by decide) 0xFFFF0000#32 (by decide)).step (k := 8)
    (by decide) 0xFF000000#32 (by decide)).step (k := 4) (by decide) 0xF0000000#32
    (by decide)).step (k := 2) (by decide) 0xC0000000#32 (by decide)).step (k := 1)
    (by decide) 0x80000000#32 (by decide)
  unfold findLastSet32
  rw [if_neg nonzero]
  obtain ⟨-, -, below, above⟩ := final
  have atLeastOne : 0 < (((value, 32) |> lastSetStep 0xFFFF0000#32 16 |> lastSetStep 0xFF000000#32 8
      |> lastSetStep 0xF0000000#32 4 |> lastSetStep 0xC0000000#32 2
      |> lastSetStep 0x80000000#32 1).2) := by
    by_contra zero
    rw [Nat.eq_zero_of_not_pos zero] at below
    omega
  refine ⟨atLeastOne, isHighestSet_of_bounds above ?_⟩
  rwa [Nat.sub_add_cancel atLeastOne]

theorem findLastSet32_zero : findLastSet32 0 = 0 := by
  simp [findLastSet32]

theorem findLastSet32_ne_zero {value : BitVec 32} (found : findLastSet32 value > 0) : value ≠ 0 := by
  rintro rfl
  rw [findLastSet32_zero] at found
  cases found

/-- `find_last_set64` of a nonzero block is its highest set bit, counted from 1. -/
theorem findLastSet64_spec {value : BitVec 64} (nonzero : value ≠ 0) :
    0 < findLastSet64 value ∧ IsHighestSet value (findLastSet64 value - 1) := by
  unfold findLastSet64
  dsimp only
  split
  · rename_i highFound
    -- the highest set bit of the high half, 32 positions up
    obtain ⟨-, highest⟩ := findLastSet32_spec (findLastSet32_ne_zero highFound)
    refine ⟨by omega, ?_, fun j above => ?_⟩
    · rw [getLsbD_halves, if_neg (by omega), show 32 + findLastSet32 ((value >>> 32).setWidth 32) - 1 - 32 =
        findLastSet32 ((value >>> 32).setWidth 32) - 1 by omega]
      exact highest.1
    · rw [getLsbD_halves, if_neg (by omega)]
      exact highest.2 _ (by omega)
  · rename_i highMissing
    have highZero : (value >>> 32).setWidth 32 = 0 := by
      by_contra nonzero
      exact highMissing (findLastSet32_spec nonzero).1
    split
    · rename_i lowFound
      obtain ⟨-, highest⟩ := findLastSet32_spec (findLastSet32_ne_zero lowFound)
      have inside := lt_of_getLsbD highest.1
      refine ⟨lowFound, ?_, fun j above => ?_⟩
      · rw [getLsbD_halves, if_pos inside]
        exact highest.1
      · rw [getLsbD_halves]
        split
        · exact highest.2 j above
        · rw [highZero]
          simp
    · rename_i lowMissing
      have lowZero : value.setWidth 32 = 0 := by
        by_contra nonzero
        exact lowMissing (findLastSet32_spec nonzero).1
      exact absurd (eq_zero_of_halves lowZero highZero) nonzero

namespace BitSet

/-! ## The searches over the positions -/

/-- The loop of the searches over the blocks from `k` on, with a scan that
reports the lowest set bit of `g` of a block: a search over their positions
for a set bit of `g` of the position's block. -/
theorem scanBlocks_eq_find? (g : BitVec 64 → BitVec 64) (blocks : List (BitVec 64)) (k : Nat) :
    scanBlocks (fun x => firstSet (g x)) (blocks.drop k) k =
      (List.range' (k * 64) ((blocks.length - k) * 64)).find?
        (fun pos => (g (word blocks (pos / 64))).getLsbD (pos % 64)) := by
  generalize remaining : blocks.length - k = n
  induction n generalizing k with
  | zero =>
    rw [List.drop_eq_nil_of_le (by omega)]
    rfl
  | succ n ih =>
    have inside : k < blocks.length := by omega
    have positions : List.range' (k * 64) ((n + 1) * 64) =
        List.range' (k * 64) 64 ++ List.range' ((k + 1) * 64) (n * 64) := by
      rw [Nat.succ_mul k, List.range'_append_1, Nat.succ_mul, Nat.add_comm (n * 64)]
    rw [List.drop_eq_getElem_cons inside, scanBlocks, firstSet_or, ih (k + 1) (by omega), positions,
      List.find?_append]
    congr 1
    -- the first block: the positions `64 * k + j`
    rw [find?_range'_eq_lowestSet? (k * 64) (g blocks[k]) fun j inside' => ?_]
    · rfl
    · have index : (k * 64 + j) / 64 = k := by omega
      have offset : (k * 64 + j) % 64 = j := by omega
      rw [index, offset, word_eq_getElem inside]

/-- `find_next` and `find_next_clear`, with a scan that reports the lowest set
bit of `g` of a block and a mask under which `g` keeps only the bits past the
mask: the search over the positions after `pos`, from the block of `pos` to the
end of the blocks, for a set bit of `g` of the position's block. -/
theorem findNextWith_eq (g : BitVec 64 → BitVec 64) (masked : BitVec 64 → BitVec 64 → BitVec 64)
    (maskedBits : ∀ x mask, g (masked x mask) = g x &&& ~~~mask) (beyond notFound : Nat)
    (b : BitSet) (pos : Nat) :
    findNextWith (fun x => firstSet (g x)) masked beyond notFound b pos =
      if blockIndex pos ≥ b.blocks.length then beyond
      else ((List.range' (blockIndex pos * 64) ((b.blocks.length - blockIndex pos) * 64)).find?
        (fun q => decide (pos < q) && (g (word b.blocks (q / 64))).getLsbD (q % 64))).getD notFound := by
  unfold findNextWith
  dsimp only
  split
  · rfl
  · rename_i inside
    have start : blockIndex pos * 64 + blockOffset pos = pos := by
      unfold blockIndex blockOffset
      omega
    have offsetLt := blockOffset_lt pos
    have positions : List.range' (blockIndex pos * 64) ((b.blocks.length - blockIndex pos) * 64) =
        List.range' (blockIndex pos * 64) 64 ++
          List.range' ((blockIndex pos + 1) * 64) ((b.blocks.length - (blockIndex pos + 1)) * 64) := by
      rw [Nat.succ_mul (blockIndex pos), List.range'_append_1]
      congr 1
      omega
    simp only [Option.orElse_eq_orElse, Option.orElse_eq_or]
    rw [positions, List.find?_append, scanBlocks_eq_find? g b.blocks (blockIndex pos + 1)]
    congr 2
    · -- the block of `pos`, masked up to its offset
      split
      · rename_i below
        rw [firstSet_or, Option.or_none, maskedBits,
          find?_range'_eq_lowestSet? (blockIndex pos * 64) _ fun j inside' => ?_]
        · rfl
        · have index : (blockIndex pos * 64 + j) / 64 = blockIndex pos := by omega
          have offset : (blockIndex pos * 64 + j) % 64 = j := by omega
          rw [index, offset, BitVec.getLsbD_and, BitVec.getLsbD_not, getLsbD_low_mask (by omega)]
          by_cases past : pos < blockIndex pos * 64 + j
          · simp [past, inside', show ¬ j < blockOffset pos + 1 by omega]
            rfl
          · simp [past, show j < blockOffset pos + 1 by omega]
      · rename_i last
        -- at offset 63 no position of the block lies after `pos`
        symm
        apply List.find?_range'_eq_none.mpr
        intro q _ lt
        simp [show ¬ pos < q by omega]
    · -- the blocks after it lie after `pos`
      apply List.find?_congr
      intro q member
      rw [List.mem_range'_1] at member
      simp [show pos < q by omega]

theorem findFirstSet64_fun : findFirstSet64 = fun x => firstSet (id x) :=
  funext findFirstSet64_eq_firstSet

theorem findFirstClear64_fun : findFirstClear64 = fun x => firstSet (~~~x) :=
  funext fun x => findFirstSet64_eq_firstSet (~~~x)

/-- The bits the searches for a set bit look at are the positions. -/
theorem getLsbD_id_word (b : BitSet) (q : Nat) :
    (id (word b.blocks (q / 64))).getLsbD (q % 64) = b.test q :=
  (test_eq_bit b q).symm

/-- The bits the searches for a clear bit look at are the positions negated. -/
theorem getLsbD_not_word (b : BitSet) (q : Nat) :
    (~~~word b.blocks (q / 64)).getLsbD (q % 64) = !b.test q := by
  rw [BitVec.getLsbD_not, test_eq_bit, bit, decide_eq_true (Nat.mod_lt q (by decide)), Bool.true_and]

/-- The positions after `pos` that a search from the block of `pos` looks at. -/
theorem setOf_after (pos : Nat) (p : Nat → Bool) :
    {j | blockIndex pos * 64 ≤ j ∧ (decide (pos < j) && p j) = true} = {j | pos < j ∧ p j = true} := by
  ext j
  simp only [Set.mem_ofPred_eq, Bool.and_eq_true, decide_eq_true_eq]
  constructor
  · exact fun ⟨_, after, hit⟩ => ⟨after, hit⟩
  · exact fun ⟨after, hit⟩ => ⟨by unfold blockIndex; omega, after, hit⟩

theorem test_eq_false_of_size_le {b : BitSet} {i : Nat} (past : b.size ≤ i) : b.test i = false := by
  cases set : b.test i
  · rfl
  · exact absurd (lt_size_of_test set) (by omega)

/-- `find_first`: the least set position, or `npos` when there is none. -/
theorem findFirst_spec (b : BitSet) :
    ((∀ i, b.test i = false) ∧ b.findFirst = npos) ∨ IsLeast {i | b.test i = true} b.findFirst := by
  have search := scanBlocks_eq_find? id b.blocks 0
  simp only [List.drop_zero, Nat.zero_mul, Nat.sub_zero, getLsbD_id_word] at search
  unfold findFirst
  rw [findFirstSet64_fun, search]
  rcases getD_find?_range' b.test 0 (b.blocks.length * 64) npos with ⟨missing, result⟩ | least
  · refine .inl ⟨fun i => ?_, result⟩
    by_cases inside : i < b.size
    · exact missing i (Nat.zero_le i) (by unfold size at inside; omega)
    · exact test_eq_false_of_size_le (by omega)
  · refine .inr ?_
    simpa using least

/-- `find_next`: the least set position after `pos`, or `npos` when there is none. -/
theorem findNext_spec (b : BitSet) (pos : Nat) :
    ((∀ i, pos < i → b.test i = false) ∧ b.findNext pos = npos) ∨
      IsLeast {i | pos < i ∧ b.test i = true} (b.findNext pos) := by
  unfold findNext
  rw [findFirstSet64_fun, findNextWith_eq id (fun block mask => block &&& ~~~mask) (fun _ _ => rfl)]
  simp only [getLsbD_id_word]
  split
  · rename_i beyond
    -- `pos` lies past the blocks, and so does every position after it
    exact .inl ⟨fun i after => test_eq_false_of_size_le (by unfold size; unfold blockIndex at beyond; omega), rfl⟩
  · rename_i inside
    rcases getD_find?_range' (fun q => decide (pos < q) && b.test q) (blockIndex pos * 64)
      ((b.blocks.length - blockIndex pos) * 64) npos with ⟨missing, result⟩ | least
    · refine .inl ⟨fun i after => ?_, result⟩
      by_cases within : i < b.size
      · have missed := missing i (by unfold blockIndex; omega) (by unfold size at within; omega)
        simpa [after] using missed
      · exact test_eq_false_of_size_le (by omega)
    · rw [setOf_after] at least
      exact .inr least

/-- `find_last` on a vector whose last block is not zero: the greatest set
position, or `npos` when there is none. -/
theorem findLast_spec {b : BitSet} (valid : b.Valid) :
    ((∀ i, b.test i = false) ∧ b.findLast = npos) ∨ IsGreatest {i | b.test i = true} b.findLast := by
  unfold findLast
  cases last : b.blocks.getLast? with
  | none =>
    rw [List.getLast?_eq_none_iff] at last
    exact .inl ⟨fun i => test_eq_false_of_size_le (by simp [size, last]), rfl⟩
  | some block =>
    dsimp only
    have nonempty : b.blocks ≠ [] := by
      rintro empty
      rw [empty] at last
      cases last
    have atLast : word b.blocks (b.blocks.length - 1) = block := by
      rw [word, List.getD_eq_getElem?_getD, ← List.getLast?_eq_getElem?, last]
      rfl
    -- only the last block is looked at, and it is not zero
    have nonzero : block ≠ 0 := by
      rcases noTrailingZero_iff.mp valid with empty | lastNonzero
      · exact absurd empty nonempty
      · rwa [atLast] at lastNonzero
    obtain ⟨found, highest⟩ := findLastSet64_spec nonzero
    have inside := lt_of_getLsbD highest.1
    rw [if_pos found]
    refine .inr ⟨?_, fun i set => ?_⟩
    · show b.test _ = true
      rw [test_bitPosition _ _ inside, atLast]
      exact highest.1
    · have set : b.test i = true := set
      have below := lt_size_of_test set
      by_contra above
      rw [test_eq_bit, bit] at set
      have index : i / 64 = b.blocks.length - 1 := by
        unfold bitPosition at above
        unfold size at below
        omega
      rw [index, atLast, highest.2 (i % 64) (by unfold bitPosition at above; omega)] at set
      cases set

/-- `find_first_clear`: the least clear position, which may lie past the blocks. -/
theorem findFirstClear_spec (b : BitSet) : IsLeast {i | b.test i = false} b.findFirstClear := by
  have search := scanBlocks_eq_find? (fun x => ~~~x) b.blocks 0
  simp only [List.drop_zero, Nat.zero_mul, Nat.sub_zero, getLsbD_not_word] at search
  unfold findFirstClear
  rw [findFirstClear64_fun, search]
  rcases getD_find?_range' (fun q => !b.test q) 0 (b.blocks.length * 64) b.size with
    ⟨missing, result⟩ | least
  · rw [result]
    refine ⟨test_eq_false_of_size_le (Nat.le_refl _), fun j clear => ?_⟩
    by_contra below
    have missed := missing j (Nat.zero_le j) (by unfold size at below; omega)
    rw [clear] at missed
    cases missed
  · simpa using least

/-- `find_next_clear`: the least clear position after `pos`, which may lie past
the blocks, for every `pos` but `npos`. -/
theorem findNextClear_spec (b : BitSet) {pos : Nat} (below : pos < npos) :
    IsLeast {i | pos < i ∧ b.test i = false} (b.findNextClear pos) := by
  unfold findNextClear
  rw [findFirstClear64_fun,
    findNextWith_eq (fun x => ~~~x) (fun block mask => block ||| mask) (fun _ _ => BitVec.not_or)]
  simp only [getLsbD_not_word]
  split
  · rename_i beyond
    -- past the blocks the next position is clear, and below `npos` the sum does not wrap
    rw [Nat.mod_eq_of_lt (by unfold npos at below; omega)]
    exact ⟨⟨Nat.lt_succ_self pos,
      test_eq_false_of_size_le (by unfold size; unfold blockIndex at beyond; omega)⟩,
      fun j ⟨after, _⟩ => after⟩
  · rename_i inside
    rcases getD_find?_range' (fun q => decide (pos < q) && !b.test q) (blockIndex pos * 64)
      ((b.blocks.length - blockIndex pos) * 64) b.size with ⟨missing, result⟩ | least
    · rw [result]
      refine ⟨⟨by unfold size; unfold blockIndex at inside; omega, test_eq_false_of_size_le (Nat.le_refl _)⟩,
        fun j ⟨after, clear⟩ => ?_⟩
      by_contra below
      have missed := missing j (by unfold blockIndex; omega) (by unfold size at below; omega)
      simp [after, clear] at missed
    · rw [setOf_after] at least
      simpa using least

end BitSet

end Contrail.Base
