import Mathlib

/-! Scans of one machine word: its set bits counted, its lowest and highest set
bits, and the masks of its low bits. Clearing the lowest set bit with
`v &&& (v - 1)` lowers the count by one, which a population count that loops
until the word is zero rests on; a word between `2 ^ i` and `2 ^ (i + 1)` has
its highest set bit at `i`, which a search that halves the window rests on. -/
namespace BitScan

variable {w : Nat}

/-- The number of set bits of a word. -/
def countBits (v : BitVec w) : Nat :=
  (List.range w).countP v.getLsbD

def IsLowestSet (v : BitVec w) (i : Nat) : Prop :=
  v.getLsbD i = true ∧ ∀ j < i, v.getLsbD j = false

def IsHighestSet (v : BitVec w) (i : Nat) : Prop :=
  v.getLsbD i = true ∧ ∀ j, i < j → v.getLsbD j = false

/-- The lowest set bit, by a scan upwards from bit 0. -/
def lowestSet? (v : BitVec w) : Option Nat :=
  (List.range w).find? v.getLsbD

theorem lt_of_getLsbD {v : BitVec w} {i : Nat} (set : v.getLsbD i = true) : i < w := by
  by_contra outside
  rw [BitVec.getLsbD_of_ge v i (by omega)] at set
  cases set

theorem eq_zero_iff_getLsbD {v : BitVec w} : v = 0 ↔ ∀ i, v.getLsbD i = false := by
  constructor
  · rintro rfl i
    exact BitVec.getLsbD_zero
  · intro clear
    apply BitVec.eq_of_getLsbD_eq
    intro i _
    rw [clear i]
    simp

theorem lowestSet?_eq_some_iff {v : BitVec w} {i : Nat} :
    lowestSet? v = some i ↔ IsLowestSet v i := by
  rw [lowestSet?, List.find?_range_eq_some]
  constructor
  · rintro ⟨set, -, below⟩
    exact ⟨set, fun j lt => by simpa using below j lt⟩
  · rintro ⟨set, below⟩
    exact ⟨set, List.mem_range.mpr (lt_of_getLsbD set), fun j lt => by simp [below j lt]⟩

theorem lowestSet?_eq_none_iff {v : BitVec w} : lowestSet? v = none ↔ v = 0 := by
  rw [lowestSet?, List.find?_range_eq_none, eq_zero_iff_getLsbD]
  constructor
  · intro clear i
    by_cases inside : i < w
    · simpa using clear i inside
    · exact BitVec.getLsbD_of_ge v i (by omega)
  · intro clear i _
    simp [clear i]

/-- The position, counted from 1, of the lowest set bit, or 0 when there is none. -/
def firstSet (v : BitVec w) : Nat :=
  match lowestSet? v with
  | some i => i + 1
  | none => 0

theorem firstSet_eq_zero_iff {v : BitVec w} : firstSet v = 0 ↔ v = 0 := by
  rw [← lowestSet?_eq_none_iff, firstSet]
  cases lowestSet? v <;> simp

theorem isLowestSet_firstSet {v : BitVec w} (found : 0 < firstSet v) :
    IsLowestSet v (firstSet v - 1) := by
  unfold firstSet at found ⊢
  cases lowest : lowestSet? v with
  | none => simp [lowest] at found
  | some i => exact lowestSet?_eq_some_iff.mp lowest

theorem firstSet_of_isLowestSet {v : BitVec w} {i : Nat} (lowest : IsLowestSet v i) :
    firstSet v = i + 1 := by
  rw [firstSet, lowestSet?_eq_some_iff.mpr lowest]

/-- A scan that reports `firstSet` and falls back to `rest` when it is 0. -/
theorem firstSet_or (v : BitVec w) (f : Nat → Nat) (rest : Option Nat) :
    (if firstSet v > 0 then some (f (firstSet v - 1)) else rest) = ((lowestSet? v).map f).or rest := by
  unfold firstSet
  cases lowestSet? v <;> simp

/-- A search over `w` positions from `s` whose test agrees with the bits of `x`
finds the lowest set bit of `x`. -/
theorem find?_range'_eq_lowestSet? (s : Nat) (x : BitVec w) {p : Nat → Bool}
    (agree : ∀ j < w, p (s + j) = x.getLsbD j) :
    (List.range' s w).find? p = (lowestSet? x).map (s + ·) := by
  rw [List.range'_eq_map_range, List.find?_map, lowestSet?]
  congr 1
  exact List.find?_congr fun j member => agree j (List.mem_range.mp member)

/-- What a search over `n` positions from `s` finds is the least position from
`s` on where `p` holds, when `p` holds nowhere past them. -/
theorem isLeast_of_find?_range' {p : Nat → Bool} {s n i : Nat}
    (found : (List.range' s n).find? p = some i) : IsLeast {j | s ≤ j ∧ p j = true} i := by
  obtain ⟨hit, member, before⟩ := List.find?_range'_eq_some.mp found
  rw [List.mem_range'_1] at member
  refine ⟨⟨member.1, hit⟩, fun j ⟨atLeast, hit'⟩ => ?_⟩
  by_contra lt
  have missed := before j atLeast (by omega)
  rw [hit'] at missed
  cases missed

theorem eq_false_of_find?_range'_eq_none {p : Nat → Bool} {s n : Nat}
    (missing : (List.range' s n).find? p = none) {j : Nat} (atLeast : s ≤ j) (lt : j < s + n) :
    p j = false := by
  simpa using List.find?_range'_eq_none.mp missing j atLeast lt

/-- A search over `n` positions from `s` that falls back to `notFound`: either
`p` holds nowhere among them and the result is `notFound`, or the result is the
least position from `s` on where `p` holds. -/
theorem getD_find?_range' (p : Nat → Bool) (s n notFound : Nat) :
    ((∀ i, s ≤ i → i < s + n → p i = false) ∧ ((List.range' s n).find? p).getD notFound = notFound) ∨
      IsLeast {j | s ≤ j ∧ p j = true} (((List.range' s n).find? p).getD notFound) := by
  cases found : (List.range' s n).find? p with
  | none => exact .inl ⟨fun i atLeast lt => eq_false_of_find?_range'_eq_none found atLeast lt, rfl⟩
  | some i => exact .inr (isLeast_of_find?_range' found)

/-- A word between `2 ^ i` and `2 ^ (i + 1)` has its highest set bit at `i`. -/
theorem isHighestSet_of_bounds {v : BitVec w} {i : Nat} (low : 2 ^ i ≤ v.toNat)
    (high : v.toNat < 2 ^ (i + 1)) : IsHighestSet v i := by
  constructor
  · have quotient : v.toNat / 2 ^ i = 1 :=
      Nat.div_eq_of_lt_le (by omega) (by rw [Nat.pow_succ] at high; omega)
    rw [← BitVec.testBit_toNat, Nat.testBit_eq_decide_div_mod_eq, quotient]
    rfl
  · intro j above
    rw [← BitVec.testBit_toNat]
    exact Nat.testBit_lt_two_pow (Nat.lt_of_lt_of_le high (Nat.pow_le_pow_right (by decide) above))

/-! ## Clearing the lowest set bit -/

/-- `n - 1` turns the lowest set bit `k` of `n` off and the bits below it on,
so `n &&& (n - 1)` is `n` without bit `k`. -/
theorem testBit_and_sub_one {n : Nat} (nonzero : n ≠ 0) :
    ∃ k, n.testBit k = true ∧ ∀ i, (n &&& (n - 1)).testBit i = (n.testBit i && i != k) := by
  obtain ⟨k, m, odd, rfl⟩ := Nat.exists_eq_two_pow_mul_odd nonzero
  obtain ⟨q, rfl⟩ := odd
  have lowBit : 2 ^ k < 2 ^ (k + 1) := Nat.pow_lt_pow_right (by decide) (by omega)
  have split : 2 ^ k * (2 * q + 1) = 2 ^ (k + 1) * q + 2 ^ k := by
    rw [Nat.pow_succ, Nat.mul_add, Nat.mul_one, Nat.mul_assoc]
  have below : 2 ^ (k + 1) * q + 2 ^ k - 1 = 2 ^ (k + 1) * q + (2 ^ k - 1) :=
    Nat.add_sub_assoc Nat.one_le_two_pow _
  have bits : ∀ i, (2 ^ k * (2 * q + 1)).testBit i =
      if i < k + 1 then decide (k = i) else q.testBit (i - (k + 1)) := by
    intro i
    rw [split, Nat.testBit_two_pow_mul_add q lowBit, Nat.testBit_two_pow]
  have bitsBelow : ∀ i, (2 ^ k * (2 * q + 1) - 1).testBit i =
      if i < k + 1 then decide (i < k) else q.testBit (i - (k + 1)) := by
    intro i
    rw [split, below, Nat.testBit_two_pow_mul_add q (by omega), Nat.testBit_two_pow_sub_one]
  refine ⟨k, by simp [bits], fun i => ?_⟩
  rw [Nat.testBit_and, bits, bitsBelow]
  by_cases low : i < k + 1
  · simp only [if_pos low]
    by_cases same : i = k
    · simp [same]
    · have under : i < k := by omega
      simp [Ne.symm same, under]
  · simp only [if_neg low]
    have differs : i ≠ k := by omega
    simp [differs]

theorem countP_range_erase (p : Nat → Bool) {k n : Nat} (lt : k < n) (set : p k = true) :
    (List.range n).countP p = (List.range n).countP (fun i => p i && i != k) + 1 := by
  induction n with
  | zero => omega
  | succ n ih =>
    rw [List.range_succ, List.countP_append, List.countP_append]
    by_cases last : k = n
    · subst last
      have rest : (List.range k).countP p = (List.range k).countP (fun i => p i && i != k) := by
        apply List.countP_congr
        intro i member
        have : i ≠ k := Nat.ne_of_lt (List.mem_range.mp member)
        simp [this]
      simp [rest, set]
    · rw [ih (by omega)]
      have differs : n ≠ k := Ne.symm last
      simp [differs]
      omega

theorem toNat_sub_one {v : BitVec w} (nonzero : v ≠ 0) : (v - 1#w).toNat = v.toNat - 1 := by
  have positive : 0 < w := by
    rcases Nat.eq_zero_or_pos w with zero | positive
    · subst zero
      exact absurd (BitVec.eq_nil v) nonzero
    · exact positive
  have one : (1#w).toNat = 1 := BitVec.toNat_one positive
  have atLeast : 1#w ≤ v := by
    rw [BitVec.le_def, one]
    have : v.toNat ≠ 0 := fun zero => nonzero (BitVec.eq_of_toNat_eq (by simpa using zero))
    omega
  rw [BitVec.toNat_sub_of_le atLeast, one]

/-- Clearing the lowest set bit lowers the count by one. -/
theorem countBits_and_sub_one {v : BitVec w} (nonzero : v ≠ 0) :
    countBits (v &&& (v - 1#w)) + 1 = countBits v := by
  have value : v.toNat ≠ 0 := fun zero => nonzero (BitVec.eq_of_toNat_eq (by simpa using zero))
  obtain ⟨k, set, cleared⟩ := testBit_and_sub_one value
  have bits : ∀ i, (v &&& (v - 1#w)).getLsbD i = (v.getLsbD i && i != k) := by
    intro i
    rw [← BitVec.testBit_toNat, BitVec.toNat_and, toNat_sub_one nonzero, cleared,
      BitVec.testBit_toNat]
  rw [BitVec.testBit_toNat] at set
  rw [countBits, countBits, countP_range_erase v.getLsbD (lt_of_getLsbD set) set]
  congr 1
  exact List.countP_congr fun i _ => by rw [bits]

/-! ## Masks -/

theorem toNat_one_shiftLeft {k : Nat} (lt : k < w) : (1#w <<< k).toNat = 2 ^ k := by
  rw [BitVec.toNat_shiftLeft, BitVec.toNat_one (by omega), Nat.one_shiftLeft]
  exact Nat.mod_eq_of_lt (Nat.pow_lt_pow_right (by decide) lt)

theorem getLsbD_one_shiftLeft {k : Nat} (lt : k < w) (i : Nat) :
    (1#w <<< k).getLsbD i = decide (k = i) := by
  rw [← BitVec.testBit_toNat, toNat_one_shiftLeft lt, Nat.testBit_two_pow]

/-- A one-bit mask tests that bit. -/
theorem and_one_shiftLeft_ne_zero (v : BitVec w) {k : Nat} (lt : k < w) :
    (v &&& 1#w <<< k != 0) = v.getLsbD k := by
  cases set : v.getLsbD k
  · have zero : v &&& 1#w <<< k = 0 := by
      apply eq_zero_iff_getLsbD.mpr
      intro i
      rw [BitVec.getLsbD_and, getLsbD_one_shiftLeft lt]
      by_cases same : k = i
      · subst same
        simp [set]
      · simp [same]
    simp [zero]
  · have nonzero : v &&& 1#w <<< k ≠ 0 := by
      intro zero
      have cleared := (eq_zero_iff_getLsbD.mp zero) k
      rw [BitVec.getLsbD_and, getLsbD_one_shiftLeft lt, set] at cleared
      simp at cleared
    exact bne_iff_ne.mpr nonzero

/-- `(1 << k) - 1` sets the bits below `k`. -/
theorem getLsbD_low_mask {k : Nat} (lt : k < w) (i : Nat) :
    ((1#w <<< k) - 1#w).getLsbD i = decide (i < k) := by
  have nonzero : 1#w <<< k ≠ 0 := by
    intro zero
    have power := toNat_one_shiftLeft lt
    rw [zero] at power
    have := Nat.two_pow_pos k
    simp at power
    omega
  rw [← BitVec.testBit_toNat, toNat_sub_one nonzero, toNat_one_shiftLeft lt,
    Nat.testBit_two_pow_sub_one]

/-- Clearing the bits below `m` leaves zero exactly when the word is below `2 ^ m`. -/
theorem and_not_low_mask_eq_zero_iff (x : BitVec w) {m : Nat} (lt : m < w) :
    x &&& ~~~((1#w <<< m) - 1#w) = 0 ↔ x.toNat < 2 ^ m := by
  rw [eq_zero_iff_getLsbD]
  constructor
  · intro clear
    apply Nat.lt_pow_two_of_testBit
    intro i atLeast
    have cleared := clear i
    rw [BitVec.getLsbD_and, BitVec.getLsbD_not, getLsbD_low_mask lt] at cleared
    rw [BitVec.testBit_toNat]
    by_cases inside : i < w
    · simpa [inside, show ¬ i < m by omega] using cleared
    · exact BitVec.getLsbD_of_ge x i (by omega)
  · intro small i
    rw [BitVec.getLsbD_and, BitVec.getLsbD_not, getLsbD_low_mask lt]
    by_cases low : i < m
    · simp [low]
    · have above : x.toNat < 2 ^ i := Nat.lt_of_lt_of_le small (Nat.pow_le_pow_right (by decide) (by omega))
      rw [← BitVec.testBit_toNat, Nat.testBit_lt_two_pow above, Bool.false_and]

end BitScan
