import Contrail.Lib.BitScan
import Mathlib

/-! A set of positions kept as a list of `w`-bit words: word `i` holds positions
`i * w` to `i * w + w - 1`, and words past the end of the list read as zero.
The list operations a word vector is built with (padding, cutting, appending,
changing one word, combining two lists word by word, cutting off zero words at
the end) are described word by word; a list whose last word is not zero is
determined by its words, and so by its positions, and the positions below its
length are counted word by word. -/
namespace WordBits

open BitScan

variable {w : Nat}

/-- Word `idx` of a list, zero past its end. -/
def word (words : List (BitVec w)) (idx : Nat) : BitVec w :=
  words.getD idx 0

/-- Position `pos` of a list of words. -/
def bit (words : List (BitVec w)) (pos : Nat) : Bool :=
  (word words (pos / w)).getLsbD (pos % w)

/-- `std::vector::resize` with value-initialized words: cut to `n` words, or
padded with zeros to `n`. -/
def resize (words : List (BitVec w)) (n : Nat) : List (BitVec w) :=
  words.take n ++ List.replicate (n - words.length) 0

def NoTrailingZero (words : List (BitVec w)) : Prop :=
  words.getLast? ≠ some 0

instance (words : List (BitVec w)) : Decidable (NoTrailingZero words) :=
  inferInstanceAs (Decidable (words.getLast? ≠ some 0))

/-! ## Words -/

theorem word_eq_getElem {words : List (BitVec w)} {idx : Nat} (inside : idx < words.length) :
    word words idx = words[idx] := by
  rw [word, List.getD_eq_getElem?_getD, List.getElem?_eq_getElem inside, Option.getD_some]

theorem word_of_length_le {words : List (BitVec w)} {idx : Nat} (past : words.length ≤ idx) :
    word words idx = 0 := by
  rw [word, List.getD_eq_getElem?_getD, List.getElem?_eq_none past, Option.getD_none]

@[simp] theorem word_nil (idx : Nat) : word ([] : List (BitVec w)) idx = 0 :=
  word_of_length_le (Nat.zero_le idx)

theorem word_append (front back : List (BitVec w)) (idx : Nat) :
    word (front ++ back) idx =
      if idx < front.length then word front idx else word back (idx - front.length) := by
  simp only [word, List.getD_eq_getElem?_getD, List.getElem?_append]
  split <;> rfl

theorem word_drop (words : List (BitVec w)) (k idx : Nat) :
    word (words.drop k) idx = word words (k + idx) := by
  simp only [word, List.getD_eq_getElem?_getD, List.getElem?_drop]

@[simp] theorem word_replicate_zero (n idx : Nat) :
    word (List.replicate n (0 : BitVec w)) idx = 0 := by
  simp only [word, List.getD_eq_getElem?_getD, List.getElem?_replicate]
  split <;> rfl

theorem word_take (words : List (BitVec w)) (n idx : Nat) :
    word (words.take n) idx = if idx < n then word words idx else 0 := by
  simp only [word, List.getD_eq_getElem?_getD, List.getElem?_take]
  split <;> rfl

theorem word_resize (words : List (BitVec w)) (n idx : Nat) :
    word (resize words n) idx = if idx < n then word words idx else 0 := by
  rw [resize, word_append, word_take, List.length_take]
  by_cases cut : idx < min n words.length
  · rw [if_pos cut, if_pos (by omega)]
  · rw [if_neg cut, word_replicate_zero]
    split
    · exact (word_of_length_le (by omega)).symm
    · rfl

/-- Growing a list pads it with zero words, which read as the missing ones. -/
theorem word_resize_of_le {words : List (BitVec w)} {n : Nat} (longer : words.length ≤ n)
    (idx : Nat) : word (resize words n) idx = word words idx := by
  rw [word_resize]
  split
  · rfl
  · exact (word_of_length_le (by omega)).symm

@[simp] theorem length_resize (words : List (BitVec w)) (n : Nat) : (resize words n).length = n := by
  simp only [resize, List.length_append, List.length_take, List.length_replicate]
  omega

theorem word_modify (words : List (BitVec w)) (f : BitVec w → BitVec w) (idx j : Nat) :
    word (words.modify idx f) j =
      if j = idx ∧ idx < words.length then f (word words idx) else word words j := by
  simp only [word, List.getD_eq_getElem?_getD, List.getElem?_modify]
  by_cases same : j = idx
  · subst same
    by_cases inside : j < words.length
    · simp [inside]
    · simp [inside]
  · simp [Ne.symm same, same]

theorem word_set (words : List (BitVec w)) (v : BitVec w) (idx j : Nat) :
    word (words.set idx v) j = if j = idx ∧ idx < words.length then v else word words j := by
  simp only [word, List.getD_eq_getElem?_getD, List.getElem?_set]
  by_cases same : j = idx
  · subst same
    by_cases inside : j < words.length
    · simp [inside]
    · simp [inside]
  · simp [Ne.symm same, same]

theorem word_zipWith (f : BitVec w → BitVec w → BitVec w) (left right : List (BitVec w))
    (idx : Nat) :
    word (List.zipWith f left right) idx =
      if idx < min left.length right.length then f (word left idx) (word right idx) else 0 := by
  by_cases inside : idx < min left.length right.length
  · have leftIn : idx < left.length := by omega
    have rightIn : idx < right.length := by omega
    rw [if_pos inside, word_eq_getElem (by simpa using inside), word_eq_getElem leftIn,
      word_eq_getElem rightIn, List.getElem_zipWith]
  · rw [if_neg inside, word_of_length_le (by simp; omega)]

/-! ## Two lists combined word by word -/

section Combine

variable (f : BitVec w → BitVec w → BitVec w) (left right : List (BitVec w))

/-- The common words combined, then the rest of `left` from the end of the
shorter list `k`: `left` combined with `right` padded with zeros, when
`f x 0 = x`. -/
theorem word_zipWith_append_drop (keeps : ∀ x, f x 0 = x) {k : Nat}
    (common : min left.length right.length = k) (idx : Nat) :
    word (List.zipWith f left right ++ left.drop k) idx =
      if idx < left.length then f (word left idx) (word right idx) else 0 := by
  subst common
  rw [word_append, word_zipWith, List.length_zipWith, word_drop]
  by_cases within : idx < min left.length right.length
  · rw [if_pos within, if_pos within, if_pos (by omega)]
  · rw [if_neg within, Nat.add_sub_cancel' (by omega)]
    by_cases inLeft : idx < left.length
    · rw [if_pos inLeft, word_of_length_le (show right.length ≤ idx by omega), keeps]
    · rw [if_neg inLeft, word_of_length_le (by omega)]

/-- The common words combined, then the rest of the longer list: both padded
with zeros and combined, when `f x 0 = x` and `f 0 y = y`. -/
theorem word_zipWith_append_drops (keepsLeft : ∀ x, f x 0 = x) (keepsRight : ∀ y, f 0 y = y)
    (idx : Nat) :
    word (List.zipWith f left right ++ left.drop (min left.length right.length) ++
      right.drop (min left.length right.length)) idx = f (word left idx) (word right idx) := by
  rw [word_append, word_zipWith_append_drop f left right keepsLeft rfl, word_drop]
  simp only [List.length_append, List.length_zipWith, List.length_drop]
  by_cases inLeft : idx < left.length
  · rw [if_pos (by omega), if_pos inLeft]
  · rw [if_neg (by omega), word_of_length_le (show left.length ≤ idx by omega), keepsRight]
    by_cases shorter : left.length ≤ right.length
    · congr 1
      omega
    · rw [word_of_length_le (show right.length ≤ idx by omega), word_of_length_le (by omega)]

/-- Combined words read as the words combined, when `f` is zero as soon as one
side is. -/
theorem word_zipWith_of_zero (zeroLeft : ∀ y, f 0 y = 0) (zeroRight : ∀ x, f x 0 = 0)
    (idx : Nat) : word (List.zipWith f left right) idx = f (word left idx) (word right idx) := by
  rw [word_zipWith]
  split
  · rfl
  · by_cases inLeft : idx < left.length
    · rw [word_of_length_le (show right.length ≤ idx by omega), zeroRight]
    · rw [word_of_length_le (show left.length ≤ idx by omega), zeroLeft]

/-- The common words combined, then zeros: both padded with zeros and combined,
when `f` is zero as soon as one side is. -/
theorem word_zipWith_append_zeros (zeroLeft : ∀ y, f 0 y = 0) (zeroRight : ∀ x, f x 0 = 0)
    (n idx : Nat) :
    word (List.zipWith f left right ++ List.replicate n 0) idx =
      f (word left idx) (word right idx) := by
  rw [word_append, ← word_zipWith_of_zero f left right zeroLeft zeroRight]
  split
  · rfl
  · rw [word_replicate_zero, word_of_length_le (by omega)]

end Combine

/-- Cutting off zero words at the end keeps every word. -/
theorem word_rdropWhile_zero (words : List (BitVec w)) (idx : Nat) :
    word (words.rdropWhile (· == 0)) idx = word words idx := by
  induction words using List.reverseRecOn with
  | nil => rfl
  | append_singleton front last ih =>
    rw [List.rdropWhile_concat]
    by_cases zero : last = 0
    · subst zero
      rw [if_pos (beq_self_eq_true _), ih, word_append]
      split
      · rfl
      · rename_i past
        rw [word_of_length_le (by omega)]
        simp only [word, List.getD_eq_getElem?_getD, List.getElem?_singleton]
        split <;> rfl
    · rw [if_neg (by simpa using zero)]

theorem all_eq_zero_iff (words : List (BitVec w)) :
    words.all (· == 0) = true ↔ ∀ idx, word words idx = 0 := by
  rw [List.all_eq_true]
  constructor
  · intro zeros idx
    by_cases inside : idx < words.length
    · rw [word_eq_getElem inside]
      simpa using zeros _ (List.getElem_mem inside)
    · exact word_of_length_le (by omega)
  · intro zeros v member
    obtain ⟨idx, inside, rfl⟩ := List.mem_iff_getElem.mp member
    simpa [← word_eq_getElem inside] using zeros idx

/-! ## Positions -/

theorem any_ne_zero_iff (words : List (BitVec w)) :
    words.any (· != 0) = true ↔ ∃ idx, word words idx ≠ 0 := by
  rw [List.any_eq_true]
  constructor
  · rintro ⟨v, member, nonzero⟩
    obtain ⟨idx, inside, rfl⟩ := List.mem_iff_getElem.mp member
    exact ⟨idx, by simpa [word_eq_getElem inside] using nonzero⟩
  · rintro ⟨idx, nonzero⟩
    by_cases inside : idx < words.length
    · exact ⟨words[idx], List.getElem_mem inside, by simpa [← word_eq_getElem inside] using nonzero⟩
    · exact absurd (word_of_length_le (by omega)) nonzero

theorem bit_congr {left right : List (BitVec w)} (same : ∀ idx, word left idx = word right idx)
    (pos : Nat) : bit left pos = bit right pos := by
  rw [bit, bit, same]

theorem bit_of_length_le (positive : 0 < w) {words : List (BitVec w)} {pos : Nat}
    (past : words.length * w ≤ pos) : bit words pos = false := by
  have beyond : words.length ≤ pos / w := (Nat.le_div_iff_mul_le positive).mpr past
  rw [bit, word_of_length_le beyond]
  simp

theorem bit_cons_of_lt (first : BitVec w) (words : List (BitVec w)) {pos : Nat} (lt : pos < w) :
    bit (first :: words) pos = first.getLsbD pos := by
  simp [bit, word, Nat.div_eq_of_lt lt, Nat.mod_eq_of_lt lt]

theorem bit_cons_add (positive : 0 < w) (first : BitVec w) (words : List (BitVec w)) (pos : Nat) :
    bit (first :: words) (w + pos) = bit words pos := by
  have index : (w + pos) / w = pos / w + 1 := by
    rw [Nat.add_comm, Nat.add_div_right pos positive]
  have offset : (w + pos) % w = pos % w := by
    rw [Nat.add_comm, Nat.add_mod_right]
  simp [bit, word, index, offset]

/-- Position `offset` of word `idx`. -/
theorem bit_word (positive : 0 < w) (words : List (BitVec w)) (idx : Nat) {offset : Nat}
    (lt : offset < w) : bit words (idx * w + offset) = (word words idx).getLsbD offset := by
  have index : (idx * w + offset) / w = idx := by
    rw [Nat.add_comm, Nat.add_mul_div_right _ _ positive, Nat.div_eq_of_lt lt, Nat.zero_add]
  have within : (idx * w + offset) % w = offset := by
    rw [Nat.add_comm, Nat.add_mul_mod_self_right, Nat.mod_eq_of_lt lt]
  rw [bit, index, within]

/-- Two lists with the same positions have the same words. -/
theorem word_eq_of_bit_eq (positive : 0 < w) {left right : List (BitVec w)}
    (same : ∀ pos, bit left pos = bit right pos) (idx : Nat) : word left idx = word right idx := by
  apply BitVec.eq_of_getLsbD_eq
  intro offset lt
  rw [← bit_word positive left idx lt, ← bit_word positive right idx lt, same]

/-! ## Lists without a zero word at the end -/

theorem noTrailingZero_nil : NoTrailingZero ([] : List (BitVec w)) := by
  simp [NoTrailingZero]

theorem noTrailingZero_iff {words : List (BitVec w)} :
    NoTrailingZero words ↔ words = [] ∨ word words (words.length - 1) ≠ 0 := by
  rcases List.eq_nil_or_concat words with empty | ⟨front, last, rfl⟩
  · subst empty
    simp [NoTrailingZero]
  · have lastWord : word (front ++ [last]) front.length = last := by
      rw [word_append, if_neg (Nat.lt_irrefl _), Nat.sub_self]
      rfl
    simp [NoTrailingZero, lastWord]

theorem noTrailingZero_rdropWhile (words : List (BitVec w)) :
    NoTrailingZero (words.rdropWhile (· == 0)) := by
  unfold NoTrailingZero
  intro last
  have nonempty : words.rdropWhile (· == 0) ≠ [] := by
    intro empty
    rw [empty] at last
    cases last
  have kept := List.rdropWhile_last_not (· == 0) words nonempty
  rw [List.getLast?_eq_some_getLast nonempty, Option.some.injEq] at last
  simp only [last, beq_self_eq_true, not_true_eq_false] at kept

/-- A list whose words are the words of two lists or-ed, as long as the longer
one, has no zero word at the end when they have none. -/
theorem noTrailingZero_of_or {left right combined : List (BitVec w)}
    (leftClean : NoTrailingZero left) (rightClean : NoTrailingZero right)
    (length : combined.length = max left.length right.length)
    (words : ∀ idx, word combined idx = word left idx ||| word right idx) :
    NoTrailingZero combined := by
  rw [noTrailingZero_iff, length, words]
  rcases Nat.eq_zero_or_pos combined.length with empty | nonempty
  · exact Or.inl (List.length_eq_zero_iff.mp empty)
  · right
    intro zero
    have both := BitVec.or_eq_zero_iff.mp zero
    by_cases longer : right.length ≤ left.length
    · rw [Nat.max_eq_left longer] at both
      rcases noTrailingZero_iff.mp leftClean with leftEmpty | leftLast
      · rw [leftEmpty, List.length_nil] at longer
        rw [length, leftEmpty, List.length_nil] at nonempty
        omega
      · exact leftLast both.1
    · rw [Nat.max_eq_right (by omega)] at both
      rcases noTrailingZero_iff.mp rightClean with rightEmpty | rightLast
      · rw [rightEmpty] at longer
        simp at longer
      · exact rightLast both.2

/-- A list without a zero word at the end is determined by its words. -/
theorem eq_of_word_eq {left right : List (BitVec w)} (leftClean : NoTrailingZero left)
    (rightClean : NoTrailingZero right) (same : ∀ idx, word left idx = word right idx) :
    left = right := by
  have longer : ∀ {a b : List (BitVec w)}, NoTrailingZero b →
      (∀ idx, word a idx = word b idx) → b.length ≤ a.length := by
    intro a b clean agree
    by_contra shorter
    rcases noTrailingZero_iff.mp clean with empty | nonzero
    · subst empty
      simp at shorter
    · exact nonzero ((agree _).symm.trans (word_of_length_le (by omega)))
  have length : left.length = right.length :=
    Nat.le_antisymm (longer leftClean fun idx => (same idx).symm) (longer rightClean same)
  apply List.ext_getElem length
  intro idx leftIn rightIn
  rw [← word_eq_getElem leftIn, ← word_eq_getElem rightIn, same]

/-- A list without a zero word at the end is determined by its positions. -/
theorem eq_of_bit_eq (positive : 0 < w) {left right : List (BitVec w)}
    (leftClean : NoTrailingZero left) (rightClean : NoTrailingZero right)
    (same : ∀ pos, bit left pos = bit right pos) : left = right :=
  eq_of_word_eq leftClean rightClean (word_eq_of_bit_eq positive same)

theorem eq_nil_iff (positive : 0 < w) {words : List (BitVec w)} (clean : NoTrailingZero words) :
    words = [] ↔ ∀ pos, bit words pos = false := by
  constructor
  · rintro rfl pos
    simp [bit]
  · intro clear
    exact eq_of_bit_eq positive clean noTrailingZero_nil fun pos => by
      rw [clear pos]
      simp [bit]

/-! ## Counting positions -/

/-- The set positions below the length are the set bits of the words. -/
theorem countP_bit (positive : 0 < w) (words : List (BitVec w)) :
    (List.range (words.length * w)).countP (bit words) = (words.map countBits).sum := by
  induction words with
  | nil => simp
  | cons first words ih =>
    have length : (first :: words).length * w = w + words.length * w := by
      rw [List.length_cons, Nat.succ_mul, Nat.add_comm]
    rw [length, List.range_add, List.countP_append, List.countP_map]
    have head : (List.range w).countP (bit (first :: words)) = countBits first := by
      apply List.countP_congr
      intro pos member
      rw [bit_cons_of_lt first words (List.mem_range.mp member)]
    have rest : (List.range (words.length * w)).countP (bit (first :: words) ∘ fun pos => w + pos) =
        (List.range (words.length * w)).countP (bit words) := by
      apply List.countP_congr
      intro pos _
      simp [bit_cons_add positive]
    rw [head, rest, ih, List.map_cons, List.sum_cons]

/-- Comparing two lists of one length element by element decides their equality. -/
theorem all_zipWith_beq_iff {α : Type} [BEq α] [LawfulBEq α] {left right : List α}
    (length : left.length = right.length) :
    (List.zipWith (· == ·) left right).all id = true ↔ left = right := by
  induction left generalizing right with
  | nil =>
    rw [List.length_nil, eq_comm, List.length_eq_zero_iff] at length
    simp [length]
  | cons x left ih =>
    cases right with
    | nil => simp at length
    | cons y right =>
      rw [List.zipWith_cons_cons, List.all_cons, Bool.and_eq_true, id, beq_iff_eq,
        ih (by simpa using length), List.cons.injEq]

end WordBits
