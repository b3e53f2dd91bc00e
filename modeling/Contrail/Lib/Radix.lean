import Mathlib

/-! Numbers written big-endian as lists of digits in a base `b`, and the arithmetic of clearing
their low bits. A mask of the bits from `k` up to `n` of a number below `2 ^ n` clears its low `k`
bits; and clearing the low bits of a number laid out as a front, a digit and a back clears the
back and the low bits of that digit. -/
namespace Radix

/-- The value of big-endian digits in base `b`. -/
def value (b : Nat) (digits : List Nat) : Nat := digits.foldl (fun acc d => acc * b + d) 0

@[simp]
theorem value_append_singleton (b : Nat) (digits : List Nat) (d : Nat) :
    value b (digits ++ [d]) = value b digits * b + d := by
  simp [value, List.foldl_append]

theorem value_append (b : Nat) (front back : List Nat) :
    value b (front ++ back) = value b front * b ^ back.length + value b back := by
  induction back using List.reverseRecOn with
  | nil => simp [value]
  | append_singleton back d ih =>
    rw [← List.append_assoc, value_append_singleton, ih, value_append_singleton,
      List.length_append, List.length_singleton, Nat.pow_succ]
    ring

theorem value_cons (b d : Nat) (digits : List Nat) :
    value b (d :: digits) = d * b ^ digits.length + value b digits := by
  rw [← List.singleton_append, value_append]
  simp [value]

/-- A digit between a front and a back. -/
theorem value_append_cons (b : Nat) (front : List Nat) (d : Nat) (back : List Nat) :
    value b (front ++ d :: back) = (value b front * b + d) * b ^ back.length + value b back := by
  rw [value_append, value_cons, List.length_cons, Nat.pow_succ]
  ring

@[simp]
theorem value_replicate_zero (b n : Nat) : value b (List.replicate n 0) = 0 := by
  induction n with
  | zero => rfl
  | succ n ih => rw [List.replicate_succ', value_append_singleton, ih, Nat.zero_mul]

theorem value_lt {b : Nat} {digits : List Nat} (small : ∀ d ∈ digits, d < b) :
    value b digits < b ^ digits.length := by
  induction digits using List.reverseRecOn with
  | nil => simp [value]
  | append_singleton digits d ih =>
    have front := ih fun x mem => small x (List.mem_append_left _ mem)
    have last := small d (by simp)
    rw [value_append_singleton, List.length_append, List.length_singleton, Nat.pow_succ]
    calc value b digits * b + d < value b digits * b + b := by omega
      _ = (value b digits + 1) * b := by ring
      _ ≤ b ^ digits.length * b := Nat.mul_le_mul_right b front

/-- A mask of the bits from `k` up to `n` keeps them: the number with its low `k` bits cleared. -/
theorem and_two_pow_sub_two_pow {v n k : Nat} (fits : v < 2 ^ n) (le : k ≤ n) :
    v &&& (2 ^ n - 2 ^ k) = v / 2 ^ k * 2 ^ k := by
  have mask : 2 ^ n - 2 ^ k = (2 ^ (n - k) - 1) <<< k := by
    rw [Nat.shiftLeft_eq, Nat.sub_mul, ← Nat.pow_add, Nat.sub_add_cancel le, Nat.one_mul]
  have cleared : v / 2 ^ k * 2 ^ k = v >>> k <<< k := by
    rw [Nat.shiftLeft_eq, Nat.shiftRight_eq_div_pow]
  rw [mask, cleared]
  apply Nat.eq_of_testBit_eq
  intro i
  rw [Nat.testBit_and, Nat.testBit_shiftLeft, Nat.testBit_shiftLeft, Nat.testBit_shiftRight,
    Nat.testBit_two_pow_sub_one]
  by_cases low : k ≤ i
  · rw [Nat.add_sub_cancel' low]
    by_cases high : i < n
    · simp [low, show i - k < n - k by omega]
    · have beyond : v < 2 ^ i := lt_of_lt_of_le fits (Nat.pow_le_pow_right (by decide) (by omega))
      simp [Nat.testBit_lt_two_pow beyond]
  · simp [low]

/-- Clearing the bits below `s + t` of `(a * 2 ^ j + w) * 2 ^ s + l`, where `l` is below
`2 ^ s` and `t ≤ j`, clears `l` and the low `t` bits of `w`. -/
theorem clear_low_bits {a w l j s t : Nat} (low : l < 2 ^ s) (le : t ≤ j) :
    ((a * 2 ^ j + w) * 2 ^ s + l) / 2 ^ (s + t) * 2 ^ (s + t) =
      (a * 2 ^ j + w / 2 ^ t * 2 ^ t) * 2 ^ s := by
  have lower : ((a * 2 ^ j + w) * 2 ^ s + l) / 2 ^ s = a * 2 ^ j + w := by
    rw [Nat.mul_comm, Nat.mul_add_div (Nat.two_pow_pos s), Nat.div_eq_of_lt low, Nat.add_zero]
  have front : a * 2 ^ j = 2 ^ t * (a * 2 ^ (j - t)) := by
    rw [← Nat.mul_assoc, Nat.mul_comm (2 ^ t), Nat.mul_assoc, ← Nat.pow_add, Nat.add_sub_cancel' le]
  have upper : (a * 2 ^ j + w) / 2 ^ t = a * 2 ^ (j - t) + w / 2 ^ t := by
    rw [front, Nat.mul_add_div (Nat.two_pow_pos t)]
  rw [Nat.pow_add, ← Nat.div_div_eq_div_mul, lower, upper, front]
  ring

end Radix
