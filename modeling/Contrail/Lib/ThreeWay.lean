import Mathlib

/-! Three-way comparisons in the C idiom: an `Int` that is negative, zero or
positive, built by chaining key comparisons and stopping at the first one that
decides. A comparison that ranks a set of values by a key into a linear order
is a strict weak order there, and a stable merge sort by it orders the keys,
so its first element is determined up to equivalence by the multiset sorted. -/
namespace ThreeWay

variable {α β : Type*}

/-- Compare two keys with `<` only: `-1`, `1`, or `0` when neither is smaller. -/
def keyCompare [LinearOrder β] (x y : β) : Int :=
  if x < y then -1 else if y < x then 1 else 0

/-- Continue with `rest` only when `first` did not decide. -/
def andThen (first rest : Int) : Int :=
  if first = 0 then rest else first

/-- The `True is better` comparison of two conditions. -/
def boolCompare (a b : Bool) : Int :=
  if a then (if !b then -1 else 0) else (if b then 1 else 0)

section Keys

variable [LinearOrder β]

@[simp] theorem keyCompare_self (x : β) : keyCompare x x = 0 := by
  simp [keyCompare]

theorem keyCompare_neg_iff {x y : β} : keyCompare x y < 0 ↔ x < y := by
  unfold keyCompare
  split_ifs with hlt hgt <;> simp_all

theorem keyCompare_eq_zero_iff {x y : β} : keyCompare x y = 0 ↔ x = y := by
  unfold keyCompare
  split_ifs with hlt hgt
  · exact ⟨fun h => absurd h (by decide), fun h => absurd h hlt.ne⟩
  · exact ⟨fun h => absurd h (by decide), fun h => absurd h.symm hgt.ne⟩
  · exact ⟨fun _ => le_antisymm (not_lt.mp hgt) (not_lt.mp hlt), fun _ => rfl⟩

/-- A chain of key comparisons is the comparison of the keys as a list. -/
theorem keyCompare_cons (x y : β) (xs ys : List β) :
    keyCompare (x :: xs) (y :: ys) = andThen (keyCompare x y) (keyCompare xs ys) := by
  unfold keyCompare andThen
  by_cases hxy : x < y
  · have hyx : ¬y < x := lt_asymm hxy
    simp [List.cons_lt_cons_iff, hxy]
  · by_cases hyx : y < x
    · simp [List.cons_lt_cons_iff, hxy, hyx, hyx.ne']
    · have heq : x = y := le_antisymm (not_lt.mp hyx) (not_lt.mp hxy)
      subst heq
      simp only [List.cons_lt_cons_iff, lt_irrefl, true_and, false_or, ite_false, if_true]
      -- the list order's decidability instance differs from the linear order's
      split_ifs <;> rfl

@[simp] theorem keyCompare_nil : keyCompare ([] : List β) [] = 0 := keyCompare_self _

end Keys

@[simp] theorem andThen_zero (rest : Int) : andThen 0 rest = rest := by
  simp [andThen]

@[simp] theorem boolCompare_self (a : Bool) : boolCompare a a = 0 := by
  cases a <;> decide

theorem boolCompare_eq_keyCompare (a b : Bool) :
    boolCompare a b = keyCompare (if a then (0 : Int) else 1) (if b then 0 else 1) := by
  cases a <;> cases b <;> decide

theorem keyCompare_bool (a b : Bool) :
    keyCompare a b = keyCompare (if a then (1 : Int) else 0) (if b then 1 else 0) := by
  cases a <;> cases b <;> decide

theorem keyCompare_natCast (x y : Nat) : keyCompare x y = keyCompare (x : Int) (y : Int) := by
  simp [keyCompare]

/-- Comparing `y` with `x` is comparing the negated keys the other way. -/
theorem keyCompare_reverse (x y : Nat) :
    keyCompare y x = keyCompare (-(x : Int)) (-(y : Int)) := by
  simp [keyCompare]

/-- `cmp` ranks the values of `S` by `key`: on `S` it is `keyCompare` of the keys. -/
def RanksOn [LinearOrder β] (cmp : α → α → Int) (key : α → β) (S : Set α) : Prop :=
  ∀ a ∈ S, ∀ b ∈ S, cmp a b = keyCompare (key a) (key b)

section Ranks

variable [LinearOrder β] {cmp : α → α → Int} {key : α → β} {S : Set α}

theorem RanksOn.neg_iff (ranks : RanksOn cmp key S) {a b : α} (ha : a ∈ S) (hb : b ∈ S) :
    cmp a b < 0 ↔ key a < key b := by
  rw [ranks a ha b hb, keyCompare_neg_iff]

theorem RanksOn.eq_zero_iff (ranks : RanksOn cmp key S) {a b : α} (ha : a ∈ S) (hb : b ∈ S) :
    cmp a b = 0 ↔ key a = key b := by
  rw [ranks a ha b hb, keyCompare_eq_zero_iff]

/-- On a set it ranks, `cmp · · < 0` is a strict weak order. -/
theorem RanksOn.isStrictWeakOrder (ranks : RanksOn cmp key S) :
    IsStrictWeakOrder S (fun a b => cmp a b < 0) := by
  have same : (fun a b : S => cmp a b < 0) = (fun a b : S => key a < key b) := by
    funext a b
    exact propext (ranks.neg_iff a.2 b.2)
  have linear : IsStrictWeakOrder β (· < ·) := isStrictWeakOrder_of_isOrderConnected
  rw [same]
  exact inferInstanceAs (IsStrictWeakOrder S (Order.Preimage (fun a : S => key a) (· < ·)))

/-- A relation with a cycle of three is not a strict weak order. -/
theorem not_isStrictWeakOrder_of_cycle {r : α → α → Prop} {a b c : α}
    (hab : r a b) (hbc : r b c) (hca : r c a) : ¬IsStrictWeakOrder α r := by
  intro order
  have hac : r a c := order.trans a b c hab hbc
  exact order.irrefl a (order.trans a c a hac hca)

end Ranks

/-- Stable merge sort by the strict comparison `cmp · · < 0`: an element of the
second run goes first only when it is strictly smaller. -/
def sortBy (cmp : α → α → Int) (l : List α) : List α :=
  l.mergeSort (fun a b => !decide (cmp b a < 0))

section Sorting

variable [LinearOrder β] {cmp : α → α → Int} {key : α → β} {S : Set α}

theorem sortBy_perm (cmp : α → α → Int) (l : List α) : (sortBy cmp l).Perm l :=
  List.mergeSort_perm _ _

/-- Sorting by a ranking comparison sorts the keys. -/
theorem RanksOn.map_sortBy (ranks : RanksOn cmp key S) {l : List α} (hl : ∀ a ∈ l, a ∈ S) :
    (sortBy cmp l).map key = (l.map key).mergeSort (fun x y => decide (x ≤ y)) := by
  apply List.map_mergeSort
  intro a ha b hb
  rw [Bool.eq_iff_iff]
  simp [ranks.neg_iff (hl b hb) (hl a ha), not_lt]

/-- Merge sort by `≤` sorts. -/
theorem pairwise_mergeSort_le (m : List β) :
    (m.mergeSort (fun x y => decide (x ≤ y))).Pairwise (· ≤ ·) := by
  have sortedBool : (m.mergeSort (fun x y => decide (x ≤ y))).Pairwise
      (fun x y => decide (x ≤ y)) :=
    List.pairwise_mergeSort
      (fun a b c hab hbc => by simp only [decide_eq_true_eq] at *; exact hab.trans hbc)
      (fun a b => by simpa using le_total a b) m
  simpa using sortedBool

/-- Sorting by a ranking comparison leaves the keys sorted. -/
theorem RanksOn.sortBy_sorted (ranks : RanksOn cmp key S) {l : List α} (hl : ∀ a ∈ l, a ∈ S) :
    ((sortBy cmp l).map key).Pairwise (· ≤ ·) := by
  rw [ranks.map_sortBy hl]
  exact pairwise_mergeSort_le _

end Sorting

end ThreeWay
