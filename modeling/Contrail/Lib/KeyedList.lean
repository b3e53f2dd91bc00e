import Contrail.Lib.ListOrder
import Mathlib

/-! An ordered set of values kept as a list sorted by a key, as an intrusive
tree with a key comparison keeps it: a value is inserted before the first one
of a larger key, and not at all when one of the same key is there; an
iterator walks to the value after the one it is at. The key of a value is
read when the set compares it, so it is a function and not stored. -/
namespace KeyedList

open ListOrder

variable {α β : Type*} [LinearOrder β]

/-- Insert `x` unless a value of the same key is there. -/
def insertUnique (key : α → β) (x : α) : List α → List α
  | [] => [x]
  | y :: ys =>
    if key x < key y then x :: y :: ys
    else if key y < key x then y :: insertUnique key x ys
    else y :: ys

/-- The value after `x`, where an iterator at `x` moves to. -/
def next [DecidableEq α] (x : α) : List α → Option α
  | [] => none
  | y :: ys => if y = x then ys.head? else next x ys

/-- The order the tree keeps its values in: by key, no two of one key. -/
def Sorted (key : α → β) (l : List α) : Prop := l.Pairwise fun a b => key a < key b

/-- The values an iterator at `it` still visits: the one there and those after it. -/
def remaining [DecidableEq α] (l : List α) : Option α → Nat
  | none => 0
  | some x => (after x l).length + 1

section Order

variable {key : α → β}

theorem Sorted.nodup {key : α → β} {l : List α} (sorted : Sorted key l) : l.Nodup :=
  sorted.imp fun lt => by
    rintro rfl
    exact lt_irrefl _ lt

/-- The order holds under another key that agrees on the values. -/
theorem Sorted.congr {key' : α → β} {l : List α} (sorted : Sorted key l) (same : ∀ z ∈ l, key' z = key z) :
    Sorted key' l :=
  sorted.imp_of_mem fun {a b} memA memB lt => by rwa [same a memA, same b memB]

end Order

section Insert

variable (key : α → β) (x : α)

theorem mem_insertUnique {y : α} {l : List α} (mem : y ∈ insertUnique key x l) : y = x ∨ y ∈ l := by
  induction l with
  | nil => simpa [insertUnique] using mem
  | cons z zs ih =>
    simp only [insertUnique] at mem
    split_ifs at mem
    · simpa using mem
    · rcases List.mem_cons.mp mem with rfl | mem
      · exact .inr List.mem_cons_self
      · rcases ih mem with rfl | mem
        · exact .inl rfl
        · exact .inr (List.mem_cons_of_mem z mem)
    · exact .inr mem

theorem subset_insertUnique (l : List α) : l ⊆ insertUnique key x l := by
  induction l with
  | nil => exact List.nil_subset _
  | cons z zs ih =>
    simp only [insertUnique]
    split_ifs
    · exact List.subset_cons_of_subset x (List.Subset.refl _)
    · exact List.cons_subset_cons z ih
    · exact List.Subset.refl _

theorem length_insertUnique_le (l : List α) : (insertUnique key x l).length ≤ l.length + 1 := by
  induction l with
  | nil => simp [insertUnique]
  | cons z zs ih =>
    simp only [insertUnique]
    split_ifs <;> simp [ih]

theorem Sorted.insertUnique {l : List α} (sorted : Sorted key l) : Sorted key (insertUnique key x l) := by
  induction l with
  | nil => simp [KeyedList.insertUnique, Sorted]
  | cons z zs ih =>
    obtain ⟨least, rest⟩ := List.pairwise_cons.mp sorted
    simp only [KeyedList.insertUnique]
    split_ifs with below above
    · refine List.pairwise_cons.mpr ⟨?_, sorted⟩
      intro y mem
      rcases List.mem_cons.mp mem with rfl | mem
      · exact below
      · exact below.trans (least y mem)
    · refine List.pairwise_cons.mpr ⟨fun y mem => ?_, ih rest⟩
      rcases mem_insertUnique key x mem with rfl | mem
      · exact above
      · exact least y mem
    · exact sorted

variable [DecidableEq α]

/-- An insertion under a key no larger than that of `y` leaves what follows `y` alone. -/
theorem after_insertUnique {l : List α} (sorted : Sorted key l) {y : α} (mem : y ∈ l) (le : key x ≤ key y) :
    after y (insertUnique key x l) = after y l := by
  induction l with
  | nil => cases mem
  | cons z zs ih =>
    obtain ⟨least, rest⟩ := List.pairwise_cons.mp sorted
    -- `z` comes no later than `y`, so its key is at most that of `y`
    have first : key z ≤ key y := by
      rcases List.mem_cons.mp mem with rfl | mem
      · exact le_rfl
      · exact (least y mem).le
    simp only [KeyedList.insertUnique]
    split_ifs with below above
    · have ne : x ≠ y := fun same => absurd (below.trans_le first) (same ▸ lt_irrefl (key x))
      rw [after_cons, if_neg ne]
    · have ne : z ≠ y := fun same => absurd (above.trans_le le) (same ▸ lt_irrefl (key z))
      have mem' : y ∈ zs := (List.mem_cons.mp mem).resolve_left (Ne.symm ne)
      rw [after_cons, after_cons, if_neg ne, if_neg ne, ih rest mem']
    · rfl

theorem length_after_insertUnique_le (l : List α) {y : α} (ne : x ≠ y) :
    (after y (insertUnique key x l)).length ≤ (after y l).length + 1 := by
  induction l with
  | nil => simp [KeyedList.insertUnique, after, ne]
  | cons z zs ih =>
    simp only [KeyedList.insertUnique]
    split_ifs
    · rw [after_cons y x, if_neg ne]
      exact Nat.le_succ _
    · rw [after_cons, after_cons]
      split_ifs
      · exact length_insertUnique_le key x zs
      · exact ih
    · exact Nat.le_succ _

end Insert

section Iterator

variable [DecidableEq α]

theorem next_eq_head?_after (x : α) (l : List α) : next x l = (after x l).head? := by
  induction l with
  | nil => rfl
  | cons y ys ih =>
    rw [next, after_cons]
    split_ifs
    · rfl
    · exact ih

theorem Sorted.lt_of_before {key : α → β} {l : List α} (sorted : Sorted key l) {a b : α} (before : Before l a b) :
    key a < key b := by
  induction l with
  | nil => simp [Before, after] at before
  | cons z zs ih =>
    obtain ⟨least, rest⟩ := List.pairwise_cons.mp sorted
    rcases before_cons_iff.mp before with ⟨rfl, mem⟩ | ⟨-, before⟩
    · exact least b mem
    · exact ih rest before

theorem Sorted.erase {key : α → β} {l : List α} (sorted : Sorted key l) (x : α) : Sorted key (l.erase x) :=
  sorted.sublist (List.erase_sublist)

/-- Erasing another value than the first keeps the first. -/
theorem head?_erase_of_ne {l : List α} {x : α} (first : l.head? ≠ some x) : (l.erase x).head? = l.head? := by
  cases l with
  | nil => rfl
  | cons y ys =>
    have ne : y ≠ x := fun same => first (by rw [same, List.head?_cons])
    rw [List.erase_cons_tail (by simpa using ne)]
    rfl

theorem next_mem_erase {l : List α} (nodup : l.Nodup) {x y : α} (next : next x l = some y) : y ∈ l.erase x := by
  rw [next_eq_head?_after] at next
  have before : Before l x y := List.mem_of_mem_head? next
  exact (List.mem_erase_of_ne (before.ne nodup).symm).mpr before.mem_right

theorem remaining_head? (l : List α) : remaining l l.head? = l.length := by
  cases l with
  | nil => rfl
  | cons y ys => simp [remaining, after]

/-- A pass of an iterator, which erases the value it was at, leaves one value fewer to visit. -/
theorem remaining_next {l : List α} (nodup : l.Nodup) {x : α} (mem : x ∈ l) :
    remaining (l.erase x) (next x l) + 1 = remaining l (some x) := by
  obtain ⟨A, absent, split⟩ := exists_append_cons mem
  rw [next_eq_head?_after]
  generalize after x l = B at split
  subst split
  have erased : (A ++ x :: B).erase x = A ++ B := by
    rw [List.erase_append_right _ absent, List.erase_cons_head]
  rw [erased]
  cases B with
  | nil => simp [remaining, after_append_cons absent]
  | cons b B =>
    have notA : b ∉ A := fun memA => by
      have := (List.nodup_append.mp nodup).2.2 b memA b (List.mem_cons_of_mem x List.mem_cons_self)
      exact this rfl
    simp [remaining, after_append_cons absent, after_append_cons notA]

theorem remaining_insertUnique (key : α → β) (x : α) {l : List α} (sorted : Sorted key l) {it : Option α}
    (ahead : ∀ y ∈ it, y ∈ l ∧ key x ≤ key y) : remaining (insertUnique key x l) it = remaining l it := by
  cases it with
  | none => rfl
  | some y =>
    obtain ⟨mem, le⟩ := ahead y rfl
    simp only [remaining, after_insertUnique key x sorted mem le]

theorem remaining_insertUnique_le (key : α → β) (x : α) (l : List α) {it : Option α}
    (ne : ∀ y ∈ it, x ≠ y) :
    remaining (insertUnique key x l) it ≤ remaining l it + 1 := by
  cases it with
  | none => exact Nat.zero_le _
  | some y =>
    simp only [remaining]
    have := length_after_insertUnique_le key x l (ne y rfl)
    omega

end Iterator

end KeyedList
