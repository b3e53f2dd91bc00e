import Mathlib

/-!
# Canonical lists of a finite set

A finite set of a linear order kept as a vector is canonical when the vector is strictly
increasing: then the vector is determined by the set, so two vectors compare equal exactly when
they hold the same elements. Sorting and dropping adjacent repeats makes any list canonical, and
dropping elements or inserting one that is not there, then sorting, keeps a list canonical.
-/

namespace Contrail

variable {α : Type} [LinearOrder α] {l l' : List α}

/-- Strictly increasing. -/
def Canonical (l : List α) : Prop := l.Pairwise (· < ·)

/-- `std::sort`, then `std::unique` and `erase` of what it leaves at the end. -/
def sortUnique (l : List α) : List α := (l.mergeSort (· ≤ ·)).destutter (· ≠ ·)

theorem canonical_of_sorted_nodup (sorted : l.Pairwise (· ≤ ·)) (nodup : l.Nodup) : Canonical l :=
  (sorted.and nodup).imp fun ⟨le, ne⟩ => lt_of_le_of_ne le ne

theorem Canonical.nodup (canonical : Canonical l) : l.Nodup :=
  canonical.imp ne_of_lt

theorem sortUnique_eq_dedup (l : List α) : sortUnique l = (l.mergeSort (· ≤ ·)).dedup :=
  (List.pairwise_mergeSort' (· ≤ ·) l).destutter_eq_dedup

theorem canonical_sortUnique (l : List α) : Canonical (sortUnique l) := by
  rw [sortUnique_eq_dedup]
  exact canonical_of_sorted_nodup (((List.pairwise_mergeSort' (· ≤ ·) l)).sublist (List.dedup_sublist _))
    (List.nodup_dedup _)

@[simp]
theorem mem_sortUnique {a : α} : a ∈ sortUnique l ↔ a ∈ l := by
  rw [sortUnique_eq_dedup, List.mem_dedup, List.mem_mergeSort]

@[simp]
theorem toFinset_sortUnique (l : List α) : (sortUnique l).toFinset = l.toFinset := by
  ext a
  simp

/-- Sorting a list without repeats makes it canonical. -/
theorem canonical_mergeSort (nodup : l.Nodup) : Canonical (l.mergeSort (· ≤ ·)) :=
  canonical_of_sorted_nodup (List.pairwise_mergeSort' (· ≤ ·) l)
    ((List.mergeSort_perm l _).nodup_iff.mpr nodup)

theorem Canonical.filter (canonical : Canonical l) (p : α → Bool) : Canonical (l.filter p) :=
  canonical.sublist List.filter_sublist

/-- A canonical list is determined by its elements. -/
theorem Canonical.eq_of_toFinset_eq (canonical : Canonical l) (canonical' : Canonical l')
    (same : l.toFinset = l'.toFinset) : l = l' :=
  List.Pairwise.eq_of_mem_iff canonical canonical' fun a => by
    rw [← List.mem_toFinset, same, List.mem_toFinset]

end Contrail
