import Mathlib

/-! Counting the members of a list that satisfy a predicate, when the
predicate changes at one value only: the count of a table that keeps one
counter for a property of its members, kept up to date by each update. -/
namespace ListCount

variable {α : Type*}

/-- Where the predicates agree off `a`, they count the same on a list without `a`. -/
theorem countP_of_not_mem {l : List α} {a : α} (absent : a ∉ l) {p q : α → Bool}
    (same : ∀ x, x ≠ a → q x = p x) : l.countP q = l.countP p :=
  List.countP_congr fun x mem => by
    rw [same x (by rintro rfl; exact absent mem)]

/-- Changing the predicate at one member of a duplicate-free list changes the
count by that member's contribution. -/
theorem countP_of_update [DecidableEq α] {l : List α} (nodup : l.Nodup) {a : α} (mem : a ∈ l) {p q : α → Bool}
    (same : ∀ x, x ≠ a → q x = p x) :
    (l.countP q : Int) = l.countP p - (if p a then 1 else 0) + (if q a then 1 else 0) := by
  have perm := List.perm_cons_erase mem
  have rest : (l.erase a).countP q = (l.erase a).countP p :=
    countP_of_not_mem (nodup.not_mem_erase) same
  rw [perm.countP_eq q, perm.countP_eq p, List.countP_cons, List.countP_cons, rest]
  split_ifs <;> omega

end ListCount
