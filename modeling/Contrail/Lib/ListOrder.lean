import Mathlib

/-! Positions in a list: the members after a given one, one member standing
before another, and inserting a member next to a given one. The list of an
intrusive doubly linked list, whose iterators are taken from its members, is
such a list without repetitions. -/
namespace ListOrder

variable {α : Type*} [DecidableEq α]

/-- The members after the first `a`; none if `a` is absent. -/
def after (a : α) : List α → List α
  | [] => []
  | x :: xs => if x = a then xs else after a xs

/-- `a` stands before `b` in `l`. -/
def Before (l : List α) (a b : α) : Prop := b ∈ after a l

instance (l : List α) (a b : α) : Decidable (Before l a b) :=
  inferInstanceAs (Decidable (b ∈ after a l))

/-- Insert `b` after the first `a`, past the members right after it that
`skip` holds of. -/
def insertAfter (skip : α → Bool) (a b : α) : List α → List α
  | [] => []
  | x :: xs => if x = a then x :: (xs.takeWhile skip ++ b :: xs.dropWhile skip)
    else x :: insertAfter skip a b xs

/-- Insert `b` right before the first `a`. -/
def insertBefore (a b : α) : List α → List α
  | [] => []
  | x :: xs => if x = a then b :: x :: xs else x :: insertBefore a b xs

section After

theorem after_cons (a x : α) (xs : List α) :
    after a (x :: xs) = if x = a then xs else after a xs := rfl

theorem after_append_cons {A B : List α} {a : α} (absent : a ∉ A) : after a (A ++ a :: B) = B := by
  induction A with
  | nil => simp [after_cons]
  | cons x A ih =>
    have ne : x ≠ a := fun same => absent (same ▸ List.mem_cons_self)
    rw [List.cons_append, after_cons, if_neg ne, ih (fun mem => absent (List.mem_cons_of_mem x mem))]

theorem after_of_not_mem {l : List α} {a : α} (absent : a ∉ l) : after a l = [] := by
  induction l with
  | nil => rfl
  | cons x xs ih =>
    have ne : x ≠ a := fun same => absent (same ▸ List.mem_cons_self)
    rw [after_cons, if_neg ne, ih (fun mem => absent (List.mem_cons_of_mem x mem))]

theorem after_suffix (a : α) (l : List α) : after a l <:+ l := by
  induction l with
  | nil => exact List.suffix_refl []
  | cons x xs ih =>
    rw [after_cons]
    split
    · exact List.suffix_cons x xs
    · exact ih.trans (List.suffix_cons x xs)

theorem mem_of_mem_after {l : List α} {a b : α} (mem : b ∈ after a l) : b ∈ l :=
  (after_suffix a l).subset mem

theorem after_append (a : α) (l₁ l₂ : List α) :
    after a (l₁ ++ l₂) = if a ∈ l₁ then after a l₁ ++ l₂ else after a l₂ := by
  induction l₁ with
  | nil => simp
  | cons x xs ih =>
    rw [List.cons_append, after_cons, after_cons, ih]
    by_cases same : x = a
    · simp [same]
    · simp [same, Ne.symm same]

/-- The first `a` of a list splits it. -/
theorem exists_append_cons {l : List α} {a : α} (present : a ∈ l) :
    ∃ A, a ∉ A ∧ l = A ++ a :: after a l := by
  induction l with
  | nil => cases present
  | cons x xs ih =>
    by_cases same : x = a
    · exact ⟨[], List.not_mem_nil, by rw [after_cons, if_pos same, same]; rfl⟩
    · obtain ⟨A, absent, split⟩ := ih ((List.mem_cons.mp present).resolve_left (Ne.symm same))
      refine ⟨x :: A, ?_, ?_⟩
      · rintro (_ | ⟨_, mem⟩)
        · exact same rfl
        · exact absent mem
      · rw [after_cons, if_neg same, List.cons_append, ← split]

/-- Dropping members leaves fewer members after `a`. -/
theorem after_sublist {l' l : List α} (sub : l'.Sublist l) (a : α) : (after a l').Sublist (after a l) := by
  induction sub with
  | slnil => exact List.Sublist.slnil
  | cons x sub ih =>
    rw [after_cons]
    split
    · exact (after_suffix a _).sublist.trans sub
    · exact ih
  | cons_cons x sub ih =>
    rw [after_cons, after_cons]
    split
    · exact sub
    · exact ih

end After

section Before

theorem before_cons_iff {x a b : α} {xs : List α} :
    Before (x :: xs) a b ↔ (x = a ∧ b ∈ xs) ∨ (x ≠ a ∧ Before xs a b) := by
  unfold Before
  rw [after_cons]
  by_cases same : x = a <;> simp [same]

theorem Before.mem_left {l : List α} {a b : α} (before : Before l a b) : a ∈ l := by
  by_contra absent
  simp [Before, after_of_not_mem absent] at before

theorem Before.mem_right {l : List α} {a b : α} (before : Before l a b) : b ∈ l :=
  mem_of_mem_after before

/-- In a list without repetitions, the members before `b` are those of the
prefix that ends at it. -/
theorem before_before_iff_mem {P S : List α} {b x : α} (nodup : (P ++ b :: S).Nodup) :
    Before (P ++ b :: S) x b ↔ x ∈ P := by
  induction P with
  | nil =>
    have fresh : b ∉ S := (List.nodup_cons.mp nodup).1
    simp only [List.nil_append, before_cons_iff, List.not_mem_nil, iff_false]
    rintro (⟨_, mem⟩ | ⟨_, before⟩)
    · exact fresh mem
    · exact fresh before.mem_right
  | cons y P ih =>
    rw [List.cons_append, before_cons_iff, ih (List.nodup_cons.mp nodup).2, List.mem_cons]
    constructor
    · rintro (⟨rfl, _⟩ | ⟨_, mem⟩)
      · exact .inl rfl
      · exact .inr mem
    · rintro (rfl | mem)
      · exact .inl ⟨rfl, List.mem_append_right _ List.mem_cons_self⟩
      · by_cases same : y = x
        · exact .inl ⟨same, List.mem_append_right _ List.mem_cons_self⟩
        · exact .inr ⟨same, mem⟩

theorem before_iff_append {l : List α} {a b : α} :
    Before l a b ↔ ∃ A B, l = A ++ a :: B ∧ b ∈ B := by
  constructor
  · intro before
    obtain ⟨A, _, split⟩ := exists_append_cons before.mem_left
    exact ⟨A, after a l, split, before⟩
  · rintro ⟨A, B, rfl, mem⟩
    induction A with
    | nil => simpa [Before, after_cons] using mem
    | cons x A ih =>
      rw [List.cons_append, before_cons_iff]
      by_cases same : x = a
      · exact .inl ⟨same, List.mem_append_right _ (List.mem_cons_of_mem a mem)⟩
      · exact .inr ⟨same, ih⟩

theorem before_append_cons {A B : List α} {a b : α} (absent : a ∉ A) :
    Before (A ++ a :: B) a b ↔ b ∈ B := by
  unfold Before
  rw [after_append_cons absent]

theorem before_append_singleton_iff {l : List α} {a b c : α} :
    Before (l ++ [c]) a b ↔ Before l a b ∨ (a ∈ l ∧ b = c) := by
  unfold Before
  rw [after_append]
  by_cases present : a ∈ l
  · simp [present]
  · simp [present, after_of_not_mem present, after]

/-- Of two members, one stands before the other. -/
theorem before_or_before {l : List α} {a b : α} (memA : a ∈ l) (memB : b ∈ l) (ne : a ≠ b) :
    Before l a b ∨ Before l b a := by
  induction l with
  | nil => cases memA
  | cons x xs ih =>
    simp only [before_cons_iff]
    by_cases atA : x = a
    · subst atA
      exact .inl (.inl ⟨rfl, (List.mem_cons.mp memB).resolve_left (Ne.symm ne)⟩)
    by_cases atB : x = b
    · subst atB
      exact .inr (.inl ⟨rfl, (List.mem_cons.mp memA).resolve_left ne⟩)
    rcases ih ((List.mem_cons.mp memA).resolve_left (Ne.symm atA))
        ((List.mem_cons.mp memB).resolve_left (Ne.symm atB)) with first | first
    · exact .inl (.inr ⟨atA, first⟩)
    · exact .inr (.inr ⟨atB, first⟩)

variable {l : List α}

theorem Before.ne (nodup : l.Nodup) {a b : α} (before : Before l a b) : a ≠ b := by
  rintro rfl
  obtain ⟨A, B, rfl, mem⟩ := before_iff_append.mp before
  have := (List.nodup_append.mp nodup).2.1
  exact (List.nodup_cons.mp this).1 mem

theorem Before.asymm (nodup : l.Nodup) {a b : α} (before : Before l a b) : ¬ Before l b a := by
  induction l with
  | nil => cases before.mem_left
  | cons x xs ih =>
    obtain ⟨fresh, nodup⟩ := List.nodup_cons.mp nodup
    rw [before_cons_iff] at before ⊢
    rintro (⟨rfl, memA⟩ | ⟨atB, later⟩)
    · rcases before with ⟨rfl, _⟩ | ⟨_, earlier⟩
      · exact fresh memA
      · exact fresh earlier.mem_right
    · rcases before with ⟨rfl, _⟩ | ⟨_, earlier⟩
      · exact fresh later.mem_right
      · exact ih nodup earlier later

theorem Before.trans (nodup : l.Nodup) {a b c : α} (first : Before l a b) (second : Before l b c) :
    Before l a c := by
  induction l with
  | nil => cases first.mem_left
  | cons x xs ih =>
    obtain ⟨fresh, nodup⟩ := List.nodup_cons.mp nodup
    rw [before_cons_iff] at first second ⊢
    rcases first with ⟨rfl, memB⟩ | ⟨atA, first⟩
    · rcases second with ⟨rfl, _⟩ | ⟨_, second⟩
      · exact absurd memB fresh
      · exact .inl ⟨rfl, second.mem_right⟩
    · rcases second with ⟨rfl, _⟩ | ⟨_, second⟩
      · exact absurd first.mem_right fresh
      · exact .inr ⟨atA, ih nodup first second⟩

/-- In a list without repetitions, a member after `a` and what follows it
end what follows `a`. -/
theorem Before.cons_after_suffix (nodup : l.Nodup) {a b : α} (before : Before l a b) :
    (b :: after b l) <:+ after a l := by
  obtain ⟨A, -, splitA⟩ := exists_append_cons before.mem_left
  obtain ⟨C, -, splitC⟩ := exists_append_cons before
  generalize after b (after a l) = D at splitC
  have whole : l = (A ++ a :: C) ++ b :: D := by
    rw [splitA, splitC]
    simp
  have absent : b ∉ A ++ a :: C := fun mem =>
    List.disjoint_of_nodup_append (whole ▸ nodup) mem List.mem_cons_self
  have afterB : after b l = D := by
    rw [whole, after_append_cons absent]
  rw [afterB, splitC]
  exact List.suffix_append C (b :: D)

/-- Dropping members keeps the order of the others. -/
theorem Before.of_sublist {l' : List α} (sub : l'.Sublist l) (nodup : l.Nodup) {a b : α}
    (before : Before l' a b) : Before l a b := by
  induction sub with
  | slnil => exact before
  | cons x sub ih =>
    obtain ⟨fresh, nodup⟩ := List.nodup_cons.mp nodup
    have earlier := ih nodup before
    have atA : x ≠ a := by
      rintro rfl
      exact fresh earlier.mem_left
    exact before_cons_iff.mpr (.inr ⟨atA, earlier⟩)
  | cons_cons x sub ih =>
    obtain ⟨_, nodup⟩ := List.nodup_cons.mp nodup
    rcases before_cons_iff.mp before with ⟨rfl, mem⟩ | ⟨atA, earlier⟩
    · exact before_cons_iff.mpr (.inl ⟨rfl, sub.subset mem⟩)
    · exact before_cons_iff.mpr (.inr ⟨atA, ih nodup earlier⟩)

theorem Before.to_sublist {l' : List α} (sub : l'.Sublist l) (nodup : l.Nodup) {a b : α}
    (before : Before l a b) (memA : a ∈ l') (memB : b ∈ l') : Before l' a b := by
  rcases before_or_before memA memB (before.ne nodup) with kept | swapped
  · exact kept
  · exact absurd (swapped.of_sublist sub nodup) (before.asymm nodup)

theorem before_erase_iff (nodup : l.Nodup) {a b c : α} :
    Before (l.erase c) a b ↔ Before l a b ∧ a ≠ c ∧ b ≠ c := by
  have sub := l.erase_sublist (a := c)
  constructor
  · intro before
    have absent := nodup.not_mem_erase (a := c)
    refine ⟨before.of_sublist sub nodup, ?_, ?_⟩
    · rintro rfl
      exact absent before.mem_left
    · rintro rfl
      exact absent before.mem_right
  · rintro ⟨before, atA, atB⟩
    exact before.to_sublist sub nodup ((nodup.mem_erase_iff).mpr ⟨atA, before.mem_left⟩)
      ((nodup.mem_erase_iff).mpr ⟨atB, before.mem_right⟩)

/-- The first member after `a` is the next one: what follows `a` is it and
what follows it. -/
theorem before_iff_of_after_eq_cons (nodup : l.Nodup) {a b : α} {rest : List α}
    (next : after a l = b :: rest) {c : α} : Before l a c ↔ c = b ∨ Before l b c := by
  have present : a ∈ l := by
    by_contra absent
    rw [after_of_not_mem absent] at next
    cases next
  obtain ⟨A, absent, split⟩ := exists_append_cons present
  rw [next] at split
  have regroup : l = (A ++ [a]) ++ b :: rest := by rw [split]; simp
  have freshB : b ∉ A ++ [a] := by
    rw [regroup] at nodup
    exact fun mem => (List.nodup_append.mp nodup).2.2 b mem b List.mem_cons_self rfl
  unfold Before
  rw [next, regroup, after_append_cons freshB, List.mem_cons]

/-- What stands before the next member after `a` is `a` and what stands
before `a`. -/
theorem before_next_iff (nodup : l.Nodup) {a b : α} {rest : List α} (next : after a l = b :: rest) {c : α} :
    Before l c b ↔ c = a ∨ Before l c a := by
  have atB : Before l a b := by
    unfold Before
    rw [next]
    exact List.mem_cons_self
  constructor
  · intro before
    by_cases same : c = a
    · exact .inl same
    · rcases before_or_before before.mem_left atB.mem_left same with earlier | later
      · exact .inr earlier
      · rcases (before_iff_of_after_eq_cons nodup next).mp later with same' | past
        · exact absurd same' (before.ne nodup)
        · exact absurd past (before.asymm nodup)
  · rintro (rfl | earlier)
    · exact atB
    · exact earlier.trans nodup atB

/-- A member past the first `b` after `a` stands after `b`. -/
theorem before_of_after_eq_append (nodup : l.Nodup) {a b c : α} {P S : List α}
    (split : after a l = P ++ b :: S) (mem : c ∈ S) : Before l b c := by
  have present : a ∈ l := by
    by_contra absent
    rw [after_of_not_mem absent] at split
    simp at split
  obtain ⟨A, absent, whole⟩ := exists_append_cons present
  rw [split] at whole
  have regroup : l = (A ++ a :: P) ++ b :: S := by rw [whole]; simp
  have freshB : b ∉ A ++ a :: P := by
    rw [regroup] at nodup
    exact fun memB => (List.nodup_append.mp nodup).2.2 b memB b List.mem_cons_self rfl
  unfold Before
  rw [regroup, after_append_cons freshB]
  exact mem

/-- A list that gives `l` once `n` is erased orders the others as `l` does. -/
theorem before_iff_of_erase_eq {l' : List α} {n : α} (nodup : l'.Nodup) (erased : l'.erase n = l)
    {x y : α} (oldX : x ≠ n) (oldY : y ≠ n) : Before l' x y ↔ Before l x y := by
  rw [← erased, before_erase_iff nodup]
  tauto

end Before

section Insert

variable (skip : α → Bool)

theorem insertAfter_append_cons {A B : List α} {a b : α} (absent : a ∉ A) :
    insertAfter skip a b (A ++ a :: B) = A ++ a :: (B.takeWhile skip ++ b :: B.dropWhile skip) := by
  induction A with
  | nil => simp [insertAfter]
  | cons x A ih =>
    have ne : x ≠ a := fun same => absent (same ▸ List.mem_cons_self)
    simp only [List.cons_append, insertAfter, if_neg ne,
      ih (fun mem => absent (List.mem_cons_of_mem x mem))]

theorem insertBefore_append_cons {A B : List α} {a b : α} (absent : a ∉ A) :
    insertBefore a b (A ++ a :: B) = A ++ b :: a :: B := by
  induction A with
  | nil => simp [insertBefore]
  | cons x A ih =>
    have ne : x ≠ a := fun same => absent (same ▸ List.mem_cons_self)
    simp only [List.cons_append, insertBefore, if_neg ne,
      ih (fun mem => absent (List.mem_cons_of_mem x mem))]

variable {l : List α} {a b : α}

theorem after_insertAfter (present : a ∈ l) :
    after a (insertAfter skip a b l) = (after a l).takeWhile skip ++ b :: (after a l).dropWhile skip := by
  obtain ⟨A, absent, split⟩ := exists_append_cons present
  generalize after a l = B at split ⊢
  subst split
  rw [insertAfter_append_cons skip absent, after_append_cons absent]

theorem after_insertBefore (present : a ∈ l) (ne : b ≠ a) : after a (insertBefore a b l) = after a l := by
  obtain ⟨A, absent, split⟩ := exists_append_cons present
  generalize after a l = B at split ⊢
  subst split
  have regroup : A ++ b :: a :: B = (A ++ [b]) ++ a :: B := by simp
  rw [insertBefore_append_cons absent, regroup, after_append_cons (by simp [absent, ne.symm])]

theorem insertAfter_perm (present : a ∈ l) : (insertAfter skip a b l).Perm (b :: l) := by
  obtain ⟨A, absent, split⟩ := exists_append_cons present
  generalize after a l = B at split
  subst split
  rw [insertAfter_append_cons skip absent]
  have middle := @List.perm_middle α b (A ++ a :: B.takeWhile skip) (B.dropWhile skip)
  simpa using middle

theorem insertBefore_perm (present : a ∈ l) : (insertBefore a b l).Perm (b :: l) := by
  obtain ⟨A, absent, split⟩ := exists_append_cons present
  generalize after a l = B at split
  subst split
  rw [insertBefore_append_cons absent]
  exact List.perm_middle

theorem insertAfter_erase (present : a ∈ l) (fresh : b ∉ l) : (insertAfter skip a b l).erase b = l := by
  obtain ⟨A, absent, split⟩ := exists_append_cons present
  generalize after a l = B at split
  subst split
  have freshA : b ∉ A := fun mem => fresh (List.mem_append_left _ mem)
  have ne : a ≠ b := fun same => fresh (same ▸ List.mem_append_right _ List.mem_cons_self)
  have freshTake : b ∉ B.takeWhile skip :=
    fun mem => fresh (List.mem_append_right _ (List.mem_cons_of_mem a ((List.takeWhile_sublist skip).subset mem)))
  rw [insertAfter_append_cons skip absent, List.erase_append_right _ freshA,
    List.erase_cons_tail (by simpa using ne), List.erase_append_right _ freshTake, List.erase_cons_head,
    List.takeWhile_append_dropWhile]

theorem insertBefore_erase (present : a ∈ l) (fresh : b ∉ l) : (insertBefore a b l).erase b = l := by
  obtain ⟨A, absent, split⟩ := exists_append_cons present
  generalize after a l = B at split
  subst split
  have freshA : b ∉ A := fun mem => fresh (List.mem_append_left _ mem)
  rw [insertBefore_append_cons absent, List.erase_append_right _ freshA, List.erase_cons_head]

/-- What follows an inserted member: the rest after `a`, once past the skipped ones. -/
theorem before_insertAfter_new (present : a ∈ l) (fresh : b ∉ l) {y : α} :
    Before (insertAfter skip a b l) b y ↔ y ∈ (after a l).dropWhile skip := by
  obtain ⟨A, absent, split⟩ := exists_append_cons present
  generalize after a l = B at split ⊢
  subst split
  have freshA : b ∉ A := fun mem => fresh (List.mem_append_left _ mem)
  have ne : a ≠ b := fun same => fresh (same ▸ List.mem_append_right _ List.mem_cons_self)
  have freshTake : b ∉ B.takeWhile skip :=
    fun mem => fresh (List.mem_append_right _ (List.mem_cons_of_mem a ((List.takeWhile_sublist skip).subset mem)))
  have regroup : A ++ a :: (B.takeWhile skip ++ b :: B.dropWhile skip) =
      (A ++ a :: B.takeWhile skip) ++ b :: B.dropWhile skip := by simp
  rw [insertAfter_append_cons skip absent, regroup,
    before_append_cons (by simp [freshA, ne.symm, freshTake])]

/-- What precedes an inserted member: `a`, what precedes `a`, and the skipped ones. -/
theorem before_insertAfter_of_new (present : a ∈ l) (fresh : b ∉ l) (nodup : l.Nodup) {x : α} :
    Before (insertAfter skip a b l) x b ↔ x = a ∨ Before l x a ∨ x ∈ (after a l).takeWhile skip := by
  have inserted : (insertAfter skip a b l).Nodup :=
    (insertAfter_perm skip present).nodup_iff.mpr (List.nodup_cons.mpr ⟨fresh, nodup⟩)
  obtain ⟨A, absent, split⟩ := exists_append_cons present
  generalize after a l = B at split ⊢
  subst split
  have regroup : A ++ a :: (B.takeWhile skip ++ b :: B.dropWhile skip) =
      (A ++ a :: B.takeWhile skip) ++ b :: B.dropWhile skip := by simp
  rw [insertAfter_append_cons skip absent, regroup] at inserted ⊢
  rw [before_before_iff_mem inserted, before_before_iff_mem nodup]
  simp only [List.mem_append, List.mem_cons]
  tauto

theorem before_insertAfter_iff (present : a ∈ l) (fresh : b ∉ l) (nodup : l.Nodup) {x y : α}
    (oldX : x ≠ b) (oldY : y ≠ b) : Before (insertAfter skip a b l) x y ↔ Before l x y := by
  have inserted : (insertAfter skip a b l).Nodup :=
    (insertAfter_perm skip present).nodup_iff.mpr (List.nodup_cons.mpr ⟨fresh, nodup⟩)
  conv_rhs => rw [← insertAfter_erase skip present fresh, before_erase_iff inserted]
  tauto

theorem before_insertBefore_new (present : a ∈ l) (fresh : b ∉ l) {y : α} :
    Before (insertBefore a b l) b y ↔ y = a ∨ Before l a y := by
  obtain ⟨A, absent, split⟩ := exists_append_cons present
  have freshA : b ∉ A := fun mem => fresh (split ▸ List.mem_append_left _ mem)
  have atA : Before l a y ↔ y ∈ after a l := Iff.rfl
  rw [atA]
  generalize after a l = B at split
  subst split
  rw [insertBefore_append_cons absent, before_append_cons freshA, List.mem_cons]

theorem before_insertBefore_of_new (present : a ∈ l) (fresh : b ∉ l) (nodup : l.Nodup) {x : α} :
    Before (insertBefore a b l) x b ↔ Before l x a := by
  have inserted : (insertBefore a b l).Nodup :=
    (insertBefore_perm present).nodup_iff.mpr (List.nodup_cons.mpr ⟨fresh, nodup⟩)
  obtain ⟨A, absent, split⟩ := exists_append_cons present
  generalize after a l = B at split
  subst split
  rw [insertBefore_append_cons absent] at inserted ⊢
  rw [before_before_iff_mem inserted, before_before_iff_mem nodup]

omit [DecidableEq α] in
/-- A member that is not skipped stays among those after the skipped ones. -/
theorem mem_dropWhile_iff {L : List α} {y : α} (kept : skip y = false) : y ∈ L.dropWhile skip ↔ y ∈ L := by
  constructor
  · exact fun mem => (List.dropWhile_sublist skip).subset mem
  · intro mem
    rw [← List.takeWhile_append_dropWhile (p := skip) (l := L), List.mem_append] at mem
    rcases mem with taken | dropped
    · have := List.mem_takeWhile_imp taken
      rw [kept] at this
      cases this
    · exact dropped

end Insert

section Move

/-- Erasing another member leaves fewer members after `a`. -/
theorem after_erase_sublist {l : List α} {a b : α} (ne : b ≠ a) : (after a (l.erase b)).Sublist (after a l) := by
  induction l with
  | nil => exact List.Sublist.slnil
  | cons x xs ih =>
    by_cases erased : x = b
    · subst erased
      rw [List.erase_cons_head, after_cons, if_neg ne]
    · rw [List.erase_cons_tail (by simpa using erased), after_cons, after_cons]
      split_ifs
      · exact List.erase_sublist
      · exact ih

variable (skip : α → Bool) {l : List α} {a b : α}

/-- Moving `b` after `a`: erased, then inserted again. -/
theorem move_perm (memA : a ∈ l) (memB : b ∈ l) (ne : a ≠ b) : (insertAfter skip a b (l.erase b)).Perm l :=
  (insertAfter_perm skip ((List.mem_erase_of_ne ne).mpr memA)).trans (List.perm_cons_erase memB).symm

/-- Moving `b` keeps the order of the others. -/
theorem before_move_iff (nodup : l.Nodup) (memA : a ∈ l) (ne : a ≠ b) {x y : α} (oldX : x ≠ b) (oldY : y ≠ b) :
    Before (insertAfter skip a b (l.erase b)) x y ↔ Before l x y := by
  rw [before_insertAfter_iff skip ((List.mem_erase_of_ne ne).mpr memA) nodup.not_mem_erase (nodup.erase b) oldX oldY,
    before_erase_iff nodup]
  exact ⟨fun before => before.1, fun before => ⟨before, oldX, oldY⟩⟩

end Move

section Select

/-- A fold whose step keeps its accumulator or takes the member, when the
member has a property, ends with its start or with a member that has it. -/
theorem foldl_select {β : Type*} (f : Option β → β → Option β) (P : β → Prop)
    (select : ∀ best e, f best e = best ∨ f best e = some e ∧ P e) :
    ∀ (l : List β) (best : Option β) {b : β}, l.foldl f best = some b → best = some b ∨ b ∈ l ∧ P b
  | [], _, _, result => .inl result
  | e :: l, best, b, result => by
    rcases foldl_select f P select l (f best e) result with start | later
    · rcases select best e with kept | ⟨taken, holds⟩
      · exact .inl (kept ▸ start)
      · rw [taken] at start
        cases start
        exact .inr ⟨List.mem_cons_self, holds⟩
    · exact .inr ⟨List.mem_cons_of_mem e later.1, later.2⟩

end Select

end ListOrder
