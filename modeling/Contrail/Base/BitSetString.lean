import Mathlib
import Contrail.Base.BitSetSearch
import Contrail.Base.StringUtil

/-! The text forms of `BitSet` in `base/bitset.cc`: `ToString` writes a `'1'` at every set
position of a string of `'0'`s up to the last set position, `FromString` reads one back, and
`ToNumberedString` lists the set positions as runs `x` or `x-y` separated by commas. The two
writers visit the set positions with the loop
`for (pos = find_first(); pos != npos; pos = find_next(pos))`. Positions are `size_t`, so a
bitset holds no position at `npos` and a string is shorter than `npos`. -/
namespace Contrail.Base

namespace BitSet

/-- The positions the loop `for (pos = find_first(); pos != npos; pos = find_next(pos))`
visits from `pos`. -/
def visitFrom (b : BitSet) (pos : Nat) : List Nat :=
  if pos = npos then [] else pos :: visitFrom b (b.findNext pos)
termination_by if pos = npos then 0 else b.size - pos + 1
decreasing_by
  rename_i notEnd
  rw [if_neg notEnd]
  rcases findNext_spec b pos with ⟨-, next⟩ | ⟨⟨after, held⟩, -⟩
  · rw [if_pos next]
    omega
  · have inside := lt_size_of_test held
    split <;> omega

def ToString (b : BitSet) : List Char :=
  let lastPos := b.findLast
  if lastPos = npos then []
  else (visitFrom b b.findFirst).foldl (fun str pos => str.set pos '1') (List.replicate (lastPos + 1) '0')

/-- One iteration of the loop of `ToNumberedString` on the text so far, `range` and
`last_pos`, which it leaves at `pos`. -/
def numberedStep (state : List Char × Bool × Nat) (pos : Nat) : List Char × Bool × Nat :=
  match state with
  | (oss, range, lastPos) =>
    if lastPos = npos then (oss ++ integerToString pos, range, pos)
    else if pos = lastPos + 1 then (oss, true, pos)
    else if range then (oss ++ '-' :: integerToString lastPos ++ ',' :: integerToString pos, false, pos)
    else (oss ++ ',' :: integerToString pos, range, pos)

def ToNumberedString (b : BitSet) : List Char :=
  if b.empty then ['-']
  else
    match (visitFrom b b.findFirst).foldl numberedStep ([], false, npos) with
    | (oss, range, lastPos) => if range then oss ++ '-' :: integerToString lastPos else oss

/-! ## What the text says -/

/-- The set positions, in increasing order. -/
def setPositions (b : BitSet) : List Nat := (List.range b.size).filter b.test

/-- A run `lo` to `hi` as text: `lo` alone, or `lo-hi`. -/
def runText (run : Nat × Nat) : List Char :=
  if run.1 = run.2 then integerToString run.1 else integerToString run.1 ++ '-' :: integerToString run.2

/-- `runs` cut `positions` into maximal runs of consecutive numbers, in order: each run
`lo` to `hi` with `lo ≤ hi`, and a gap between one run and the next. -/
def IsRuns (positions : List Nat) (runs : List (Nat × Nat)) : Prop :=
  runs.flatMap (fun run => List.range' run.1 (run.2 + 1 - run.1)) = positions ∧
    (∀ run ∈ runs, run.1 ≤ run.2) ∧ runs.IsChain fun run run' => run.2 + 1 < run'.1

/-! ## The visiting loop -/

open WordBits

section Visit

variable {b : BitSet}

/-- Valid bitsets holding the same positions are equal. -/
theorem eq_of_test {b b' : BitSet} (valid : b.Valid) (valid' : b'.Valid)
    (same : ∀ i, b.test i = b'.test i) : b = b' := by
  have blocks : b.blocks = b'.blocks :=
    eq_of_bit_eq (by decide) valid valid' fun pos => by rw [← test_eq_bit, ← test_eq_bit, same]
  cases b
  cases b'
  cases blocks
  rfl

theorem visitFrom_npos (b : BitSet) : visitFrom b npos = [] := by
  rw [visitFrom, if_pos rfl]

theorem setPositions_sorted (b : BitSet) : b.setPositions.Pairwise (· < ·) :=
  List.pairwise_lt_range.filter _

/-- A bitset whose size is a `size_t` holds no position at `npos`. -/
theorem test_lt_npos (bounded : b.size ≤ npos) : ∀ i, b.test i = true → i < npos :=
  fun _ held => lt_of_lt_of_le (lt_size_of_test held) bounded

theorem mem_setPositions {i : Nat} : i ∈ b.setPositions ↔ b.test i = true := by
  rw [setPositions, List.mem_filter, List.mem_range]
  exact ⟨fun ⟨_, held⟩ => held, fun held => ⟨lt_size_of_test held, held⟩⟩

variable (below : ∀ i, b.test i = true → i < npos)
include below

/-- From a position other than `npos` the loop visits it and then the set positions after it,
in increasing order. -/
theorem visitFrom_spec (pos : Nat) : pos ≠ npos →
    (∀ i, i ∈ visitFrom b pos ↔ i = pos ∨ (pos < i ∧ b.test i = true)) ∧
      (visitFrom b pos).Pairwise (· < ·) := by
  fun_induction visitFrom b pos with
  | case1 => exact fun notEnd => absurd rfl notEnd
  | case2 pos _ ih =>
    intro _
    rcases findNext_spec b pos with ⟨nothing, next⟩ | ⟨⟨after, held⟩, least⟩
    · rw [next, visitFrom_npos]
      refine ⟨fun i => ?_, List.pairwise_singleton _ _⟩
      rw [List.mem_singleton]
      constructor
      · exact .inl
      · rintro (same | ⟨later, held⟩)
        · exact same
        · exact absurd held (by simp [nothing i later])
    · obtain ⟨members, sorted⟩ := ih (below _ held).ne
      refine ⟨fun i => ?_, List.pairwise_cons.mpr ⟨fun j member => ?_, sorted⟩⟩
      · rw [List.mem_cons, members]
        constructor
        · rintro (rfl | rfl | ⟨later, held'⟩)
          · exact .inl rfl
          · exact .inr ⟨after, held⟩
          · exact .inr ⟨after.trans later, held'⟩
        · rintro (rfl | ⟨later, held'⟩)
          · exact .inl rfl
          · rcases (least ⟨later, held'⟩ : b.findNext pos ≤ i).eq_or_lt with same | lt
            · exact .inr (.inl same.symm)
            · exact .inr (.inr ⟨lt, held'⟩)
      · rcases (members j).mp member with rfl | ⟨later, -⟩
        · exact after
        · exact after.trans later

/-- The loop from `find_first()` visits the set positions in increasing order. -/
theorem visitFrom_findFirst : visitFrom b b.findFirst = b.setPositions := by
  rcases findFirst_spec b with ⟨nothing, first⟩ | ⟨held, least⟩
  · rw [first, visitFrom_npos, setPositions]
    exact (List.filter_eq_nil_iff.mpr fun i _ => by simp [nothing i]).symm
  · obtain ⟨members, sorted⟩ := visitFrom_spec below b.findFirst (below _ held).ne
    refine sorted.eq_of_mem_iff (setPositions_sorted b) fun i => ?_
    rw [members, mem_setPositions]
    constructor
    · rintro (rfl | ⟨-, held'⟩)
      · exact held
      · exact held'
    · intro held'
      rcases (least held' : b.findFirst ≤ i).eq_or_lt with same | lt
      · exact .inl same.symm
      · exact .inr ⟨lt, held'⟩

end Visit

/-! ## `ToString` and `FromString` -/

/-- Writing `'1'` at each of `positions`: those inside the string read `'1'`. -/
theorem getD_foldl_set (positions : List Nat) (str : List Char) (i : Nat) :
    (positions.foldl (fun str pos => str.set pos '1') str).getD i '0' =
      if i ∈ positions ∧ i < str.length then '1' else str.getD i '0' := by
  induction positions generalizing str with
  | nil => simp
  | cons pos rest ih =>
    rw [List.foldl_cons, ih, List.length_set]
    by_cases here : pos = i
    · subst here
      by_cases inside : pos < str.length <;> simp [inside, List.getD_eq_getElem?_getD]
    · simp [Ne.symm here, List.getD_eq_getElem?_getD, List.getElem?_set_ne here]

theorem length_foldl_set (positions : List Nat) (str : List Char) :
    (positions.foldl (fun str pos => str.set pos '1') str).length = str.length := by
  induction positions generalizing str with
  | nil => rfl
  | cons pos rest ih => rw [List.foldl_cons, ih, List.length_set]

/-- `ToString` runs to the last set position. -/
theorem length_ToString (b : BitSet) :
    b.ToString.length = if b.findLast = npos then 0 else b.findLast + 1 := by
  unfold ToString
  dsimp only
  split
  · rfl
  · rw [length_foldl_set, List.length_replicate]

section Text

variable {b : BitSet} (valid : b.Valid) (below : ∀ i, b.test i = true → i < npos)
include valid below

/-- `ToString` reads `'1'` at the set positions and `'0'` elsewhere. -/
theorem getD_ToString (i : Nat) : b.ToString.getD i '0' = if b.test i then '1' else '0' := by
  unfold ToString
  rcases findLast_spec valid with ⟨nothing, last⟩ | ⟨held, greatest⟩
  · simp [last, nothing i]
  · dsimp only
    rw [if_neg (below _ held).ne, visitFrom_findFirst below, getD_foldl_set]
    by_cases set : b.test i
    · have le : i ≤ b.findLast := greatest set
      simp only [mem_setPositions, set, List.length_replicate, if_true]
      rw [if_pos ⟨trivial, by omega⟩]
    · simp [mem_setPositions, set]

end Text

/-- `FromString` reads back what `ToString` writes. -/
theorem FromString_ToString {b : BitSet} (valid : b.Valid) (bounded : b.size ≤ npos) :
    FromString b.ToString = b := by
  have below := test_lt_npos bounded
  refine eq_of_test (valid_FromString _) valid fun i => ?_
  rw [test_FromString, getD_ToString valid below]
  cases b.test i <;> decide

/-- A string of `'0'`s and `'1'`s that is empty or ends in `'1'` is what `ToString` writes of
what `FromString` reads. -/
theorem ToString_FromString {s : List Char} (digits : ∀ c ∈ s, c = '0' ∨ c = '1')
    (ends : s = [] ∨ s.getLast? = some '1') (short : s.length ≤ npos) :
    (FromString s).ToString = s := by
  have valid := valid_FromString s
  -- past the end of the string `FromString` reads `'0'`
  have inside : ∀ i, (FromString s).test i = true → i < s.length := by
    intro i held
    rw [test_FromString, decide_eq_true_iff] at held
    by_contra past
    rw [List.getD_eq_default _ _ (by omega)] at held
    exact absurd held (by decide)
  have below : ∀ i, (FromString s).test i = true → i < npos := fun i held =>
    lt_of_lt_of_le (inside i held) short
  have length : (FromString s).ToString.length = s.length := by
    rw [length_ToString]
    rcases ends with rfl | last
    · rfl
    · obtain ⟨front, rfl⟩ := List.getLast?_eq_some_iff.mp last
      have held : (FromString (front ++ ['1'])).test front.length = true := by
        simp [test_FromString, List.getD_eq_getElem?_getD]
      rcases findLast_spec valid with ⟨nothing, -⟩ | ⟨found, greatest⟩
      · exact absurd held (by simp [nothing])
      · have atLeast : front.length ≤ (FromString (front ++ ['1'])).findLast := greatest held
        have atMost := inside _ found
        rw [if_neg (below _ found).ne, List.length_append, List.length_singleton] at *
        omega
  refine List.ext_getElem length fun i within within' => ?_
  have same : (FromString s).ToString.getD i '0' = s.getD i '0' := by
    rw [getD_ToString valid below, test_FromString, List.getD_eq_getElem _ _ within']
    rcases digits _ (List.getElem_mem within') with zero | one
    · simp [zero]
    · simp [one]
  rwa [List.getD_eq_getElem _ _ within, List.getD_eq_getElem _ _ within'] at same

/-! ## `ToNumberedString` -/

theorem intercalate_snoc {sep : List Char} {texts : List (List Char)} (nonempty : texts ≠ [])
    (text : List Char) :
    sep.intercalate (texts ++ [text]) = sep.intercalate texts ++ sep ++ text := by
  induction texts with
  | nil => exact absurd rfl nonempty
  | cons first rest ih =>
    cases rest with
    | nil => simp [List.intercalate_cons_cons]
    | cons second rest =>
      have step := ih (List.cons_ne_nil _ _)
      rw [List.cons_append] at step
      rw [List.cons_append, List.cons_append, List.intercalate_cons_cons, step,
        List.intercalate_cons_cons]
      simp

theorem intercalate_extend_last (sep : List Char) (texts : List (List Char)) (text more : List Char) :
    sep.intercalate (texts ++ [text ++ more]) = sep.intercalate (texts ++ [text]) ++ more := by
  by_cases empty : texts = []
  · subst empty
    simp
  · rw [intercalate_snoc empty, intercalate_snoc empty]
    simp

theorem isRuns_single (p : Nat) : IsRuns [p] [(p, p)] :=
  ⟨by simp, by simp, List.isChain_singleton _⟩

/-- The next position extends the last run. -/
theorem IsRuns.extend {positions : List Nat} {done : List (Nat × Nat)} {lo hi : Nat}
    (runs : IsRuns positions (done ++ [(lo, hi)])) :
    IsRuns (positions ++ [hi + 1]) (done ++ [(lo, hi + 1)]) := by
  obtain ⟨flat, ordered, chain⟩ := runs
  have le : lo ≤ hi := ordered (lo, hi) (by simp)
  refine ⟨?_, fun run member => ?_, ?_⟩
  · have longer : hi + 1 + 1 - lo = (hi + 1 - lo) + 1 := by omega
    rw [← flat, List.flatMap_append, List.flatMap_append, List.flatMap_singleton,
      List.flatMap_singleton, longer, List.range'_concat, List.append_assoc]
    simp only [Nat.one_mul]
    congr 3
    omega
  · rcases List.mem_append.mp member with old | new
    · exact ordered run (List.mem_append_left _ old)
    · rw [List.mem_singleton.mp new]
      exact Nat.le_succ_of_le le
  · obtain ⟨before, -, joined⟩ := List.isChain_append.mp chain
    refine List.isChain_append.mpr ⟨before, List.isChain_singleton _, fun x last y first => ?_⟩
    simp only [List.head?_cons, Option.mem_def, Option.some.injEq] at first
    subst first
    exact joined x last (lo, hi) rfl

/-- A position past a gap starts a new run. -/
theorem IsRuns.push {positions : List Nat} {done : List (Nat × Nat)} {lo hi p : Nat}
    (runs : IsRuns positions (done ++ [(lo, hi)])) (gap : hi + 1 < p) :
    IsRuns (positions ++ [p]) (done ++ [(lo, hi)] ++ [(p, p)]) := by
  obtain ⟨flat, ordered, chain⟩ := runs
  refine ⟨by simp [← flat], fun run member => ?_, chain.append (List.isChain_singleton _) ?_⟩
  · rcases List.mem_append.mp member with old | new
    · exact ordered run old
    · rw [List.mem_singleton.mp new]
  · intro x last y first
    simp only [List.getLast?_append, List.getLast?_singleton, Option.some_or, Option.mem_def,
      Option.some.injEq, List.head?_cons] at last first
    subst last first
    exact gap

/-- After the loop of `ToNumberedString` has visited increasing positions ending at `p`, the text
so far shows the runs before the last one and the start of the last one, `range` says whether the
last run is longer than one position, and `last_pos` is `p`. -/
theorem foldl_numberedStep {positions : List Nat} {p : Nat}
    (sorted : (positions ++ [p]).Pairwise (· < ·)) (below : ∀ q ∈ positions ++ [p], q < npos) :
    ∃ done lo, IsRuns (positions ++ [p]) (done ++ [(lo, p)]) ∧
      (positions ++ [p]).foldl numberedStep ([], false, npos) =
        ([','].intercalate (done.map runText ++ [integerToString lo]), decide (lo < p), p) := by
  induction positions using List.reverseRecOn generalizing p with
  | nil =>
    refine ⟨[], p, isRuns_single p, ?_⟩
    simp [numberedStep]
  | append_singleton positions a ih =>
    have before : a < p := (List.pairwise_append.mp sorted).2.2 a (by simp) p (by simp)
    have notEnd : a ≠ npos := (below a (by simp)).ne
    obtain ⟨done, lo, runs, fold⟩ :=
      ih (List.pairwise_append.mp sorted).1 fun q member => below q (List.mem_append_left _ member)
    have le : lo ≤ a := runs.2.1 (lo, a) (by simp)
    rw [List.foldl_append, fold, List.foldl_cons, List.foldl_nil]
    by_cases next : p = a + 1
    · subst next
      refine ⟨done, lo, runs.extend, ?_⟩
      simp [numberedStep, notEnd]
      omega
    · have gap : a + 1 < p := by omega
      by_cases longer : lo < a
      · refine ⟨done ++ [(lo, a)], p, runs.push gap, ?_⟩
        have text : [','].intercalate ((done ++ [(lo, a)]).map runText ++ [integerToString p]) =
            [','].intercalate (done.map runText ++ [integerToString lo]) ++
              '-' :: integerToString a ++ ',' :: integerToString p := by
          rw [List.map_append, List.map_singleton, intercalate_snoc (by simp),
            show runText (lo, a) = integerToString lo ++ '-' :: integerToString a from
              if_neg longer.ne, intercalate_extend_last]
          simp
        simp only [numberedStep, if_neg notEnd, if_neg next, decide_eq_true longer, if_true,
          lt_irrefl, decide_false, text]
      · have same : lo = a := by omega
        subst same
        refine ⟨done ++ [(lo, lo)], p, runs.push gap, ?_⟩
        have text : [','].intercalate ((done ++ [(lo, lo)]).map runText ++ [integerToString p]) =
            [','].intercalate (done.map runText ++ [integerToString lo]) ++ ',' :: integerToString p := by
          rw [List.map_append, List.map_singleton, intercalate_snoc (by simp),
            show runText (lo, lo) = integerToString lo from if_pos rfl]
          simp
        simp only [numberedStep, if_neg notEnd, if_neg next, Bool.false_eq_true, if_false,
          lt_irrefl, decide_false, text]

/-- `ToNumberedString` lists the set positions as their maximal runs, `-` when there is none. -/
theorem ToNumberedString_runs {b : BitSet} (valid : b.Valid) (bounded : b.size ≤ npos) :
    ∃ runs, IsRuns b.setPositions runs ∧
      b.ToNumberedString = if runs = [] then ['-'] else [','].intercalate (runs.map runText) := by
  have below := test_lt_npos bounded
  unfold ToNumberedString
  rw [visitFrom_findFirst below]
  rcases b.setPositions.eq_nil_or_concat with empty | ⟨positions, p, split⟩
  · have nothing : b.empty = true := (empty_iff_test valid).mpr fun i => by
      cases held : b.test i
      · rfl
      · have member := mem_setPositions.mpr held
        rw [empty] at member
        exact absurd member List.not_mem_nil
    refine ⟨[], ?_, by simp [nothing]⟩
    rw [empty]
    exact ⟨rfl, by simp, List.isChain_nil⟩
  · rw [List.concat_eq_append] at split
    have held : b.test p = true := mem_setPositions.mp (by rw [split]; simp)
    have something : b.empty = false := by
      cases nothing : b.empty with
      | false => rfl
      | true => exact absurd ((empty_iff_test valid).mp nothing p) (by simp [held])
    obtain ⟨done, lo, runs, fold⟩ := foldl_numberedStep (split ▸ setPositions_sorted b)
      fun q member => below q (mem_setPositions.mp (split ▸ member))
    refine ⟨done ++ [(lo, p)], split ▸ runs, ?_⟩
    rw [split, fold, if_neg (show ¬ b.empty = true by simp [something]),
      if_neg (show done ++ [(lo, p)] ≠ [] by simp)]
    simp only [List.map_append, List.map_singleton]
    by_cases longer : lo < p
    · simp only [decide_eq_true longer, if_true, runText, if_neg longer.ne]
      rw [intercalate_extend_last]
    · have same : lo = p := le_antisymm (runs.2.1 (lo, p) (by simp)) (not_lt.mp longer)
      subst same
      simp [runText]

/-- The text forms of a bitset: `FromString` reads back what `ToString` writes of every valid
bitset, `ToString` writes back every string of `'0'`s and `'1'`s that is empty or ends in `'1'`,
and `ToNumberedString` lists exactly the set positions, in increasing order, as their maximal
runs. -/
theorem bitSet_string_codecs :
    (∀ b : BitSet, b.Valid → b.size ≤ npos → FromString b.ToString = b) ∧
    (∀ s : List Char, (∀ c ∈ s, c = '0' ∨ c = '1') → (s = [] ∨ s.getLast? = some '1') →
      s.length ≤ npos → (FromString s).ToString = s) ∧
    (∀ b : BitSet, b.Valid → b.size ≤ npos →
      ∃ positions runs, (∀ i, i ∈ positions ↔ b.test i = true) ∧ positions.Pairwise (· < ·) ∧
        IsRuns positions runs ∧
        b.ToNumberedString = if runs = [] then ['-'] else [','].intercalate (runs.map runText)) := by
  refine ⟨fun _ valid bounded => FromString_ToString valid bounded,
    fun _ digits ends short => ToString_FromString digits ends short, fun b valid bounded => ?_⟩
  obtain ⟨runs, isRuns, text⟩ := ToNumberedString_runs valid bounded
  exact ⟨b.setPositions, runs, fun _ => mem_setPositions, setPositions_sorted b, isRuns, text⟩

/-- The codecs on the vector of positions 0, 2 and 3 and on the string `101`. -/
theorem bitSet_string_codecs_runs :
    let b : BitSet := ⟨[0b1101#64]⟩
    let s := ['1', '0', '1']
    b.Valid ∧ b.size ≤ npos ∧ FromString b.ToString = b ∧
    (∀ c ∈ s, c = '0' ∨ c = '1') ∧ s.getLast? = some '1' ∧ s.length ≤ npos ∧
    (FromString s).ToString = s ∧
    ∃ positions runs, (∀ i, i ∈ positions ↔ b.test i = true) ∧ positions.Pairwise (· < ·) ∧
      IsRuns positions runs ∧
      b.ToNumberedString = if runs = [] then ['-'] else [','].intercalate (runs.map runText) := by
  intro b s
  have valid : b.Valid := by decide
  have bounded : b.size ≤ npos := by decide
  have digits : ∀ c ∈ s, c = '0' ∨ c = '1' := by simp [s]
  obtain ⟨toString, fromString, numbered⟩ := bitSet_string_codecs
  exact ⟨valid, bounded, toString b valid bounded, digits, rfl, by decide,
    fromString s digits (.inr rfl) (by decide), numbered b valid bounded⟩

end BitSet

end Contrail.Base
