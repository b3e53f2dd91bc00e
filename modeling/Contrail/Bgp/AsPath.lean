import Contrail.Lib.Bytes

/-! AS paths as `AsPathSpec` holds them: a list of segments, each an `AS_SET`
or an `AS_SEQUENCE` of 2-byte AS numbers. The segment type is the decoded
integer, so a value other than `AS_SET` counts as a sequence, as in `AsCount`. -/
namespace Contrail.Bgp

open Bytes

/-- `AsPathSpec::PathSegment::AS_SET`. -/
def AS_SET : Nat := 1

/-- `AsPathSpec::PathSegment::AS_SEQUENCE`. -/
def AS_SEQUENCE : Nat := 2

/-- `AsPathSpec::PathSegment`: its type and its AS numbers (`as_t`, two bytes). -/
structure PathSegment where
  pathSegmentType : Nat
  pathSegment : List (Bytes.Word 2)
  deriving DecidableEq, Repr

/-- `AsPathSpec`, the segments of an AS_PATH attribute. -/
structure AsPathSpec where
  pathSegments : List PathSegment
  deriving DecidableEq, Repr

namespace AsPathSpec

/-- `AsPathSpec::AsLeftMost`: the first AS of a leading sequence, else 0. -/
def asLeftMost (spec : AsPathSpec) : Nat :=
  match spec.pathSegments with
  | [] => 0
  | segment :: _ =>
    if segment.pathSegmentType = AS_SET then 0
    else match segment.pathSegment with
      | [] => 0
      | asn :: _ => asn

/-- `AsPath::AsCount`: a set counts once, a sequence by its length. -/
def asCount (spec : AsPathSpec) : Nat :=
  spec.pathSegments.foldl (fun count segment =>
    if segment.pathSegmentType = AS_SET then count + 1
    else count + segment.pathSegment.length) 0

/-- `AsPathSpec::kMinPrivateAs`. -/
def kMinPrivateAs : Nat := 64512

/-- `AsPathSpec::kMaxPrivateAs`. -/
def kMaxPrivateAs : Nat := 65535

/-- `AsPathSpec::AsIsPrivate`. -/
def asIsPrivate (asn : Word 2) : Bool := kMinPrivateAs ≤ asn.val && asn.val ≤ kMaxPrivateAs

/-- The ASNs of the segments, in order. -/
def asns (spec : AsPathSpec) : List (Word 2) := spec.pathSegments.flatMap PathSegment.pathSegment

/-- `AsPathSpec::AsPathLoop` over the ASNs in order: `loop_count` is a
`uint8_t`, incremented before it is compared. -/
def asPathLoop (spec : AsPathSpec) (asn : Word 2) (maxLoopCount : UInt8) : Bool :=
  loopFrom spec.asns 0
where
  loopFrom : List (Word 2) → UInt8 → Bool
  | [], _ => false
  | a :: rest, loopCount =>
    if a = asn then
      if loopCount + 1 > maxLoopCount then true else loopFrom rest (loopCount + 1)
    else loopFrom rest loopCount

/-- `AsPathSpec::Add`: `asn` joins a leading `AS_SEQUENCE` of fewer than 255
ASNs, and otherwise leads a new one. -/
def add (spec : AsPathSpec) (asn : Word 2) : AsPathSpec :=
  match spec.pathSegments with
  | [] => ⟨[⟨AS_SEQUENCE, [asn]⟩]⟩
  | first :: rest =>
    if first.pathSegmentType = AS_SEQUENCE ∧ first.pathSegment.length < 255 then
      ⟨⟨AS_SEQUENCE, asn :: first.pathSegment⟩ :: rest⟩
    else ⟨⟨AS_SEQUENCE, [asn]⟩ :: first :: rest⟩

/-- `AsPathSpec::Replace`. -/
def replace (spec : AsPathSpec) (oldAsn asn : Word 2) : AsPathSpec :=
  ⟨spec.pathSegments.map fun ps =>
    { ps with pathSegment := ps.pathSegment.map fun a => if a = oldAsn then asn else a }⟩

/-- The loop of `RemovePrivate` over the ASNs of one segment, from the state
`remove_replace_done` and `asn`: the ASNs it pushes, and the state after. -/
def removePrivateAsns (all : Bool) (peerAsn : Word 2) :
    List (Word 2) → Bool → Word 2 → List (Word 2) × Bool × Word 2
  | [], done, asn => ([], done, asn)
  | a :: rest, done, asn =>
    if done || !asIsPrivate a || a == peerAsn then
      let asn := if asn ≠ 0 ∧ !asIsPrivate a then a else asn
      let (kept, state) := removePrivateAsns all peerAsn rest (!all) asn
      (a :: kept, state)
    else if asn ≠ 0 then
      let (kept, state) := removePrivateAsns all peerAsn rest done asn
      (asn :: kept, state)
    else removePrivateAsns all peerAsn rest done asn

/-- The loop of `RemovePrivate` over the segments: once done, a segment is
copied whole; otherwise its rewritten ASNs make a segment of its type unless
there are none. -/
def removePrivateSegments (all : Bool) (peerAsn : Word 2) :
    List PathSegment → Bool → Word 2 → List PathSegment
  | [], _, _ => []
  | ps :: rest, done, asn =>
    if done then ps :: removePrivateSegments all peerAsn rest done asn
    else
      let (kept, done, asn) := removePrivateAsns all peerAsn ps.pathSegment done asn
      let tail := removePrivateSegments all peerAsn rest done asn
      if kept.isEmpty then tail else ⟨ps.pathSegmentType, kept⟩ :: tail

/-- `AsPathSpec::RemovePrivate`. -/
def removePrivate (spec : AsPathSpec) (all : Bool) (asn peerAsn : Word 2) : AsPathSpec :=
  ⟨removePrivateSegments all peerAsn spec.pathSegments false asn⟩

/-! What `RemovePrivate` does, by the ASNs before each one. -/

/-- Whether `RemovePrivate` has stopped after the ASNs `before`: unless `all`,
at the first public ASN or `peerAsn`. -/
def stopped (all : Bool) (peerAsn : Word 2) (before : List (Word 2)) : Bool :=
  !all && before.any fun b => !asIsPrivate b || b == peerAsn

/-- What the comment of `RemovePrivate` says replaces a private ASN after the
ASNs `before`: the nearest public ASN before it, or `asn` if there is none; with
`asn` 0 it is removed. -/
def nearestPublic (asn : Word 2) (before : List (Word 2)) : Word 2 :=
  if asn = 0 then 0 else ((before.filter fun b => !asIsPrivate b).getLast?).getD asn

/-- What the loop replaces it by: 0, which removes it, also once an ASN 0 came
first, since the loop keeps a public ASN 0 as its `asn`. -/
def replacement (asn : Word 2) (before : List (Word 2)) : Word 2 :=
  if asn = 0 ∨ (0 : Word 2) ∈ before then 0
  else ((before.filter fun b => !asIsPrivate b).getLast?).getD asn

/-- What `RemovePrivate` makes of the ASN `a` after the ASNs `before`, a
private ASN being replaced by `repl before`, or removed when that is 0. -/
def privateFate (all : Bool) (peerAsn : Word 2) (repl : List (Word 2) → Word 2) (before : List (Word 2))
    (a : Word 2) : List (Word 2) :=
  if asIsPrivate a && a != peerAsn && !stopped all peerAsn before then
    if repl before = 0 then [] else [repl before]
  else [a]

/-- The ASNs of `l`, each by its fate after those of `before` and of `l` before it. -/
def privateRewrite (all : Bool) (peerAsn : Word 2) (repl : List (Word 2) → Word 2) (before l : List (Word 2)) :
    List (Word 2) :=
  (l.inits.zip l).flatMap fun (seen, a) => privateFate all peerAsn repl (before ++ seen) a

/-- The segments after the ASNs `before`: each of its type with its ASNs by
their fate, left out when none is left unless removal stopped before it. -/
def privateSegments (all : Bool) (asn peerAsn : Word 2) :
    List (Word 2) → List PathSegment → List PathSegment
  | _, [] => []
  | before, ps :: rest =>
    let kept := privateRewrite all peerAsn (replacement asn) before ps.pathSegment
    (if kept.isEmpty && !stopped all peerAsn before then [] else [⟨ps.pathSegmentType, kept⟩]) ++
      privateSegments all asn peerAsn (before ++ ps.pathSegment) rest

end AsPathSpec

end Contrail.Bgp

namespace Contrail.Bgp.AsPathSpec

open Bytes

/-! ## `AsPathLoop` -/

section Loop

variable {asn : Word 2}

/-- With `max_loop_count` 255 the incremented `uint8_t` never exceeds it. -/
theorem loopFrom_max (l : List (Word 2)) (loopCount : UInt8) :
    asPathLoop.loopFrom asn 255 l loopCount = false := by
  induction l generalizing loopCount with
  | nil => rfl
  | cons a rest ih =>
    have never : ¬ loopCount + 1 > 255 := by
      rw [gt_iff_lt, UInt8.lt_iff_toNat_lt, show (255 : UInt8).toNat = 255 from rfl]
      have := (loopCount + 1).toNat_lt
      omega
    unfold asPathLoop.loopFrom
    by_cases found : a = asn
    · rw [if_pos found, if_neg never, ih]
    · rw [if_neg found, ih]

/-- Below 255 the counter does not wrap before it passes `max_loop_count`. -/
theorem loopFrom_iff {maxLoopCount loopCount : UInt8} (below : maxLoopCount < 255)
    (counted : loopCount ≤ maxLoopCount) (l : List (Word 2)) :
    asPathLoop.loopFrom asn maxLoopCount l loopCount = true ↔
      maxLoopCount.toNat - loopCount.toNat < l.count asn := by
  induction l generalizing loopCount with
  | nil => simp [asPathLoop.loopFrom]
  | cons a rest ih =>
    rw [UInt8.lt_iff_toNat_lt, show (255 : UInt8).toNat = 255 from rfl] at below
    rw [UInt8.le_iff_toNat_le] at counted
    have next : (loopCount + 1).toNat = loopCount.toNat + 1 := by
      rw [UInt8.toNat_add, show (1 : UInt8).toNat = 1 from rfl]
      omega
    unfold asPathLoop.loopFrom
    by_cases found : a = asn
    · rw [if_pos found, found, List.count_cons_self]
      have past : loopCount + 1 > maxLoopCount ↔ maxLoopCount.toNat < loopCount.toNat + 1 := by
        rw [gt_iff_lt, UInt8.lt_iff_toNat_lt, next]
      by_cases reached : maxLoopCount.toNat < loopCount.toNat + 1
      · rw [if_pos (past.mpr reached)]
        simp only [true_iff]
        omega
      · have below' : loopCount + 1 ≤ maxLoopCount := by
          rw [UInt8.le_iff_toNat_le, next]
          omega
        rw [if_neg (mt past.mp reached), ih below', next]
        omega
    · rw [if_neg found, List.count_cons_of_ne found]
      exact ih (UInt8.le_iff_toNat_le.mpr counted)

end Loop

/-- `AsPathLoop` reports a loop exactly when `max_loop_count` is below 255 and
the ASN occurs more often than it. -/
theorem asPathLoop_iff (spec : AsPathSpec) (asn : Word 2) (maxLoopCount : UInt8) :
    spec.asPathLoop asn maxLoopCount = true ↔
      maxLoopCount < 255 ∧ maxLoopCount.toNat < spec.asns.count asn := by
  unfold asPathLoop
  by_cases below : maxLoopCount < 255
  · rw [loopFrom_iff below UInt8.zero_le]
    simp [below]
  · have top : maxLoopCount = 255 := by
      rw [UInt8.lt_iff_toNat_lt, show (255 : UInt8).toNat = 255 from rfl] at below
      apply UInt8.toNat_inj.mp
      have := maxLoopCount.toNat_lt
      rw [show (255 : UInt8).toNat = 255 from rfl]
      omega
    subst top
    simp [loopFrom_max, below]

/-- Two segments holding 255 and one copies of an ASN: 256 occurrences, which
`AsPathLoop` with `max_loop_count` 255 does not report. -/
theorem asPathLoop_misses_wrapped_count :
    (⟨[⟨AS_SEQUENCE, List.replicate 255 1⟩, ⟨AS_SEQUENCE, [1]⟩]⟩ : AsPathSpec).asns.count 1 = 256 ∧
      (⟨[⟨AS_SEQUENCE, List.replicate 255 1⟩, ⟨AS_SEQUENCE, [1]⟩]⟩ : AsPathSpec).asPathLoop 1 255 =
        false := by
  have count : (⟨[⟨AS_SEQUENCE, List.replicate 255 1⟩, ⟨AS_SEQUENCE, [1]⟩]⟩ : AsPathSpec).asns.count 1 =
      256 := by
    simp only [asns, List.flatMap_cons, List.flatMap_nil, List.append_nil]
    rw [List.count_append, List.count_replicate_self, List.count_singleton_self]
  refine ⟨count, Bool.eq_false_iff.mpr fun loop => ?_⟩
  exact absurd ((asPathLoop_iff _ 1 255).mp loop).1 (by decide)

/-! ## `Add` and `Replace` -/

theorem add_asns (spec : AsPathSpec) (asn : Word 2) : (spec.add asn).asns = asn :: spec.asns := by
  unfold add asns
  split
  · rename_i empty
    simp [empty]
  · rename_i first rest segments
    split <;> simp [segments]

theorem add_first (spec : AsPathSpec) (asn : Word 2) :
    (spec.add asn).pathSegments.head?.map PathSegment.pathSegmentType = some AS_SEQUENCE := by
  unfold add
  split
  · rfl
  · split <;> rfl

theorem add_bounded {spec : AsPathSpec} (bounded : ∀ ps ∈ spec.pathSegments, ps.pathSegment.length ≤ 255)
    (asn : Word 2) : ∀ ps ∈ (spec.add asn).pathSegments, ps.pathSegment.length ≤ 255 := by
  unfold add
  split
  · simp
  · rename_i first rest segments
    rw [segments] at bounded
    split
    · rename_i short
      intro ps member
      rcases List.mem_cons.mp member with rfl | later
      · simp only [List.length_cons]
        omega
      · exact bounded ps (List.mem_cons_of_mem _ later)
    · intro ps member
      rcases List.mem_cons.mp member with rfl | later
      · simp
      · exact bounded ps later

theorem replace_asns (spec : AsPathSpec) (oldAsn asn : Word 2) :
    (spec.replace oldAsn asn).asns = spec.asns.map fun a => if a = oldAsn then asn else a := by
  simp [replace, asns, List.map_flatMap, List.flatMap_map]

theorem replace_shape (spec : AsPathSpec) (oldAsn asn : Word 2) :
    (spec.replace oldAsn asn).pathSegments.map (fun ps => (ps.pathSegmentType, ps.pathSegment.length)) =
      spec.pathSegments.map fun ps => (ps.pathSegmentType, ps.pathSegment.length) := by
  simp [replace]

/-! ## `RemovePrivate` -/

section RemovePrivate

variable {all : Bool} {asn peerAsn : Word 2} {repl : List (Word 2) → Word 2}

theorem asIsPrivate_ne_zero {a : Word 2} (private_ : asIsPrivate a = true) : a ≠ 0 := by
  rintro rfl
  cases private_

theorem stopped_append_singleton (before : List (Word 2)) (a : Word 2) :
    stopped all peerAsn (before ++ [a]) =
      (stopped all peerAsn before || (!all && (!asIsPrivate a || a == peerAsn))) := by
  cases all <;> simp [stopped, List.any_append]

theorem stopped_append_of_stopped {before : List (Word 2)} (done : stopped all peerAsn before = true)
    (l : List (Word 2)) : stopped all peerAsn (before ++ l) = true := by
  simp only [stopped, Bool.and_eq_true, List.any_append, Bool.or_eq_true] at done ⊢
  exact ⟨done.1, .inl done.2⟩

@[simp] theorem stopped_nil : stopped all peerAsn [] = false := by
  simp [stopped]

@[simp] theorem replacement_nil (asn : Word 2) : replacement asn [] = asn := by
  by_cases zero : asn = 0 <;> simp [replacement, zero]

/-- The state `asn` of the loop: a public ASN replaces it unless it is 0. -/
theorem replacement_append_singleton (before : List (Word 2)) (a : Word 2) :
    replacement asn (before ++ [a]) =
      if replacement asn before ≠ 0 ∧ !asIsPrivate a then a else replacement asn before := by
  by_cases cleared : asn = 0 ∨ (0 : Word 2) ∈ before
  · have zero : replacement asn before = 0 := if_pos cleared
    rw [zero, replacement, if_pos (cleared.imp id fun inside => List.mem_append_left _ inside)]
    simp
  · have kept : replacement asn before = ((before.filter fun b => !asIsPrivate b).getLast?).getD asn :=
      if_neg cleared
    rw [not_or] at cleared
    cases private_ : asIsPrivate a
    · by_cases isZero : a = 0
      · subst isZero
        have zero : replacement asn (before ++ [0]) = 0 :=
          if_pos (.inr (List.mem_append_right _ (List.mem_singleton_self 0)))
        rw [zero]
        by_cases was : replacement asn before = 0
        · simp [was]
        · rw [if_pos ⟨was, rfl⟩]
      · have found : replacement asn (before ++ [a]) = a := by
          rw [replacement, if_neg (by simp [cleared.1, cleared.2, Ne.symm isZero])]
          simp [List.filter_append, private_]
        have nonzero : replacement asn before ≠ 0 := by
          rw [kept]
          cases last : (before.filter fun b => !asIsPrivate b).getLast? with
          | none => exact cleared.1
          | some b =>
            have member := List.mem_of_getLast? last
            exact fun zero => cleared.2 (zero ▸ (List.mem_filter.mp member).1)
        rw [found, if_pos ⟨nonzero, rfl⟩]
    · have notZero := asIsPrivate_ne_zero private_
      rw [if_neg (by simp), replacement, replacement, if_neg (by simp [cleared.1, cleared.2, Ne.symm notZero]),
        if_neg (by simp [cleared.1, cleared.2])]
      simp [List.filter_append, private_]

@[simp] theorem privateRewrite_nil (before : List (Word 2)) :
    privateRewrite all peerAsn repl before [] = [] := rfl

theorem privateRewrite_cons (before : List (Word 2)) (a : Word 2) (rest : List (Word 2)) :
    privateRewrite all peerAsn repl before (a :: rest) =
      privateFate all peerAsn repl before a ++ privateRewrite all peerAsn repl (before ++ [a]) rest := by
  simp [privateRewrite, List.zip_map_left, List.flatMap_map]

theorem privateRewrite_append (before l l' : List (Word 2)) :
    privateRewrite all peerAsn repl before (l ++ l') =
      privateRewrite all peerAsn repl before l ++ privateRewrite all peerAsn repl (before ++ l) l' := by
  induction l generalizing before with
  | nil => simp
  | cons a rest ih =>
    rw [List.cons_append, privateRewrite_cons, privateRewrite_cons, ih, List.append_assoc]
    simp

theorem privateRewrite_of_stopped {before : List (Word 2)} (done : stopped all peerAsn before = true)
    (l : List (Word 2)) : privateRewrite all peerAsn repl before l = l := by
  induction l generalizing before with
  | nil => rfl
  | cons a rest ih =>
    rw [privateRewrite_cons, ih (stopped_append_of_stopped done [a])]
    simp [privateFate, done]

/-- One segment: the loop from the state after `before` pushes the ASNs by
their fate and ends in the state after the segment. -/
theorem removePrivateAsns_eq (before l : List (Word 2)) :
    removePrivateAsns all peerAsn l (stopped all peerAsn before) (replacement asn before) =
      (privateRewrite all peerAsn (replacement asn) before l, stopped all peerAsn (before ++ l),
        replacement asn (before ++ l)) := by
  induction l generalizing before with
  | nil => simp [removePrivateAsns]
  | cons a rest ih =>
    rw [removePrivateAsns, privateRewrite_cons]
    by_cases keep : (stopped all peerAsn before || !asIsPrivate a || a == peerAsn) = true
    · -- the ASN is copied and the state moves past it
      have done : stopped all peerAsn (before ++ [a]) = !all := by
        rw [stopped_append_singleton]
        cases all
        · simpa [Bool.or_assoc] using keep
        · simp [stopped]
      have fate : privateFate all peerAsn (replacement asn) before a = [a] := by
        unfold privateFate
        rw [if_neg]
        intro rewrite
        simp only [Bool.and_eq_true, Bool.not_eq_true', bne_iff_ne] at rewrite
        simp [rewrite.1.1, rewrite.1.2, rewrite.2] at keep
      rw [if_pos keep]
      dsimp only
      rw [← done, ← replacement_append_singleton, ih (before ++ [a]), fate]
      simp
    · -- a private ASN before the stop: replaced, or dropped when the replacement is 0
      simp only [Bool.or_eq_true, Bool.not_eq_true', beq_iff_eq, not_or, Bool.not_eq_false] at keep
      obtain ⟨⟨running, private_⟩, notPeer⟩ := keep
      have same : stopped all peerAsn (before ++ [a]) = stopped all peerAsn before := by
        rw [stopped_append_singleton]
        simp [private_, notPeer, running]
      have unchanged : replacement asn (before ++ [a]) = replacement asn before := by
        rw [replacement_append_singleton]
        simp [private_]
      have fate : privateFate all peerAsn (replacement asn) before a =
          if replacement asn before = 0 then [] else [replacement asn before] := by
        simp [privateFate, private_, notPeer, running]
      rw [if_neg (by simp [private_, notPeer, running]), fate]
      have next := ih (before ++ [a])
      rw [same, unchanged] at next
      by_cases zero : replacement asn before = 0
      · rw [if_neg (by simpa using zero), if_pos zero, next, List.append_assoc]
        simp
      · rw [if_pos zero, if_neg zero, next, List.append_assoc]
        simp

theorem removePrivateSegments_done (segments : List PathSegment) (asn : Word 2) :
    removePrivateSegments all peerAsn segments true asn = segments := by
  induction segments with
  | nil => rfl
  | cons ps rest ih => simp [removePrivateSegments, ih]

theorem privateSegments_of_stopped {before : List (Word 2)} (done : stopped all peerAsn before = true)
    (segments : List PathSegment) : privateSegments all asn peerAsn before segments = segments := by
  induction segments generalizing before with
  | nil => rfl
  | cons ps rest ih =>
    rw [privateSegments, privateRewrite_of_stopped done, ih (stopped_append_of_stopped done _)]
    simp [done]

theorem removePrivateSegments_eq (before : List (Word 2)) (segments : List PathSegment) :
    removePrivateSegments all peerAsn segments (stopped all peerAsn before) (replacement asn before) =
      privateSegments all asn peerAsn before segments := by
  induction segments generalizing before with
  | nil => rfl
  | cons ps rest ih =>
    cases done : stopped all peerAsn before
    · simp only [removePrivateSegments, Bool.false_eq_true, if_false]
      rw [← done, removePrivateAsns_eq, ih, privateSegments]
      by_cases empty : privateRewrite all peerAsn (replacement asn) before ps.pathSegment = [] <;> simp [empty, done]
    · rw [removePrivateSegments, if_pos rfl, removePrivateSegments_done,
        privateSegments_of_stopped done]

/-- `RemovePrivate` is the rewrite of the segments from no ASN before. -/
theorem removePrivate_eq (spec : AsPathSpec) (all : Bool) (asn peerAsn : Word 2) :
    spec.removePrivate all asn peerAsn = ⟨privateSegments all asn peerAsn [] spec.pathSegments⟩ := by
  have start : removePrivateSegments all peerAsn spec.pathSegments (stopped all peerAsn [])
      (replacement asn []) = privateSegments all asn peerAsn [] spec.pathSegments :=
    removePrivateSegments_eq [] spec.pathSegments
  simp only [stopped_nil, replacement_nil] at start
  rw [removePrivate, start]

theorem privateSegments_asns (before : List (Word 2)) (segments : List PathSegment) :
    (privateSegments all asn peerAsn before segments).flatMap PathSegment.pathSegment =
      privateRewrite all peerAsn (replacement asn) before (segments.flatMap PathSegment.pathSegment) := by
  induction segments generalizing before with
  | nil => rfl
  | cons ps rest ih =>
    rw [privateSegments, List.flatMap_append, ih, List.flatMap_cons, privateRewrite_append]
    congr 1
    split
    · rename_i dropped
      simp only [Bool.and_eq_true, List.isEmpty_iff] at dropped
      simp [dropped.1]
    · simp

theorem privateSegments_types (before : List (Word 2)) (segments : List PathSegment) :
    ((privateSegments all asn peerAsn before segments).map PathSegment.pathSegmentType).Sublist
      (segments.map PathSegment.pathSegmentType) := by
  induction segments generalizing before with
  | nil => exact List.Sublist.refl _
  | cons ps rest ih =>
    rw [privateSegments, List.map_append, List.map_cons]
    split
    · exact (ih _).cons _
    · exact (ih _).cons_cons _

theorem privateSegments_nonempty {segments : List PathSegment}
    (nonempty : ∀ ps ∈ segments, ps.pathSegment ≠ []) (before : List (Word 2)) :
    ∀ ps ∈ privateSegments all asn peerAsn before segments, ps.pathSegment ≠ [] := by
  induction segments generalizing before with
  | nil => simp [privateSegments]
  | cons ps rest ih =>
    intro out member
    rw [privateSegments, List.mem_append] at member
    rcases member with here | later
    · split at here
      · cases here
      · rename_i kept
        rw [List.mem_singleton] at here
        subst here
        -- a segment left empty is kept only once removal has stopped, as a copy
        cases done : stopped all peerAsn before
        · simpa [done] using kept
        · rw [privateRewrite_of_stopped done]
          exact nonempty ps List.mem_cons_self
    · exact ih (fun ps' inside => nonempty ps' (List.mem_cons_of_mem _ inside)) _ out later

/-- With `all` and no replacement, no private ASN but `peerAsn` is left. -/
theorem privateRewrite_all (before l : List (Word 2)) :
    ∀ a ∈ privateRewrite true peerAsn (replacement 0) before l, asIsPrivate a = true → a = peerAsn := by
  intro a member private_
  simp only [privateRewrite, List.mem_flatMap] at member
  obtain ⟨⟨seen, b⟩, -, fate⟩ := member
  unfold privateFate at fate
  split at fate
  · simp [replacement] at fate
  · rename_i copied
    rw [List.mem_singleton] at fate
    subst fate
    simpa [stopped, private_] using copied

/-- Before any ASN 0, the loop's replacement is the one the comment describes. -/
theorem replacement_of_zero_free {before : List (Word 2)} (free : (0 : Word 2) ∉ before) :
    replacement asn before = nearestPublic asn before := by
  by_cases zero : asn = 0 <;> simp [replacement, nearestPublic, zero, free]

/-- Two replacement rules that agree after every prefix of `l` rewrite it alike. -/
theorem privateRewrite_congr {repl' : List (Word 2) → Word 2} {l : List (Word 2)} :
    ∀ {before : List (Word 2)}, (∀ seen, seen <+: l → repl (before ++ seen) = repl' (before ++ seen)) →
      privateRewrite all peerAsn repl before l = privateRewrite all peerAsn repl' before l := by
  induction l with
  | nil => intro before _; rfl
  | cons a rest ih =>
    intro before agree
    have here : repl before = repl' before := by simpa using agree [] List.nil_prefix
    have later : ∀ seen, seen <+: rest → repl (before ++ [a] ++ seen) = repl' (before ++ [a] ++ seen) := by
      intro seen front
      simpa using agree (a :: seen) (List.cons_prefix_cons.mpr ⟨rfl, front⟩)
    rw [privateRewrite_cons, privateRewrite_cons, ih later]
    simp [privateFate, here]

theorem removePrivate_asns (spec : AsPathSpec) (all : Bool) (asn peerAsn : Word 2) :
    (spec.removePrivate all asn peerAsn).asns = privateRewrite all peerAsn (replacement asn) [] spec.asns := by
  rw [removePrivate_eq, asns, asns, privateSegments_asns]

/-- On a path without ASN 0, `RemovePrivate` replaces as its comment says. -/
theorem removePrivate_asns_of_zero_free {spec : AsPathSpec} (free : (0 : Word 2) ∉ spec.asns) :
    (spec.removePrivate all asn peerAsn).asns = privateRewrite all peerAsn (nearestPublic asn) [] spec.asns := by
  rw [removePrivate_asns]
  apply privateRewrite_congr
  intro seen front
  rw [List.nil_append]
  exact replacement_of_zero_free fun zero => free (front.subset zero)

end RemovePrivate

theorem asPath_rewrites_well_formed :
    (∀ (spec : AsPathSpec) (asn : Word 2), (∀ ps ∈ spec.pathSegments, ps.pathSegment.length ≤ 255) →
      (spec.add asn).asns = asn :: spec.asns ∧
      (spec.add asn).pathSegments.head?.map PathSegment.pathSegmentType = some AS_SEQUENCE ∧
      ∀ ps ∈ (spec.add asn).pathSegments, ps.pathSegment.length ≤ 255) ∧
    (∀ (spec : AsPathSpec) (oldAsn asn : Word 2),
      (spec.replace oldAsn asn).asns = spec.asns.map (fun a => if a = oldAsn then asn else a) ∧
      (spec.replace oldAsn asn).pathSegments.map (fun ps => (ps.pathSegmentType, ps.pathSegment.length)) =
        spec.pathSegments.map fun ps => (ps.pathSegmentType, ps.pathSegment.length)) ∧
    (∀ (spec : AsPathSpec) (all : Bool) (asn peerAsn : Word 2),
      ((0 : Word 2) ∉ spec.asns →
        (spec.removePrivate all asn peerAsn).asns = privateRewrite all peerAsn (nearestPublic asn) [] spec.asns) ∧
      ((spec.removePrivate all asn peerAsn).pathSegments.map PathSegment.pathSegmentType).Sublist
        (spec.pathSegments.map PathSegment.pathSegmentType) ∧
      ((∀ ps ∈ spec.pathSegments, ps.pathSegment ≠ []) →
        ∀ ps ∈ (spec.removePrivate all asn peerAsn).pathSegments, ps.pathSegment ≠ []) ∧
      (all = true → asn = 0 →
        ∀ a ∈ (spec.removePrivate all asn peerAsn).asns, asIsPrivate a = true → a = peerAsn)) := by
  refine ⟨fun spec asn bounded => ⟨add_asns spec asn, add_first spec asn, add_bounded bounded asn⟩,
    fun spec oldAsn asn => ⟨replace_asns spec oldAsn asn, replace_shape spec oldAsn asn⟩,
    fun spec all asn peerAsn => ?_⟩
  refine ⟨removePrivate_asns_of_zero_free, ?_, fun nonempty => ?_, ?_⟩
  · rw [removePrivate_eq]
    exact privateSegments_types [] spec.pathSegments
  · rw [removePrivate_eq]
    exact privateSegments_nonempty nonempty []
  · rintro rfl rfl
    rw [removePrivate_asns]
    exact privateRewrite_all [] spec.asns

-- the segments must be non-empty: past the first public ASN an empty segment is copied as it is
example : (⟨[⟨AS_SEQUENCE, [100]⟩, ⟨AS_SEQUENCE, []⟩]⟩ : AsPathSpec).removePrivate false 0 0 =
    ⟨[⟨AS_SEQUENCE, [100]⟩, ⟨AS_SEQUENCE, []⟩]⟩ := by
  decide

/-- After an ASN 0 the loop keeps 0 as its `asn`, so the private ASN 65000 after
the public 100 is removed, where the comment of `RemovePrivate` has it replaced
by 100, the nearest public ASN before it. -/
theorem removePrivate_drops_after_asn_zero :
    (⟨[⟨AS_SEQUENCE, [0, 100, 65000]⟩]⟩ : AsPathSpec).removePrivate true 5 0 = ⟨[⟨AS_SEQUENCE, [0, 100]⟩]⟩ ∧
      privateRewrite true 0 (nearestPublic 5) [] [0, 100, 65000] = [0, 100, 100] := by
  decide

end Contrail.Bgp.AsPathSpec
