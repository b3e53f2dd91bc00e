import Mathlib

/-! `WaterMarkTuple` of `base/watermark.cc`: sorted high and low marks, each
with a callback, and the indexes of the marks last crossed. A count fed after
an increase goes to `ProcessHighWaterMarks`, after a decrease to
`ProcessLowWaterMarks`, as `WorkQueue::EnqueueInternal` and `DequeueInternal`
do; each runs the callback of the mark it finds unless the index it computes
is the one already recorded. A failed `assert` is `none`. -/
namespace Contrail.Base

/-- `WaterMarkInfo`: the count of the mark and the callback it runs, named by `cb`. -/
structure WaterMarkInfo where
  count : Nat
  cb : Nat
  deriving DecidableEq, Repr

/-- A run of a mark's callback, `cb_(count)`. -/
structure WaterMarkCall where
  mark : WaterMarkInfo
  count : Nat
  deriving DecidableEq, Repr

structure WaterMarkTuple where
  highWater : List WaterMarkInfo
  lowWater : List WaterMarkInfo
  hwaterIndex : Int
  lwaterIndex : Int
  hwaterMarkSet : Bool
  lwaterMarkSet : Bool
  deriving DecidableEq, Repr

namespace WaterMarkTuple

/-- The constructor. -/
def init : WaterMarkTuple :=
  { highWater := [], lowWater := [], hwaterIndex := -1, lwaterIndex := -1,
    hwaterMarkSet := false, lwaterMarkSet := false }

/-- `std::set<WaterMarkInfo>::insert`: marks are ordered by count, and a mark of
a count already there is not inserted. -/
def insertMark (info : WaterMarkInfo) : List WaterMarkInfo → List WaterMarkInfo
  | [] => [info]
  | mark :: rest =>
    if info.count < mark.count then info :: mark :: rest
    else if mark.count < info.count then mark :: insertMark info rest
    else mark :: rest

/-- The `std::set<WaterMarkInfo>` built from a vector of marks. -/
def markSet (infos : List WaterMarkInfo) : List WaterMarkInfo :=
  infos.foldl (fun set info => insertMark info set) []

/-- `SetHighWaterMark(const WaterMarkInfos &)`. -/
def SetHighWaterMarks (wm : WaterMarkTuple) (highWater : List WaterMarkInfo) : WaterMarkTuple :=
  { wm with hwaterIndex := -1, lwaterIndex := -1, highWater := markSet highWater,
            hwaterMarkSet := true }

def SetHighWaterMark (wm : WaterMarkTuple) (info : WaterMarkInfo) : WaterMarkTuple :=
  { wm with hwaterIndex := -1, lwaterIndex := -1,
            highWater := insertMark info (markSet wm.highWater), hwaterMarkSet := true }

def ResetHighWaterMark (wm : WaterMarkTuple) : WaterMarkTuple :=
  { wm with hwaterIndex := -1, lwaterIndex := -1, highWater := [], hwaterMarkSet := false }

/-- `SetLowWaterMark(const WaterMarkInfos &)`. -/
def SetLowWaterMarks (wm : WaterMarkTuple) (lowWater : List WaterMarkInfo) : WaterMarkTuple :=
  { wm with hwaterIndex := -1, lwaterIndex := -1, lowWater := markSet lowWater,
            lwaterMarkSet := true }

def SetLowWaterMark (wm : WaterMarkTuple) (info : WaterMarkInfo) : WaterMarkTuple :=
  { wm with hwaterIndex := -1, lwaterIndex := -1,
            lowWater := insertMark info (markSet wm.lowWater), lwaterMarkSet := true }

def ResetLowWaterMark (wm : WaterMarkTuple) : WaterMarkTuple :=
  { wm with hwaterIndex := -1, lwaterIndex := -1, lowWater := [], lwaterMarkSet := false }

/-- `std::upper_bound`: the first mark greater than the count. -/
def upperBound (marks : List WaterMarkInfo) (count : Nat) : Nat :=
  marks.findIdx fun mark => count < mark.count

/-- `std::lower_bound`: the first mark not less than the count. -/
def lowerBound (marks : List WaterMarkInfo) (count : Nat) : Nat :=
  marks.findIdx fun mark => !decide (mark.count < count)

def ProcessHighWaterMarks (wm : WaterMarkTuple) (count : Nat) :
    Option (WaterMarkTuple × Option WaterMarkCall) :=
  if !wm.hwaterMarkSet || wm.highWater.length = 0 then some (wm, none)
  else
    let ubound := upperBound wm.highWater count
    -- no mark crossed yet
    if ubound = 0 then some ({ wm with hwaterIndex := -1 }, none)
    else
      let nhwaterIndex : Int := ubound - 1
      if wm.hwaterIndex = nhwaterIndex then some (wm, none)
      else
        let info := wm.highWater.getD (ubound - 1) ⟨0, 0⟩
        if info.count ≤ count then
          some ({ wm with hwaterIndex := nhwaterIndex, lwaterIndex := nhwaterIndex + 1 },
            some ⟨info, count⟩)
        else none

def ProcessLowWaterMarks (wm : WaterMarkTuple) (count : Nat) :
    Option (WaterMarkTuple × Option WaterMarkCall) :=
  if !wm.lwaterMarkSet || wm.lowWater.length = 0 then some (wm, none)
  else
    let lbound := lowerBound wm.lowWater count
    -- every mark is below the count
    if lbound = wm.lowWater.length then some (wm, none)
    else
      let nlwaterIndex : Int := lbound
      if wm.lwaterIndex = nlwaterIndex then some (wm, none)
      else
        let info := wm.lowWater.getD lbound ⟨0, 0⟩
        if count ≤ info.count then
          some ({ wm with hwaterIndex := nlwaterIndex - 1, lwaterIndex := nlwaterIndex },
            some ⟨info, count⟩)
        else none

/-- `ProcessWaterMarks(in_count, curr_count)`. -/
def ProcessWaterMarks (wm : WaterMarkTuple) (inCount currCount : Nat) :
    Option (WaterMarkTuple × Option WaterMarkCall) :=
  if inCount < currCount then wm.ProcessLowWaterMarks inCount
  else wm.ProcessHighWaterMarks inCount

/-- A callback run on the step from `prev` to `count`. -/
structure WaterMarkStep where
  prev : Nat
  count : Nat
  call : WaterMarkCall
  deriving DecidableEq, Repr

/-- Feed the counts one after another from the count `prev`, collecting the
callbacks run. -/
def feed (wm : WaterMarkTuple) (prev : Nat) : List Nat → Option (WaterMarkTuple × List WaterMarkStep)
  | [] => some (wm, [])
  | count :: rest => do
    let (wm, call) ← wm.ProcessWaterMarks count prev
    let (wm, calls) ← wm.feed count rest
    return (wm, (call.map fun call => ⟨prev, count, call⟩).toList ++ calls)

/-- The step crosses the mark of its callback in its own direction: a high mark
on an increase, `prev < mark ≤ count`, a low mark on a decrease,
`count ≤ mark < prev`. -/
def WaterMarkStep.Crosses (step : WaterMarkStep) : Prop :=
  if step.count < step.prev then step.count ≤ step.call.mark.count ∧ step.call.mark.count < step.prev
  else step.prev < step.call.mark.count ∧ step.call.mark.count ≤ step.count

instance : DecidablePred WaterMarkStep.Crosses := fun step => by
  unfold WaterMarkStep.Crosses
  infer_instance

/-- The callback run on a step is of a mark the count is at or past: one of the
high marks, at or below the count, after an increase; one of the low marks, at
or above it, after a decrease. -/
def WaterMarkStep.Past (wm : WaterMarkTuple) (step : WaterMarkStep) : Prop :=
  if step.count < step.prev then step.call.mark ∈ wm.lowWater ∧ step.count ≤ step.call.mark.count
  else step.call.mark ∈ wm.highWater ∧ step.call.mark.count ≤ step.count

theorem upperBound_pred_le {marks : List WaterMarkInfo} {count : Nat}
    (found : upperBound marks count ≠ 0) :
    (marks.getD (upperBound marks count - 1) ⟨0, 0⟩).count ≤ count := by
  have before : upperBound marks count - 1 < upperBound marks count := by omega
  have inRange : upperBound marks count - 1 < marks.length :=
    Nat.lt_of_lt_of_le before List.findIdx_le_length
  have notAbove := List.not_of_lt_findIdx before
  rw [List.getD_eq_getElem?_getD, List.getElem?_eq_getElem inRange, Option.getD_some]
  simpa using notAbove

theorem le_lowerBound_count {marks : List WaterMarkInfo} {count : Nat}
    (found : lowerBound marks count ≠ marks.length) :
    count ≤ (marks.getD (lowerBound marks count) ⟨0, 0⟩).count := by
  unfold lowerBound at found ⊢
  have inRange := Nat.lt_of_le_of_ne List.findIdx_le_length found
  have notBelow := List.findIdx_getElem (w := inRange)
  rw [List.getD_eq_getElem?_getD, List.getElem?_eq_getElem inRange, Option.getD_some]
  simpa using notBelow

theorem getD_mem {marks : List WaterMarkInfo} {i : Nat} (inRange : i < marks.length)
    (d : WaterMarkInfo) : marks.getD i d ∈ marks := by
  rw [List.getD_eq_getElem?_getD, List.getElem?_eq_getElem inRange, Option.getD_some]
  exact List.getElem_mem inRange

/-- What processing a count does: the marks stay, and a callback run is of one
of the given marks, with the count. -/
def Processed (marks : List WaterMarkInfo) (wm : WaterMarkTuple) (count : Nat)
    (past : Nat → Nat → Prop) : Option (WaterMarkTuple × Option WaterMarkCall) → Prop
  | some (next, call) => next.highWater = wm.highWater ∧ next.lowWater = wm.lowWater ∧
      ∀ c ∈ call, c.count = count ∧ c.mark ∈ marks ∧ past c.mark.count count
  | none => False

/-- `ProcessHighWaterMarks` never fails its `assert`: the mark before the upper
bound is at or below the count. -/
theorem ProcessHighWaterMarks_spec (wm : WaterMarkTuple) (count : Nat) :
    Processed wm.highWater wm count (· ≤ ·) (wm.ProcessHighWaterMarks count) := by
  unfold ProcessHighWaterMarks
  split
  · simp [Processed]
  · dsimp only
    split
    · simp [Processed]
    · rename_i found
      split
      · simp [Processed]
      · have bound : upperBound wm.highWater count ≤ wm.highWater.length := List.findIdx_le_length
        have inRange : upperBound wm.highWater count - 1 < wm.highWater.length := by omega
        rw [if_pos (upperBound_pred_le found)]
        refine ⟨rfl, rfl, fun c called => ?_⟩
        cases called
        exact ⟨rfl, getD_mem inRange _, upperBound_pred_le found⟩

/-- `ProcessLowWaterMarks` never fails its `assert`: the mark at the lower bound
is at or above the count. -/
theorem ProcessLowWaterMarks_spec (wm : WaterMarkTuple) (count : Nat) :
    Processed wm.lowWater wm count (· ≥ ·) (wm.ProcessLowWaterMarks count) := by
  unfold ProcessLowWaterMarks
  split
  · simp [Processed]
  · dsimp only
    split
    · simp [Processed]
    · rename_i found
      split
      · simp [Processed]
      · have inRange : lowerBound wm.lowWater count < wm.lowWater.length :=
          Nat.lt_of_le_of_ne List.findIdx_le_length found
        rw [if_pos (le_lowerBound_count found)]
        refine ⟨rfl, rfl, fun c called => ?_⟩
        cases called
        exact ⟨rfl, getD_mem inRange _, le_lowerBound_count found⟩

theorem ProcessWaterMarks_spec (wm : WaterMarkTuple) (count prev : Nat) :
    ∃ next call, wm.ProcessWaterMarks count prev = some (next, call) ∧
      next.highWater = wm.highWater ∧ next.lowWater = wm.lowWater ∧
      ∀ c ∈ call, WaterMarkStep.Past wm ⟨prev, count, c⟩ := by
  unfold ProcessWaterMarks
  split
  · rename_i down
    have spec := ProcessLowWaterMarks_spec wm count
    cases result : wm.ProcessLowWaterMarks count with
    | none => simp [result, Processed] at spec
    | some processed =>
      obtain ⟨next, call⟩ := processed
      obtain ⟨high, low, calls⟩ : Processed wm.lowWater wm count (· ≥ ·) (some (next, call)) :=
        result ▸ spec
      refine ⟨next, call, rfl, high, low, fun c called => ?_⟩
      obtain ⟨-, mem, past⟩ := calls c called
      simpa [WaterMarkStep.Past, down] using And.intro mem past
  · rename_i up
    have spec := ProcessHighWaterMarks_spec wm count
    cases result : wm.ProcessHighWaterMarks count with
    | none => simp [result, Processed] at spec
    | some processed =>
      obtain ⟨next, call⟩ := processed
      obtain ⟨high, low, calls⟩ : Processed wm.highWater wm count (· ≤ ·) (some (next, call)) :=
        result ▸ spec
      refine ⟨next, call, rfl, high, low, fun c called => ?_⟩
      obtain ⟨-, mem, past⟩ := calls c called
      simpa [WaterMarkStep.Past, up] using And.intro mem past

/-- Feeding counts never fails an `assert`, and every callback run is of a mark
the count is at or past in the step's direction. -/
theorem feed_spec (wm : WaterMarkTuple) (prev : Nat) (counts : List Nat) :
    ∃ last calls, wm.feed prev counts = some (last, calls) ∧
      last.highWater = wm.highWater ∧ last.lowWater = wm.lowWater ∧
      ∀ step ∈ calls, WaterMarkStep.Past wm step := by
  induction counts generalizing wm prev with
  | nil => exact ⟨wm, [], rfl, rfl, rfl, by simp⟩
  | cons count rest ih =>
    obtain ⟨next, call, processed, high, low, called⟩ := wm.ProcessWaterMarks_spec count prev
    obtain ⟨last, calls, fed, high', low', past⟩ := ih next count
    refine ⟨last, (call.map fun c => ⟨prev, count, c⟩).toList ++ calls,
      by simp [feed, processed, fed], high'.trans high, low'.trans low, ?_⟩
    intro step member
    rcases List.mem_append.mp member with first | later
    · cases call with
      | none => simp at first
      | some c =>
        obtain rfl : step = ⟨prev, count, c⟩ := by simpa using first
        exact called c rfl
    · have kept := past step later
      unfold WaterMarkStep.Past at kept ⊢
      rwa [high, low] at kept

theorem feed_append (wm : WaterMarkTuple) (prev : Nat) (xs ys : List Nat) :
    wm.feed prev (xs ++ ys) = (wm.feed prev xs).bind fun (mid, calls) =>
      (mid.feed (xs.getLastD prev) ys).map fun (last, rest) => (last, calls ++ rest) := by
  induction xs generalizing wm prev with
  | nil => cases ys <;> simp [feed]
  | cons count rest ih =>
    obtain ⟨next, call, processed, -⟩ := wm.ProcessWaterMarks_spec count prev
    obtain ⟨last, calls, fed, -⟩ := next.feed_spec count rest
    obtain ⟨final, more, fedMore, -⟩ := last.feed_spec (rest.getLastD count) ys
    rw [List.cons_append, feed, feed, processed]
    simp only [Option.bind_eq_bind, Option.bind_some]
    rw [ih, fed]
    simp only [Option.pure_def, Option.bind_some, List.getLastD_cons, fedMore, Option.map_some,
      List.append_assoc]

/-- A round from `b` to `a` and back that returns to the state it left repeats:
`n` rounds run its callbacks `n` times. -/
theorem feed_rounds {wm : WaterMarkTuple} {a b : Nat} {calls : List WaterMarkStep}
    (round : wm.feed b [a, b] = some (wm, calls)) (n : Nat) :
    wm.feed b (List.replicate n [a, b]).flatten = some (wm, (List.replicate n calls).flatten) := by
  induction n with
  | zero => rfl
  | succ n ih =>
    have back : [a, b].getLastD b = b := rfl
    simp only [List.replicate_succ, List.flatten_cons]
    rw [feed_append, round]
    simp only [Option.bind_some, back, ih, Option.map_some]

/-- The marks of `QueueTaskTest.WaterMarkTest`: high marks 5, 11 and 17 set one at
a time, then low marks 14, 8 and 2 together; the callbacks `HWM1` to `LWM3` are
1 to 6. -/
def queueTaskMarks : WaterMarkTuple :=
  (((init.SetHighWaterMark ⟨5, 1⟩).SetHighWaterMark ⟨11, 2⟩).SetHighWaterMark ⟨17, 3⟩).SetLowWaterMarks
    [⟨14, 4⟩, ⟨8, 5⟩, ⟨2, 6⟩]

/-- With the test's marks, a count that climbs from 0 to 10 and then moves
between 9 and 10 runs a callback on every step after the climb, and none of them
crosses its mark: `ProcessHighWaterMarks` sets the low index to 1 on crossing 5,
so the step to 9 finds low mark 14 at a new index and runs it, which sets the
high index to 1, so the step back to 10 runs high mark 5 again. -/
theorem processWaterMarks_flap (n : Nat) :
    ∃ wm calls, queueTaskMarks.feed 0 (List.range' 1 10 ++ (List.replicate n [9, 10]).flatten) =
        some (wm, calls) ∧ calls.length = 2 * n + 1 ∧ ∀ step ∈ calls.tail, ¬ step.Crosses := by
  -- after the climb the high index is 0 and the low index 1, and a round keeps them
  obtain ⟨flapping, climb, round⟩ : ∃ wm, queueTaskMarks.feed 0 (List.range' 1 10) =
        some (wm, [⟨4, 5, ⟨⟨5, 1⟩, 5⟩⟩]) ∧
      wm.feed 10 [9, 10] = some (wm, [⟨10, 9, ⟨⟨14, 4⟩, 9⟩⟩, ⟨9, 10, ⟨⟨5, 1⟩, 10⟩⟩]) :=
    ⟨{ queueTaskMarks with hwaterIndex := 0, lwaterIndex := 1 }, by decide, by decide⟩
  have top : (List.range' 1 10).getLastD 0 = 10 := rfl
  refine ⟨flapping, ⟨4, 5, ⟨⟨5, 1⟩, 5⟩⟩ ::
    (List.replicate n [⟨10, 9, ⟨⟨14, 4⟩, 9⟩⟩, ⟨9, 10, ⟨⟨5, 1⟩, 10⟩⟩]).flatten, ?_, ?_, ?_⟩
  · rw [feed_append, climb]
    simp only [Option.bind_some, top, feed_rounds round, Option.map_some, List.singleton_append]
  · simp [List.length_flatten, Nat.mul_comm]
  · intro step member
    simp only [List.tail_cons, List.mem_flatten, List.mem_replicate] at member
    obtain ⟨calls, ⟨-, rfl⟩, inRound⟩ := member
    simp only [List.mem_cons, List.not_mem_nil, or_false] at inRound
    rcases inRound with rfl | rfl <;> decide

end WaterMarkTuple

end Contrail.Base
