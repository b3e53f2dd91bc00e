import Contrail.Base.Task

/-! The operations of `TaskScheduler` as one machine. An operation runs under
the scheduler's mutex from its start to the end of the loops it starts, so a
client operation starts only when no frame is left; each step of a frame is
one pass of its loop, where the iterator is moved before the entry it was at
is unlinked and run, as the source does. -/
namespace Contrail.Base

open KeyedList

namespace TaskScheduler

variable (s : TaskScheduler)

/-- What `OnTaskExit` does once `TaskEntry::TaskExited` returns: a task that
completed or was cancelled is deleted, a recycled one is reset and enqueued. -/
def taskExitedTail (t : Nat) : TaskScheduler :=
  match s.tasks t with
  | none => s
  | some task =>
    if !task.taskRecycle || task.taskCancel then { s with tasks := Function.update s.tasks t none }
    else (s.updateTask t fun task => { task with seqno := 0, state := .INIT }).enqueueUnLocked t

/-- `TaskScheduler::OnTaskExit` up to the loops that `TaskEntry::TaskExited`
starts: the group's and the entry's run counts drop, and the defer queues
whose owner stopped running are walked, both in key order when both stopped. -/
def onTaskExit (t : Nat) : TaskScheduler :=
  match s.tasks t with
  | none => s
  | some task =>
    let e := EntryId.entry task.taskId task.taskInstance
    let exited := (s.updateEntry e fun entry =>
      { entry with runTask := if task.taskInstance ≠ -1 then none else entry.runTask,
                   runCount := entry.runCount - 1 }).updateGroup task.taskId
      fun group => { group with runCount := group.runCount - 1 }
    let groupIdle := (exited.groups task.taskId).runCount = 0
    let entryIdle := (exited.entries e).runCount = 0
    let loop : List Frame :=
      if groupIdle ∧ entryIdle then
        [.combinedDeferQ task.taskId task.taskInstance (exited.groups task.taskId).deferq.head?
          (exited.entries e).deferq.head?]
      else if groupIdle then [.groupDeferQ task.taskId (exited.groups task.taskId).deferq.head?]
      else if entryIdle then [.entryDeferQ e (exited.entries e).deferq.head?]
      else []
    { exited with frames := loop ++ .taskExited t :: exited.frames }

/-- One pass of the loop on top of the frames. -/
def step : TaskScheduler :=
  match s.frames with
  | [] => s
  | .groupDeferQ g it :: rest =>
    match it with
    | none => { s with frames := rest }
    | some entry =>
      ({ s with frames := .groupDeferQ g (next entry (s.groups g).deferq) :: rest }.groupDeleteFromDeferQ
        g entry).runDeferEntry entry
  | .entryDeferQ owner it :: rest =>
    match it with
    | none => { s with frames := rest }
    | some entry =>
      ({ s with frames := .entryDeferQ owner (next entry (s.entries owner).deferq) :: rest }.entryDeleteFromDeferQ
        owner entry).runDeferEntry entry
  | .combinedDeferQ g i groupIt entryIt :: rest =>
    let e := EntryId.entry g i
    match groupIt, entryIt with
    | some gEntry, some tEntry =>
      if s.getTaskDeferEntrySeqno gEntry < s.getTaskDeferEntrySeqno tEntry then
        ({ s with frames := .combinedDeferQ g i (next gEntry (s.groups g).deferq) entryIt :: rest }.groupDeleteFromDeferQ
          g gEntry).runDeferEntry gEntry
      else
        ({ s with frames := .combinedDeferQ g i groupIt (next tEntry (s.entries e).deferq) :: rest }.entryDeleteFromDeferQ
          e tEntry).runDeferEntry tEntry
    -- the non-empty queue is then walked again from its first entry
    | some _, none => { s with frames := .groupDeferQ g (s.groups g).deferq.head? :: rest }
    | none, some _ => { s with frames := .entryDeferQ e (s.entries e).deferq.head? :: rest }
    | none, none => { s with frames := rest }
  | .taskExited t :: rest => { s with frames := rest }.taskExitedTail t

/-- `TaskScheduler::Start`: the entries deferred while stopped are run. -/
def start : TaskScheduler :=
  { s with running := true,
           frames := .entryDeferQ .stop (s.entries .stop).deferq.head? :: s.frames }

/-- `TaskScheduler::Stop`. -/
def stop : TaskScheduler := { s with running := false }

variable {s}

theorem noNewTasks_taskExitedTail (t : Nat) : NoNewTasks s (s.taskExitedTail t) := by
  unfold taskExitedTail
  split
  · exact NoNewTasks.refl s
  · split_ifs
    · intro other absent
      by_cases same : other = t
      · simp [same]
      · simp [same, absent]
    · exact (noNewTasks_updateTask t _).trans (noNewTasks_enqueueUnLocked t)

theorem noNewTasks_onTaskExit (t : Nat) : NoNewTasks s (s.onTaskExit t) := by
  unfold onTaskExit
  split
  · exact NoNewTasks.refl s
  · exact fun _ absent => absent

theorem noNewTasks_step : NoNewTasks s s.step := by
  unfold step
  split
  · exact NoNewTasks.refl s
  -- a pass of a defer queue loop unlinks the entry it is at and runs it
  · split
    · exact fun _ absent => absent
    · exact ((noNewTasks_groupDeleteFromDeferQ _ _).trans (noNewTasks_runDeferEntry _)).of_tasks_eq rfl
  · split
    · exact fun _ absent => absent
    · exact ((noNewTasks_entryDeleteFromDeferQ _ _).trans (noNewTasks_runDeferEntry _)).of_tasks_eq rfl
  · split
    · split_ifs
      · exact ((noNewTasks_groupDeleteFromDeferQ _ _).trans (noNewTasks_runDeferEntry _)).of_tasks_eq rfl
      · exact ((noNewTasks_entryDeleteFromDeferQ _ _).trans (noNewTasks_runDeferEntry _)).of_tasks_eq rfl
    all_goals exact fun _ absent => absent
  · exact (noNewTasks_taskExitedTail _).of_tasks_eq rfl

end TaskScheduler

/-- The operations clients call, each from a state with no loop in progress. -/
inductive Op
  /-- `SetPolicy`, before any task is enqueued. -/
  | setPolicy (taskId : Nat) (policy : List TaskExclusion)
  /-- A new `Task` of the given id and instance, then `Enqueue`. -/
  | enqueue (task taskId : Nat) (taskInstance : Int)
  /-- The task's `Run` returns `complete`, then `OnTaskExit`. -/
  | exit (task : Nat) (complete : Bool)
  | cancel (task : Nat)
  | stop
  | start
  deriving DecidableEq, Repr

/-- The `Task` constructor. -/
def Task.new (taskId : Nat) (taskInstance : Int) : Task :=
  { taskId, taskInstance, state := .INIT, seqno := 0, taskRecycle := false, taskCancel := false }

namespace Op

open TaskScheduler

/-- When a client can call the operation: `SetPolicy` once per id and before
any enqueue, a new task of a valid instance, the exit of a running task, the
cancel of a task that exists. -/
def Enabled (s : TaskScheduler) : Op → Prop
  | setPolicy taskId _ => (s.groups taskId).policySet = false ∧ s.seqno = 0
  | enqueue task _ taskInstance => s.tasks task = none ∧ -1 ≤ taskInstance
  | exit task _ => (s.tasks task).map Task.state = some .RUN
  | cancel task => (s.tasks task).isSome
  | stop | start => True

instance (s : TaskScheduler) : (o : Op) → Decidable (o.Enabled s)
  | setPolicy taskId _ => inferInstanceAs (Decidable ((s.groups taskId).policySet = false ∧ _))
  | enqueue task _ _ => inferInstanceAs (Decidable (s.tasks task = none ∧ _))
  | exit task _ => inferInstanceAs (Decidable ((s.tasks task).map Task.state = _))
  | cancel task => inferInstanceAs (Decidable ((s.tasks task).isSome = true))
  | stop | start => instDecidableTrue

/-- The start of the operation; its loops are left as frames. -/
def apply (s : TaskScheduler) : Op → TaskScheduler
  | setPolicy taskId policy => s.setPolicy taskId policy
  | enqueue task taskId taskInstance =>
    { s with tasks := Function.update s.tasks task (some (Task.new taskId taskInstance)) }.enqueueUnLocked
      task
  | exit task complete =>
    (s.updateTask task fun task => { task with taskRecycle := !complete }).onTaskExit task
  | cancel task => (s.cancel task).1
  | stop => s.stop
  | start => s.start

end Op

/-- The states the scheduler reaches: client operations when no loop is in
progress, and passes of the loops in progress. -/
inductive Reachable : TaskScheduler → Prop
  | init : Reachable TaskScheduler.init
  | op {s : TaskScheduler} (o : Op) : Reachable s → s.frames = [] → o.Enabled s →
      Reachable (o.apply s)
  | step {s : TaskScheduler} : Reachable s → s.frames ≠ [] → Reachable s.step

namespace TaskScheduler

/-- Run the loops in progress, for at most `fuel` passes. -/
def settle : Nat → TaskScheduler → TaskScheduler
  | 0, s => s
  | fuel + 1, s => if s.frames = [] then s else settle fuel s.step

/-- Client operations in order, each run to the end of its loops within `fuel`
passes; `none` when one is not enabled or does not finish. -/
def runOps (fuel : Nat) : TaskScheduler → List Op → Option TaskScheduler
  | s, [] => some s
  | s, o :: rest =>
    if s.frames = [] ∧ o.Enabled s ∧ (settle fuel (o.apply s)).frames = [] then
      runOps fuel (settle fuel (o.apply s)) rest
    else none

variable {s : TaskScheduler}

theorem noNewTasks_settle (fuel : Nat) : NoNewTasks s (settle fuel s) := by
  induction fuel generalizing s with
  | zero => exact NoNewTasks.refl s
  | succ fuel ih =>
    unfold settle
    split_ifs
    · exact NoNewTasks.refl s
    · exact noNewTasks_step.trans ih

/-- Once the loops are settled, more fuel runs no further pass. -/
theorem settle_add {fuel : Nat} (settled : (settle fuel s).frames = []) (extra : Nat) :
    settle (fuel + extra) s = settle fuel s := by
  induction fuel generalizing s with
  | zero =>
    cases extra with
    | zero => rfl
    | succ extra =>
      simp only [settle] at settled
      simp [settle, settled]
  | succ fuel ih =>
    rw [Nat.add_right_comm]
    unfold settle at settled ⊢
    split_ifs with idle
    · rfl
    · rw [if_neg idle] at settled
      exact ih settled

/-- A run of client operations that settles each of them within `fuel` passes
ends in the same state with any more fuel. -/
theorem runOps_add {fuel extra : Nat} :
    ∀ {s s' : TaskScheduler} {ops : List Op}, runOps fuel s ops = some s' → runOps (fuel + extra) s ops = some s'
  | s, s', [], ran => ran
  | s, s', o :: rest, ran => by
    simp only [runOps] at ran ⊢
    split_ifs at ran with ready
    rw [settle_add ready.2.2 extra, if_pos ready]
    exact runOps_add ran

/-- Only an enqueue under handle `t` gives `t` a task. -/
theorem apply_tasks_of_absent {t : Nat} {o : Op}
    (other : ∀ taskId taskInstance, o ≠ .enqueue t taskId taskInstance) (absent : s.tasks t = none) :
    (o.apply s).tasks t = none := by
  cases o with
  | setPolicy taskId policy => exact noNewTasks_setPolicy taskId policy t absent
  | enqueue task taskId taskInstance =>
    have elsewhere : task ≠ t := by
      rintro rfl
      exact other taskId taskInstance rfl
    refine noNewTasks_enqueueUnLocked task t ?_
    simp [Function.update_of_ne elsewhere.symm, absent]
  | exit task complete =>
    exact ((noNewTasks_updateTask task _).trans (noNewTasks_onTaskExit task)) t absent
  | cancel task => exact noNewTasks_cancel task t absent
  | stop => exact absent
  | start => exact absent

theorem runOps_tasks_of_absent {t fuel : Nat} :
    ∀ {s s' : TaskScheduler} {ops : List Op}, (∀ o ∈ ops, ∀ taskId taskInstance, o ≠ .enqueue t taskId taskInstance) →
      runOps fuel s ops = some s' → s.tasks t = none → s'.tasks t = none
  | s, s', [], _, ran, absent => by
    simp only [runOps, Option.some.injEq] at ran
    exact ran ▸ absent
  | s, s', o :: rest, other, ran, absent => by
    simp only [runOps] at ran
    split_ifs at ran
    refine runOps_tasks_of_absent (fun o' mem => other o' (List.mem_cons_of_mem o mem)) ran ?_
    exact noNewTasks_settle fuel t (apply_tasks_of_absent (other o List.mem_cons_self) absent)

end TaskScheduler

theorem Reachable.settle {s : TaskScheduler} (reachable : Reachable s) (fuel : Nat) :
    Reachable (TaskScheduler.settle fuel s) := by
  induction fuel generalizing s with
  | zero => exact reachable
  | succ fuel ih =>
    unfold TaskScheduler.settle
    split_ifs with idle
    · exact reachable
    · exact ih (Reachable.step reachable idle)

theorem Reachable.runOps {fuel : Nat} :
    ∀ {s s' : TaskScheduler} {ops : List Op}, Reachable s → TaskScheduler.runOps fuel s ops = some s' →
      Reachable s'
  | s, s', [], reachable, ran => by
    simp only [TaskScheduler.runOps, Option.some.injEq] at ran
    exact ran ▸ reachable
  | s, s', o :: rest, reachable, ran => by
    simp only [TaskScheduler.runOps] at ran
    split_ifs at ran with ready
    exact Reachable.runOps ((Reachable.op o reachable ready.1 ready.2.1).settle fuel) ran

/-- A run of client operations from the start that ends where `p` holds. -/
theorem Reachable.of_runOps {fuel : Nat} {ops : List Op} {p : TaskScheduler → Bool}
    (ran : (TaskScheduler.runOps fuel TaskScheduler.init ops).map p = some true) :
    ∃ s, Reachable s ∧ p s = true := by
  cases final : TaskScheduler.runOps fuel TaskScheduler.init ops with
  | none => simp [final] at ran
  | some s =>
    simp only [final, Option.map_some, Option.some.injEq] at ran
    exact ⟨s, Reachable.init.runOps final, ran⟩

end Contrail.Base
