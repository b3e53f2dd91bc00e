import Contrail.Base.TaskMachine

/-! Mutual exclusion of tasks. Two tasks conflict when they are of one instance
other than -1 of one task id, when `SetPolicy` set a group exclusion between
their ids, or when it set an instance exclusion that binds their entries; the
rules `SetPolicy` adds are symmetric, so the rules of the first task's entry
and group say it. `TaskEntry::RunWaitQ` of an instance -1 entry starts every
waiting task after one policy check, made before the first of them starts. -/
namespace Contrail.Base

/-- The tasks the policies keep from running together. -/
def Conflict (s : TaskScheduler) (first second : Task) : Prop :=
  (first.taskId = second.taskId ∧ first.taskInstance = second.taskInstance ∧
      first.taskInstance ≠ -1) ∨
    second.taskId ∈ (s.groups first.taskId).policy ∨
    EntryId.entry second.taskId second.taskInstance ∈
      (s.entries (.entry first.taskId first.taskInstance)).policyq

instance (s : TaskScheduler) (first second : Task) : Decidable (Conflict s first second) :=
  inferInstanceAs (Decidable (_ ∨ _ ∨ _))

/-- Two running tasks that conflict, as handles of the scheduler's tasks. -/
def runningConflict (s : TaskScheduler) (a b : Nat) : Bool :=
  match s.tasks a, s.tasks b with
  | some first, some second =>
    decide (a ≠ b ∧ first.state = .RUN ∧ second.state = .RUN ∧ Conflict s first second)
  | _, _ => false

theorem runningConflict_spec {s : TaskScheduler} {a b : Nat} (found : runningConflict s a b = true) :
    ∃ first second, a ≠ b ∧ s.tasks a = some first ∧ s.tasks b = some second ∧
      first.state = .RUN ∧ second.state = .RUN ∧ Conflict s first second := by
  unfold runningConflict at found
  split at found
  · rename_i first second taskA taskB
    obtain ⟨distinct, firstRuns, secondRuns, conflict⟩ := of_decide_eq_true found
    exact ⟨first, second, distinct, taskA, taskB, firstRuns, secondRuns, conflict⟩
  · cases found

/-- A task id that excludes itself, three of its instance -1 tasks enqueued
while the first runs: when it exits, the other two start together. -/
def selfExcludedTrace : List Op :=
  [.setPolicy 0 [⟨0, -1⟩], .enqueue 1 0 (-1), .enqueue 2 0 (-1), .enqueue 3 0 (-1), .exit 1 true]

theorem instanceAny_waiters_run_together :
    ∃ s, Reachable s ∧ ∃ first second, s.tasks 2 = some first ∧ s.tasks 3 = some second ∧
      first.state = .RUN ∧ second.state = .RUN ∧ Conflict s first second := by
  obtain ⟨s, reachable, found⟩ :=
    @Reachable.of_runOps 8 selfExcludedTrace (fun s => runningConflict s 2 3) (by decide)
  obtain ⟨first, second, -, taskA, taskB, firstRuns, secondRuns, conflict⟩ :=
    runningConflict_spec found
  exact ⟨s, reachable, first, second, taskA, taskB, firstRuns, secondRuns, conflict⟩

end Contrail.Base
