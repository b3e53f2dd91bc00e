import Contrail.Base.TaskMachine

/-! The key of an entry in a `deferq_` is the sequence number of its first
waiting task narrowed to `int`, so two entries whose first tasks were numbered
2^32 apart have one key, and the tree's `insert` then leaves the second out
while its link is set. A task that keeps recycling numbers the tasks between
the two; the entry left out is never run. -/
namespace Contrail.Base

open TaskScheduler

/-- A running instance -1 task, alone in its group and its entry, with
nothing deferred on either. -/
structure Alone (s : TaskScheduler) (c : Nat) (task : Task) : Prop where
  found : s.tasks c = some task
  runs : task.state = .RUN
  anyInstance : task.taskInstance = -1
  notCancelled : task.taskCancel = false
  running : s.running = true
  idle : s.frames = []
  groupAlone : s.groups task.taskId = { TaskGroup.init with runCount := 1 }
  entryAlone : s.entries (.entry task.taskId (-1)) =
    { TaskEntry.init (.entry task.taskId (-1)) with runCount := 1 }

/-- The state after `k` runs of the task under handle `c` that return
`false`: it is numbered `k` times and runs again. -/
def recycled (s : TaskScheduler) (c : Nat) (task : Task) (k : Nat) : TaskScheduler :=
  { s with seqno := s.seqno + k,
           tasks := Function.update s.tasks c (some { task with seqno := s.seqno + k, taskRecycle := true }) }

theorem recycled_recycled (s : TaskScheduler) (c : Nat) (task : Task) (k j : Nat) :
    recycled (recycled s c task k) c { task with seqno := s.seqno + k, taskRecycle := true } j =
      recycled s c task (k + j) := by
  simp [recycled, Nat.add_assoc]

variable {s : TaskScheduler} {c : Nat} {task : Task}

theorem Alone.enabled (alone : Alone s c task) : (Op.exit c false).Enabled s := by
  simp [Op.Enabled, alone.found, alone.runs]

theorem Alone.after_recycles (alone : Alone s c task) (k : Nat) :
    Alone (recycled s c task k) c { task with seqno := s.seqno + k, taskRecycle := true } where
  found := by simp [recycled]
  runs := alone.runs
  anyInstance := alone.anyInstance
  notCancelled := alone.notCancelled
  running := alone.running
  idle := alone.idle
  groupAlone := alone.groupAlone
  entryAlone := alone.entryAlone

/-- A run of a lone task that returns `false`: `OnTaskExit` walks the empty
defer queues of its group and entry, and `TaskExited` enqueues it again, where
it starts at once under the next sequence number. -/
theorem settle_exit_of_alone (alone : Alone s c task) :
    settle 3 ((Op.exit c false).apply s) = recycled s c task 1 := by
  obtain ⟨found, runs, anyInstance, notCancelled, running, idle, groupAlone, entryAlone⟩ := alone
  obtain ⟨taskId, taskInstance, state, seqno, recycle, cancel⟩ := task
  simp only at runs anyInstance notCancelled groupAlone entryAlone
  subst runs anyInstance notCancelled
  simp [running, groupDeferOnPolicyFail, activeGroupInPolicy, entryDeferOnPolicyFail,
    activeEntryInPolicy, runTask, settle, Op.apply, onTaskExit, updateTask, found, updateEntry,
    updateGroup, step, idle, taskExitedTail, enqueueUnLocked, recycled, groupAlone, entryAlone,
    TaskGroup.init, TaskEntry.init]

/-- A lone task recycles as often as a client lets it. -/
theorem Alone.reachable_recycled (alone : Alone s c task) (reachable : Reachable s) :
    ∀ k, Reachable (recycled s c task (k + 1)) := by
  intro k
  induction k with
  | zero =>
    have ran := (Reachable.op (.exit c false) reachable alone.idle alone.enabled).settle 3
    rwa [settle_exit_of_alone alone] at ran
  | succ k ih =>
    -- the recycled state is again one of a lone task, one number further
    have again := alone.after_recycles (k + 1)
    have ran := (Reachable.op (.exit c false) ih again.idle again.enabled).settle 3
    rwa [settle_exit_of_alone again, recycled_recycled] at ran

/-! ## A waiting task that never runs

Group 1 excludes group 2. Task 1 runs in entry (2, -1); task 2, of entry
(1, 1), is deferred on group 2 under the key 2; task 3 runs alone in group 3
and recycles 2^32 - 2 times. Task 4, of entry (1, 2), is then numbered
2^32 + 2 and is deferred on group 2 under the key 2 again, which the tree
already holds. When the three other tasks exit, nothing runs task 4. -/

def loadOps : List Op :=
  [.setPolicy 1 [⟨2, -1⟩], .enqueue 1 2 (-1), .enqueue 2 1 1, .enqueue 3 3 (-1)]

def collideOps : List Op :=
  [.enqueue 4 1 2, .exit 3 true, .exit 1 true, .exit 2 true]

def loadedState : TaskScheduler := (runOps 8 TaskScheduler.init loadOps).getD TaskScheduler.init

theorem runOps_loadOps : runOps 8 TaskScheduler.init loadOps = some loadedState := by
  have ran : (runOps 8 TaskScheduler.init loadOps).isSome = true := by decide
  obtain ⟨loaded, eq⟩ := Option.isSome_iff_exists.mp ran
  simp [loadedState, eq]

/-- Task 3 as it runs after the loading operations. -/
def recyclingTask : Task :=
  { taskId := 3, taskInstance := -1, state := .RUN, seqno := 3, taskRecycle := false, taskCancel := false }

theorem alone_loadedState : Alone loadedState 3 recyclingTask where
  found := by decide
  runs := rfl
  anyInstance := rfl
  notCancelled := rfl
  running := by decide
  idle := by decide
  groupAlone := by decide
  entryAlone := by decide

/-- The state after task 3 recycled 2^32 - 2 times. -/
def wrappedState : TaskScheduler := recycled loadedState 3 recyclingTask (2 ^ 32 - 2)

/-- Whether the final state has no loop in progress, runs none of tasks 1 to
4 and still has task 4 waiting. -/
def strandsWaiter (s : TaskScheduler) : Bool :=
  decide (s.frames = [] ∧ s.running = true ∧
    (∀ t : Fin 5, (s.tasks t).map Task.state ≠ some .RUN) ∧ (s.entries (.entry 1 2)).waitq ≠ [])

theorem waiting_task_stranded_after_seqno_wrap :
    ∃ s, Reachable s ∧ s.frames = [] ∧ s.running = true ∧
      (∀ t task, s.tasks t = some task → task.state ≠ .RUN) ∧ (s.entries (.entry 1 2)).waitq ≠ [] := by
  have wrapped : Reachable wrappedState :=
    show Reachable (recycled loadedState 3 recyclingTask (2 ^ 32 - 3 + 1)) from
      alone_loadedState.reachable_recycled (Reachable.init.runOps runOps_loadOps) (2 ^ 32 - 3)
  have collided : (runOps 8 wrappedState collideOps).map strandsWaiter = some true := by decide
  cases final : runOps 8 wrappedState collideOps with
  | none => simp [final] at collided
  | some s =>
    simp only [final, Option.map_some, Option.some.injEq, strandsWaiter, decide_eq_true_eq] at collided
    obtain ⟨idle, running, notRunning, waiting⟩ := collided
    refine ⟨s, wrapped.runOps final, idle, running, ?_, waiting⟩
    intro t task found
    by_cases small : t < 5
    · have stopped := notRunning ⟨t, small⟩
      simp only [found, Option.map_some, ne_eq, Option.some.injEq] at stopped
      exact stopped
    · -- no operation enqueues a task under a larger handle, so it has none
      have loaded : loadedState.tasks t = none :=
        runOps_tasks_of_absent (by simp [loadOps]; omega) runOps_loadOps rfl
      have absent : s.tasks t = none := by
        refine runOps_tasks_of_absent (by simp [collideOps]; omega) final ?_
        simp [wrappedState, recycled, Function.update_of_ne (show t ≠ 3 by omega), loaded]
      simp [absent] at found

end Contrail.Base
