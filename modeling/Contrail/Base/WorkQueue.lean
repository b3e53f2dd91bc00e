import Contrail.Base.TaskMachine

/-! `WorkQueue<QueueEntryT>` of `base/queue_task.h` with its `QueueTaskRunner`,
run under the `TaskScheduler` of `Contrail.Base.TaskMachine`. Client calls of
`Enqueue` and `set_disable` and the runner's `Run` are threads that step at the
granularity of the atomic `count_`, the concurrent queue and the sections under
`mutex_`; a runner steps only while the scheduler runs its task. The queue is
the `tbb::concurrent_queue` in the order its pushes took effect. Shutdown,
water marks and statistics are not modeled. -/
namespace Contrail.Base

/-- The fields of a `WorkQueue` that `Enqueue`, `MayBeStartRunner` and the
runner read or write. -/
structure WorkQueue (α : Type) where
  queue : List α
  count : Nat
  running : Bool
  currentRunner : Option Nat
  disabled : Bool
  taskId : Nat
  taskInstance : Int
  maxIterations : Nat
  size : Nat
  bounded : Bool
  validInstance : -1 ≤ taskInstance

namespace WorkQueue

def kMaxSize : Nat := 1024

def kMaxIterations : Nat := 32

/-- The `WorkQueue` constructor, then `SetBounded`. -/
def init {α : Type} (taskId : Nat) (taskInstance : Int) (validInstance : -1 ≤ taskInstance)
    (size maxIterations : Nat) (bounded : Bool) : WorkQueue α :=
  { queue := [], count := 0, running := false, currentRunner := none, disabled := false,
    taskId, taskInstance, maxIterations, size, bounded, validInstance }

end WorkQueue

/-- Where a `QueueTaskRunner` is in its `Run`. -/
inductive RunnerPc (α : Type)
  | onEntry
  | runnerAbort
  | dequeue (count : Nat)
  /-- `try_pop` took the entry and `count_` is not decremented yet. -/
  | decrement (entry : α) (count : Nat)
  | callback (entry : α) (count : Nat)
  | runnerDone
  | returning (done : Bool)
  | exited
  deriving DecidableEq, Repr

/-- Where a client call of `Enqueue` or `set_disable` is; `none` is the result
of `set_disable`, which returns nothing. -/
inductive CallerPc (α : Type)
  | push (entry : α) (ncount : Nat)
  | drop
  | mayBeStartRunner (result : Option Bool)
  | returned (result : Option Bool)
  deriving DecidableEq, Repr

/-- A work queue, its threads and the scheduler. `startRunner` is what
`start_runner_` returns at the moment (`none` when it is not set);
`pushed`, `delivered` and `lastAbort` record the pushes, the entries handed to
the callback and the result of the last `RunnerAbortLocked`. -/
structure QueueSystem (α : Type) where
  scheduler : TaskScheduler
  workQueue : WorkQueue α
  startRunner : Option Bool
  runners : Nat → Option (RunnerPc α)
  callers : Nat → Option (CallerPc α)
  pushed : List α
  delivered : List α
  lastAbort : Bool

/-- The steps of the system: client calls, runner steps, and the scheduler's
loops and other clients. -/
inductive Action (α : Type)
  | enqueue (caller : Nat) (entry : α)
  | push (caller : Nat)
  | drop (caller : Nat)
  /-- `MayBeStartRunner` of the caller; a runner it starts has handle `runner`. -/
  | mayBeStartRunner (caller runner : Nat)
  | setDisable (caller : Nat) (disabled : Bool)
  | setStartRunner (value : Option Bool)
  /-- A step of the runner's `Run`; `outcome` is what `on_entry_cb_` or the
  callback returns. -/
  | run (runner : Nat) (outcome : Bool)
  /-- `Run` returns and the scheduler runs `OnTaskExit`. -/
  | exit (runner : Nat)
  | schedulerStep
  | other (o : Op)
  deriving DecidableEq, Repr

/-- The handle of the task an operation names. -/
def Op.handle? : Op → Option Nat
  | .enqueue task _ _ | .exit task _ | .cancel task => some task
  | .setPolicy _ _ | .stop | .start => none

namespace QueueSystem

variable {α : Type} (sys : QueueSystem α)

def init (workQueue : WorkQueue α) (startRunner : Option Bool) : QueueSystem α :=
  { scheduler := TaskScheduler.init, workQueue, startRunner, runners := fun _ => none,
    callers := fun _ => none, pushed := [], delivered := [], lastAbort := false }

def modifyQueue (f : WorkQueue α → WorkQueue α) : QueueSystem α :=
  { sys with workQueue := f sys.workQueue }

def setRunner (r : Nat) (pc : RunnerPc α) : QueueSystem α :=
  { sys with runners := Function.update sys.runners r (some pc) }

def setCaller (c : Nat) (pc : CallerPc α) : QueueSystem α :=
  { sys with callers := Function.update sys.callers c (some pc) }

@[simp] theorem setCaller_callers_self (c : Nat) (pc : CallerPc α) :
    (sys.setCaller c pc).callers c = some pc := by
  simp [setCaller]

/-- `RunnerAbortLocked` with no shutdown scheduled. -/
def runnerAbortLocked : Bool :=
  sys.workQueue.disabled || sys.startRunner == some false

/-- The caller is not inside a call. -/
def isIdle (c : Nat) : Bool :=
  match sys.callers c with
  | none | some (.returned _) => true
  | _ => false

/-- The scheduler runs the runner's task and is not in the middle of its exit. -/
def runnerRuns (r : Nat) : Bool :=
  (sys.scheduler.tasks r).map Task.state == some .RUN && !(sys.scheduler.frames.contains (.taskExited r))

/-- `Enqueue` up to its atomic increment of `count_`; a bounded queue that is
full takes the drop path of `EnqueueBounded`. -/
def enqueue (c : Nat) (entry : α) : Option (QueueSystem α) :=
  if sys.isIdle c then
    let ncount := sys.workQueue.count + 1
    let pc := if sys.workQueue.bounded && !decide (ncount < sys.workQueue.size) then CallerPc.drop
      else .push entry ncount
    some ((sys.modifyQueue fun wq => { wq with count := ncount }).setCaller c pc)
  else none

/-- `queue_.push`; `EnqueueInternal` then returns whether the queue was below
its size, `EnqueueBounded` returns true. -/
def push (c : Nat) : Option (QueueSystem α) :=
  match sys.callers c with
  | some (.push entry ncount) =>
    let result := sys.workQueue.bounded || decide (ncount < sys.workQueue.size)
    let pushed := sys.modifyQueue fun wq => { wq with queue := wq.queue ++ [entry] }
    some ({ pushed with pushed := sys.pushed ++ [entry] }.setCaller c (.mayBeStartRunner (some result)))
  | _ => none

/-- The drop path of `EnqueueBounded`. -/
def drop (c : Nat) : Option (QueueSystem α) :=
  match sys.callers c with
  | some .drop => some ((sys.modifyQueue fun wq => { wq with count := wq.count - 1 }).setCaller c
      (.returned (some false)))
  | _ => none

/-- A new `QueueTaskRunner` under handle `r` becomes the current runner and
is enqueued to the scheduler, once the scheduler's mutex is free. -/
def startRunnerTask (r : Nat) : Option (QueueSystem α) :=
  if sys.scheduler.frames = [] ∧ sys.scheduler.tasks r = none ∧ sys.runners r = none then
    let started := (sys.modifyQueue fun wq => { wq with running := true, currentRunner := some r }).setRunner
      r .onEntry
    some { started with
      scheduler := (Op.enqueue r sys.workQueue.taskId sys.workQueue.taskInstance).apply sys.scheduler }
  else none

/-- `MayBeStartRunner`. -/
def mayBeStartRunner (r : Nat) : Option (QueueSystem α) :=
  if sys.workQueue.running || sys.workQueue.queue.isEmpty then some sys
  else if sys.runnerAbortLocked then some { sys with lastAbort := true }
  else { sys with lastAbort := false }.startRunnerTask r

def callerMayBeStartRunner (c r : Nat) : Option (QueueSystem α) :=
  match sys.callers c with
  | some (.mayBeStartRunner result) =>
    (sys.mayBeStartRunner r).map fun started => started.setCaller c (.returned result)
  | _ => none

/-- `set_disable`: enabling the queue calls `MayBeStartRunner` after the flag
is written. -/
def setDisable (c : Nat) (disabled : Bool) : Option (QueueSystem α) :=
  if sys.isIdle c then
    if sys.workQueue.disabled ≠ disabled then
      let pc := if disabled then CallerPc.returned none else .mayBeStartRunner none
      some ((sys.modifyQueue fun wq => { wq with disabled }).setCaller c pc)
    else some (sys.setCaller c (.returned none))
  else none

/-- `RunnerDone`: the runner stops when the queue is empty or it must not
run; it does not check that it is the current runner. -/
def runnerDone (r : Nat) : QueueSystem α :=
  let stop := fun (sys : QueueSystem α) =>
    (sys.modifyQueue fun wq => { wq with running := false, currentRunner := none }).setRunner r
      (.returning true)
  if sys.workQueue.queue.isEmpty then stop sys
  else
    let checked := { sys with lastAbort := sys.runnerAbortLocked }
    if sys.runnerAbortLocked then stop checked
    else (checked.modifyQueue fun wq => { wq with running := true }).setRunner r (.returning false)

/-- One step of `QueueTaskRunner::Run`. -/
def runStep (r : Nat) (outcome : Bool) : Option (QueueSystem α) :=
  if sys.runnerRuns r then
    match sys.runners r with
    | some .onEntry => some (sys.setRunner r (if outcome then .runnerAbort else .returning false))
    | some .runnerAbort =>
      let checked := { sys with lastAbort := sys.runnerAbortLocked }
      some (checked.setRunner r (if sys.runnerAbortLocked then .runnerDone else .dequeue 0))
    | some (.dequeue count) =>
      match sys.workQueue.queue with
      | [] => some (sys.setRunner r .runnerDone)
      | entry :: rest =>
        some ((sys.modifyQueue fun wq => { wq with queue := rest }).setRunner r (.decrement entry count))
    | some (.decrement entry count) =>
      some ((sys.modifyQueue fun wq => { wq with count := wq.count - 1 }).setRunner r (.callback entry count))
    | some (.callback entry count) =>
      -- a callback that returns false ends the loop, as does the last of `max_iterations_`
      let next := if !outcome || count + 1 = sys.workQueue.maxIterations then RunnerPc.runnerDone
        else .dequeue (count + 1)
      some ({ sys with delivered := sys.delivered ++ [entry] }.setRunner r next)
    | some .runnerDone => some (sys.runnerDone r)
    | _ => none
  else none

/-- `Run` returns `done`: the scheduler deletes the runner's task, or recycles
it to run again from the start. -/
def runnerExit (r : Nat) : Option (QueueSystem α) :=
  match sys.runners r with
  | some (.returning done) =>
    if sys.scheduler.frames = [] ∧ sys.runnerRuns r then
      some { sys.setRunner r (if done then .exited else .onEntry) with
        scheduler := (Op.exit r done).apply sys.scheduler }
    else none
  | _ => none

def schedulerStep : Option (QueueSystem α) :=
  if sys.scheduler.frames ≠ [] then some { sys with scheduler := sys.scheduler.step } else none

/-- Another client of the scheduler, on tasks that are not runners of the queue. -/
def other (o : Op) : Option (QueueSystem α) :=
  let foreign := match o.handle? with
    | some t => (sys.runners t).isNone
    | none => true
  if sys.scheduler.frames = [] ∧ o.Enabled sys.scheduler ∧ foreign = true then
    some { sys with scheduler := o.apply sys.scheduler }
  else none

def apply : Action α → Option (QueueSystem α)
  | .enqueue c entry => sys.enqueue c entry
  | .push c => sys.push c
  | .drop c => sys.drop c
  | .mayBeStartRunner c r => sys.callerMayBeStartRunner c r
  | .setDisable c disabled => sys.setDisable c disabled
  | .setStartRunner value => some { sys with startRunner := value }
  | .run r outcome => sys.runStep r outcome
  | .exit r => sys.runnerExit r
  | .schedulerStep => sys.schedulerStep
  | .other o => sys.other o

/-- Actions in order; `none` when one is not enabled. -/
def runActions : QueueSystem α → List (Action α) → Option (QueueSystem α)
  | sys, [] => some sys
  | sys, a :: rest => (sys.apply a).bind fun next => runActions next rest

/-- The states a work queue reaches from its construction. -/
inductive Reachable : QueueSystem α → Prop
  | init (workQueue : WorkQueue α) (startRunner : Option Bool) :
      workQueue.queue = [] → workQueue.running = false → workQueue.currentRunner = none →
      Reachable (QueueSystem.init workQueue startRunner)
  | step {sys next : QueueSystem α} (a : Action α) : Reachable sys → sys.apply a = some next →
      Reachable next

theorem Reachable.runActions {actions : List (Action α)} :
    ∀ {sys next : QueueSystem α}, sys.Reachable → QueueSystem.runActions sys actions = some next → next.Reachable := by
  induction actions with
  | nil =>
    intro sys next reachable ran
    simp only [QueueSystem.runActions, Option.some.injEq] at ran
    exact ran ▸ reachable
  | cons a rest ih =>
    intro sys next reachable ran
    obtain ⟨middle, applied, ran⟩ := Option.bind_eq_some_iff.mp ran
    exact ih (.step a reachable applied) ran

/-- A run of actions from a reachable state that ends where `p` holds. -/
theorem Reachable.of_runActions {start : QueueSystem α} {actions : List (Action α)}
    {p : QueueSystem α → Bool} (reachable : start.Reachable)
    (ran : (QueueSystem.runActions start actions).map p = some true) : ∃ sys, sys.Reachable ∧ p sys = true := by
  cases final : QueueSystem.runActions start actions with
  | none => simp [final] at ran
  | some sys =>
    simp only [final, Option.map_some, Option.some.injEq] at ran
    exact ⟨sys, reachable.runActions final, ran⟩

end QueueSystem

end Contrail.Base
