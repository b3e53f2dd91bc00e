import Contrail.Lib.Runs
import Mathlib

/-! `Timer` of `base/timer.cc`, with the parts of `TaskScheduler` (`base/task.cc`)
and of the asio timer it works through, as one state machine whose events are
the steps the three actors take under the timer mutex: `Start` and `Cancel`
from outside the handler, the asio completion that runs `StartTimerTask`, and
the steps of a `TimerTask` from the scheduler starting it to its exit.

Tasks are named by the order they were created in; `tasks` holds those not
yet deleted. `seq_no_` is a `uint32_t` that `Start` increments: it is the
number of increments so far, `armings`, modulo 2^32. Each `async_wait` binds
the sequence number of its arming and stays in `waits` until asio completes it,
with any error code: asio aborts a wait when `expires_from_now` is called again,
which covers every outcome it can have. What the handler returns is a parameter
of the event that runs it. `armings`, the arming a task serves, `invoked` and
`preempted` are the history of the run, not state of the source: the handler
calls per arming, and the armings a `Cancel` returned `true` for before one of
their tasks took the timer mutex. -/
namespace Contrail.Base

inductive TimerState
  | Init | Running | Fired | Cancelled
  deriving DecidableEq, Repr

/-- The error code of an asio completion. -/
inductive WaitCode
  | success | operationAborted | failure
  deriving DecidableEq, Repr

/-- Where a `TimerTask` is. `waiting` is the scheduler's `WAIT`; the others are
its `RUN`: `scheduled` before `Run` takes the timer mutex, `firing` after it
set the state to `Fired`, `handled` once the handler returned, `finishing`
after `OnTaskCancel`. -/
inductive TaskPhase
  | waiting | scheduled | firing
  | handled (restart : Bool)
  | finishing (restart : Bool)
  deriving DecidableEq, Repr

/-- The phases in which the timer may still hold the task in `timer_task_`. -/
def TaskPhase.active : TaskPhase → Bool
  | .finishing _ => false
  | _ => true

structure TimerTask where
  /-- The arming that was current when `StartTimerTask` created the task. -/
  arming : Nat
  ec : WaitCode
  phase : TaskPhase
  /-- `task_cancel_` of the scheduler. -/
  cancelled : Bool
  deriving DecidableEq, Repr

/-- The assertions of `timer.cc`. -/
inductive TimerFault
  /-- `assert(timer_task_ == NULL)` in `StartTimerTask`. -/
  | timerTaskSet
  /-- `assert(rc != TaskScheduler::FAILED)` in `Cancel`. -/
  | cancelFailed
  /-- `assert(!timer_->timer_task_)` in `OnTaskCancel`. -/
  | otherTimerTask
  deriving DecidableEq, Repr

structure Timer where
  state : TimerState
  timerTask : Option Nat
  time : Int
  /-- The increments of `seq_no_` so far. -/
  armings : Nat
  /-- Whether `error_handler_` is set. -/
  errorHandler : Bool
  deleteOnCompletion : Bool
  tasks : Nat → Option TimerTask
  nextTask : Nat
  /-- The pending waits, by the arming each was started in. -/
  waits : List Nat
  invoked : Nat → Nat
  preempted : Nat → Bool

namespace Timer

def init (deleteOnCompletion : Bool) : Timer :=
  ⟨.Init, none, 0, 0, false, deleteOnCompletion, fun _ => none, 0, [], fun _ => 0, fun _ => false⟩

/-- `seq_no_`, a `uint32_t` incremented once per arming. -/
def seqNo (t : Timer) : UInt32 := UInt32.ofNat t.armings

/-- `Start`: ignored for a negative time and while the timer runs or fires;
otherwise a new sequence number, and a wait when `expires_from_now` succeeds. -/
def Start (t : Timer) (time : Int) (errorHandler expiresOk : Bool) : Timer × Bool :=
  if time < 0 then (t, true)
  else if t.state = .Running ∨ t.state = .Fired then (t, true)
  else
    let t := { t with time := time, armings := t.armings + 1, errorHandler := errorHandler }
    if expiresOk then ({ t with state := .Running, waits := t.waits ++ [t.armings] }, true)
    else (t, false)

/-- `TaskScheduler::Cancel`: a task in `WAIT` is deleted, one in `RUN` marked.
A task that was deleted is in neither state, which is the `FAILED` outcome. -/
def cancelTask (tasks : Nat → Option TimerTask) (id : Nat) : Option (Nat → Option TimerTask) :=
  (tasks id).map fun task =>
    if task.phase = .waiting then Function.update tasks id none
    else Function.update tasks id (some { task with cancelled := true })

/-- `Cancel`. A `true` result while the handler of the current arming has not
been called comes before its task took the mutex, and is recorded. -/
def Cancel (t : Timer) : Except TimerFault (Timer × Bool) :=
  if t.state = .Fired then .ok (t, false)
  else
    let cancelled := match t.timerTask with
      | none => some t.tasks
      | some id => cancelTask t.tasks id
    match cancelled with
    | none => .error .cancelFailed
    | some tasks =>
      let preempted :=
        if t.invoked t.armings = 0 then Function.update t.preempted t.armings true else t.preempted
      .ok ({ t with tasks := tasks, timerTask := none, state := .Cancelled, preempted := preempted },
        true)

def StartTimerTask (t : Timer) (seqNo : UInt32) (ec : WaitCode) : Except TimerFault Timer :=
  if t.state = .Cancelled then .ok t
  else if ec = .operationAborted then .ok t
  else if t.seqNo ≠ seqNo then .ok t
  else if t.timerTask.isSome then .error .timerTaskSet
  else .ok { t with
    timerTask := some t.nextTask
    tasks := Function.update t.tasks t.nextTask (some ⟨t.armings, ec, .waiting, false⟩)
    nextTask := t.nextTask + 1 }

/-- `TimerTask::OnTaskCancel` of task `id`, whose `timer_` is set. -/
def OnTaskCancel (t : Timer) (id : Nat) : Except TimerFault Timer :=
  if t.timerTask ≠ some id ∧ t.timerTask.isSome then .error .otherTimerTask
  else .ok { t with timerTask := none, state := .Init }

/-- `TaskScheduler::OnTaskExit` of task `id`, which is not recycled:
`OnTaskCancel` when it was marked and still holds the timer, then deletion. -/
def OnTaskExit (t : Timer) (id : Nat) (holdsTimer : Bool) : Except TimerFault Timer := do
  let t ← if holdsTimer && (t.tasks id).any (·.cancelled) then t.OnTaskCancel id else pure t
  pure { t with tasks := Function.update t.tasks id none }

/-- `TimerManager::DeleteTimer` as far as the timer sees it: nothing for a fired
timer, else `Cancel`. -/
def DeleteTimer (t : Timer) : Except TimerFault Timer :=
  if t.state = .Fired then .ok t else t.Cancel.map Prod.fst

def setTask (t : Timer) (id : Nat) (task : TimerTask) : Timer :=
  { t with tasks := Function.update t.tasks id (some task) }

end Timer

inductive TimerEvent
  | start (time : Int) (errorHandler expiresOk : Bool)
  | cancel
  /-- asio completes the wait at this index of `waits`. -/
  | complete (wait : Nat) (ec : WaitCode)
  /-- The scheduler starts a waiting task. -/
  | schedule (id : Nat)
  /-- `Run` takes the timer mutex. -/
  | lock (id : Nat)
  /-- The handler, or the error handler, runs and returns. -/
  | handle (id : Nat) (result : Bool)
  /-- `OnTaskCancel` at the end of `Run`. -/
  | release (id : Nat)
  /-- The restart or `DeleteTimer` after the handler, then the task's exit. -/
  | finish (id : Nat) (expiresOk : Bool)

namespace Timer

/-- One event; an event of a task that is not in the phase it needs changes nothing. -/
def step (t : Timer) : TimerEvent → Except TimerFault Timer
  | .start time errorHandler expiresOk => .ok (t.Start time errorHandler expiresOk).1
  | .cancel => t.Cancel.map Prod.fst
  | .complete wait ec =>
    match t.waits[wait]? with
    -- the wait of an arming carries the sequence number it was started with
    | some arming => StartTimerTask { t with waits := t.waits.eraseIdx wait } (UInt32.ofNat arming) ec
    | none => .ok t
  | .schedule id =>
    match t.tasks id with
    | some ⟨arming, ec, .waiting, cancelled⟩ => .ok (t.setTask id ⟨arming, ec, .scheduled, cancelled⟩)
    | _ => .ok t
  | .lock id =>
    match t.tasks id with
    | some ⟨arming, ec, .scheduled, cancelled⟩ =>
      -- a marked task gives up the timer, so its exit does not reach `OnTaskCancel`
      if cancelled then t.OnTaskExit id false
      else .ok { t.setTask id ⟨arming, ec, .firing, false⟩ with state := .Fired }
    | _ => .ok t
  | .handle id result =>
    match t.tasks id with
    | some ⟨arming, ec, .firing, cancelled⟩ =>
      -- the error handler returns nothing, and the timer is not restarted
      let restart := if ec ≠ .success ∧ t.errorHandler then false else result
      .ok { t.setTask id ⟨arming, ec, .handled restart, cancelled⟩ with
        invoked := Function.update t.invoked arming (t.invoked arming + 1) }
    | _ => .ok t
  | .release id =>
    match t.tasks id with
    | some ⟨arming, ec, .handled restart, cancelled⟩ => do
      let t ← t.OnTaskCancel id
      pure (t.setTask id ⟨arming, ec, .finishing restart, cancelled⟩)
    | _ => .ok t
  | .finish id expiresOk =>
    match t.tasks id with
    | some ⟨_, _, .finishing restart, _⟩ => do
      let t ← (if restart then pure (t.Start t.time t.errorHandler expiresOk).1
        else if t.deleteOnCompletion then t.DeleteTimer else pure t)
      t.OnTaskExit id true
    | _ => .ok t

inductive Reachable : Timer → Prop
  | init (deleteOnCompletion : Bool) : Reachable (init deleteOnCompletion)
  | step {t t' : Timer} (event : TimerEvent) : Reachable t → t.step event = .ok t' → Reachable t'

section Update

variable {α β : Type} [DecidableEq α] {f : α → Option β} {a : α} {b : β}

/-- What holds of every entry of `f` holds after one entry is replaced by one it holds of. -/
theorem forall_update_some {P : α → β → Prop} (others : ∀ a' b', a' ≠ a → f a' = some b' → P a' b')
    (updated : P a b) : ∀ a' b', Function.update f a (some b) a' = some b' → P a' b' := by
  intro a' b' found
  by_cases same : a' = a
  · subst same
    rw [Function.update_self, Option.some.injEq] at found
    exact found ▸ updated
  · rw [Function.update_of_ne same] at found
    exact others a' b' same found

theorem forall_update_none {P : α → β → Prop} (others : ∀ a' b', a' ≠ a → f a' = some b' → P a' b') :
    ∀ a' b', Function.update f a none a' = some b' → P a' b' := by
  intro a' b' found
  by_cases same : a' = a
  · subst same
    simp at found
  · rw [Function.update_of_ne same] at found
    exact others a' b' same found

end Update

variable {t : Timer} {id : Nat}

/-- What the timer's state and the handler count of its current arming are
while `timer_task_` names a task in `phase`. -/
def Holding (t : Timer) : TaskPhase → Prop
  | .waiting | .scheduled => t.state = .Running ∧ t.invoked t.armings = 0
  | .firing => t.state = .Fired ∧ t.invoked t.armings = 0
  | .handled _ => t.state = .Fired ∧ t.invoked t.armings = 1
  | .finishing _ => False

theorem Holding.state {phase : TaskPhase} (holding : Holding t phase) :
    t.state = .Running ∨ t.state = .Fired := by
  cases phase <;> simp only [Holding] at holding <;> simp [holding.1]

/-- The invariant of every reachable state. A marked task has not yet taken
the timer mutex in `Run`; an unmarked task before its `OnTaskCancel` is the
one `timer_task_` names; the wait of the current arming is pending only while
no task serves it; each arming's handler runs at most once, and not at all
once a `Cancel` preempted it. -/
structure Good (t : Timer) : Prop where
  fresh : ∀ id, t.nextTask ≤ id → t.tasks id = none
  marked : ∀ id task, t.tasks id = some task → task.cancelled = true → task.phase = .scheduled
  held : ∀ id task, t.tasks id = some task → task.cancelled = false → task.phase.active = true →
    t.timerTask = some id
  holding : ∀ id, t.timerTask = some id → ∃ task, t.tasks id = some task ∧
    task.cancelled = false ∧ task.arming = t.armings ∧ Holding t task.phase
  idle : t.timerTask = none → t.state ≠ .Fired
  waitsNodup : t.waits.Nodup
  waitsLe : ∀ s ∈ t.waits, s ≤ t.armings
  current : t.armings ∈ t.waits →
    t.timerTask = none ∧ t.invoked t.armings = 0 ∧ (t.state = .Running ∨ t.state = .Cancelled)
  once : ∀ s, t.invoked s ≤ 1
  future : ∀ s, t.armings < s → t.invoked s = 0 ∧ t.preempted s = false
  preempting : ∀ s, t.preempted s = true → t.invoked s = 0 ∧ (s < t.armings ∨ t.state = .Cancelled)
  time : 0 ≤ t.time

theorem init_good (deleteOnCompletion : Bool) : Good (init deleteOnCompletion) where
  fresh _ _ := rfl
  marked _ _ found := by simp [init] at found
  held _ _ found := by simp [init] at found
  holding _ holds := by simp [init] at holds
  idle _ := by simp [init]
  waitsNodup := List.nodup_nil
  waitsLe _ member := by simp [init] at member
  current member := by simp [init] at member
  once _ := by simp [init]
  future _ _ := by simp [init]
  preempting _ preempted := by simp [init] at preempted
  time := Int.le_refl 0

theorem Good.lt_nextTask (good : Good t) {task : TimerTask} (found : t.tasks id = some task) :
    id < t.nextTask := by
  by_contra beyond
  simp [good.fresh id (by omega)] at found

/-- While the timer holds a task, it is not cancelled, so every preempted arming is an earlier one. -/
theorem Good.preempted_lt (good : Good t) (holds : t.timerTask = some id) {s : Nat}
    (preempted : t.preempted s = true) : s < t.armings := by
  obtain ⟨task, -, -, -, holding⟩ := good.holding id holds
  rcases good.preempting s preempted with ⟨-, earlier | cancelled⟩
  · exact earlier
  · rcases holding.state with running | fired <;> simp_all

/-- A task that is not the one `timer_task_` names can be deleted. -/
theorem Good.erase (good : Good t) (free : t.timerTask ≠ some id) :
    Good { t with tasks := Function.update t.tasks id none } :=
  { good with
    fresh := fun id' beyond => by
      dsimp only
      rw [Function.update_apply]
      split
      · rfl
      · exact good.fresh id' beyond
    marked := forall_update_none fun id' task _ found => good.marked id' task found
    held := forall_update_none fun id' task _ found => good.held id' task found
    holding := fun id' holds => by
      have other : id' ≠ id := fun same => free (same ▸ holds)
      obtain ⟨task, found, rest⟩ := good.holding id' holds
      exact ⟨task, by simpa [Function.update_of_ne other] using found, rest⟩ }

/-- Moving the task `timer_task_` names to another phase, with the state and
the handler count of the current arming that phase goes with. -/
theorem Good.retask (good : Good t) (holds : t.timerTask = some id) {task : TimerTask}
    (found : t.tasks id = some task) (task' : TimerTask) (state : TimerState) (invoked : Nat → Nat)
    (sameSeqNo : task'.arming = task.arming) (unmarked : task'.cancelled = false)
    (holding : Holding { t.setTask id task' with state := state, invoked := invoked } task'.phase)
    (agree : ∀ s, s ≠ t.armings → invoked s = t.invoked s) (once : invoked t.armings ≤ 1) :
    Good { t.setTask id task' with state := state, invoked := invoked } where
  fresh id' beyond := by
    have other : id' ≠ id := by have := good.lt_nextTask found; simp only [setTask] at beyond; omega
    simpa [setTask, Function.update_of_ne other] using good.fresh id' beyond
  marked := forall_update_some (fun id' task _ found => good.marked id' task found)
    (fun marked => by simp [unmarked] at marked)
  held := forall_update_some (fun id' task _ found => good.held id' task found) (fun _ _ => holds)
  holding id' holds' := by
    have same : id' = id := Option.some.inj (holds'.symm.trans holds)
    obtain ⟨old, oldFound, -, oldSeqNo, -⟩ := good.holding id holds
    rw [found, Option.some.injEq] at oldFound
    subst same oldFound
    exact ⟨task', by simp [setTask], unmarked, sameSeqNo.trans oldSeqNo, holding⟩
  idle := by simp [setTask, holds]
  waitsNodup := good.waitsNodup
  waitsLe := good.waitsLe
  current member := absurd ((good.current member).1.symm.trans holds) (by simp)
  once s := by
    by_cases same : s = t.armings
    · exact same ▸ once
    · simpa [agree s same] using good.once s
  future s later := by
    simpa [setTask, agree s (by simp only [setTask] at later; omega)] using good.future s later
  preempting s preempted := by
    have earlier := good.preempted_lt holds preempted
    exact ⟨by simpa [agree s (by omega)] using (good.preempting s preempted).1, .inl earlier⟩
  time := good.time

/-- `OnTaskCancel` after the handler: the timer lets the task go and is `Init` again. -/
theorem Good.release (good : Good t) (holds : t.timerTask = some id) {arming : Nat} {ec : WaitCode}
    {restart cancelled : Bool} (found : t.tasks id = some ⟨arming, ec, .handled restart, cancelled⟩) :
    Good ({ t with timerTask := none, state := .Init }.setTask id
      ⟨arming, ec, .finishing restart, cancelled⟩) where
  fresh id' beyond := by
    have other : id' ≠ id := by have := good.lt_nextTask found; simp only [setTask] at beyond; omega
    simpa [setTask, Function.update_of_ne other] using good.fresh id' beyond
  marked := forall_update_some (fun id' task _ found => good.marked id' task found)
    (fun marked => by simpa using good.marked id _ found marked)
  held := forall_update_some
    (fun id' task other found unmarked active => absurd
      (Option.some.inj ((good.held id' task found unmarked active).symm.trans holds)) other)
    (fun _ active => by simp [TaskPhase.active] at active)
  holding _ holds' := by simp [setTask] at holds'
  idle _ := by simp [setTask]
  waitsNodup := good.waitsNodup
  waitsLe := good.waitsLe
  current member := absurd ((good.current member).1.symm.trans holds) (by simp)
  once := good.once
  future := good.future
  preempting s preempted := ⟨(good.preempting s preempted).1, .inl (good.preempted_lt holds preempted)⟩
  time := good.time

/-- What `Cancel` leaves when it does not fail: the tasks with none that the
timer would still hold, no `timer_task_`, the state `Cancelled`, and the
current arming preempted unless its handler ran. -/
theorem Good.cancelled (good : Good t) {tasks : Nat → Option TimerTask}
    (fresh : ∀ id, t.nextTask ≤ id → tasks id = none)
    (marked : ∀ id task, tasks id = some task → task.cancelled = true → task.phase = .scheduled)
    (released : ∀ id task, tasks id = some task → task.cancelled = false → task.phase.active = false) :
    Good { t with
      tasks := tasks
      timerTask := none
      state := .Cancelled
      preempted :=
        if t.invoked t.armings = 0 then Function.update t.preempted t.armings true else t.preempted }
    where
  fresh := fresh
  marked := marked
  held id task found unmarked active := by simp [released id task found unmarked] at active
  holding _ holds := by simp at holds
  idle _ := by simp
  waitsNodup := good.waitsNodup
  waitsLe := good.waitsLe
  current member := by
    obtain ⟨-, untouched, -⟩ := good.current member
    exact ⟨rfl, untouched, .inr rfl⟩
  once := good.once
  future s later := by
    refine ⟨(good.future s later).1, ?_⟩
    dsimp only
    split
    · simpa [Function.update_of_ne (Nat.ne_of_gt later)] using (good.future s later).2
    · exact (good.future s later).2
  preempting s preempted := by
    dsimp only at preempted ⊢
    refine ⟨?_, .inr rfl⟩
    split at preempted
    · rename_i untouched
      by_cases same : s = t.armings
      · exact same ▸ untouched
      · rw [Function.update_of_ne same] at preempted
        exact (good.preempting s preempted).1
    · exact (good.preempting s preempted).1
  time := good.time

/-- A `Start` that takes a new sequence number, before it knows whether the
wait can be set up. -/
theorem Good.bump (good : Good t) (idle : t.timerTask = none) {time : Int} (nonneg : 0 ≤ time)
    (errorHandler : Bool) :
    Good { t with time := time, armings := t.armings + 1, errorHandler := errorHandler } where
  fresh := good.fresh
  marked := good.marked
  held := good.held
  holding _ holds := by simp [idle] at holds
  idle := good.idle
  waitsNodup := good.waitsNodup
  waitsLe s member := Nat.le_succ_of_le (good.waitsLe s member)
  current member := absurd (good.waitsLe _ member) (by simp)
  once := good.once
  future s later := good.future s (by simp only at later; omega)
  preempting s preempted := by
    have notLater : ¬ t.armings < s := fun later => by simp [(good.future s later).2] at preempted
    exact ⟨(good.preempting s preempted).1, .inl (by simp only; omega)⟩
  time := nonneg

/-- The wait of a fresh arming. -/
theorem Good.arm (good : Good t) (idle : t.timerTask = none) (fresh : t.armings ∉ t.waits)
    (untouched : t.invoked t.armings = 0) (unpreempted : t.preempted t.armings = false) :
    Good { t with state := .Running, waits := t.waits ++ [t.armings] } where
  fresh := good.fresh
  marked := good.marked
  held := good.held
  holding _ holds := by simp [idle] at holds
  idle _ := by simp
  waitsNodup := List.nodup_append.mpr
    ⟨good.waitsNodup, List.nodup_singleton _, fun a member b single => by
      simp only [List.mem_singleton] at single
      exact single ▸ fun same => fresh (same ▸ member)⟩
  waitsLe s member := by
    rcases List.mem_append.mp member with old | new
    · exact good.waitsLe s old
    · simp [List.mem_singleton.mp new]
  current _ := ⟨idle, untouched, .inl rfl⟩
  once := good.once
  future := good.future
  preempting s preempted := by
    have notLater : ¬ t.armings < s := fun later => by simp [(good.future s later).2] at preempted
    have other : s ≠ t.armings := fun same => by simp [same, unpreempted] at preempted
    exact ⟨(good.preempting s preempted).1, .inl (by simp only; omega)⟩
  time := good.time

/-- `StartTimerTask` creating the task of the current arming. -/
theorem Good.spawn (good : Good t) (idle : t.timerTask = none) (running : t.state = .Running)
    (untouched : t.invoked t.armings = 0) (gone : t.armings ∉ t.waits) (ec : WaitCode) :
    Good { t with
      timerTask := some t.nextTask
      tasks := Function.update t.tasks t.nextTask (some ⟨t.armings, ec, .waiting, false⟩)
      nextTask := t.nextTask + 1 }
    where
  fresh id' beyond := by
    simp only at beyond
    simpa [Function.update_of_ne (show id' ≠ t.nextTask by omega)] using good.fresh id' (by omega)
  marked := forall_update_some (fun id' task _ found => good.marked id' task found)
    (fun marked => by simp at marked)
  held := forall_update_some
    (fun id' task _ found unmarked active => by simp [good.held id' task found unmarked active] at idle)
    (fun _ _ => rfl)
  holding id' holds := by
    simp only [Option.some.injEq] at holds
    subst holds
    exact ⟨_, Function.update_self .., rfl, rfl, running, untouched⟩
  idle := by simp
  waitsNodup := good.waitsNodup
  waitsLe := good.waitsLe
  current member := absurd member gone
  once := good.once
  future := good.future
  preempting := good.preempting
  time := good.time

/-- The exit of a task that is not marked or no longer holds the timer deletes it. -/
theorem OnTaskExit_eq (holdsTimer : Bool)
    (unmarked : (holdsTimer && (t.tasks id).any (·.cancelled)) = false) :
    t.OnTaskExit id holdsTimer = .ok { t with tasks := Function.update t.tasks id none } := by
  simp only [OnTaskExit, unmarked, Bool.false_eq_true, ↓reduceIte]
  rfl

theorem Start_tasks (time : Int) (errorHandler expiresOk : Bool) :
    (t.Start time errorHandler expiresOk).1.tasks = t.tasks := by
  unfold Start
  split_ifs <;> rfl

/-- Only a task waiting for the mutex can be marked. -/
theorem Good.unmarked (good : Good t) {task : TimerTask} (found : t.tasks id = some task)
    (notScheduled : task.phase ≠ .scheduled) : task.cancelled = false := by
  cases marked : task.cancelled
  · rfl
  · exact absurd (good.marked id task found marked) notScheduled

/-- An unmarked task before its `OnTaskCancel` is the one the timer holds. -/
theorem Good.holding_of_found (good : Good t) {task : TimerTask} (found : t.tasks id = some task)
    (unmarked : task.cancelled = false) (active : task.phase.active = true) :
    t.timerTask = some id ∧ task.arming = t.armings ∧ Holding t task.phase := by
  have holds := good.held id task found unmarked active
  obtain ⟨held, found', -, sameSeqNo, holding⟩ := good.holding id holds
  rw [found, Option.some.injEq] at found'
  subst found'
  exact ⟨holds, sameSeqNo, holding⟩

/-- A task the timer does not hold is marked or past its `OnTaskCancel`. -/
theorem Good.released_other (good : Good t) (holds : t.timerTask = some id) :
    ∀ id' task, id' ≠ id → t.tasks id' = some task → task.cancelled = false →
      task.phase.active = false := by
  intro id' task other found unmarked
  cases active : task.phase.active
  · rfl
  · exact absurd (Option.some.inj ((good.held id' task found unmarked active).symm.trans holds)) other

theorem Good.fresh_update (good : Good t) {task : TimerTask} (found : t.tasks id = some task)
    (value : Option TimerTask) : ∀ id', t.nextTask ≤ id' → Function.update t.tasks id value id' = none := by
  intro id' beyond
  have other : id' ≠ id := by have := good.lt_nextTask found; omega
  rw [Function.update_of_ne other]
  exact good.fresh id' beyond

theorem Good.start (good : Good t) (time : Int) (errorHandler expiresOk : Bool) :
    Good (t.Start time errorHandler expiresOk).1 := by
  unfold Start
  split
  · exact good
  split
  · exact good
  rename_i nonneg stopped
  have idle : t.timerTask = none := by
    cases holds : t.timerTask with
    | none => rfl
    | some id =>
      obtain ⟨task, -, -, -, holding⟩ := good.holding id holds
      exact absurd holding.state stopped
  have bumped := good.bump idle (show 0 ≤ time by omega) errorHandler
  have later := good.future (t.armings + 1) (Nat.lt_succ_self _)
  dsimp only
  split
  · exact bumped.arm idle (fun member => absurd (good.waitsLe _ member) (by simp only; omega))
      later.1 later.2
  · exact bumped

/-- `Cancel` never fails, answers `false` only for a fired timer, and touches no
task but the one the timer holds. -/
theorem Good.cancel (good : Good t) :
    ∃ r, t.Cancel = .ok r ∧ Good r.1 ∧ (r.2 = false → t.state = .Fired) ∧
      ∀ id, t.timerTask ≠ some id → r.1.tasks id = t.tasks id := by
  unfold Cancel
  split
  · exact ⟨(t, false), rfl, good, fun _ => ‹_›, fun _ _ => rfl⟩
  rename_i notFired
  cases holds : t.timerTask with
  | none =>
    have released : ∀ id task, t.tasks id = some task → task.cancelled = false →
        task.phase.active = false := by
      intro id task found unmarked
      cases active : task.phase.active
      · rfl
      · simp [good.held id task found unmarked active] at holds
    exact ⟨_, rfl, good.cancelled good.fresh good.marked released, by simp, fun _ _ => rfl⟩
  | some id =>
    obtain ⟨⟨arming, ec, phase, cancelled⟩, found, unmarked, -, holding⟩ := good.holding id holds
    dsimp only at unmarked holding
    subst unmarked
    have frame : ∀ value id', some id ≠ some id' → Function.update t.tasks id value id' = t.tasks id' :=
      fun _ id' other => Function.update_of_ne (fun same => other (congrArg some same.symm)) _ _
    cases phase
    case waiting =>
      simp only [cancelTask, found, Option.map_some, ↓reduceIte]
      exact ⟨_, rfl, good.cancelled (good.fresh_update found none)
        (forall_update_none fun id' task _ found' => good.marked id' task found')
        (forall_update_none (good.released_other holds)), by simp, frame none⟩
    case scheduled =>
      simp only [cancelTask, found, Option.map_some, reduceCtorEq, ↓reduceIte]
      exact ⟨_, rfl, good.cancelled (good.fresh_update found _)
        (forall_update_some (fun id' task _ found' => good.marked id' task found') fun _ => rfl)
        (forall_update_some (good.released_other holds) fun marked => by simp at marked),
        by simp, frame _⟩
    all_goals simp [Holding, notFired] at holding

/-- Below 2^32 increments, the sequence number of a pending wait is the timer's
exactly when the wait is of the current arming. -/
theorem Good.seqNo_eq_iff (good : Good t) (bounded : t.armings < 2 ^ 32) {arming : Nat}
    (member : arming ∈ t.waits) : t.seqNo = UInt32.ofNat arming ↔ t.armings = arming := by
  have earlier := good.waitsLe arming member
  constructor
  · intro same
    have numbers := congrArg UInt32.toNat same
    rwa [seqNo, UInt32.toNat_ofNat_of_lt' bounded,
      UInt32.toNat_ofNat_of_lt' (Nat.lt_of_le_of_lt earlier bounded)] at numbers
  · intro same
    rw [seqNo, same]

theorem Good.complete (good : Good t) (bounded : t.armings < 2 ^ 32) (wait : Nat) (ec : WaitCode) :
    ∃ t', t.step (.complete wait ec) = .ok t' ∧ Good t' := by
  cases pending : t.waits[wait]? with
  | none => exact ⟨t, by simp [step, pending], good⟩
  | some arming =>
    have member := List.mem_of_getElem? pending
    have gone : arming ∉ t.waits.eraseIdx wait := by
      intro after
      obtain ⟨i, other, found⟩ := List.mem_eraseIdx_iff_getElem?.mp after
      have lt : i < t.waits.length := (List.getElem?_eq_some_iff.mp found).1
      exact other ((List.getElem?_inj lt good.waitsNodup).mp (found.trans pending.symm))
    have erased : Good { t with waits := t.waits.eraseIdx wait } :=
      { good with
        waitsNodup := good.waitsNodup.eraseIdx wait
        waitsLe := fun s after => good.waitsLe s (List.mem_of_mem_eraseIdx after)
        current := fun after => good.current (List.mem_of_mem_eraseIdx after) }
    simp only [step, pending, StartTimerTask]
    split
    · exact ⟨_, rfl, erased⟩
    split
    · exact ⟨_, rfl, erased⟩
    split
    · exact ⟨_, rfl, erased⟩
    rename_i notCancelled _ same
    -- below 2^32 increments the sequence numbers tell the armings apart
    have same : t.armings = arming := (good.seqNo_eq_iff bounded member).mp (of_not_not same)
    subst same
    obtain ⟨idle, untouched, running | cancelled⟩ := good.current member
    · split
      · simp [idle] at *
      · exact ⟨_, rfl, erased.spawn idle running untouched gone ec⟩
    · exact absurd cancelled notCancelled

theorem Good.schedule (good : Good t) (id : Nat) :
    ∃ t', t.step (.schedule id) = .ok t' ∧ Good t' := by
  cases found : t.tasks id with
  | none => exact ⟨t, by simp [step, found], good⟩
  | some task =>
    obtain ⟨arming, ec, phase, cancelled⟩ := task
    cases phase
    case waiting =>
      have unmarked := good.unmarked found (by simp)
      dsimp only at unmarked
      subst unmarked
      obtain ⟨holds, -, holding⟩ := good.holding_of_found found rfl rfl
      exact ⟨_, by simp [step, found, setTask], good.retask holds found
        ⟨arming, ec, .scheduled, false⟩ t.state t.invoked rfl rfl holding (fun _ _ => rfl) (good.once _)⟩
    all_goals exact ⟨t, by simp [step, found], good⟩

theorem Good.lock (good : Good t) (id : Nat) : ∃ t', t.step (.lock id) = .ok t' ∧ Good t' := by
  cases found : t.tasks id with
  | none => exact ⟨t, by simp [step, found], good⟩
  | some task =>
    obtain ⟨arming, ec, phase, cancelled⟩ := task
    cases phase
    case scheduled =>
      cases cancelled
      case true =>
        -- the task was marked when the timer let go of it
        have free : t.timerTask ≠ some id := fun holds => by
          obtain ⟨_, found', unmarked, -⟩ := good.holding id holds
          rw [found, Option.some.injEq] at found'
          simp [← found'] at unmarked
        exact ⟨_, by simp [step, found, OnTaskExit_eq false rfl], good.erase free⟩
      case false =>
        obtain ⟨holds, -, -, untouched⟩ := good.holding_of_found found rfl rfl
        exact ⟨_, by simp [step, found, setTask], good.retask holds found ⟨arming, ec, .firing, false⟩
          .Fired t.invoked rfl rfl ⟨rfl, untouched⟩ (fun _ _ => rfl) (good.once _)⟩
    all_goals exact ⟨t, by simp [step, found], good⟩

theorem Good.handle (good : Good t) (id : Nat) (result : Bool) :
    ∃ t', t.step (.handle id result) = .ok t' ∧ Good t' := by
  cases found : t.tasks id with
  | none => exact ⟨t, by simp [step, found], good⟩
  | some task =>
    obtain ⟨arming, ec, phase, cancelled⟩ := task
    cases phase
    case firing =>
      have unmarked := good.unmarked found (by simp)
      dsimp only at unmarked
      subst unmarked
      obtain ⟨holds, sameSeqNo, fired, untouched⟩ := good.holding_of_found found rfl rfl
      dsimp only at sameSeqNo
      subst sameSeqNo
      let restart := if ec ≠ .success ∧ t.errorHandler then false else result
      exact ⟨_, by simp [step, found, setTask, restart], good.retask holds found
        ⟨t.armings, ec, .handled restart, false⟩ t.state
        (Function.update t.invoked t.armings (t.invoked t.armings + 1)) rfl rfl
        ⟨fired, by simp [untouched, setTask]⟩ (fun _ other => Function.update_of_ne other _ _)
        (by simp [untouched])⟩
    all_goals exact ⟨t, by simp [step, found], good⟩

theorem Good.releaseStep (good : Good t) (id : Nat) :
    ∃ t', t.step (.release id) = .ok t' ∧ Good t' := by
  cases found : t.tasks id with
  | none => exact ⟨t, by simp [step, found], good⟩
  | some task =>
    obtain ⟨arming, ec, phase, cancelled⟩ := task
    cases phase
    case handled restart =>
      have unmarked := good.unmarked found (by simp)
      dsimp only at unmarked
      subst unmarked
      obtain ⟨holds, -⟩ := good.holding_of_found found rfl rfl
      exact ⟨_, by simp [step, found, OnTaskCancel, holds], good.release holds found⟩
    all_goals exact ⟨t, by simp [step, found], good⟩

/-- The restart, or `DeleteTimer`, that a task runs after its handler keeps
`Good` and leaves the task as it was. -/
theorem Good.afterwards (good : Good t) (restart expiresOk : Bool) :
    ∃ t', (if restart then pure (t.Start t.time t.errorHandler expiresOk).1
      else if t.deleteOnCompletion then t.DeleteTimer else pure t) = Except.ok t' ∧ Good t' ∧
      ∀ id, t.timerTask ≠ some id → t'.tasks id = t.tasks id := by
  split
  · exact ⟨_, rfl, good.start _ _ _, fun _ _ => by rw [Start_tasks]⟩
  split
  · unfold DeleteTimer
    split
    · exact ⟨t, rfl, good, fun _ _ => rfl⟩
    · obtain ⟨r, cancelled, good', -, frame⟩ := good.cancel
      exact ⟨r.1, by rw [cancelled]; rfl, good', frame⟩
  · exact ⟨t, rfl, good, fun _ _ => rfl⟩

theorem Good.finish (good : Good t) (id : Nat) (expiresOk : Bool) :
    ∃ t', t.step (.finish id expiresOk) = .ok t' ∧ Good t' := by
  cases found : t.tasks id with
  | none => exact ⟨t, by simp [step, found], good⟩
  | some task =>
    obtain ⟨arming, ec, phase, cancelled⟩ := task
    cases phase
    case finishing restart =>
      have unmarked := good.unmarked found (by simp)
      dsimp only at unmarked
      subst unmarked
      -- past its `OnTaskCancel`, the task is not the timer's
      have free : t.timerTask ≠ some id := fun holds => by
        obtain ⟨_, found', -, -, holding⟩ := good.holding id holds
        rw [found, Option.some.injEq] at found'
        simp [← found', Holding] at holding
      obtain ⟨t1, stepped, good1, frame⟩ := good.afterwards restart expiresOk
      have kept := frame id free
      have free1 : t1.timerTask ≠ some id := fun holds => by
        obtain ⟨_, found1, -, -, holding⟩ := good1.holding id holds
        rw [kept, found, Option.some.injEq] at found1
        simp [← found1, Holding] at holding
      refine ⟨_, ?_, good1.erase free1⟩
      simp only [step, found]
      rw [stepped]
      exact OnTaskExit_eq true (by simp [kept, found])
    all_goals exact ⟨t, by simp [step, found], good⟩

/-! ## The increments of `seq_no_` only grow -/

theorem Start_armings_le (time : Int) (errorHandler expiresOk : Bool) :
    t.armings ≤ (t.Start time errorHandler expiresOk).1.armings := by
  unfold Start
  split_ifs <;> simp

theorem Cancel_armings {r : Timer × Bool} (cancelled : t.Cancel = .ok r) : r.1.armings = t.armings := by
  unfold Cancel at cancelled
  split at cancelled
  · cases cancelled
    rfl
  · dsimp only at cancelled
    split at cancelled
    · cases cancelled
    · cases cancelled
      rfl

theorem StartTimerTask_armings {t' : Timer} {seqNo : UInt32} {ec : WaitCode}
    (started : t.StartTimerTask seqNo ec = .ok t') : t'.armings = t.armings := by
  unfold StartTimerTask at started
  split_ifs at started <;> cases started <;> rfl

theorem OnTaskCancel_armings {t' : Timer} (released : t.OnTaskCancel id = .ok t') : t'.armings = t.armings := by
  unfold OnTaskCancel at released
  split_ifs at released
  cases released
  rfl

theorem OnTaskExit_armings {t' : Timer} {holdsTimer : Bool} (exited : t.OnTaskExit id holdsTimer = .ok t') :
    t'.armings = t.armings := by
  unfold OnTaskExit at exited
  dsimp only at exited
  split at exited
  · obtain ⟨t1, released, exit⟩ := Runs.exists_of_bind_eq_ok exited
    cases exit
    show t1.armings = t.armings
    exact OnTaskCancel_armings released
  · cases exited
    rfl

theorem DeleteTimer_armings {t' : Timer} (deleted : t.DeleteTimer = .ok t') : t'.armings = t.armings := by
  unfold DeleteTimer at deleted
  split at deleted
  · cases deleted
    rfl
  · obtain ⟨r, cancelled, rfl⟩ := Runs.exists_of_map_eq_ok deleted
    exact Cancel_armings cancelled

theorem armings_le_of_step {t' : Timer} {event : TimerEvent} (stepped : t.step event = .ok t') :
    t.armings ≤ t'.armings := by
  cases event with
  | start time errorHandler expiresOk =>
    cases stepped
    exact Start_armings_le time errorHandler expiresOk
  | cancel =>
    simp only [step] at stepped
    obtain ⟨r, cancelled, rfl⟩ := Runs.exists_of_map_eq_ok stepped
    exact (Cancel_armings cancelled).ge
  | complete wait ec =>
    simp only [step] at stepped
    split at stepped
    · exact Nat.le_of_eq (StartTimerTask_armings stepped).symm
    · cases stepped
      exact Nat.le_refl _
  | schedule id =>
    simp only [step] at stepped
    split at stepped <;> cases stepped <;> exact Nat.le_refl _
  | lock id =>
    simp only [step] at stepped
    split at stepped
    · split at stepped
      · exact Nat.le_of_eq (OnTaskExit_armings stepped).symm
      · cases stepped
        exact Nat.le_refl _
    · cases stepped
      exact Nat.le_refl _
  | handle id result =>
    simp only [step] at stepped
    split at stepped <;> cases stepped <;> exact Nat.le_refl _
  | release id =>
    simp only [step] at stepped
    split at stepped
    · obtain ⟨t1, released, set⟩ := Runs.exists_of_bind_eq_ok stepped
      cases set
      exact (OnTaskCancel_armings released).ge
    · cases stepped
      exact Nat.le_refl _
  | finish id expiresOk =>
    simp only [step] at stepped
    split at stepped
    · obtain ⟨t1, after, exited⟩ := Runs.exists_of_bind_eq_ok stepped
      rw [OnTaskExit_armings exited]
      -- the restart raises the count, `DeleteTimer` and the plain exit keep it
      split_ifs at after
      · cases after
        exact Start_armings_le _ _ _
      · exact (DeleteTimer_armings after).ge
      · cases after
        exact Nat.le_refl _
    · cases stepped
      exact Nat.le_refl _

/-- Below 2^32 increments of `seq_no_`, no event fails an assertion from a
`Good` state, and every event keeps `Good`. -/
theorem Good.next (good : Good t) (bounded : t.armings < 2 ^ 32) :
    ∀ event, ∃ t', t.step event = .ok t' ∧ Good t'
  | .start time errorHandler expiresOk => ⟨_, rfl, good.start time errorHandler expiresOk⟩
  | .cancel =>
    let ⟨r, cancelled, good', _⟩ := good.cancel
    ⟨r.1, by rw [step, cancelled]; rfl, good'⟩
  | .complete wait ec => good.complete bounded wait ec
  | .schedule id => good.schedule id
  | .lock id => good.lock id
  | .handle id result => good.handle id result
  | .release id => good.releaseStep id
  | .finish id expiresOk => good.finish id expiresOk

theorem Reachable.good (reach : Reachable t) (bounded : t.armings < 2 ^ 32) : Good t := by
  induction reach with
  | init deleteOnCompletion => exact init_good deleteOnCompletion
  | step event _ stepped ih =>
    -- the increments before the last event are fewer still
    have before := Nat.lt_of_le_of_lt (armings_le_of_step stepped) bounded
    obtain ⟨t', next, good'⟩ := (ih before).next before event
    rw [stepped, Except.ok.injEq] at next
    exact next ▸ good'

end Timer

end Contrail.Base
