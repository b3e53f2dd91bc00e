import Contrail.Base.WorkQueue

/-! What every run of a work queue keeps: `running_` says whether there is a
current runner, every runner still inside `Run` before a `RunnerDone` that
stopped it is the current one, the entries are handed to the callback in the
order of their pushes, and a non-empty queue without a runner has a caller
about to call `MayBeStartRunner` or was last found unable to run. -/
namespace Contrail.Base

variable {α : Type}

namespace RunnerPc

/-- The runner has not had a `RunnerDone` that stopped it. -/
def inRun : RunnerPc α → Bool
  | returning true | exited => false
  | _ => true

/-- The entry the runner took from the queue and has not handed on yet. -/
def held : RunnerPc α → List α
  | decrement entry _ | callback entry _ => [entry]
  | _ => []

end RunnerPc

namespace QueueSystem

variable (sys : QueueSystem α)

/-- The entry the current runner holds. -/
def inFlight : List α :=
  match sys.workQueue.currentRunner with
  | some r => ((sys.runners r).map RunnerPc.held).getD []
  | none => []

/-- A caller is about to call `MayBeStartRunner`. -/
def Waking : Prop := ∃ c result, sys.callers c = some (.mayBeStartRunner result)

structure Invariant : Prop where
  running_iff : sys.workQueue.running = true ↔ sys.workQueue.currentRunner.isSome
  current : ∀ r pc, sys.runners r = some pc → pc.inRun = true → sys.workQueue.currentRunner = some r
  fifo : sys.delivered ++ sys.inFlight ++ sys.workQueue.queue = sys.pushed
  wakeUp : sys.workQueue.queue ≠ [] → sys.workQueue.running = false → sys.lastAbort = true ∨ sys.Waking

variable {sys}

theorem invariant_init (workQueue : WorkQueue α) (startRunner : Option Bool) (empty : workQueue.queue = [])
    (idle : workQueue.running = false) (noRunner : workQueue.currentRunner = none) :
    (QueueSystem.init workQueue startRunner).Invariant where
  running_iff := by simp [QueueSystem.init, idle, noRunner]
  current := by simp [QueueSystem.init]
  fifo := by simp [QueueSystem.init, inFlight, noRunner, empty]
  wakeUp := by simp [QueueSystem.init, empty]

/-! ## Steps that keep the invariant -/

namespace Invariant

variable (inv : sys.Invariant)
include inv

theorem setScheduler (scheduler : TaskScheduler) : { sys with scheduler }.Invariant :=
  ⟨inv.running_iff, inv.current, inv.fifo, inv.wakeUp⟩

/-- Fields of the queue other than its entries, `running_` and
`current_runner_` do not matter. -/
theorem modifyQueue {f : WorkQueue α → WorkQueue α} (queue : (f sys.workQueue).queue = sys.workQueue.queue)
    (running : (f sys.workQueue).running = sys.workQueue.running)
    (current : (f sys.workQueue).currentRunner = sys.workQueue.currentRunner) :
    (sys.modifyQueue f).Invariant where
  running_iff := by simpa [QueueSystem.modifyQueue, running, current] using inv.running_iff
  current := by simpa [QueueSystem.modifyQueue, current] using inv.current
  fifo := by simpa [QueueSystem.modifyQueue, inFlight, current, queue] using inv.fifo
  wakeUp := by simpa [QueueSystem.modifyQueue, Waking, queue, running] using inv.wakeUp

/-- `lastAbort` only matters while no runner is current. -/
theorem setLastAbort (running : sys.workQueue.running = true) (lastAbort : Bool) :
    { sys with lastAbort }.Invariant where
  running_iff := inv.running_iff
  current := inv.current
  fifo := inv.fifo
  wakeUp := by
    intro _ stopped
    simp_all

/-- A caller that is not about to call `MayBeStartRunner` moves on. -/
theorem setCaller {c : Nat} (notWaking : ∀ result, sys.callers c ≠ some (.mayBeStartRunner result))
    (pc : CallerPc α) : (sys.setCaller c pc).Invariant where
  running_iff := inv.running_iff
  current := inv.current
  fifo := inv.fifo
  wakeUp := by
    intro nonEmpty stopped
    obtain aborted | ⟨waker, result, waking⟩ := inv.wakeUp nonEmpty stopped
    · exact .inl aborted
    · have other : waker ≠ c := by
        rintro rfl
        exact notWaking result waking
      exact .inr ⟨waker, result, by simp [QueueSystem.setCaller, other, waking]⟩

/-- A runner moves on without entering `Run` again and without taking or
handing on an entry. -/
theorem setRunner {r : Nat} {pc pc' : RunnerPc α} (found : sys.runners r = some pc)
    (inRun : pc'.inRun = true → pc.inRun = true) (held : pc'.held = pc.held) :
    (sys.setRunner r pc').Invariant where
  running_iff := inv.running_iff
  current := by
    intro r' pc'' found' inRun'
    by_cases same : r' = r
    · subst same
      simp only [QueueSystem.setRunner, Function.update_self, Option.some.injEq] at found'
      subst found'
      exact inv.current r' pc found (inRun inRun')
    · simp only [QueueSystem.setRunner, Function.update_of_ne same] at found'
      exact inv.current r' pc'' found' inRun'
  fifo := by
    have same : (sys.setRunner r pc').inFlight = sys.inFlight := by
      unfold inFlight
      cases current : sys.workQueue.currentRunner with
      | none => simp [QueueSystem.setRunner, current]
      | some runner =>
        by_cases atCurrent : runner = r
        · subst atCurrent
          simp [QueueSystem.setRunner, current, found, held]
        · simp [QueueSystem.setRunner, current, Function.update_of_ne atCurrent]
    rw [same]
    exact inv.fifo
  wakeUp := inv.wakeUp

/-- No caller matters while a runner is current. -/
theorem setCaller_of_running (running : sys.workQueue.running = true) (c : Nat) (pc : CallerPc α) :
    (sys.setCaller c pc).Invariant where
  running_iff := inv.running_iff
  current := inv.current
  fifo := inv.fifo
  wakeUp := by
    intro _ stopped
    simp_all [QueueSystem.setCaller]

/-- A runner inside `Run` is the current runner. -/
theorem current_of_inRun {r : Nat} {pc : RunnerPc α} (found : sys.runners r = some pc)
    (inRun : pc.inRun = true) : sys.workQueue.currentRunner = some r ∧ sys.workQueue.running = true := by
  have current := inv.current r pc found inRun
  exact ⟨current, inv.running_iff.mpr (by simp [current])⟩

end Invariant

theorem inFlight_setRunner_of_current {r : Nat} (current : sys.workQueue.currentRunner = some r)
    (pc : RunnerPc α) : (sys.setRunner r pc).inFlight = pc.held := by
  simp [inFlight, QueueSystem.setRunner, current]

theorem inFlight_of_current {r : Nat} {pc : RunnerPc α} (current : sys.workQueue.currentRunner = some r)
    (found : sys.runners r = some pc) : sys.inFlight = pc.held := by
  simp [inFlight, current, found]

/-- Moving the current runner keeps every runner inside `Run` current. -/
theorem current_setRunner_of_current {r : Nat} (inv : sys.Invariant)
    (current : sys.workQueue.currentRunner = some r) (pc : RunnerPc α) (r' : Nat) (pc' : RunnerPc α)
    (found : (sys.setRunner r pc).runners r' = some pc') (inRun : pc'.inRun = true) :
    sys.workQueue.currentRunner = some r' := by
  by_cases same : r' = r
  · rw [same, current]
  · simp only [QueueSystem.setRunner, Function.update_of_ne same] at found
    exact inv.current r' pc' found inRun

theorem notWaking_of_isIdle {c : Nat} (idle : sys.isIdle c = true) (result : Option Bool) :
    sys.callers c ≠ some (.mayBeStartRunner result) := by
  intro waking
  simp [isIdle, waking] at idle

theorem Invariant.enqueue {c : Nat} {entry : α} {next : QueueSystem α} (inv : sys.Invariant)
    (enqueued : sys.enqueue c entry = some next) : next.Invariant := by
  unfold QueueSystem.enqueue at enqueued
  split_ifs at enqueued with idle
  cases enqueued
  exact (inv.modifyQueue rfl rfl rfl).setCaller (notWaking_of_isIdle idle) _

theorem Invariant.push {c : Nat} {next : QueueSystem α} (inv : sys.Invariant)
    (pushed : sys.push c = some next) : next.Invariant := by
  unfold QueueSystem.push at pushed
  split at pushed
  · rename_i entry ncount _
    cases pushed
    refine ⟨inv.running_iff, inv.current, ?_, fun _ _ => .inr ⟨c, _, setCaller_callers_self ..⟩⟩
    -- the entry joins the back of the queue and of the log of pushes
    have fifo := inv.fifo
    simp only [QueueSystem.setCaller, QueueSystem.modifyQueue, inFlight] at fifo ⊢
    rw [← List.append_assoc, fifo]
  · cases pushed

theorem Invariant.drop {c : Nat} {next : QueueSystem α} (inv : sys.Invariant)
    (dropped : sys.drop c = some next) : next.Invariant := by
  unfold QueueSystem.drop at dropped
  split at dropped
  · rename_i dropping
    cases dropped
    exact (inv.modifyQueue rfl rfl rfl).setCaller (by simp [QueueSystem.modifyQueue, dropping]) _
  · cases dropped

theorem running_of_startRunnerTask {r : Nat} {next : QueueSystem α}
    (started : sys.startRunnerTask r = some next) : next.workQueue.running = true := by
  unfold QueueSystem.startRunnerTask at started
  split_ifs at started
  cases started
  rfl

/-- A runner started from a state without one is the only runner inside `Run`. -/
theorem Invariant.startRunnerTask {r : Nat} {lastAbort : Bool} {next : QueueSystem α} (inv : sys.Invariant)
    (stopped : sys.workQueue.running = false) (started : { sys with lastAbort }.startRunnerTask r = some next) :
    next.Invariant := by
  unfold QueueSystem.startRunnerTask at started
  split_ifs at started with fresh
  cases started
  have noCurrent : sys.workQueue.currentRunner = none := by
    simpa [stopped] using inv.running_iff
  refine ⟨by simp [QueueSystem.setRunner, QueueSystem.modifyQueue], ?_, ?_, ?_⟩
  · intro r' pc found inRun
    by_cases same : r' = r
    · simp [QueueSystem.setRunner, QueueSystem.modifyQueue, same]
    · simp only [QueueSystem.setRunner, QueueSystem.modifyQueue, Function.update_of_ne same] at found
      simp [inv.current r' pc found inRun] at noCurrent
  · have fifo := inv.fifo
    simp only [inFlight, noCurrent, List.append_nil] at fifo
    simpa [inFlight, QueueSystem.setRunner, QueueSystem.modifyQueue, RunnerPc.held] using fifo
  · intro _ stillStopped
    simp [QueueSystem.setRunner, QueueSystem.modifyQueue] at stillStopped

theorem Invariant.callerMayBeStartRunner {c r : Nat} {next : QueueSystem α} (inv : sys.Invariant)
    (woke : sys.callerMayBeStartRunner c r = some next) : next.Invariant := by
  unfold QueueSystem.callerMayBeStartRunner at woke
  split at woke
  · rename_i result _
    obtain ⟨started, checked, rfl⟩ := Option.map_eq_some_iff.mp woke
    unfold QueueSystem.mayBeStartRunner at checked
    split_ifs at checked with busy abort
    · -- a runner is current or the queue is empty: nothing to start
      cases checked
      refine ⟨inv.running_iff, inv.current, inv.fifo, ?_⟩
      intro nonEmpty stopped
      simp only [QueueSystem.setCaller] at nonEmpty stopped
      simp [stopped, nonEmpty] at busy
    · cases checked
      exact ⟨inv.running_iff, inv.current, inv.fifo, fun _ _ => .inl rfl⟩
    · have stopped : sys.workQueue.running = false := by simp_all
      have next := inv.startRunnerTask stopped checked
      exact next.setCaller_of_running (running_of_startRunnerTask checked) c _
  · cases woke

theorem Invariant.setDisable {c : Nat} {disabled : Bool} {next : QueueSystem α} (inv : sys.Invariant)
    (set : sys.setDisable c disabled = some next) : next.Invariant := by
  unfold QueueSystem.setDisable at set
  by_cases idle : sys.isIdle c = true
  · rw [if_pos idle] at set
    by_cases changed : sys.workQueue.disabled ≠ disabled
    · rw [if_pos changed] at set
      cases set
      exact (inv.modifyQueue rfl rfl rfl).setCaller (notWaking_of_isIdle idle) _
    · rw [if_neg changed] at set
      cases set
      exact inv.setCaller (notWaking_of_isIdle idle) _
  · simp [idle] at set

/-- `RunnerDone` that stops the runner, from a state where a non-empty queue
was just found unable to run. -/
theorem Invariant.stopRunner {r : Nat} (inv : sys.Invariant) (found : sys.runners r = some .runnerDone)
    (settled : sys.workQueue.queue ≠ [] → sys.lastAbort = true) :
    ((sys.modifyQueue fun wq => { wq with running := false, currentRunner := none }).setRunner r
      (.returning true)).Invariant := by
  obtain ⟨current, -⟩ := inv.current_of_inRun found rfl
  refine ⟨by simp [QueueSystem.setRunner, QueueSystem.modifyQueue], ?_, ?_, ?_⟩
  · intro r' pc found' inRun
    by_cases same : r' = r
    · simp only [same, QueueSystem.setRunner, QueueSystem.modifyQueue, Function.update_self,
        Option.some.injEq] at found'
      simp [← found', RunnerPc.inRun] at inRun
    · -- another runner inside `Run` would have been current in place of `r`
      simp only [QueueSystem.setRunner, QueueSystem.modifyQueue, Function.update_of_ne same] at found'
      simp [inv.current r' pc found' inRun] at current
      exact absurd current same
  · have fifo := inv.fifo
    rw [inFlight_of_current current found] at fifo
    simpa [inFlight, QueueSystem.setRunner, QueueSystem.modifyQueue, RunnerPc.held] using fifo
  · intro nonEmpty _
    exact .inl (settled nonEmpty)

theorem Invariant.runnerDone {r : Nat} (inv : sys.Invariant) (found : sys.runners r = some .runnerDone) :
    (sys.runnerDone r).Invariant := by
  obtain ⟨-, running⟩ := inv.current_of_inRun found rfl
  unfold QueueSystem.runnerDone
  split_ifs with empty abort
  · exact inv.stopRunner found fun nonEmpty => absurd (List.isEmpty_iff.mp empty) nonEmpty
  · exact (inv.setLastAbort running _).stopRunner found fun _ => abort
  · exact ((inv.setLastAbort running _).modifyQueue rfl running.symm rfl).setRunner found (fun _ => rfl) rfl

theorem Invariant.runStep {r : Nat} {outcome : Bool} {next : QueueSystem α} (inv : sys.Invariant)
    (stepped : sys.runStep r outcome = some next) : next.Invariant := by
  unfold QueueSystem.runStep at stepped
  by_cases runs : sys.runnerRuns r = true
  swap
  · simp [runs] at stepped
  rw [if_pos runs] at stepped
  split at stepped
  · rename_i found
    cases stepped
    exact inv.setRunner found (fun _ => rfl) (by cases outcome <;> rfl)
  · rename_i found
    cases stepped
    obtain ⟨-, running⟩ := inv.current_of_inRun found rfl
    exact (inv.setLastAbort running _).setRunner found (fun _ => rfl) (by split <;> rfl)
  · rename_i count found
    obtain ⟨current, running⟩ := inv.current_of_inRun found rfl
    split at stepped
    · cases stepped
      exact inv.setRunner found (fun _ => rfl) rfl
    · rename_i entry rest queue
      cases stepped
      -- the entry leaves the front of the queue for the runner's hands
      refine ⟨by simpa [QueueSystem.setRunner, QueueSystem.modifyQueue] using inv.running_iff,
        current_setRunner_of_current inv current _, ?_, ?_⟩
      · have fifo := inv.fifo
        rw [inFlight_of_current current found, queue] at fifo
        rw [inFlight_setRunner_of_current (by simpa [QueueSystem.modifyQueue] using current)]
        simpa [QueueSystem.setRunner, QueueSystem.modifyQueue, RunnerPc.held] using fifo
      · intro _ stopped
        simp [QueueSystem.setRunner, QueueSystem.modifyQueue, running] at stopped
  · rename_i entry count found
    cases stepped
    exact (inv.modifyQueue rfl rfl rfl).setRunner found (fun _ => rfl) rfl
  · rename_i entry count found
    obtain ⟨current, running⟩ := inv.current_of_inRun found rfl
    cases stepped
    -- the callback receives the entry the runner held
    refine ⟨inv.running_iff, current_setRunner_of_current inv current _, ?_, ?_⟩
    · have fifo := inv.fifo
      rw [inFlight_of_current current found] at fifo
      simp only [inFlight, QueueSystem.setRunner, current, Function.update_self, Option.map_some,
        Option.getD_some]
      have held : ∀ pc : RunnerPc α, pc = .runnerDone ∨ (∃ n, pc = .dequeue n) → pc.held = [] := by
        rintro pc (rfl | ⟨n, rfl⟩) <;> rfl
      rw [held _ (by split <;> simp)]
      simpa [QueueSystem.setRunner, RunnerPc.held] using fifo
    · intro _ stopped
      simp [QueueSystem.setRunner, running] at stopped
  · rename_i found
    cases stepped
    exact inv.runnerDone found
  · cases stepped

theorem Invariant.runnerExit {r : Nat} {next : QueueSystem α} (inv : sys.Invariant)
    (exited : sys.runnerExit r = some next) : next.Invariant := by
  unfold QueueSystem.runnerExit at exited
  split at exited
  · rename_i done found
    by_cases ready : sys.scheduler.frames = [] ∧ sys.runnerRuns r = true
    swap
    · rw [if_neg ready] at exited
      cases exited
    rw [if_pos ready] at exited
    cases exited
    have moved : (sys.setRunner r (if done then .exited else .onEntry)).Invariant :=
      inv.setRunner found (by cases done <;> simp [RunnerPc.inRun]) (by cases done <;> rfl)
    exact moved.setScheduler _
  · cases exited

/-- Every action keeps the invariant. -/
theorem Invariant.apply {a : Action α} {next : QueueSystem α} (inv : sys.Invariant)
    (applied : sys.apply a = some next) : next.Invariant := by
  cases a with
  | enqueue c entry => exact inv.enqueue applied
  | push c => exact inv.push applied
  | drop c => exact inv.drop applied
  | mayBeStartRunner c r => exact inv.callerMayBeStartRunner applied
  | setDisable c disabled => exact inv.setDisable applied
  | setStartRunner value =>
    cases applied
    exact ⟨inv.running_iff, inv.current, inv.fifo, inv.wakeUp⟩
  | run r outcome => exact inv.runStep applied
  | exit r => exact inv.runnerExit applied
  | schedulerStep =>
    simp only [QueueSystem.apply, QueueSystem.schedulerStep] at applied
    split_ifs at applied
    cases applied
    exact inv.setScheduler _
  | other o =>
    simp only [QueueSystem.apply, QueueSystem.other] at applied
    split_ifs at applied
    cases applied
    exact inv.setScheduler _

theorem Reachable.invariant (reachable : sys.Reachable) : sys.Invariant := by
  induction reachable with
  | init workQueue startRunner empty idle noRunner => exact invariant_init workQueue startRunner empty idle noRunner
  | step a _ applied inv => exact inv.apply applied

end QueueSystem

open QueueSystem

theorem workQueue_one_runner_in_push_order {sys : QueueSystem α} (reachable : sys.Reachable) :
    (sys.workQueue.running = true ↔ sys.workQueue.currentRunner.isSome) ∧
      (∀ r pc, sys.runners r = some pc → pc.inRun = true → sys.workQueue.currentRunner = some r) ∧
      (∀ r r' entry entry' count count', sys.runners r = some (.callback entry count) →
        sys.runners r' = some (.callback entry' count') → r = r') ∧
      sys.delivered ++ sys.inFlight ++ sys.workQueue.queue = sys.pushed ∧
      (sys.workQueue.queue ≠ [] → sys.workQueue.running = false → sys.lastAbort = true ∨ sys.Waking) := by
  have inv := reachable.invariant
  refine ⟨inv.running_iff, inv.current, ?_, inv.fifo, inv.wakeUp⟩
  -- two runners at the callback are both the current runner
  intro r r' entry entry' count count' atCallback atCallback'
  have current := inv.current r _ atCallback rfl
  rw [inv.current r' _ atCallback' rfl, Option.some.injEq] at current
  exact current.symm

/-- A queue of `Nat` entries with the constructor's defaults, of a task id
whose instance -1 tasks may run together. -/
def sampleQueue : WorkQueue Nat :=
  WorkQueue.init 5 (-1) (by decide) WorkQueue.kMaxSize WorkQueue.kMaxIterations false

/-- Runner 100 takes entry 10 and its `RunnerDone` finds the queue empty; before it returns,
entry 11 is enqueued and starts runner 101, so the scheduler runs both. -/
def overlapActions : List (Action Nat) :=
  [.enqueue 0 10, .push 0, .mayBeStartRunner 0 100] ++ List.replicate 7 (.run 100 true) ++
    [.enqueue 1 11, .push 1, .mayBeStartRunner 1 101]

theorem workQueue_one_runner_after_overlap :
    ∃ sys, QueueSystem.runActions (QueueSystem.init sampleQueue none) overlapActions = some sys ∧
      sys.pushed = [10, 11] ∧
      (sys.workQueue.running = true ↔ sys.workQueue.currentRunner.isSome) ∧
      (∀ r pc, sys.runners r = some pc → pc.inRun = true → sys.workQueue.currentRunner = some r) ∧
      (∀ r r' entry entry' count count', sys.runners r = some (.callback entry count) →
        sys.runners r' = some (.callback entry' count') → r = r') ∧
      sys.delivered ++ sys.inFlight ++ sys.workQueue.queue = sys.pushed ∧
      (sys.workQueue.queue ≠ [] → sys.workQueue.running = false → sys.lastAbort = true ∨ sys.Waking) := by
  have ran : (QueueSystem.runActions (QueueSystem.init sampleQueue none) overlapActions).map
      QueueSystem.pushed = some [10, 11] := by
    decide
  obtain ⟨sys, reached, pushed⟩ := Option.map_eq_some_iff.mp ran
  exact ⟨sys, reached, pushed, workQueue_one_runner_in_push_order
    ((QueueSystem.Reachable.init sampleQueue none rfl rfl rfl).runActions reached)⟩

/-! ## Two runners, and a queue without one

In the run of `overlapActions` the scheduler runs both runners. With
`start_runner_` returning false an enqueue starts no runner, and
nothing starts one when it returns true again. -/

def bothRunnersRun (sys : QueueSystem Nat) : Bool :=
  decide (sys.runners 100 = some (.returning true) ∧ sys.runners 101 = some .onEntry ∧
    (sys.scheduler.tasks 100).map Task.state = some .RUN ∧ (sys.scheduler.tasks 101).map Task.state = some .RUN)

def silentActions : List (Action Nat) :=
  [.enqueue 0 10, .push 0, .mayBeStartRunner 0 100, .setStartRunner (some true)]

def leftWithoutRunner (sys : QueueSystem Nat) : Bool :=
  decide (sys.workQueue.queue ≠ [] ∧ sys.workQueue.disabled = false ∧ sys.startRunner = some true ∧
    sys.workQueue.currentRunner = none)

theorem workQueue_runner_overlap_and_silent_start :
    (∃ sys : QueueSystem Nat, sys.Reachable ∧ ∃ r r', r ≠ r' ∧ sys.runners r = some (.returning true) ∧
      sys.runners r' = some .onEntry ∧ (sys.scheduler.tasks r).map Task.state = some .RUN ∧
      (sys.scheduler.tasks r').map Task.state = some .RUN) ∧
    (∃ sys : QueueSystem Nat, sys.Reachable ∧ sys.workQueue.queue ≠ [] ∧ sys.workQueue.disabled = false ∧
      sys.startRunner = some true ∧ ∀ r pc, sys.runners r = some pc → pc.inRun = false) := by
  constructor
  · obtain ⟨sys, reachable, both⟩ := @QueueSystem.Reachable.of_runActions Nat _ overlapActions
      bothRunnersRun (QueueSystem.Reachable.init sampleQueue none rfl rfl rfl) (by decide)
    simp only [bothRunnersRun, decide_eq_true_eq] at both
    obtain ⟨stopped, started, firstRuns, secondRuns⟩ := both
    exact ⟨sys, reachable, 100, 101, by decide, stopped, started, firstRuns, secondRuns⟩
  · obtain ⟨sys, reachable, left⟩ := @QueueSystem.Reachable.of_runActions Nat _ silentActions
      leftWithoutRunner (QueueSystem.Reachable.init sampleQueue (some false) rfl rfl rfl) (by decide)
    simp only [leftWithoutRunner, decide_eq_true_eq] at left
    obtain ⟨nonEmpty, enabled, willStart, noCurrent⟩ := left
    refine ⟨sys, reachable, nonEmpty, enabled, willStart, ?_⟩
    -- a runner inside `Run` would be the current one
    intro r pc found
    cases inRun : pc.inRun
    · rfl
    · simp [reachable.invariant.current r pc found inRun] at noCurrent

end Contrail.Base
