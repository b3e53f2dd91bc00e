import Contrail.Lib.KeyedList
import Mathlib

/-! `TaskScheduler` of `base/task.cc`, under its mutex. A task runs in a
`TaskEntry` of its (task id, instance) pair and in the `TaskGroup` of its task
id; a task that may not start yet waits in its entry's `waitq_`, and the entry
is linked into the `deferq_` of a group or an entry that blocks it, or of the
`stop_entry_` while the scheduler is stopped. A `deferq_` is a tree ordered by
`GetTaskDeferEntrySeqno`, the sequence number of the entry's first waiting
task converted to `int`. The loops over defer queues, which can insert into
the queue they walk, are kept as frames run one pass at a time. Disabled
groups and entries are not modeled. -/
namespace Contrail.Base

open KeyedList

/-- `Task::State`. -/
inductive TaskState
  | INIT
  | WAIT
  | RUN
  deriving DecidableEq, Repr

/-- The fields of a `Task` the scheduler reads and writes. -/
structure Task where
  taskId : Nat
  taskInstance : Int
  state : TaskState
  seqno : Nat
  taskRecycle : Bool
  taskCancel : Bool
  deriving DecidableEq, Repr

/-- A `TaskEntry`: the one of a (task id, instance) pair, or `stop_entry_`. -/
inductive EntryId
  | entry (taskId : Nat) (taskInstance : Int)
  | stop
  deriving DecidableEq, Repr

structure TaskEntry where
  runCount : Nat
  runTask : Option Nat
  waitq : List Nat
  policyq : List EntryId
  deferq : List EntryId
  deferqTaskEntry : Option EntryId
  deferqTaskGroup : Option Nat
  deriving DecidableEq, Repr

/-- The `TaskEntry` constructors: an entry of an instance other than -1 starts
with the rule that excludes itself. -/
def TaskEntry.init (id : EntryId) : TaskEntry :=
  { runCount := 0, runTask := none, waitq := [],
    policyq := (match id with
      | .entry _ taskInstance => if taskInstance ≠ -1 then [id] else []
      | .stop => []),
    deferq := [], deferqTaskEntry := none, deferqTaskGroup := none }

structure TaskGroup where
  policySet : Bool
  runCount : Nat
  policy : List Nat
  deferq : List EntryId
  deriving DecidableEq, Repr

def TaskGroup.init : TaskGroup :=
  { policySet := false, runCount := 0, policy := [], deferq := [] }

/-- A loop of the scheduler in progress, at its iterator. -/
inductive Frame
  /-- `TaskGroup::RunDeferQ`. -/
  | groupDeferQ (taskId : Nat) (it : Option EntryId)
  /-- `TaskEntry::RunDeferQ`. -/
  | entryDeferQ (entry : EntryId) (it : Option EntryId)
  /-- The first loop of `TaskEntry::RunCombinedDeferQ`. -/
  | combinedDeferQ (taskId : Nat) (taskInstance : Int) (groupIt entryIt : Option EntryId)
  /-- What `OnTaskExit` does after `TaskEntry::TaskExited` returns. -/
  | taskExited (task : Nat)
  deriving DecidableEq, Repr

structure TaskScheduler where
  running : Bool
  seqno : Nat
  tasks : Nat → Option Task
  groups : Nat → TaskGroup
  entries : EntryId → TaskEntry
  frames : List Frame

def TaskScheduler.init : TaskScheduler :=
  { running := true, seqno := 0, tasks := fun _ => none, groups := fun _ => TaskGroup.init,
    entries := TaskEntry.init, frames := [] }

/-- `TaskExclusion`. -/
structure TaskExclusion where
  matchId : Nat
  matchInstance : Int
  deriving DecidableEq, Repr

namespace TaskScheduler

variable (s : TaskScheduler)

def updateTask (t : Nat) (f : Task → Task) : TaskScheduler :=
  { s with tasks := Function.update s.tasks t ((s.tasks t).map f) }

def updateEntry (e : EntryId) (f : TaskEntry → TaskEntry) : TaskScheduler :=
  { s with entries := Function.update s.entries e (f (s.entries e)) }

def updateGroup (g : Nat) (f : TaskGroup → TaskGroup) : TaskScheduler :=
  { s with groups := Function.update s.groups g (f (s.groups g)) }

/-- `static_cast<int>` of a `uint64_t` sequence number: its low 32 bits in
two's complement. -/
def seqnoToInt (seqno : Nat) : Int := Int.bmod seqno (2 ^ 32)

/-- `TaskEntry::GetTaskDeferEntrySeqno`: the key of an entry in a `deferq_`. -/
def getTaskDeferEntrySeqno (e : EntryId) : Int :=
  match (s.entries e).waitq with
  | t :: _ => seqnoToInt (((s.tasks t).map Task.seqno).getD 0)
  | [] => -1

/-- `TaskEntry::AddToWaitQ`. -/
def addToWaitQ (e : EntryId) (t : Nat) : TaskScheduler :=
  (s.updateTask t fun task => { task with state := .WAIT }).updateEntry e
    fun entry => { entry with waitq := entry.waitq ++ [t] }

/-- `TaskEntry::DeleteFromWaitQ`. -/
def deleteFromWaitQ (e : EntryId) (t : Nat) : TaskScheduler :=
  s.updateEntry e fun entry => { entry with waitq := entry.waitq.erase t }

/-- `TaskGroup::AddToDeferQ`: the tree's `insert` leaves out an entry whose key
is already there, and the entry's link is set either way. -/
def groupAddToDeferQ (g : Nat) (e : EntryId) : TaskScheduler :=
  (s.updateGroup g fun group =>
    { group with deferq := insertUnique s.getTaskDeferEntrySeqno e group.deferq }).updateEntry e
    fun entry => { entry with deferqTaskGroup := some g }

/-- `TaskGroup::DeleteFromDeferQ`. -/
def groupDeleteFromDeferQ (g : Nat) (e : EntryId) : TaskScheduler :=
  (s.updateGroup g fun group => { group with deferq := group.deferq.erase e }).updateEntry e
    fun entry => { entry with deferqTaskGroup := none }

/-- `TaskEntry::AddToDeferQ` of `owner`. -/
def entryAddToDeferQ (owner e : EntryId) : TaskScheduler :=
  (s.updateEntry owner fun entry =>
    { entry with deferq := insertUnique s.getTaskDeferEntrySeqno e entry.deferq }).updateEntry e
    fun entry => { entry with deferqTaskEntry := some owner }

/-- `TaskEntry::DeleteFromDeferQ` of `owner`. -/
def entryDeleteFromDeferQ (owner e : EntryId) : TaskScheduler :=
  (s.updateEntry owner fun entry => { entry with deferq := entry.deferq.erase e }).updateEntry e
    fun entry => { entry with deferqTaskEntry := none }

/-- `TaskGroup::ActiveGroupInPolicy`. -/
def activeGroupInPolicy (g : Nat) : Option Nat :=
  (s.groups g).policy.find? fun other => (s.groups other).runCount ≠ 0

/-- `TaskEntry::ActiveEntryInPolicy`. -/
def activeEntryInPolicy (e : EntryId) : Option EntryId :=
  (s.entries e).policyq.find? fun other => (s.entries other).runCount ≠ 0

/-- `TaskGroup::DeferOnPolicyFail`: `none` when no group of the policy runs. -/
def groupDeferOnPolicyFail (g : Nat) (e : EntryId) (t : Nat) : Option TaskScheduler :=
  (s.activeGroupInPolicy g).map fun active =>
    (if (s.entries e).waitq = [] then s.addToWaitQ e t else s).groupAddToDeferQ active e

/-- `TaskEntry::DeferOnPolicyFail`: `none` when no entry of the policy runs. -/
def entryDeferOnPolicyFail (e : EntryId) (t : Nat) : Option TaskScheduler :=
  (s.activeEntryInPolicy e).map fun active =>
    (if (s.entries e).waitq = [] then s.addToWaitQ e t else s).entryAddToDeferQ active e

/-- `TaskEntry::RunTask`, with `TaskGroup::TaskStarted` and `Task::StartTask`. -/
def runTask (e : EntryId) (t : Nat) : TaskScheduler :=
  match s.tasks t with
  | none => s
  | some task =>
    ((s.updateEntry e fun entry =>
      { entry with runTask := if task.taskInstance ≠ -1 then some t else entry.runTask,
                   runCount := entry.runCount + 1 }).updateGroup task.taskId
      fun group => { group with runCount := group.runCount + 1 }).updateTask t
      fun task => { task with state := .RUN }

/-- The loop of `TaskEntry::RunWaitQ` for instance -1: every waiting task, in order. -/
def runAllWaiting (e : EntryId) : List Nat → TaskScheduler → TaskScheduler
  | [], s => s
  | t :: rest, s => runAllWaiting e rest ((s.deleteFromWaitQ e t).runTask e t)

/-- `TaskEntry::RunWaitQ`. -/
def runWaitQ (e : EntryId) (taskInstance : Int) : TaskScheduler :=
  match (s.entries e).waitq with
  | [] => s
  | t :: _ =>
    if taskInstance ≠ -1 then
      let started := (s.deleteFromWaitQ e t).runTask e t
      if (started.entries e).waitq ≠ [] then started.entryAddToDeferQ e e else started
    else runAllWaiting e (s.entries e).waitq s

/-- `TaskEntry::RunDeferEntry`. -/
def runDeferEntry : EntryId → TaskScheduler
  | .stop => s
  | e@(.entry g taskInstance) =>
    match (s.entries e).waitq with
    | [] => s
    | t :: _ =>
      match s.groupDeferOnPolicyFail g e t with
      | some deferred => deferred
      | none =>
        match s.entryDeferOnPolicyFail e t with
        | some deferred => deferred
        | none => s.runWaitQ e taskInstance

/-- `TaskGroup::AddPolicy`. -/
def groupAddPolicy (g other : Nat) : TaskScheduler :=
  s.updateGroup g fun group => { group with policy := group.policy ++ [other] }

/-- `TaskEntry::AddPolicy`. -/
def entryAddPolicy (e other : EntryId) : TaskScheduler :=
  s.updateEntry e fun entry => { entry with policyq := entry.policyq ++ [other] }

/-- One exclusion of `TaskScheduler::SetPolicy`, added on both sides; an
instance exclusion also binds the instance -1 entry of `taskId`. -/
def addExclusion (taskId : Nat) (exclusion : TaskExclusion) : TaskScheduler :=
  if exclusion.matchInstance = -1 then
    (s.groupAddPolicy taskId exclusion.matchId).groupAddPolicy exclusion.matchId taskId
  else
    let entry := EntryId.entry taskId exclusion.matchInstance
    let policyEntry := EntryId.entry exclusion.matchId exclusion.matchInstance
    let groupEntry := EntryId.entry taskId (-1)
    (((s.entryAddPolicy entry policyEntry).entryAddPolicy policyEntry entry).entryAddPolicy
      groupEntry policyEntry).entryAddPolicy policyEntry groupEntry

/-- `TaskScheduler::SetPolicy`. -/
def setPolicy (taskId : Nat) (policy : List TaskExclusion) : TaskScheduler :=
  policy.foldl (fun s exclusion => s.addExclusion taskId exclusion)
    (s.updateGroup taskId fun group => { group with policySet := true })

/-- `TaskScheduler::EnqueueUnLocked` of a task whose sequence number is 0. -/
def enqueueUnLocked (t : Nat) : TaskScheduler :=
  match s.tasks t with
  | none => s
  | some task =>
    let numbered := { s with seqno := s.seqno + 1 }.updateTask t
      fun task => { task with seqno := s.seqno + 1 }
    let e := EntryId.entry task.taskId task.taskInstance
    if (numbered.entries e).waitq ≠ [] then numbered.addToWaitQ e t
    else if !numbered.running then (numbered.addToWaitQ e t).entryAddToDeferQ .stop e
    else
      match numbered.groupDeferOnPolicyFail task.taskId e t with
      | some deferred => deferred
      | none =>
        match numbered.entryDeferOnPolicyFail e t with
        | some deferred => deferred
        | none => numbered.runTask e t

/-- `TaskScheduler::CancelReturnCode`. -/
inductive CancelReturnCode
  | CANCELLED
  | FAILED
  | QUEUED
  deriving DecidableEq, Repr

/-- Unlink an entry from the defer queue its links name. -/
def unlinkDeferred (e : EntryId) : TaskScheduler :=
  match (s.entries e).deferqTaskGroup, (s.entries e).deferqTaskEntry with
  | some g, _ => s.groupDeleteFromDeferQ g e
  | none, some owner => s.entryDeleteFromDeferQ owner e
  | none, none => s

/-- Unlink an entry and link it again, under the key of its new first task. -/
def relinkDeferred (e : EntryId) : TaskScheduler :=
  match (s.entries e).deferqTaskGroup, (s.entries e).deferqTaskEntry with
  | some g, _ => (s.groupDeleteFromDeferQ g e).groupAddToDeferQ g e
  | none, some owner => (s.entryDeleteFromDeferQ owner e).entryAddToDeferQ owner e
  | none, none => s

/-- `TaskScheduler::Cancel`: a running task is marked; a waiting one leaves its
entry's `waitq_`, and the entry leaves its defer queue when nothing waits, or
is linked again when the task was the first. -/
def cancel (t : Nat) : TaskScheduler × CancelReturnCode :=
  match s.tasks t with
  | none => (s, .FAILED)
  | some task =>
    match task.state with
    | .RUN => (s.updateTask t fun task => { task with taskCancel := true }, .QUEUED)
    | .WAIT =>
      let e := EntryId.entry task.taskId task.taskInstance
      let first := (s.entries e).waitq.head?
      let removed := s.deleteFromWaitQ e t
      let linked :=
        if (removed.entries e).waitq = [] then removed.unlinkDeferred e
        else if first = some t then removed.relinkDeferred e
        else removed
      ({ linked with tasks := Function.update linked.tasks t none }, .CANCELLED)
    | .INIT => (s, .FAILED)

/-! ## The scheduler creates no task -/

/-- Every handle without a task in `s` is without one in `s'`. -/
def NoNewTasks (s s' : TaskScheduler) : Prop := ∀ t, s.tasks t = none → s'.tasks t = none

variable {s}

theorem NoNewTasks.refl (s : TaskScheduler) : NoNewTasks s s := fun _ absent => absent

theorem NoNewTasks.trans {middle last : TaskScheduler} (first : NoNewTasks s middle)
    (second : NoNewTasks middle last) : NoNewTasks s last :=
  fun t absent => second t (first t absent)

/-- Only the tasks of the first state matter. -/
theorem NoNewTasks.of_tasks_eq {before after : TaskScheduler} (kept : NoNewTasks before after)
    (same : before.tasks = s.tasks) : NoNewTasks s after :=
  fun t absent => kept t (same ▸ absent)

theorem noNewTasks_updateTask (t : Nat) (f : Task → Task) : NoNewTasks s (s.updateTask t f) := by
  intro other absent
  by_cases same : other = t
  · subst same
    simp [updateTask, absent]
  · simp [updateTask, same, absent]

theorem noNewTasks_updateEntry (e : EntryId) (f : TaskEntry → TaskEntry) :
    NoNewTasks s (s.updateEntry e f) := fun _ absent => absent

theorem noNewTasks_updateGroup (g : Nat) (f : TaskGroup → TaskGroup) :
    NoNewTasks s (s.updateGroup g f) := fun _ absent => absent

theorem noNewTasks_addToWaitQ (e : EntryId) (t : Nat) : NoNewTasks s (s.addToWaitQ e t) :=
  (noNewTasks_updateTask t _).trans (noNewTasks_updateEntry e _)

theorem noNewTasks_deleteFromWaitQ (e : EntryId) (t : Nat) :
    NoNewTasks s (s.deleteFromWaitQ e t) :=
  noNewTasks_updateEntry e _

theorem noNewTasks_groupAddToDeferQ (g : Nat) (e : EntryId) :
    NoNewTasks s (s.groupAddToDeferQ g e) :=
  (noNewTasks_updateGroup g _).trans (noNewTasks_updateEntry e _)

theorem noNewTasks_groupDeleteFromDeferQ (g : Nat) (e : EntryId) :
    NoNewTasks s (s.groupDeleteFromDeferQ g e) :=
  (noNewTasks_updateGroup g _).trans (noNewTasks_updateEntry e _)

theorem noNewTasks_entryAddToDeferQ (owner e : EntryId) :
    NoNewTasks s (s.entryAddToDeferQ owner e) :=
  (noNewTasks_updateEntry owner _).trans (noNewTasks_updateEntry e _)

theorem noNewTasks_entryDeleteFromDeferQ (owner e : EntryId) :
    NoNewTasks s (s.entryDeleteFromDeferQ owner e) :=
  (noNewTasks_updateEntry owner _).trans (noNewTasks_updateEntry e _)

theorem noNewTasks_waitThen {e : EntryId} {t : Nat} {link : TaskScheduler → TaskScheduler}
    (linked : ∀ before, NoNewTasks before (link before)) :
    NoNewTasks s (link (if (s.entries e).waitq = [] then s.addToWaitQ e t else s)) := by
  split_ifs
  · exact (noNewTasks_addToWaitQ e t).trans (linked _)
  · exact linked s

theorem noNewTasks_groupDeferOnPolicyFail {g : Nat} {e : EntryId} {t : Nat} {deferred : TaskScheduler}
    (failed : s.groupDeferOnPolicyFail g e t = some deferred) : NoNewTasks s deferred := by
  obtain ⟨active, -, rfl⟩ := Option.map_eq_some_iff.mp failed
  exact noNewTasks_waitThen fun _ => noNewTasks_groupAddToDeferQ active e

theorem noNewTasks_entryDeferOnPolicyFail {e : EntryId} {t : Nat} {deferred : TaskScheduler}
    (failed : s.entryDeferOnPolicyFail e t = some deferred) : NoNewTasks s deferred := by
  obtain ⟨active, -, rfl⟩ := Option.map_eq_some_iff.mp failed
  exact noNewTasks_waitThen fun _ => noNewTasks_entryAddToDeferQ active e

theorem noNewTasks_runTask (e : EntryId) (t : Nat) : NoNewTasks s (s.runTask e t) := by
  unfold runTask
  split
  · exact NoNewTasks.refl s
  · exact ((noNewTasks_updateEntry e _).trans (noNewTasks_updateGroup _ _)).trans
      (noNewTasks_updateTask t _)

theorem noNewTasks_runAllWaiting (e : EntryId) :
    ∀ (waiting : List Nat) (before : TaskScheduler), NoNewTasks before (runAllWaiting e waiting before)
  | [], before => NoNewTasks.refl before
  | t :: rest, _ =>
    ((noNewTasks_deleteFromWaitQ e t).trans (noNewTasks_runTask e t)).trans
      (noNewTasks_runAllWaiting e rest _)

theorem noNewTasks_runWaitQ (e : EntryId) (taskInstance : Int) :
    NoNewTasks s (s.runWaitQ e taskInstance) := by
  unfold runWaitQ
  split
  · exact NoNewTasks.refl s
  · rename_i t _ _
    by_cases single : taskInstance ≠ -1
    · have started := (noNewTasks_deleteFromWaitQ (s := s) e t).trans (noNewTasks_runTask e t)
      rw [if_pos single]
      dsimp only
      split_ifs
      · exact started.trans (noNewTasks_entryAddToDeferQ e e)
      · exact started
    · rw [if_neg single]
      exact noNewTasks_runAllWaiting e _ s

theorem noNewTasks_runDeferEntry (e : EntryId) : NoNewTasks s (s.runDeferEntry e) := by
  unfold runDeferEntry
  split
  · exact NoNewTasks.refl s
  · split
    · exact NoNewTasks.refl s
    · split
      · exact noNewTasks_groupDeferOnPolicyFail ‹_›
      · split
        · exact noNewTasks_entryDeferOnPolicyFail ‹_›
        · exact noNewTasks_runWaitQ _ _

theorem noNewTasks_addExclusion (taskId : Nat) (exclusion : TaskExclusion) :
    NoNewTasks s (s.addExclusion taskId exclusion) := by
  unfold addExclusion
  split_ifs <;> exact fun _ absent => absent

theorem noNewTasks_setPolicy (taskId : Nat) (policy : List TaskExclusion) :
    NoNewTasks s (s.setPolicy taskId policy) := by
  unfold setPolicy
  -- the loop adds exclusions to the state after `PolicySet`, which keeps the tasks
  suffices each : ∀ (exclusions : List TaskExclusion) (start : TaskScheduler),
      NoNewTasks start (exclusions.foldl (fun s exclusion => s.addExclusion taskId exclusion) start) from
    (noNewTasks_updateGroup taskId _).trans (each policy _)
  intro exclusions
  induction exclusions with
  | nil => exact NoNewTasks.refl
  | cons exclusion rest ih =>
    intro start
    exact (noNewTasks_addExclusion taskId exclusion).trans (ih _)

theorem noNewTasks_enqueueUnLocked (t : Nat) : NoNewTasks s (s.enqueueUnLocked t) := by
  unfold enqueueUnLocked
  split
  · exact NoNewTasks.refl s
  · rename_i task _
    have numbered : NoNewTasks s ({ s with seqno := s.seqno + 1 }.updateTask t
        fun task => { task with seqno := s.seqno + 1 }) :=
      noNewTasks_updateTask (s := { s with seqno := s.seqno + 1 }) t _
    dsimp only
    split_ifs
    · exact numbered.trans (noNewTasks_addToWaitQ _ t)
    · exact (numbered.trans (noNewTasks_addToWaitQ _ t)).trans (noNewTasks_entryAddToDeferQ _ _)
    · split
      · exact numbered.trans (noNewTasks_groupDeferOnPolicyFail ‹_›)
      · split
        · exact numbered.trans (noNewTasks_entryDeferOnPolicyFail ‹_›)
        · exact numbered.trans (noNewTasks_runTask _ t)

theorem noNewTasks_unlinkDeferred (e : EntryId) : NoNewTasks s (s.unlinkDeferred e) := by
  unfold unlinkDeferred
  split
  · exact noNewTasks_groupDeleteFromDeferQ _ e
  · exact noNewTasks_entryDeleteFromDeferQ _ e
  · exact NoNewTasks.refl s

theorem noNewTasks_relinkDeferred (e : EntryId) : NoNewTasks s (s.relinkDeferred e) := by
  unfold relinkDeferred
  split
  · exact (noNewTasks_groupDeleteFromDeferQ _ e).trans (noNewTasks_groupAddToDeferQ _ e)
  · exact (noNewTasks_entryDeleteFromDeferQ _ e).trans (noNewTasks_entryAddToDeferQ _ e)
  · exact NoNewTasks.refl s

theorem noNewTasks_cancel (t : Nat) : NoNewTasks s (s.cancel t).1 := by
  unfold cancel
  split
  · exact NoNewTasks.refl s
  · rename_i task _
    split
    · exact noNewTasks_updateTask t _
    · dsimp only
      -- the cancelled task is deleted, after its entry is unlinked or linked again
      have linked : ∀ linked : TaskScheduler, NoNewTasks s linked →
          NoNewTasks s { linked with tasks := Function.update linked.tasks t none } := by
        intro linked kept other absent
        by_cases same : other = t
        · simp [same]
        · simp [same, kept other absent]
      apply linked
      have removed := noNewTasks_deleteFromWaitQ (s := s) (.entry task.taskId task.taskInstance) t
      split_ifs
      · exact removed.trans (noNewTasks_unlinkDeferred _)
      · exact removed.trans (noNewTasks_relinkDeferred _)
      · exact removed
    · exact NoNewTasks.refl s

end TaskScheduler

end Contrail.Base
