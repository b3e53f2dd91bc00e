import Contrail.Base.TaskMachine

/-! The defer queues of `TaskScheduler` and what the scheduler keeps of them.
A group's `deferq_` and an entry's `deferq_` are one kind of queue here, named
by `DeferQ`; an entry's two links name the queue it is in, as `Cancel` reads
them. Every queue stays ordered by key, since an entry changes its first
waiting task only while it is out of every queue, or is linked again at once;
an entry is in at most the queue its links name, and in none when no task
waits in it; a waiting task waits once, in its own entry. -/
namespace Contrail.Base

open KeyedList ListOrder

/-- A `deferq_`: of a group, or of an entry, `stop_entry_` among them. -/
inductive DeferQ
  | group (taskId : Nat)
  | entry (owner : EntryId)
  deriving DecidableEq, Repr

namespace TaskScheduler

variable (s : TaskScheduler)

/-- The entries of a defer queue, in its order. -/
def deferQ : DeferQ → List EntryId
  | .group g => (s.groups g).deferq
  | .entry owner => (s.entries owner).deferq

/-- The queue an entry's links name: its group link first, as `Cancel` reads them. -/
def link (e : EntryId) : Option DeferQ :=
  match (s.entries e).deferqTaskGroup, (s.entries e).deferqTaskEntry with
  | some g, _ => some (.group g)
  | none, some owner => some (.entry owner)
  | none, none => none

/-- `AddToDeferQ` of a group or of an entry. -/
def addToDeferQ : DeferQ → EntryId → TaskScheduler
  | .group g, e => s.groupAddToDeferQ g e
  | .entry owner, e => s.entryAddToDeferQ owner e

/-- `DeleteFromDeferQ` of a group or of an entry. -/
def deleteFromDeferQ : DeferQ → EntryId → TaskScheduler
  | .group g, e => s.groupDeleteFromDeferQ g e
  | .entry owner, e => s.entryDeleteFromDeferQ owner e

theorem addToDeferQ_entry (owner e : EntryId) : s.addToDeferQ (.entry owner) e = s.entryAddToDeferQ owner e := rfl

/-- The entry is in no defer queue. -/
def Unqueued (e : EntryId) : Prop := ∀ Q, e ∉ s.deferQ Q

/-- The task waits in no entry. -/
def NotWaiting (t : Nat) : Prop := ∀ e, t ∉ (s.entries e).waitq

variable {s}

/-! ## The queues, links and keys after each primitive -/

section Fields

variable {Q Q' : DeferQ} {e z : EntryId}

@[simp] theorem deferQ_addToDeferQ :
    (s.addToDeferQ Q e).deferQ Q' =
      if Q' = Q then insertUnique s.getTaskDeferEntrySeqno e (s.deferQ Q) else s.deferQ Q' := by
  cases Q <;> cases Q' <;>
    simp [addToDeferQ, groupAddToDeferQ, entryAddToDeferQ, deferQ, updateGroup, updateEntry,
      Function.update_apply] <;> split_ifs <;> simp_all

@[simp] theorem deferQ_deleteFromDeferQ :
    (s.deleteFromDeferQ Q e).deferQ Q' = if Q' = Q then (s.deferQ Q).erase e else s.deferQ Q' := by
  cases Q <;> cases Q' <;>
    simp [deleteFromDeferQ, groupDeleteFromDeferQ, entryDeleteFromDeferQ, deferQ, updateGroup, updateEntry,
      Function.update_apply] <;> split_ifs <;> simp_all

@[simp] theorem waitq_addToDeferQ : ((s.addToDeferQ Q e).entries z).waitq = (s.entries z).waitq := by
  cases Q <;> simp [addToDeferQ, groupAddToDeferQ, entryAddToDeferQ, updateGroup, updateEntry,
    Function.update_apply] <;> split_ifs <;> simp_all

@[simp] theorem waitq_deleteFromDeferQ : ((s.deleteFromDeferQ Q e).entries z).waitq = (s.entries z).waitq := by
  cases Q <;> simp [deleteFromDeferQ, groupDeleteFromDeferQ, entryDeleteFromDeferQ, updateGroup, updateEntry,
    Function.update_apply] <;> split_ifs <;> simp_all

@[simp] theorem tasks_addToDeferQ : (s.addToDeferQ Q e).tasks = s.tasks := by
  cases Q <;> rfl

@[simp] theorem tasks_deleteFromDeferQ : (s.deleteFromDeferQ Q e).tasks = s.tasks := by
  cases Q <;> rfl

@[simp] theorem frames_addToDeferQ : (s.addToDeferQ Q e).frames = s.frames := by
  cases Q <;> rfl

@[simp] theorem frames_deleteFromDeferQ : (s.deleteFromDeferQ Q e).frames = s.frames := by
  cases Q <;> rfl

theorem deferqTaskGroup_addToDeferQ_of_ne (ne : z ≠ e) :
    ((s.addToDeferQ Q e).entries z).deferqTaskGroup = (s.entries z).deferqTaskGroup := by
  cases Q with
  | group g => simp [addToDeferQ, groupAddToDeferQ, updateGroup, updateEntry, ne]
  | entry owner =>
    simp [addToDeferQ, entryAddToDeferQ, updateEntry, Function.update_apply, ne]
    split_ifs <;> simp_all

theorem deferqTaskGroup_deleteFromDeferQ_of_ne (ne : z ≠ e) :
    ((s.deleteFromDeferQ Q e).entries z).deferqTaskGroup = (s.entries z).deferqTaskGroup := by
  cases Q with
  | group g => simp [deleteFromDeferQ, groupDeleteFromDeferQ, updateGroup, updateEntry, ne]
  | entry owner =>
    simp [deleteFromDeferQ, entryDeleteFromDeferQ, updateEntry, Function.update_apply, ne]
    split_ifs <;> simp_all

theorem link_addToDeferQ_of_ne (ne : z ≠ e) : (s.addToDeferQ Q e).link z = s.link z := by
  simp only [link]
  cases Q with
  | group g => simp [addToDeferQ, groupAddToDeferQ, updateGroup, updateEntry, ne]
  | entry owner =>
    simp [addToDeferQ, entryAddToDeferQ, updateEntry, Function.update_apply, ne]
    split_ifs <;> simp_all

theorem link_deleteFromDeferQ_of_ne (ne : z ≠ e) : (s.deleteFromDeferQ Q e).link z = s.link z := by
  simp only [link]
  cases Q with
  | group g => simp [deleteFromDeferQ, groupDeleteFromDeferQ, updateGroup, updateEntry, ne]
  | entry owner =>
    simp [deleteFromDeferQ, entryDeleteFromDeferQ, updateEntry, Function.update_apply, ne]
    split_ifs <;> simp_all

/-- An entry with no group link is linked into the queue it is added to. -/
theorem link_addToDeferQ (ungrouped : (s.entries e).deferqTaskGroup = none) :
    (s.addToDeferQ Q e).link e = some Q := by
  cases Q with
  | group g => simp [link, addToDeferQ, groupAddToDeferQ, updateGroup, updateEntry]
  | entry owner =>
    simp [link, addToDeferQ, entryAddToDeferQ, updateEntry, Function.update_apply]
    split_ifs <;> simp_all

/-- Deleting an entry from the queue its links name leaves it with no group link. -/
theorem deferqTaskGroup_deleteFromDeferQ (linked : s.link e = some Q) :
    ((s.deleteFromDeferQ Q e).entries e).deferqTaskGroup = none := by
  cases Q with
  | group g => simp [deleteFromDeferQ, groupDeleteFromDeferQ, updateEntry]
  | entry owner =>
    -- an entry linked into an entry's queue has no group link
    have ungrouped : (s.entries e).deferqTaskGroup = none := by
      simp only [link] at linked
      split at linked <;> simp_all
    simp [deleteFromDeferQ, entryDeleteFromDeferQ, updateEntry, Function.update_apply]
    split_ifs <;> simp_all

theorem unlinkDeferred_of_link {Q : DeferQ} (linked : s.link e = some Q) :
    s.unlinkDeferred e = s.deleteFromDeferQ Q e := by
  unfold unlinkDeferred
  unfold link at linked
  split <;> simp_all <;> subst_vars <;> rfl

theorem unlinkDeferred_of_none (unlinked : s.link e = none) : s.unlinkDeferred e = s := by
  unfold unlinkDeferred
  unfold link at unlinked
  split <;> simp_all

theorem relinkDeferred_of_link {Q : DeferQ} (linked : s.link e = some Q) :
    s.relinkDeferred e = (s.deleteFromDeferQ Q e).addToDeferQ Q e := by
  unfold relinkDeferred
  unfold link at linked
  split <;> simp_all <;> subst_vars <;> rfl

theorem relinkDeferred_of_none (unlinked : s.link e = none) : s.relinkDeferred e = s := by
  unfold relinkDeferred
  unfold link at unlinked
  split <;> simp_all

theorem deferqTaskGroup_of_link_none (unlinked : s.link e = none) : (s.entries e).deferqTaskGroup = none := by
  unfold link at unlinked
  split at unlinked <;> simp_all

@[simp] theorem waitq_unlinkDeferred : ((s.unlinkDeferred e).entries z).waitq = (s.entries z).waitq := by
  rcases linked : s.link e with _ | Q
  · rw [unlinkDeferred_of_none linked]
  · rw [unlinkDeferred_of_link linked, waitq_deleteFromDeferQ]

@[simp] theorem waitq_relinkDeferred : ((s.relinkDeferred e).entries z).waitq = (s.entries z).waitq := by
  rcases linked : s.link e with _ | Q
  · rw [relinkDeferred_of_none linked]
  · rw [relinkDeferred_of_link linked, waitq_addToDeferQ, waitq_deleteFromDeferQ]

/-- Taking a task out of a wait queue and an entry out of a defer queue commute. -/
theorem deleteFromWaitQ_deleteFromDeferQ {t : Nat} :
    (s.deleteFromWaitQ z t).deleteFromDeferQ Q e = (s.deleteFromDeferQ Q e).deleteFromWaitQ z t := by
  cases Q with
  | group g =>
    simp only [deleteFromDeferQ, groupDeleteFromDeferQ, deleteFromWaitQ, updateEntry, updateGroup]
    congr 1
    funext x
    by_cases atE : x = e <;> by_cases atZ : x = z <;> simp [Function.update_apply, atE, atZ] <;> simp_all
  | entry owner =>
    simp only [deleteFromDeferQ, entryDeleteFromDeferQ, deleteFromWaitQ, updateEntry]
    congr 1
    funext x
    by_cases atE : x = e <;> by_cases atZ : x = z <;> by_cases atOwner : x = owner <;>
      simp [Function.update_apply, atE, atZ, atOwner] <;> simp_all

end Fields

/-! ## Keys -/

section Keys

variable {s' : TaskScheduler} {z : EntryId}

/-- The key of an entry is read off its first waiting task. -/
theorem getTaskDeferEntrySeqno_congr (head : (s'.entries z).waitq.head? = (s.entries z).waitq.head?)
    (first : ∀ t ∈ (s.entries z).waitq.head?, s'.tasks t = s.tasks t) :
    s'.getTaskDeferEntrySeqno z = s.getTaskDeferEntrySeqno z := by
  unfold getTaskDeferEntrySeqno
  cases queued : (s.entries z).waitq with
  | nil =>
    rw [queued, List.head?_nil, List.head?_eq_none_iff] at head
    rw [head]
  | cons t rest =>
    rw [queued, List.head?_cons] at head first
    obtain ⟨rest', queued'⟩ := List.head?_eq_some_iff.mp head
    rw [queued']
    simp only [first t rfl]

@[simp] theorem getTaskDeferEntrySeqno_addToDeferQ {Q : DeferQ} {e : EntryId} :
    (s.addToDeferQ Q e).getTaskDeferEntrySeqno = s.getTaskDeferEntrySeqno :=
  funext fun _ => getTaskDeferEntrySeqno_congr (by rw [waitq_addToDeferQ]) (by simp)

@[simp] theorem getTaskDeferEntrySeqno_deleteFromDeferQ {Q : DeferQ} {e : EntryId} :
    (s.deleteFromDeferQ Q e).getTaskDeferEntrySeqno = s.getTaskDeferEntrySeqno :=
  funext fun _ => getTaskDeferEntrySeqno_congr (by rw [waitq_deleteFromDeferQ]) (by simp)

end Keys

/-! ## States alike in their queues and links -/

/-- Two states with the same defer queues and the same links. -/
structure SameLinks (s s' : TaskScheduler) : Prop where
  deferQ : ∀ Q, s'.deferQ Q = s.deferQ Q
  deferqTaskGroup : ∀ e, (s'.entries e).deferqTaskGroup = (s.entries e).deferqTaskGroup
  deferqTaskEntry : ∀ e, (s'.entries e).deferqTaskEntry = (s.entries e).deferqTaskEntry

section SameLinks

variable {s' s'' : TaskScheduler}

theorem SameLinks.refl (s : TaskScheduler) : SameLinks s s := ⟨fun _ => rfl, fun _ => rfl, fun _ => rfl⟩

theorem SameLinks.trans (first : SameLinks s s') (second : SameLinks s' s'') : SameLinks s s'' :=
  ⟨fun Q => (second.deferQ Q).trans (first.deferQ Q),
   fun e => (second.deferqTaskGroup e).trans (first.deferqTaskGroup e),
   fun e => (second.deferqTaskEntry e).trans (first.deferqTaskEntry e)⟩

theorem SameLinks.link (same : SameLinks s s') (e : EntryId) : s'.link e = s.link e := by
  simp only [TaskScheduler.link, same.deferqTaskGroup, same.deferqTaskEntry]

theorem SameLinks.unqueued (same : SameLinks s s') {e : EntryId} (free : s.Unqueued e) : s'.Unqueued e :=
  fun Q mem => free Q (same.deferQ Q ▸ mem)

/-- Changing only the other fields of an entry. -/
theorem sameLinks_updateEntry {e : EntryId} {f : TaskEntry → TaskEntry}
    (kept : ∀ entry, (f entry).deferq = entry.deferq ∧ (f entry).deferqTaskGroup = entry.deferqTaskGroup ∧
      (f entry).deferqTaskEntry = entry.deferqTaskEntry) :
    SameLinks s (s.updateEntry e f) := by
  refine ⟨fun Q => ?_, fun z => ?_, fun z => ?_⟩
  · cases Q with
    | group g => rfl
    | entry owner =>
      by_cases same : owner = e
      · subst same
        simp [deferQ, updateEntry, (kept _).1]
      · simp [deferQ, updateEntry, same]
  all_goals
    by_cases same : z = e
    · subst same
      simp [updateEntry, kept]
    · simp [updateEntry, same]

/-- Changing only the other fields of a group. -/
theorem sameLinks_updateGroup {g : Nat} {f : TaskGroup → TaskGroup}
    (kept : ∀ group, (f group).deferq = group.deferq) :
    SameLinks s (s.updateGroup g f) := by
  refine ⟨fun Q => ?_, fun _ => rfl, fun _ => rfl⟩
  cases Q with
  | group g' =>
    by_cases same : g' = g
    · subst same
      simp [deferQ, updateGroup, kept]
    · simp [deferQ, updateGroup, same]
  | entry owner => rfl

theorem sameLinks_updateTask (t : Nat) (f : Task → Task) : SameLinks s (s.updateTask t f) :=
  ⟨fun Q => by cases Q <;> rfl, fun _ => rfl, fun _ => rfl⟩

theorem sameLinks_addToWaitQ (e : EntryId) (t : Nat) : SameLinks s (s.addToWaitQ e t) :=
  (sameLinks_updateTask t _).trans (sameLinks_updateEntry fun _ => ⟨rfl, rfl, rfl⟩)

theorem sameLinks_deleteFromWaitQ (e : EntryId) (t : Nat) : SameLinks s (s.deleteFromWaitQ e t) :=
  sameLinks_updateEntry fun _ => ⟨rfl, rfl, rfl⟩

theorem sameLinks_runTask (e : EntryId) (t : Nat) : SameLinks s (s.runTask e t) := by
  unfold runTask
  split
  · exact SameLinks.refl s
  · apply SameLinks.trans _ (sameLinks_updateTask t _)
    apply SameLinks.trans (sameLinks_updateEntry _) (sameLinks_updateGroup _)
    · exact fun _ => ⟨rfl, rfl, rfl⟩
    · exact fun _ => rfl

theorem waitq_runTask (e z : EntryId) (t : Nat) : ((s.runTask e t).entries z).waitq = (s.entries z).waitq := by
  unfold runTask
  split
  · rfl
  · by_cases same : z = e
    · subst same
      simp [updateTask, updateGroup, updateEntry]
    · simp [updateTask, updateGroup, updateEntry, same]

@[simp] theorem tasks_deleteFromWaitQ (e : EntryId) (t : Nat) : (s.deleteFromWaitQ e t).tasks = s.tasks := rfl

@[simp] theorem entries_updateGroup (g : Nat) (f : TaskGroup → TaskGroup) : (s.updateGroup g f).entries = s.entries :=
  rfl

theorem waitq_updateEntry {e z : EntryId} {f : TaskEntry → TaskEntry}
    (kept : ∀ entry, (f entry).waitq = entry.waitq) :
    ((s.updateEntry e f).entries z).waitq = (s.entries z).waitq := by
  by_cases same : z = e
  · subst same
    simp [updateEntry, kept]
  · simp [updateEntry, same]

theorem waitq_deleteFromWaitQ (e z : EntryId) (t : Nat) :
    ((s.deleteFromWaitQ e t).entries z).waitq = if z = e then (s.entries e).waitq.erase t else (s.entries z).waitq := by
  by_cases same : z = e
  · subst same
    simp [deleteFromWaitQ, updateEntry]
  · simp [deleteFromWaitQ, updateEntry, same]

theorem waitq_addToWaitQ (e z : EntryId) (t : Nat) :
    ((s.addToWaitQ e t).entries z).waitq = if z = e then (s.entries e).waitq ++ [t] else (s.entries z).waitq := by
  by_cases same : z = e
  · subst same
    simp [addToWaitQ, updateEntry, updateTask]
  · simp [addToWaitQ, updateEntry, updateTask, same]

end SameLinks

/-- Two states alike in all the invariant reads: queues, links, wait queues and tasks. -/
structure Alike (s s' : TaskScheduler) : Prop where
  links : SameLinks s s'
  waitq : ∀ e, (s'.entries e).waitq = (s.entries e).waitq
  tasks : s'.tasks = s.tasks

section Alike

variable {s' s'' : TaskScheduler}

theorem Alike.refl (s : TaskScheduler) : Alike s s := ⟨SameLinks.refl s, fun _ => rfl, rfl⟩

theorem Alike.trans (first : Alike s s') (second : Alike s' s'') : Alike s s'' :=
  ⟨first.links.trans second.links, fun e => (second.waitq e).trans (first.waitq e), second.tasks.trans first.tasks⟩

/-- A change of the fields the scheduler keeps beside its queues. -/
theorem alike_of_fields (groups : ∀ g, (s'.groups g).deferq = (s.groups g).deferq)
    (entries : ∀ e, (s'.entries e).waitq = (s.entries e).waitq ∧ (s'.entries e).deferq = (s.entries e).deferq ∧
      (s'.entries e).deferqTaskGroup = (s.entries e).deferqTaskGroup ∧
      (s'.entries e).deferqTaskEntry = (s.entries e).deferqTaskEntry)
    (tasks : s'.tasks = s.tasks) : Alike s s' := by
  refine ⟨⟨fun Q => ?_, fun e => (entries e).2.2.1, fun e => (entries e).2.2.2⟩, fun e => (entries e).1, tasks⟩
  cases Q with
  | group g => exact groups g
  | entry owner => exact (entries owner).2.1

theorem alike_updateEntry {e : EntryId} {f : TaskEntry → TaskEntry}
    (kept : ∀ entry, (f entry).waitq = entry.waitq ∧ (f entry).deferq = entry.deferq ∧
      (f entry).deferqTaskGroup = entry.deferqTaskGroup ∧ (f entry).deferqTaskEntry = entry.deferqTaskEntry) :
    Alike s (s.updateEntry e f) := by
  refine alike_of_fields (fun _ => rfl) (fun z => ?_) rfl
  by_cases same : z = e
  · subst same
    simpa [updateEntry] using kept (s.entries z)
  · simp [updateEntry, same]

theorem alike_updateGroup {g : Nat} {f : TaskGroup → TaskGroup} (kept : ∀ group, (f group).deferq = group.deferq) :
    Alike s (s.updateGroup g f) := by
  refine alike_of_fields (fun g' => ?_) (fun _ => ⟨rfl, rfl, rfl, rfl⟩) rfl
  by_cases same : g' = g
  · subst same
    simpa [updateGroup] using kept (s.groups g')
  · simp [updateGroup, same]

theorem alike_addExclusion (taskId : Nat) (exclusion : TaskExclusion) : Alike s (s.addExclusion taskId exclusion) := by
  unfold addExclusion groupAddPolicy entryAddPolicy
  split_ifs
  · refine (alike_updateGroup ?_).trans (alike_updateGroup ?_) <;> exact fun _ => rfl
  · refine ((((alike_updateEntry ?_).trans (alike_updateEntry ?_)).trans (alike_updateEntry ?_)).trans
      (alike_updateEntry ?_)) <;> exact fun _ => ⟨rfl, rfl, rfl, rfl⟩

theorem alike_setPolicy (taskId : Nat) (policy : List TaskExclusion) : Alike s (s.setPolicy taskId policy) := by
  unfold setPolicy
  -- the loop adds exclusions to the state after `PolicySet`, which keeps the queues
  suffices each : ∀ (exclusions : List TaskExclusion) (start : TaskScheduler),
      Alike start (exclusions.foldl (fun s exclusion => s.addExclusion taskId exclusion) start) by
    refine (alike_updateGroup ?_).trans (each policy _)
    exact fun _ => rfl
  intro exclusions
  induction exclusions with
  | nil => exact Alike.refl
  | cons exclusion rest ih =>
    intro start
    exact (alike_addExclusion taskId exclusion).trans (ih _)

end Alike

/-! ## The invariant -/

/-- The defer queues and the wait queues as the scheduler keeps them. -/
structure Sound (s : TaskScheduler) : Prop where
  /-- Each queue is ordered by the keys its entries have now. -/
  ordered : ∀ Q, Sorted s.getTaskDeferEntrySeqno (s.deferQ Q)
  /-- An entry in a queue is linked to it. -/
  linked : ∀ e Q, e ∈ s.deferQ Q → s.link e = some Q
  /-- An entry where no task waits has no group link and is in no queue. -/
  idle : ∀ e, (s.entries e).waitq = [] → (s.entries e).deferqTaskGroup = none ∧ s.Unqueued e
  nodup : ∀ e, (s.entries e).waitq.Nodup
  /-- A task in a wait queue waits, in its own entry. -/
  waiting : ∀ e, ∀ t ∈ (s.entries e).waitq,
    ∃ task, s.tasks t = some task ∧ task.state = .WAIT ∧ e = .entry task.taskId task.taskInstance

namespace Sound

variable {s' : TaskScheduler}

theorem busy (sound : s.Sound) {e : EntryId} {Q : DeferQ} (mem : e ∈ s.deferQ Q) : (s.entries e).waitq ≠ [] :=
  fun idle => (sound.idle e idle).2 Q mem

/-- A task the scheduler holds in another state than `WAIT` waits nowhere. -/
theorem notWaiting_of_state (sound : s.Sound) {t : Nat} {task : Task} (found : s.tasks t = some task)
    (state : task.state ≠ .WAIT) : s.NotWaiting t := by
  intro e waits
  obtain ⟨task', found', waiting, -⟩ := sound.waiting e t waits
  rw [found, Option.some.injEq] at found'
  subst found'
  exact state waiting

/-- A task taken out of its own entry's wait queue waits nowhere. -/
theorem notWaiting_deleteFromWaitQ (sound : s.Sound) {t : Nat} {task : Task} (found : s.tasks t = some task) :
    (s.deleteFromWaitQ (.entry task.taskId task.taskInstance) t).NotWaiting t := by
  intro z waits
  rw [waitq_deleteFromWaitQ] at waits
  split_ifs at waits with same
  · exact (sound.nodup _).not_mem_erase waits
  · obtain ⟨task', found', -, own⟩ := sound.waiting z t waits
    rw [found, Option.some.injEq] at found'
    subst found'
    exact same own

/-- The invariant reads only the queues, the links, the wait queues and the tasks. -/
theorem congr (sound : s.Sound) (links : SameLinks s s') (waitq : ∀ e, (s'.entries e).waitq = (s.entries e).waitq)
    (tasks : s'.tasks = s.tasks) : s'.Sound := by
  have keys : s'.getTaskDeferEntrySeqno = s.getTaskDeferEntrySeqno :=
    funext fun z => getTaskDeferEntrySeqno_congr (by rw [waitq z]) (by simp [tasks])
  refine ⟨fun Q => ?_, fun e Q mem => ?_, fun e idle => ?_, fun e => ?_, fun e t mem => ?_⟩
  · rw [keys, links.deferQ]
    exact sound.ordered Q
  · rw [links.link]
    exact sound.linked e Q (links.deferQ Q ▸ mem)
  · obtain ⟨ungrouped, free⟩ := sound.idle e (waitq e ▸ idle)
    exact ⟨(links.deferqTaskGroup e).trans ungrouped, links.unqueued free⟩
  · exact waitq e ▸ sound.nodup e
  · rw [tasks]
    exact sound.waiting e t (waitq e ▸ mem)

/-- A task that waits nowhere can change, or go. -/
theorem setTask (sound : s.Sound) {t : Nat} (absent : s.NotWaiting t) (v : Option Task) :
    { s with tasks := Function.update s.tasks t v }.Sound := by
  have keys : { s with tasks := Function.update s.tasks t v }.getTaskDeferEntrySeqno = s.getTaskDeferEntrySeqno := by
    funext z
    refine getTaskDeferEntrySeqno_congr rfl fun t' first => ?_
    have ne : t' ≠ t := fun same => absent z (same ▸ List.mem_of_mem_head? first)
    exact Function.update_of_ne ne v s.tasks
  refine ⟨fun Q => ?_, sound.linked, sound.idle, sound.nodup, fun e t' mem => ?_⟩
  · rw [keys]
    exact sound.ordered Q
  · have ne : t' ≠ t := fun same => absent e (same ▸ mem)
    dsimp only
    rw [Function.update_of_ne ne]
    exact sound.waiting e t' mem

theorem updateTask (sound : s.Sound) {t : Nat} (absent : s.NotWaiting t) (f : Task → Task) :
    (s.updateTask t f).Sound :=
  sound.setTask absent _

/-- Unlinking an entry from the queue its links name leaves it in no queue. -/
theorem unqueued_deleteFromDeferQ (sound : s.Sound) {e : EntryId} {Q : DeferQ} (linked : s.link e = some Q) :
    (s.deleteFromDeferQ Q e).Unqueued e := by
  intro Q' mem
  rw [deferQ_deleteFromDeferQ] at mem
  split_ifs at mem with same
  · subst same
    exact (sound.ordered Q').nodup.not_mem_erase mem
  · exact same (Option.some.inj ((sound.linked e Q' mem).symm.trans linked))

theorem deleteFromDeferQ (sound : s.Sound) {e : EntryId} {Q : DeferQ} (linked : s.link e = some Q) :
    (s.deleteFromDeferQ Q e).Sound := by
  have free := sound.unqueued_deleteFromDeferQ linked
  -- the queues only lose `e`
  have shrunk : ∀ Q', (s.deleteFromDeferQ Q e).deferQ Q' ⊆ s.deferQ Q' := by
    intro Q' z mem
    rw [deferQ_deleteFromDeferQ] at mem
    split_ifs at mem with same
    · exact same ▸ List.mem_of_mem_erase mem
    · exact mem
  refine ⟨fun Q' => ?_, fun z Q' mem => ?_, fun z idle => ?_, fun z => ?_, fun z t mem => ?_⟩
  · rw [getTaskDeferEntrySeqno_deleteFromDeferQ, deferQ_deleteFromDeferQ]
    split_ifs with same
    · exact (sound.ordered Q).erase e
    · exact sound.ordered Q'
  · have ne : z ≠ e := fun same => free Q' (same ▸ mem)
    rw [link_deleteFromDeferQ_of_ne ne]
    exact sound.linked z Q' (shrunk Q' mem)
  · rw [waitq_deleteFromDeferQ] at idle
    obtain ⟨ungrouped, absent⟩ := sound.idle z idle
    refine ⟨?_, fun Q' mem => absent Q' (shrunk Q' mem)⟩
    by_cases same : z = e
    · subst same
      exact deferqTaskGroup_deleteFromDeferQ linked
    · rwa [deferqTaskGroup_deleteFromDeferQ_of_ne same]
  · rw [waitq_deleteFromDeferQ]
    exact sound.nodup z
  · rw [waitq_deleteFromDeferQ] at mem
    rw [tasks_deleteFromDeferQ]
    exact sound.waiting z t mem

/-- An entry out of every queue, with tasks waiting and no group link, can be
added to a queue. -/
theorem addToDeferQ (sound : s.Sound) {e : EntryId} (free : s.Unqueued e) (busy : (s.entries e).waitq ≠ [])
    (ungrouped : (s.entries e).deferqTaskGroup = none) (Q : DeferQ) : (s.addToDeferQ Q e).Sound := by
  -- the queues gain only `e`, in `Q`
  have grown : ∀ Q', ∀ z ∈ (s.addToDeferQ Q e).deferQ Q', (z = e ∧ Q' = Q) ∨ z ∈ s.deferQ Q' := by
    intro Q' z mem
    rw [deferQ_addToDeferQ] at mem
    split_ifs at mem with same
    · subst same
      rcases mem_insertUnique _ _ mem with rfl | mem
      · exact .inl ⟨rfl, rfl⟩
      · exact .inr mem
    · exact .inr mem
  refine ⟨fun Q' => ?_, fun z Q' mem => ?_, fun z idle => ?_, fun z => ?_, fun z t mem => ?_⟩
  · rw [getTaskDeferEntrySeqno_addToDeferQ, deferQ_addToDeferQ]
    split_ifs with same
    · exact (sound.ordered Q).insertUnique _ e
    · exact sound.ordered Q'
  · rcases grown Q' z mem with ⟨rfl, rfl⟩ | mem
    · exact link_addToDeferQ ungrouped
    · have ne : z ≠ e := fun same => free Q' (same ▸ mem)
      rw [link_addToDeferQ_of_ne ne]
      exact sound.linked z Q' mem
  · rw [waitq_addToDeferQ] at idle
    have ne : z ≠ e := fun same => busy (same ▸ idle)
    obtain ⟨ungrouped', absent⟩ := sound.idle z idle
    refine ⟨(deferqTaskGroup_addToDeferQ_of_ne ne).trans ungrouped', fun Q' mem => ?_⟩
    rcases grown Q' z mem with ⟨same, -⟩ | mem
    · exact ne same
    · exact absent Q' mem
  · rw [waitq_addToDeferQ]
    exact sound.nodup z
  · rw [waitq_addToDeferQ] at mem
    rw [tasks_addToDeferQ]
    exact sound.waiting z t mem

/-- A task that waits nowhere joins the wait queue of its own entry. -/
theorem addToWaitQ (sound : s.Sound) {t : Nat} {task : Task} (absent : s.NotWaiting t)
    (found : s.tasks t = some task) : (s.addToWaitQ (.entry task.taskId task.taskInstance) t).Sound := by
  generalize own : EntryId.entry task.taskId task.taskInstance = e
  have links := sameLinks_addToWaitQ (s := s) e t
  have tasks : ∀ t' ≠ t, (s.addToWaitQ e t).tasks t' = s.tasks t' := fun t' ne => by
    simp [TaskScheduler.addToWaitQ, updateEntry, TaskScheduler.updateTask, Function.update_of_ne ne]
  refine ⟨fun Q => ?_, fun z Q mem => ?_, fun z idle => ?_, fun z => ?_, fun z t' mem => ?_⟩
  · -- a queued entry keeps its first task, which is not `t`
    rw [links.deferQ]
    refine (sound.ordered Q).congr fun z mem => getTaskDeferEntrySeqno_congr ?_ fun t' first => ?_
    · rw [waitq_addToWaitQ]
      split_ifs with same
      · subst same
        exact List.head?_append_of_ne_nil _ (sound.busy mem)
      · rfl
    · exact tasks t' fun same => absent z (same ▸ List.mem_of_mem_head? first)
  · rw [links.link]
    exact sound.linked z Q (links.deferQ Q ▸ mem)
  · rw [waitq_addToWaitQ] at idle
    split_ifs at idle with same
    · simp at idle
    · obtain ⟨ungrouped, free⟩ := sound.idle z idle
      exact ⟨(links.deferqTaskGroup z).trans ungrouped, links.unqueued free⟩
  · rw [waitq_addToWaitQ]
    split_ifs with same
    · rw [← List.concat_eq_append]
      exact (sound.nodup e).concat (same ▸ absent z)
    · exact sound.nodup z
  · rw [waitq_addToWaitQ] at mem
    split_ifs at mem with same
    · subst same
      rcases List.mem_append.mp mem with mem | single
      · rw [tasks t' fun same => absent _ (same ▸ mem)]
        exact sound.waiting _ t' mem
      · obtain rfl := List.mem_singleton.mp single
        refine ⟨{ task with state := .WAIT }, ?_, rfl, own.symm⟩
        simp [TaskScheduler.addToWaitQ, updateEntry, TaskScheduler.updateTask, found]
    · rw [tasks t' fun same => absent z (same ▸ mem)]
      exact sound.waiting z t' mem

/-- Taking a task out of a wait queue: the entry keeps its key unless it is out
of every queue, and is left empty only out of every queue with no group link. -/
theorem deleteFromWaitQ (sound : s.Sound) {e : EntryId} {t : Nat}
    (keyed : s.Unqueued e ∨ (s.entries e).waitq.head? ≠ some t)
    (emptied : (s.entries e).waitq.erase t = [] → (s.entries e).deferqTaskGroup = none ∧ s.Unqueued e) :
    (s.deleteFromWaitQ e t).Sound := by
  have links := sameLinks_deleteFromWaitQ (s := s) e t
  refine ⟨fun Q => ?_, fun z Q mem => ?_, fun z idle => ?_, fun z => ?_, fun z t' mem => ?_⟩
  · rw [links.deferQ]
    refine (sound.ordered Q).congr fun z mem => getTaskDeferEntrySeqno_congr ?_ fun _ _ => rfl
    rw [waitq_deleteFromWaitQ]
    split_ifs with same
    · subst same
      rcases keyed with free | head
      · exact absurd mem (free Q)
      · exact head?_erase_of_ne head
    · rfl
  · rw [links.link]
    exact sound.linked z Q (links.deferQ Q ▸ mem)
  · rw [waitq_deleteFromWaitQ] at idle
    split_ifs at idle with same
    · subst same
      obtain ⟨ungrouped, free⟩ := emptied idle
      exact ⟨(links.deferqTaskGroup z).trans ungrouped, links.unqueued free⟩
    · obtain ⟨ungrouped, free⟩ := sound.idle z idle
      exact ⟨(links.deferqTaskGroup z).trans ungrouped, links.unqueued free⟩
  · rw [waitq_deleteFromWaitQ]
    split_ifs with same
    · exact (sound.nodup e).erase t
    · exact sound.nodup z
  · rw [waitq_deleteFromWaitQ] at mem
    rw [tasks_deleteFromWaitQ]
    split_ifs at mem with same
    · subst same
      exact sound.waiting z t' (List.mem_of_mem_erase mem)
    · exact sound.waiting z t' mem

theorem runTask (sound : s.Sound) {e : EntryId} {t : Nat} (absent : s.NotWaiting t) : (s.runTask e t).Sound := by
  unfold TaskScheduler.runTask
  split
  · exact sound
  · -- the counts change, then the task's state, and it waits nowhere
    apply Sound.updateTask _ _ _
    · refine sound.congr ?_ (fun z => ?_) rfl
      · apply SameLinks.trans (sameLinks_updateEntry _) (sameLinks_updateGroup _)
        · exact fun _ => ⟨rfl, rfl, rfl⟩
        · exact fun _ => rfl
      · by_cases same : z = e
        · subst same
          simp [updateEntry, updateGroup]
        · simp [updateEntry, updateGroup, same]
    · intro z
      by_cases same : z = e
      · subst same
        simpa [updateEntry, updateGroup] using absent z
      · simpa [updateEntry, updateGroup, same] using absent z

/-- The loop of `RunWaitQ` for instance -1 starts every task waiting in an entry
that is out of every queue. -/
theorem runAllWaiting (e : EntryId) :
    ∀ (waiting : List Nat) {s : TaskScheduler}, s.Sound → s.Unqueued e → (s.entries e).deferqTaskGroup = none →
      (s.entries e).waitq = waiting → (TaskScheduler.runAllWaiting e waiting s).Sound
  | [], _, sound, _, _, _ => sound
  | t :: rest, s, sound, free, ungrouped, queued => by
    obtain ⟨task, found, -, own⟩ := sound.waiting e t (queued ▸ List.mem_cons_self)
    have removed := sound.deleteFromWaitQ (t := t) (.inl free) fun _ => ⟨ungrouped, free⟩
    have absent : (s.deleteFromWaitQ e t).NotWaiting t := by
      rw [own]
      exact sound.notWaiting_deleteFromWaitQ found
    have links := (sameLinks_deleteFromWaitQ (s := s) e t).trans (sameLinks_runTask e t)
    refine runAllWaiting e rest (removed.runTask absent) (links.unqueued free) ?_ ?_
    · rw [links.deferqTaskGroup]
      exact ungrouped
    · rw [waitq_runTask, waitq_deleteFromWaitQ, if_pos rfl, queued, List.erase_cons_head]

theorem runWaitQ (sound : s.Sound) {e : EntryId} (free : s.Unqueued e)
    (ungrouped : (s.entries e).deferqTaskGroup = none) (taskInstance : Int) : (s.runWaitQ e taskInstance).Sound := by
  unfold TaskScheduler.runWaitQ
  split
  · exact sound
  · rename_i t rest queued
    split_ifs with single
    · -- the first task starts, and the entry goes back into its own queue if more wait
      obtain ⟨task, found, -, own⟩ := sound.waiting e t (queued ▸ List.mem_cons_self)
      have absent : (s.deleteFromWaitQ e t).NotWaiting t := by
        rw [own]
        exact sound.notWaiting_deleteFromWaitQ found
      have removed := sound.deleteFromWaitQ (t := t) (.inl free) fun _ => ⟨ungrouped, free⟩
      have started := removed.runTask (e := e) absent
      have links := (sameLinks_deleteFromWaitQ (s := s) e t).trans (sameLinks_runTask e t)
      dsimp only
      split_ifs with more
      · exact started.addToDeferQ (links.unqueued free) more ((links.deferqTaskGroup e).trans ungrouped) (.entry e)
      · exact started
    · exact Sound.runAllWaiting e _ sound free ungrouped rfl

/-- `DeferOnPolicyFail`: an entry out of every queue with no group link goes
into a queue, once the task waits in it. -/
theorem defer (sound : s.Sound) {e : EntryId} {t : Nat} (free : s.Unqueued e)
    (ungrouped : (s.entries e).deferqTaskGroup = none)
    (fresh : (s.entries e).waitq = [] → s.NotWaiting t ∧
      ∃ task, s.tasks t = some task ∧ e = .entry task.taskId task.taskInstance) (Q : DeferQ) :
    ((if (s.entries e).waitq = [] then s.addToWaitQ e t else s).addToDeferQ Q e).Sound := by
  split_ifs with empty
  · obtain ⟨absent, task, found, rfl⟩ := fresh empty
    have links := sameLinks_addToWaitQ (s := s) (.entry task.taskId task.taskInstance) t
    refine (sound.addToWaitQ absent found).addToDeferQ (links.unqueued free) ?_
      ((links.deferqTaskGroup _).trans ungrouped) Q
    simp [waitq_addToWaitQ]
  · exact sound.addToDeferQ free empty ungrouped Q

theorem groupDeferOnPolicyFail (sound : s.Sound) {g : Nat} {e : EntryId} {t : Nat} {deferred : TaskScheduler}
    (free : s.Unqueued e) (ungrouped : (s.entries e).deferqTaskGroup = none)
    (fresh : (s.entries e).waitq = [] → s.NotWaiting t ∧
      ∃ task, s.tasks t = some task ∧ e = .entry task.taskId task.taskInstance)
    (failed : s.groupDeferOnPolicyFail g e t = some deferred) : deferred.Sound := by
  obtain ⟨active, -, rfl⟩ := Option.map_eq_some_iff.mp failed
  exact sound.defer free ungrouped fresh (.group active)

theorem entryDeferOnPolicyFail (sound : s.Sound) {e : EntryId} {t : Nat} {deferred : TaskScheduler}
    (free : s.Unqueued e) (ungrouped : (s.entries e).deferqTaskGroup = none)
    (fresh : (s.entries e).waitq = [] → s.NotWaiting t ∧
      ∃ task, s.tasks t = some task ∧ e = .entry task.taskId task.taskInstance)
    (failed : s.entryDeferOnPolicyFail e t = some deferred) : deferred.Sound := by
  obtain ⟨active, -, rfl⟩ := Option.map_eq_some_iff.mp failed
  exact sound.defer free ungrouped fresh (.entry active)

/-- `RunDeferEntry` of an entry just taken out of its queue. -/
theorem runDeferEntry (sound : s.Sound) {x : EntryId} (free : s.Unqueued x)
    (ungrouped : (s.entries x).deferqTaskGroup = none) : (s.runDeferEntry x).Sound := by
  cases x with
  | stop => exact sound
  | entry g taskInstance =>
    simp only [TaskScheduler.runDeferEntry]
    split
    · exact sound
    · rename_i t rest queued
      -- a task waits in the entry, so `DeferOnPolicyFail` adds none
      have fresh : (s.entries (.entry g taskInstance)).waitq = [] → s.NotWaiting t ∧
          ∃ task, s.tasks t = some task ∧ EntryId.entry g taskInstance = .entry task.taskId task.taskInstance := by
        intro empty
        simp [queued] at empty
      split
      · exact sound.groupDeferOnPolicyFail free ungrouped fresh ‹_›
      · split
        · exact sound.entryDeferOnPolicyFail free ungrouped fresh ‹_›
        · exact sound.runWaitQ free ungrouped _

theorem alike (sound : s.Sound) (same : Alike s s') : s'.Sound :=
  sound.congr same.links same.waitq same.tasks

theorem unqueued_of_link_none (sound : s.Sound) {e : EntryId} (unlinked : s.link e = none) : s.Unqueued e :=
  fun Q mem => by simp [sound.linked e Q mem] at unlinked

/-- `EnqueueUnLocked` of a task that waits nowhere. -/
theorem enqueueUnLocked (sound : s.Sound) {t : Nat} (absent : s.NotWaiting t) : (s.enqueueUnLocked t).Sound := by
  unfold TaskScheduler.enqueueUnLocked
  split
  · exact sound
  · rename_i task found
    dsimp only
    set numbered := { s with seqno := s.seqno + 1 }.updateTask t fun task => { task with seqno := s.seqno + 1 }
      with numbering
    -- numbering the task changes no key, since it waits nowhere
    have bumped : ({ s with seqno := s.seqno + 1 } : TaskScheduler).Sound :=
      sound.alike (alike_of_fields (fun _ => rfl) (fun _ => ⟨rfl, rfl, rfl, rfl⟩) rfl)
    have counted : numbered.Sound := bumped.updateTask absent _
    have found' : numbered.tasks t = some { task with seqno := s.seqno + 1 } := by
      simp [numbering, TaskScheduler.updateTask, found]
    have absent' : numbered.NotWaiting t := absent
    have waits := counted.addToWaitQ absent' found'
    split_ifs with busy stopped
    · exact waits
    · -- stopped: the task waits, and its entry in the queue of `stop_entry_`
      obtain ⟨ungrouped, free⟩ := counted.idle _ (not_not.mp busy)
      have links := sameLinks_addToWaitQ (s := numbered) (.entry task.taskId task.taskInstance) t
      exact waits.addToDeferQ (links.unqueued free) (by simp [waitq_addToWaitQ])
        ((links.deferqTaskGroup _).trans ungrouped) (.entry .stop)
    · obtain ⟨ungrouped, free⟩ := counted.idle _ (not_not.mp busy)
      have fresh : (numbered.entries (.entry task.taskId task.taskInstance)).waitq = [] → numbered.NotWaiting t ∧
          ∃ task', numbered.tasks t = some task' ∧
            EntryId.entry task.taskId task.taskInstance = .entry task'.taskId task'.taskInstance :=
        fun _ => ⟨absent', _, found', rfl⟩
      split
      · exact counted.groupDeferOnPolicyFail free ungrouped fresh ‹_›
      · split
        · exact counted.entryDeferOnPolicyFail free ungrouped fresh ‹_›
        · exact counted.runTask absent'

/-- `Cancel` of a waiting task, before the task goes: it leaves its entry's wait
queue, and the entry leaves its queue when it is left empty, or is linked again
under its new first task. -/
theorem cancelLinked (sound : s.Sound) (e : EntryId) (t : Nat) :
    (if ((s.deleteFromWaitQ e t).entries e).waitq = [] then (s.deleteFromWaitQ e t).unlinkDeferred e
      else if (s.entries e).waitq.head? = some t then (s.deleteFromWaitQ e t).relinkDeferred e
      else s.deleteFromWaitQ e t).Sound := by
  have links := sameLinks_deleteFromWaitQ (s := s) e t
  -- an entry with no link is in no queue, and its key may change
  have plain : s.link e = none → (s.deleteFromWaitQ e t).Sound := fun unlinked =>
    sound.deleteFromWaitQ (.inl (sound.unqueued_of_link_none unlinked))
      fun _ => ⟨deferqTaskGroup_of_link_none unlinked, sound.unqueued_of_link_none unlinked⟩
  split_ifs with empty first
  · rcases linked : s.link e with _ | Q
    · rw [unlinkDeferred_of_none ((links.link e).trans linked)]
      exact plain linked
    · rw [unlinkDeferred_of_link ((links.link e).trans linked), deleteFromWaitQ_deleteFromDeferQ]
      have free := sound.unqueued_deleteFromDeferQ linked
      exact (sound.deleteFromDeferQ linked).deleteFromWaitQ (.inl free)
        fun _ => ⟨deferqTaskGroup_deleteFromDeferQ linked, free⟩
  · rcases linked : s.link e with _ | Q
    · rw [relinkDeferred_of_none ((links.link e).trans linked)]
      exact plain linked
    · rw [relinkDeferred_of_link ((links.link e).trans linked), deleteFromWaitQ_deleteFromDeferQ]
      have free := sound.unqueued_deleteFromDeferQ linked
      have ungrouped := deferqTaskGroup_deleteFromDeferQ linked
      have removed :=
        (sound.deleteFromDeferQ linked).deleteFromWaitQ (t := t) (.inl free) fun _ => ⟨ungrouped, free⟩
      have links' := sameLinks_deleteFromWaitQ (s := s.deleteFromDeferQ Q e) e t
      refine removed.addToDeferQ (links'.unqueued free) ?_ ((links'.deferqTaskGroup e).trans ungrouped) Q
      rw [waitq_deleteFromWaitQ, if_pos rfl, waitq_deleteFromDeferQ]
      rwa [waitq_deleteFromWaitQ, if_pos rfl] at empty
  · refine sound.deleteFromWaitQ (.inr first) fun erased => absurd ?_ empty
    rw [waitq_deleteFromWaitQ, if_pos rfl]
    exact erased

theorem cancel (sound : s.Sound) (t : Nat) : (s.cancel t).1.Sound := by
  unfold TaskScheduler.cancel
  split
  · exact sound
  · rename_i task found
    split
    · rename_i running
      exact sound.updateTask (sound.notWaiting_of_state found (by simp [running])) _
    · -- the entry is unlinked or linked again, then the task goes
      have absent := sound.notWaiting_deleteFromWaitQ found
      refine (sound.cancelLinked _ t).setTask (fun z => ?_) none
      split_ifs
      · rw [waitq_unlinkDeferred]
        exact absent z
      · rw [waitq_relinkDeferred]
        exact absent z
      · exact absent z
    · exact sound

end Sound

end TaskScheduler

end Contrail.Base
