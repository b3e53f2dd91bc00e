import Contrail.Base.TaskQueues

/-! The loops of `TaskScheduler` over its defer queues end. A pass of a loop
takes the entry at the iterator out of the queue it walks and runs it; the
entry is then deferred, under the key it had, into some queue, where in the
walked queue it lands before the iterator, since the queue is ordered by key;
or tasks of it start, and it goes back at most into its own queue with fewer
tasks waiting. So the entries a loop may still visit, with the tasks waiting
in its owner, drop at every pass, and `settle` with that much fuel leaves no
loop in progress. -/
namespace Contrail.Base

open KeyedList ListOrder

namespace TaskScheduler

variable {s s' : TaskScheduler}

/-! ## The functions the loops run keep the frames -/

section Frames

theorem frames_runTask (e : EntryId) (t : Nat) : (s.runTask e t).frames = s.frames := by
  unfold runTask
  split <;> rfl

theorem frames_runAllWaiting (e : EntryId) :
    ∀ (waiting : List Nat) (s : TaskScheduler), (runAllWaiting e waiting s).frames = s.frames
  | [], _ => rfl
  | t :: rest, s => (frames_runAllWaiting e rest _).trans (frames_runTask (s := s.deleteFromWaitQ e t) e t)

theorem frames_runWaitQ (e : EntryId) (taskInstance : Int) : (s.runWaitQ e taskInstance).frames = s.frames := by
  unfold runWaitQ
  split
  · rfl
  · split_ifs
    · dsimp only
      split_ifs
      · exact (frames_addToDeferQ (Q := .entry e)).trans (frames_runTask e _)
      · exact frames_runTask e _
    · exact frames_runAllWaiting e _ s

theorem frames_defer {e : EntryId} {t : Nat} {Q : DeferQ} :
    ((if (s.entries e).waitq = [] then s.addToWaitQ e t else s).addToDeferQ Q e).frames = s.frames := by
  rw [frames_addToDeferQ]
  split_ifs <;> rfl

theorem frames_groupDeferOnPolicyFail {g : Nat} {e : EntryId} {t : Nat} {deferred : TaskScheduler}
    (failed : s.groupDeferOnPolicyFail g e t = some deferred) : deferred.frames = s.frames := by
  obtain ⟨active, -, rfl⟩ := Option.map_eq_some_iff.mp failed
  exact frames_defer (Q := .group active)

theorem frames_entryDeferOnPolicyFail {e : EntryId} {t : Nat} {deferred : TaskScheduler}
    (failed : s.entryDeferOnPolicyFail e t = some deferred) : deferred.frames = s.frames := by
  obtain ⟨active, -, rfl⟩ := Option.map_eq_some_iff.mp failed
  exact frames_defer (Q := .entry active)

theorem frames_runDeferEntry (x : EntryId) : (s.runDeferEntry x).frames = s.frames := by
  unfold runDeferEntry
  split
  · rfl
  · split
    · rfl
    · split
      · exact frames_groupDeferOnPolicyFail ‹_›
      · split
        · exact frames_entryDeferOnPolicyFail ‹_›
        · exact frames_runWaitQ _ _

theorem frames_enqueueUnLocked (t : Nat) : (s.enqueueUnLocked t).frames = s.frames := by
  unfold enqueueUnLocked
  split
  · rfl
  · dsimp only
    split_ifs
    · rfl
    · exact (frames_addToDeferQ (Q := .entry .stop)).trans rfl
    · split
      · rename_i failed
        exact (frames_groupDeferOnPolicyFail failed).trans rfl
      · split
        · rename_i failed
          exact (frames_entryDeferOnPolicyFail failed).trans rfl
        · exact (frames_runTask _ t).trans rfl

theorem frames_cancel (t : Nat) : (s.cancel t).1.frames = s.frames := by
  unfold cancel
  split
  · rfl
  · split
    · rfl
    · dsimp only
      split_ifs
      · rcases linked : (s.deleteFromWaitQ _ t).link (.entry _ _) with _ | Q
        · rw [unlinkDeferred_of_none linked]
          rfl
        · rw [unlinkDeferred_of_link linked, frames_deleteFromDeferQ]
          rfl
      · rcases linked : (s.deleteFromWaitQ _ t).link (.entry _ _) with _ | Q
        · rw [relinkDeferred_of_none linked]
          rfl
        · rw [relinkDeferred_of_link linked, frames_addToDeferQ, frames_deleteFromDeferQ]
          rfl
      · rfl
    · rfl

theorem frames_setPolicy (taskId : Nat) (policy : List TaskExclusion) :
    (s.setPolicy taskId policy).frames = s.frames := by
  unfold setPolicy
  suffices each : ∀ (exclusions : List TaskExclusion) (start : TaskScheduler),
      (exclusions.foldl (fun s exclusion => s.addExclusion taskId exclusion) start).frames = start.frames from
    each policy _
  intro exclusions
  induction exclusions with
  | nil => exact fun _ => rfl
  | cons exclusion rest ih =>
    intro start
    rw [List.foldl_cons, ih]
    unfold addExclusion
    split_ifs <;> rfl

theorem frames_taskExitedTail (t : Nat) : (s.taskExitedTail t).frames = s.frames := by
  unfold taskExitedTail
  split
  · rfl
  · split_ifs
    · rfl
    · exact frames_enqueueUnLocked t

end Frames

/-! ## What a pass does to the queues -/

/-- What `RunDeferEntry` does to the defer queues and the wait queues: the entry
is deferred into one queue under the key it has, or tasks of it start and it
goes back at most into its own queue, with fewer tasks waiting. -/
inductive Rerun (s s' : TaskScheduler) (x : EntryId) : Prop
  | deferred (Q : DeferQ)
      (queues : ∀ Q', s'.deferQ Q' =
        if Q' = Q then insertUnique s.getTaskDeferEntrySeqno x (s.deferQ Q) else s.deferQ Q')
      (waitq : ∀ z, (s'.entries z).waitq = (s.entries z).waitq)
  | ran (others : ∀ Q', Q' ≠ .entry x → s'.deferQ Q' = s.deferQ Q')
      (own : s'.deferQ (.entry x) = s.deferQ (.entry x) ∨
        ((s'.entries x).waitq.length < (s.entries x).waitq.length ∧
          ∃ key : EntryId → Int, s'.deferQ (.entry x) = insertUnique key x (s.deferQ (.entry x))))
      (waitq : ∀ z, z ≠ x → (s'.entries z).waitq = (s.entries z).waitq)
      (shrinks : (s'.entries x).waitq.Sublist (s.entries x).waitq)

section Rerun

variable {x : EntryId}

theorem Rerun.refl (s : TaskScheduler) (x : EntryId) : Rerun s s x :=
  .ran (fun _ _ => rfl) (.inl rfl) (fun _ _ => rfl) (List.Sublist.refl _)

theorem rerun_addToDeferQ (Q : DeferQ) : Rerun s (s.addToDeferQ Q x) x :=
  .deferred Q (fun _ => deferQ_addToDeferQ) fun _ => waitq_addToDeferQ

theorem sameLinks_runAllWaiting (e : EntryId) :
    ∀ (waiting : List Nat) (s : TaskScheduler), SameLinks s (runAllWaiting e waiting s)
  | [], s => SameLinks.refl s
  | t :: rest, _ =>
    ((sameLinks_deleteFromWaitQ e t).trans (sameLinks_runTask e t)).trans (sameLinks_runAllWaiting e rest _)

theorem waitq_runAllWaiting_of_ne {e z : EntryId} (ne : z ≠ e) :
    ∀ (waiting : List Nat) (s : TaskScheduler), ((runAllWaiting e waiting s).entries z).waitq = (s.entries z).waitq
  | [], _ => rfl
  | t :: rest, s => by
    rw [runAllWaiting, waitq_runAllWaiting_of_ne ne rest, waitq_runTask, waitq_deleteFromWaitQ, if_neg ne]

theorem waitq_runAllWaiting_sublist (e : EntryId) :
    ∀ (waiting : List Nat) (s : TaskScheduler),
      ((runAllWaiting e waiting s).entries e).waitq.Sublist (s.entries e).waitq
  | [], _ => List.Sublist.refl _
  | t :: rest, s => by
    refine (waitq_runAllWaiting_sublist e rest _).trans ?_
    rw [waitq_runTask, waitq_deleteFromWaitQ, if_pos rfl]
    exact List.erase_sublist

theorem rerun_runWaitQ (taskInstance : Int) : Rerun s (s.runWaitQ x taskInstance) x := by
  unfold runWaitQ
  split
  · exact Rerun.refl s x
  · rename_i t rest queued
    split_ifs with single
    · -- the first task starts, and the entry goes back into its own queue if more wait
      have links := (sameLinks_deleteFromWaitQ (s := s) x t).trans (sameLinks_runTask x t)
      have started : ∀ z, (((s.deleteFromWaitQ x t).runTask x t).entries z).waitq =
          if z = x then rest else (s.entries z).waitq := by
        intro z
        rw [waitq_runTask, waitq_deleteFromWaitQ, queued, List.erase_cons_head]
      have shrunk : rest.length < (s.entries x).waitq.length := by simp [queued]
      have sub : rest.Sublist (s.entries x).waitq := queued ▸ List.sublist_cons_self t rest
      dsimp only
      split_ifs with more
      · rw [← addToDeferQ_entry]
        refine .ran (fun Q' other => ?_)
          (.inr ⟨?_, ((s.deleteFromWaitQ x t).runTask x t).getTaskDeferEntrySeqno, ?_⟩) (fun z ne => ?_) ?_
        · rw [deferQ_addToDeferQ, if_neg other, links.deferQ]
        · rwa [waitq_addToDeferQ, started, if_pos rfl]
        · rw [deferQ_addToDeferQ, if_pos rfl, links.deferQ]
        · rw [waitq_addToDeferQ, started, if_neg ne]
        · rwa [waitq_addToDeferQ, started, if_pos rfl]
      · refine .ran (fun Q' _ => links.deferQ Q') (.inl (links.deferQ _)) (fun z ne => ?_) ?_
        · rw [started, if_neg ne]
        · rwa [started, if_pos rfl]
    · have links := sameLinks_runAllWaiting x (s.entries x).waitq s
      exact .ran (fun Q' _ => links.deferQ Q') (.inl (links.deferQ _))
        (fun z ne => waitq_runAllWaiting_of_ne ne _ s) (waitq_runAllWaiting_sublist x _ s)

/-- What a pass does: the entry is deferred, or runs. -/
theorem rerun_runDeferEntry (x : EntryId) : Rerun s (s.runDeferEntry x) x := by
  cases x with
  | stop => exact Rerun.refl s _
  | entry g taskInstance =>
    simp only [runDeferEntry]
    split
    · exact Rerun.refl s _
    · rename_i t rest queued
      have busy : ¬(s.entries (.entry g taskInstance)).waitq = [] := by simp [queued]
      split
      · rename_i deferred failed
        obtain ⟨active, -, rfl⟩ := Option.map_eq_some_iff.mp failed
        rw [if_neg busy]
        exact rerun_addToDeferQ (.group active)
      · split
        · rename_i deferred failed
          obtain ⟨active, -, rfl⟩ := Option.map_eq_some_iff.mp failed
          rw [if_neg busy]
          exact rerun_addToDeferQ (.entry active)
        · exact rerun_runWaitQ taskInstance

/-- A pass only adds to the queues. -/
theorem Rerun.subset (rerun : Rerun s s' x) (Q : DeferQ) : s.deferQ Q ⊆ s'.deferQ Q := by
  rcases rerun with ⟨T, queues, -⟩ | ⟨others, own, -, -⟩
  · rw [queues]
    split_ifs with same
    · exact same ▸ subset_insertUnique _ x _
    · exact List.Subset.refl _
  · by_cases same : Q = .entry x
    · subst same
      rcases own with same | ⟨-, key, inserted⟩
      · rw [same]
        exact List.Subset.refl _
      · rw [inserted]
        exact subset_insertUnique key x _
    · rw [others Q same]
      exact List.Subset.refl _

/-- A pass only takes tasks out of the wait queues. -/
theorem Rerun.waitq_sublist (rerun : Rerun s s' x) (z : EntryId) :
    (s'.entries z).waitq.Sublist (s.entries z).waitq := by
  rcases rerun with ⟨-, -, waitq⟩ | ⟨-, -, waitq, shrinks⟩
  · rw [waitq z]
  · by_cases same : z = x
    · exact same ▸ shrinks
    · rw [waitq z same]

theorem Rerun.waitq_of_ne (rerun : Rerun s s' x) {z : EntryId} (ne : z ≠ x) :
    (s'.entries z).waitq = (s.entries z).waitq := by
  rcases rerun with ⟨-, -, waitq⟩ | ⟨-, -, waitq, -⟩
  · exact waitq z
  · exact waitq z ne

/-- In a queue other than the entry's own, a pass leaves what an iterator ahead
of the entry still visits. -/
theorem Rerun.remaining_le (rerun : Rerun s s' x) (sound : s.Sound) {Q : DeferQ} (other : Q ≠ .entry x)
    {it : Option EntryId}
    (ahead : ∀ y ∈ it, y ∈ s.deferQ Q ∧ s.getTaskDeferEntrySeqno x ≤ s.getTaskDeferEntrySeqno y) :
    remaining (s'.deferQ Q) it ≤ remaining (s.deferQ Q) it := by
  rcases rerun with ⟨T, queues, -⟩ | ⟨others, -, -, -⟩
  · rw [queues]
    split_ifs with same
    · subst same
      rw [remaining_insertUnique _ x (sound.ordered Q) ahead]
    · exact le_rfl
  · rw [others Q other]

/-- In any queue, a pass may add the entry after the iterator only with a task
fewer waiting in it. -/
theorem Rerun.remaining_add_le (rerun : Rerun s s' x) (sound : s.Sound) (free : s.Unqueued x) {Q : DeferQ}
    {it : Option EntryId}
    (ahead : ∀ y ∈ it, y ∈ s.deferQ Q ∧ s.getTaskDeferEntrySeqno x ≤ s.getTaskDeferEntrySeqno y) :
    remaining (s'.deferQ Q) it + (s'.entries x).waitq.length ≤
      remaining (s.deferQ Q) it + (s.entries x).waitq.length := by
  have shrinks := (rerun.waitq_sublist x).length_le
  by_cases atX : Q = .entry x
  · subst atX
    rcases rerun with ⟨T, queues, -⟩ | ⟨-, own, -, -⟩
    · rw [queues]
      split_ifs with same
      · rw [same, remaining_insertUnique _ x (sound.ordered T) (same ▸ ahead)]
        omega
      · omega
    · rcases own with same | ⟨shorter, key, inserted⟩
      · rw [same]
        omega
      · have ne : ∀ y ∈ it, x ≠ y := fun y mem same => by
          subst same
          exact free _ (ahead _ mem).1
        have added := remaining_insertUnique_le key x (s.deferQ (.entry x)) ne
        rw [inserted]
        omega
  · have := rerun.remaining_le sound atX ahead
    omega

/-- The entry goes into one queue at most. -/
theorem Rerun.length_add_le (rerun : Rerun s s' x) {Q₁ Q₂ : DeferQ} (ne : Q₁ ≠ Q₂) :
    (s'.deferQ Q₁).length + (s'.deferQ Q₂).length ≤ (s.deferQ Q₁).length + (s.deferQ Q₂).length + 1 := by
  have grows : ∀ key : EntryId → Int, ∀ Q, (insertUnique key x (s.deferQ Q)).length ≤ (s.deferQ Q).length + 1 :=
    fun key Q => length_insertUnique_le key x _
  rcases rerun with ⟨T, queues, -⟩ | ⟨others, own, -, -⟩
  · rw [queues, queues]
    have := grows s.getTaskDeferEntrySeqno T
    by_cases first : Q₁ = T
    · subst first
      rw [if_pos rfl, if_neg (Ne.symm ne)]
      omega
    · rw [if_neg first]
      split_ifs with second
      · subst second
        omega
      · omega
  · have each : ∀ Q, (s'.deferQ Q).length ≤ (s.deferQ Q).length + if Q = .entry x then 1 else 0 := by
      intro Q
      by_cases atX : Q = .entry x
      · subst atX
        rcases own with same | ⟨-, key, inserted⟩
        · simp [same]
        · rw [inserted, if_pos rfl]
          exact grows key _
      · rw [others Q atX, if_neg atX]
        omega
    have first := each Q₁
    have second := each Q₂
    split_ifs at first second with one two
    · exact absurd (one.trans two.symm) ne
    all_goals omega

end Rerun

end TaskScheduler

/-! ## The loops in progress -/

/-- The facts a loop in progress keeps: its iterators stand in the queues they
walk, and a task whose exit is being finished waits nowhere. -/
def Frame.Within (s : TaskScheduler) : Frame → Prop
  | .groupDeferQ g it => ∀ x ∈ it, x ∈ s.deferQ (.group g)
  | .entryDeferQ owner it => ∀ x ∈ it, x ∈ s.deferQ (.entry owner)
  | .combinedDeferQ g i groupIt entryIt =>
    (∀ x ∈ groupIt, x ∈ s.deferQ (.group g)) ∧ ∀ x ∈ entryIt, x ∈ s.deferQ (.entry (.entry g i))
  | .taskExited t => s.NotWaiting t

/-- A loop over defer queues, as against the end of a task's exit. -/
def Frame.IsLoop : Frame → Prop
  | .taskExited _ => False
  | _ => True

/-- The frames an operation leaves: at most one loop, above at most the end of
one task's exit. -/
def Nested (frames : List Frame) : Prop :=
  ∃ (loop : Option Frame) (exit : Option Nat),
    frames = loop.toList ++ (exit.map .taskExited).toList ∧ ∀ f ∈ loop, f.IsLoop

/-- The invariant of the scheduler with its loops in progress. -/
structure TaskScheduler.Settles (s : TaskScheduler) : Prop where
  sound : s.Sound
  within : ∀ f ∈ s.frames, f.Within s
  nested : Nested s.frames

theorem Frame.Within.mono {f : Frame} (within : f.Within s) (queues : ∀ Q, s.deferQ Q ⊆ s'.deferQ Q)
    (waits : ∀ e, (s'.entries e).waitq ⊆ (s.entries e).waitq) : f.Within s' := by
  cases f with
  | groupDeferQ g it => exact fun x mem => queues _ (within x mem)
  | entryDeferQ owner it => exact fun x mem => queues _ (within x mem)
  | combinedDeferQ g i groupIt entryIt =>
    exact ⟨fun x mem => queues _ (within.1 x mem), fun x mem => queues _ (within.2 x mem)⟩
  | taskExited t => exact fun e mem => within e (waits e mem)

section Nested

variable {f : Frame} {rest : List Frame}

theorem Nested.of_cons (nested : Nested (f :: rest)) : Nested rest := by
  obtain ⟨loop, exit, frames, -⟩ := nested
  cases loop with
  | none =>
    cases exit with
    | none => simp at frames
    | some t =>
      simp only [Option.toList_none, List.nil_append, Option.map_some, Option.toList_some, List.cons.injEq] at frames
      exact ⟨none, none, frames.2, by simp⟩
  | some loop =>
    simp only [Option.toList_some, List.singleton_append, List.cons.injEq] at frames
    exact ⟨none, exit, by simp [frames.2], by simp⟩

/-- Below a loop stand only ends of exits. -/
theorem Nested.exit_of_mem (nested : Nested (f :: rest)) (loop : f.IsLoop) {f' : Frame} (mem : f' ∈ rest) :
    ∃ t, f' = .taskExited t := by
  obtain ⟨top, exit, frames, -⟩ := nested
  cases top with
  | none =>
    cases exit with
    | none => simp at frames
    | some t =>
      simp only [Option.toList_none, List.nil_append, Option.map_some, Option.toList_some, List.cons.injEq] at frames
      obtain ⟨rfl, -⟩ := frames
      exact loop.elim
  | some top =>
    simp only [Option.toList_some, List.singleton_append, List.cons.injEq] at frames
    obtain ⟨-, rfl⟩ := frames
    cases exit <;> simp_all

theorem Nested.replace (nested : Nested (f :: rest)) (loop : f.IsLoop) {f' : Frame} (loop' : f'.IsLoop) :
    Nested (f' :: rest) := by
  obtain ⟨top, exit, frames, -⟩ := nested
  cases top with
  | none =>
    cases exit with
    | none => simp at frames
    | some t =>
      simp only [Option.toList_none, List.nil_append, Option.map_some, Option.toList_some, List.cons.injEq] at frames
      obtain ⟨rfl, -⟩ := frames
      exact loop.elim
  | some top =>
    simp only [Option.toList_some, List.singleton_append, List.cons.injEq] at frames
    exact ⟨some f', exit, by simp [frames.2], by simpa using loop'⟩

/-- Below the end of an exit stands nothing. -/
theorem Nested.exit_top {t : Nat} (nested : Nested (.taskExited t :: rest)) : rest = [] := by
  obtain ⟨top, exit, frames, loops⟩ := nested
  cases top with
  | none => cases exit <;> simp_all
  | some top =>
    simp only [Option.toList_some, List.singleton_append, List.cons.injEq] at frames
    obtain ⟨rfl, -⟩ := frames
    exact (loops _ rfl).elim

end Nested

theorem Frame.Within.frames {s : TaskScheduler} {f : Frame} (within : f.Within s) (frames : List Frame) :
    f.Within { s with frames } := by
  cases f <;> exact within

namespace TaskScheduler

variable {s : TaskScheduler}

/-! ## A pass of a loop -/

/-- One pass of a loop: the frames move on, and the entry at the iterator leaves
queue `Q` and runs. -/
def pass (s : TaskScheduler) (frames : List Frame) (Q : DeferQ) (x : EntryId) : TaskScheduler :=
  ({ s with frames }.deleteFromDeferQ Q x).runDeferEntry x

section Step

variable {x : EntryId} {rest : List Frame}

theorem step_groupDeferQ {g : Nat} (top : s.frames = .groupDeferQ g (some x) :: rest) :
    s.step = s.pass (.groupDeferQ g (next x (s.deferQ (.group g))) :: rest) (.group g) x := by
  simp only [step, top]
  rfl

theorem step_entryDeferQ {owner : EntryId} (top : s.frames = .entryDeferQ owner (some x) :: rest) :
    s.step = s.pass (.entryDeferQ owner (next x (s.deferQ (.entry owner))) :: rest) (.entry owner) x := by
  simp only [step, top]
  rfl

/-- The combined loop runs the entry of the smaller key, the entry's on a tie. -/
theorem step_combinedDeferQ {g : Nat} {i : Int} {gEntry tEntry : EntryId}
    (top : s.frames = .combinedDeferQ g i (some gEntry) (some tEntry) :: rest) :
    s.step = if s.getTaskDeferEntrySeqno gEntry < s.getTaskDeferEntrySeqno tEntry then
        s.pass (.combinedDeferQ g i (next gEntry (s.deferQ (.group g))) (some tEntry) :: rest) (.group g) gEntry
      else s.pass (.combinedDeferQ g i (some gEntry) (next tEntry (s.deferQ (.entry (.entry g i)))) :: rest)
        (.entry (.entry g i)) tEntry := by
  simp only [step, top]
  split_ifs <;> rfl

end Step

/-! ## The invariant holds of every reachable state -/

namespace Sound

theorem frames (sound : s.Sound) (frames : List Frame) : ({ s with frames } : TaskScheduler).Sound :=
  sound.alike (alike_of_fields (fun _ => rfl) (fun _ => ⟨rfl, rfl, rfl, rfl⟩) rfl)

theorem taskExitedTail (sound : s.Sound) {t : Nat} (absent : s.NotWaiting t) : (s.taskExitedTail t).Sound := by
  unfold TaskScheduler.taskExitedTail
  split
  · exact sound
  · split_ifs
    · exact sound.setTask absent none
    · exact (sound.updateTask absent _).enqueueUnLocked absent

end Sound

/-- The frames `OnTaskExit` leaves: at most one loop, from the first entries of
the queues it walks, above the end of the exit. -/
theorem settles_exit {x : TaskScheduler} {t : Nat} (sound : x.Sound) (idle : x.frames = []) (absent : x.NotWaiting t)
    {loop : List Frame}
    (walks : loop = [] ∨
      (∃ g i, loop = [.combinedDeferQ g i (x.deferQ (.group g)).head? (x.deferQ (.entry (.entry g i))).head?]) ∨
      (∃ g, loop = [.groupDeferQ g (x.deferQ (.group g)).head?]) ∨
      ∃ e, loop = [.entryDeferQ e (x.deferQ (.entry e)).head?]) :
    ({ x with frames := loop ++ .taskExited t :: x.frames } : TaskScheduler).Settles := by
  rw [idle]
  have head : ∀ Q, ∀ y ∈ (x.deferQ Q).head?, y ∈ x.deferQ Q := fun Q y first => List.mem_of_mem_head? first
  refine ⟨sound.frames _, fun f mem => ?_, ?_⟩
  · simp only [List.mem_append, List.mem_singleton] at mem
    rcases mem with mem | rfl
    · rcases walks with rfl | ⟨g, i, rfl⟩ | ⟨g, rfl⟩ | ⟨e, rfl⟩ <;>
        simp only [List.mem_singleton, List.not_mem_nil] at mem <;> subst mem
      · exact ⟨head _, head _⟩
      · exact head _
      · exact head _
    · exact absent
  · rcases walks with rfl | ⟨g, i, rfl⟩ | ⟨g, rfl⟩ | ⟨e, rfl⟩
    · exact ⟨none, some t, rfl, by simp⟩
    all_goals exact ⟨some _, some t, rfl, by simp [Frame.IsLoop]⟩

theorem settles_init : TaskScheduler.init.Settles where
  sound := by
    have empty : ∀ Q, TaskScheduler.init.deferQ Q = [] := fun Q => by cases Q <;> rfl
    refine ⟨fun Q => ?_, fun e Q mem => ?_, fun e _ => ⟨rfl, fun Q mem => ?_⟩, fun e => List.nodup_nil,
      fun e t mem => ?_⟩
    · rw [empty]
      exact List.Pairwise.nil
    · simp [empty] at mem
    · simp [empty] at mem
    · simp [TaskScheduler.init, TaskEntry.init] at mem
  within := by simp [TaskScheduler.init]
  nested := ⟨none, none, rfl, by simp⟩

namespace Settles

/-- A pass keeps the invariant when the frames it leaves hold once the entry is
out of its queue. -/
theorem pass (settles : s.Settles) {frames : List Frame} {Q : DeferQ} {x : EntryId} (mem : x ∈ s.deferQ Q)
    (within : ∀ f ∈ frames, f.Within ({ s with frames }.deleteFromDeferQ Q x)) (nested : Nested frames) :
    (s.pass frames Q x).Settles := by
  have moved := settles.sound.frames frames
  have linked : ({ s with frames } : TaskScheduler).link x = some Q := settles.sound.linked x Q mem
  have rerun := rerun_runDeferEntry (s := { s with frames }.deleteFromDeferQ Q x) x
  refine ⟨(moved.deleteFromDeferQ linked).runDeferEntry (moved.unqueued_deleteFromDeferQ linked)
    (deferqTaskGroup_deleteFromDeferQ linked), ?_, ?_⟩
  · rw [TaskScheduler.pass, frames_runDeferEntry, frames_deleteFromDeferQ]
    exact fun f mem => (within f mem).mono rerun.subset fun e => (rerun.waitq_sublist e).subset
  · rw [TaskScheduler.pass, frames_runDeferEntry, frames_deleteFromDeferQ]
    exact nested

/-- Where the next iterator stands, once the entry at the current one is erased. -/
theorem next_mem (settles : s.Settles) {frames : List Frame} {Q : DeferQ} {x : EntryId} :
    ∀ y ∈ next x (s.deferQ Q), y ∈ ({ s with frames }.deleteFromDeferQ Q x).deferQ Q := by
  intro y next
  rw [deferQ_deleteFromDeferQ, if_pos rfl]
  exact next_mem_erase (settles.sound.ordered Q).nodup next

/-- The frames below the top one are ends of exits, which hold while no task
joins a wait queue. -/
theorem within_rest (settles : s.Settles) {f : Frame} {rest : List Frame} (top : s.frames = f :: rest)
    (loop : f.IsLoop) {frames : List Frame} {Q : DeferQ} {x : EntryId} :
    ∀ f' ∈ rest, f'.Within ({ s with frames }.deleteFromDeferQ Q x) := by
  intro f' mem
  have nested := settles.nested
  rw [top] at nested
  obtain ⟨t, rfl⟩ := nested.exit_of_mem loop mem
  have absent : s.NotWaiting t := settles.within (.taskExited t) (top ▸ List.mem_cons_of_mem f mem)
  intro e waits
  rw [waitq_deleteFromDeferQ] at waits
  exact absent e waits

/-- A loop that ends leaves the frames below it. -/
theorem pop (settles : s.Settles) {f : Frame} {rest : List Frame} (top : s.frames = f :: rest) :
    ({ s with frames := rest } : TaskScheduler).Settles := by
  refine ⟨settles.sound.frames rest, fun f' mem => ?_, ?_⟩
  · exact (settles.within f' (top ▸ List.mem_cons_of_mem f mem)).frames rest
  · have nested := settles.nested
    rw [top] at nested
    exact nested.of_cons

/-- A loop that moves to another frame over the same state. -/
theorem moveTo (settles : s.Settles) {f f' : Frame} {rest : List Frame} (top : s.frames = f :: rest)
    (loop : f.IsLoop) (loop' : f'.IsLoop) (within : f'.Within s) :
    ({ s with frames := f' :: rest } : TaskScheduler).Settles := by
  refine ⟨settles.sound.frames _, fun f'' mem => ?_, ?_⟩
  · rcases List.mem_cons.mp mem with rfl | mem
    · exact within.frames _
    · exact (settles.within f'' (top ▸ List.mem_cons_of_mem f mem)).frames _
  · have nested := settles.nested
    rw [top] at nested
    exact nested.replace loop loop'

/-- A pass of the loop on top: the loop's new frame holds once the entry is out
of its queue, and the ends of exits below it hold throughout. -/
theorem passTop (settles : s.Settles) {f f' : Frame} {rest : List Frame} (top : s.frames = f :: rest)
    (loop : f.IsLoop) (loop' : f'.IsLoop) {Q : DeferQ} {x : EntryId} (mem : x ∈ s.deferQ Q)
    (within : f'.Within ({ s with frames := f' :: rest }.deleteFromDeferQ Q x)) :
    (s.pass (f' :: rest) Q x).Settles := by
  have nested := settles.nested
  rw [top] at nested
  refine settles.pass mem (fun f'' mem'' => ?_) (nested.replace loop loop')
  rcases List.mem_cons.mp mem'' with rfl | below
  · exact within
  · exact settles.within_rest top loop f'' below

theorem step (settles : s.Settles) : s.step.Settles := by
  cases top : s.frames with
  | nil =>
    simp only [TaskScheduler.step, top]
    exact settles
  | cons f rest =>
    have within := settles.within f (top ▸ List.mem_cons_self)
    have nested := settles.nested
    rw [top] at nested
    cases f with
    | groupDeferQ g it =>
      cases it with
      | none =>
        simp only [TaskScheduler.step, top]
        exact settles.pop top
      | some x =>
        rw [step_groupDeferQ top]
        exact settles.passTop top trivial (by trivial) (within x rfl) settles.next_mem
    | entryDeferQ owner it =>
      cases it with
      | none =>
        simp only [TaskScheduler.step, top]
        exact settles.pop top
      | some x =>
        rw [step_entryDeferQ top]
        exact settles.passTop top trivial (by trivial) (within x rfl) settles.next_mem
    | combinedDeferQ g i groupIt entryIt =>
      cases groupIt with
      | some gEntry =>
        cases entryIt with
        | some tEntry =>
          rw [step_combinedDeferQ top]
          -- the other queue's iterator stays where it was, in a queue the pass leaves
          split_ifs
          · refine settles.passTop top trivial (by trivial) (within.1 gEntry rfl) ⟨settles.next_mem, fun y atY => ?_⟩
            rw [deferQ_deleteFromDeferQ, if_neg (by simp)]
            exact within.2 y atY
          · refine settles.passTop top trivial (by trivial) (within.2 tEntry rfl) ⟨fun y atY => ?_, settles.next_mem⟩
            rw [deferQ_deleteFromDeferQ, if_neg (by simp)]
            exact within.1 y atY
        | none =>
          simp only [TaskScheduler.step, top]
          exact settles.moveTo top trivial trivial fun y first => List.mem_of_mem_head? first
      | none =>
        cases entryIt with
        | some tEntry =>
          simp only [TaskScheduler.step, top]
          exact settles.moveTo top trivial trivial fun y first => List.mem_of_mem_head? first
        | none =>
          simp only [TaskScheduler.step, top]
          exact settles.pop top
    | taskExited t =>
      obtain rfl := nested.exit_top
      simp only [TaskScheduler.step, top]
      refine ⟨(settles.sound.frames []).taskExitedTail within, ?_, ?_⟩
      · rw [frames_taskExitedTail]
        simp
      · rw [frames_taskExitedTail]
        exact ⟨none, none, rfl, by simp⟩

/-- A client operation, from a state with no loop in progress. -/
theorem op (settles : s.Settles) (idle : s.frames = []) {o : Op} (enabled : o.Enabled s) : (o.apply s).Settles := by
  have settled : ∀ s' : TaskScheduler, s'.Sound → s'.frames = [] → s'.Settles := fun s' sound idle' =>
    ⟨sound, by simp [idle'], ⟨none, none, by simp [idle'], by simp⟩⟩
  cases o with
  | setPolicy taskId policy =>
    exact settled _ (settles.sound.alike (alike_setPolicy taskId policy)) ((frames_setPolicy taskId policy).trans idle)
  | enqueue task taskId taskInstance =>
    -- a new task waits nowhere
    have absent : s.NotWaiting task := fun e waits => by
      obtain ⟨_, found, -⟩ := settles.sound.waiting e task waits
      simp [enabled.1] at found
    refine settled _ ((settles.sound.setTask absent _).enqueueUnLocked absent) ?_
    exact (frames_enqueueUnLocked task).trans idle
  | exit task complete =>
    obtain ⟨running, found, state⟩ := Option.map_eq_some_iff.mp enabled
    have absent : s.NotWaiting task := settles.sound.notWaiting_of_state found (by simp [state])
    have recycled := settles.sound.updateTask absent fun task => { task with taskRecycle := !complete }
    have found' : (s.updateTask task fun task => { task with taskRecycle := !complete }).tasks task =
        some { running with taskRecycle := !complete } := by
      simp [TaskScheduler.updateTask, found]
    -- the exited task still runs, so it waits nowhere
    have absent' := recycled.notWaiting_of_state found' (by simp [state])
    simp only [Op.apply]
    unfold onTaskExit
    rw [found']
    dsimp only
    refine settles_exit (recycled.alike ((alike_updateEntry ?_).trans (alike_updateGroup ?_))) idle ?_ ?_
    · exact fun _ => ⟨rfl, rfl, rfl, rfl⟩
    · exact fun _ => rfl
    · intro e waits
      refine absent' e ?_
      rw [entries_updateGroup, waitq_updateEntry] at waits
      · exact waits
      · exact fun _ => rfl
    · split_ifs
      all_goals first
        | exact .inl rfl
        | exact .inr (.inl ⟨_, _, rfl⟩)
        | exact .inr (.inr (.inl ⟨_, rfl⟩))
        | exact .inr (.inr (.inr ⟨_, rfl⟩))
  | cancel task =>
    exact settled _ (settles.sound.cancel task) ((frames_cancel task).trans idle)
  | stop =>
    exact settled _ (settles.sound.alike (alike_of_fields (fun _ => rfl) (fun _ => ⟨rfl, rfl, rfl, rfl⟩) rfl)) idle
  | start =>
    refine ⟨settles.sound.alike (alike_of_fields (fun _ => rfl) (fun _ => ⟨rfl, rfl, rfl, rfl⟩) rfl), ?_, ?_⟩
    · simp only [Op.apply, TaskScheduler.start, idle, List.mem_singleton]
      rintro f rfl y first
      exact List.mem_of_mem_head? first
    · simp only [Op.apply, TaskScheduler.start, idle]
      exact ⟨some _, none, rfl, by simp [Frame.IsLoop]⟩

end Settles

end TaskScheduler

theorem Reachable.settles {s : TaskScheduler} (reachable : Reachable s) : s.Settles := by
  induction reachable with
  | init => exact TaskScheduler.settles_init
  | op o _ idle enabled ih => exact ih.op idle enabled
  | step _ _ ih => exact ih.step

namespace TaskScheduler

/-! ## The passes left -/

/-- The passes a frame may still make: the entries its loop may still visit,
and the tasks waiting in the entry whose queue it walks, each of which may
bring that entry back behind the iterator. The combined loop may then walk
either queue again from its start. -/
def frameCost (s : TaskScheduler) : Frame → Nat
  | .groupDeferQ g it => remaining (s.deferQ (.group g)) it + 1
  | .entryDeferQ owner it => remaining (s.deferQ (.entry owner)) it + (s.entries owner).waitq.length + 1
  | .combinedDeferQ g i groupIt entryIt =>
    remaining (s.deferQ (.group g)) groupIt + remaining (s.deferQ (.entry (.entry g i))) entryIt +
      (s.deferQ (.group g)).length + (s.deferQ (.entry (.entry g i))).length +
      2 * (s.entries (.entry g i)).waitq.length + 2
  | .taskExited _ => 1

/-- The passes left before no loop is in progress. -/
def settleCost (s : TaskScheduler) : Nat := (s.frames.map s.frameCost).sum

variable {s : TaskScheduler}

@[simp] theorem deferQ_frames (frames : List Frame) (Q : DeferQ) :
    ({ s with frames } : TaskScheduler).deferQ Q = s.deferQ Q := by
  cases Q <;> rfl

@[simp] theorem getTaskDeferEntrySeqno_frames (frames : List Frame) :
    ({ s with frames } : TaskScheduler).getTaskDeferEntrySeqno = s.getTaskDeferEntrySeqno := rfl

/-- The ends of exits cost the same in every state. -/
theorem exits_cost {s' : TaskScheduler} {rest : List Frame} (exits : ∀ f ∈ rest, ∃ t, f = .taskExited t) :
    (rest.map s'.frameCost).sum = (rest.map s.frameCost).sum := by
  congr 1
  refine List.map_congr_left fun f mem => ?_
  obtain ⟨t, rfl⟩ := exits f mem
  rfl

namespace Settles

variable {frames : List Frame} {Q : DeferQ} {x : EntryId}

/-- What a pass leaves in a queue, against what the iterators there saw before
the entry was erased. -/
theorem pass_remaining (settles : s.Settles) (frames : List Frame) (mem : x ∈ s.deferQ Q) {Q' : DeferQ}
    {it : Option EntryId}
    (ahead : ∀ y ∈ it, y ∈ ({ s with frames }.deleteFromDeferQ Q x).deferQ Q' ∧
      s.getTaskDeferEntrySeqno x ≤ s.getTaskDeferEntrySeqno y) :
    remaining ((s.pass frames Q x).deferQ Q') it + ((s.pass frames Q x).entries x).waitq.length ≤
        remaining (({ s with frames }.deleteFromDeferQ Q x).deferQ Q') it + (s.entries x).waitq.length ∧
      (Q' ≠ .entry x → remaining ((s.pass frames Q x).deferQ Q') it ≤
        remaining (({ s with frames }.deleteFromDeferQ Q x).deferQ Q') it) := by
  have moved := settles.sound.frames frames
  have linked : ({ s with frames } : TaskScheduler).link x = some Q := settles.sound.linked x Q mem
  have rerun := rerun_runDeferEntry (s := { s with frames }.deleteFromDeferQ Q x) x
  have ahead' : ∀ y ∈ it, y ∈ ({ s with frames }.deleteFromDeferQ Q x).deferQ Q' ∧
      ({ s with frames }.deleteFromDeferQ Q x).getTaskDeferEntrySeqno x ≤
        ({ s with frames }.deleteFromDeferQ Q x).getTaskDeferEntrySeqno y := by
    simpa using ahead
  refine ⟨?_, fun other => rerun.remaining_le (moved.deleteFromDeferQ linked) other ahead'⟩
  have added := rerun.remaining_add_le (moved.deleteFromDeferQ linked) (moved.unqueued_deleteFromDeferQ linked) ahead'
  rw [waitq_deleteFromDeferQ] at added
  exact added

/-- The walked queue: the iterator moves past the entry it was at. -/
theorem pass_walked (settles : s.Settles) (frames : List Frame) (mem : x ∈ s.deferQ Q) :
    (∀ y ∈ next x (s.deferQ Q), y ∈ ({ s with frames }.deleteFromDeferQ Q x).deferQ Q ∧
      s.getTaskDeferEntrySeqno x ≤ s.getTaskDeferEntrySeqno y) ∧
    remaining (({ s with frames }.deleteFromDeferQ Q x).deferQ Q) (next x (s.deferQ Q)) + 1 =
      remaining (s.deferQ Q) (some x) := by
  have nodup := (settles.sound.ordered Q).nodup
  refine ⟨fun y atY => ⟨settles.next_mem y atY, ?_⟩, ?_⟩
  · rw [next_eq_head?_after] at atY
    exact ((settles.sound.ordered Q).lt_of_before (List.mem_of_mem_head? atY)).le
  · rw [deferQ_deleteFromDeferQ, if_pos rfl, deferQ_frames]
    exact remaining_next nodup mem

/-- The entry goes into one queue at most. -/
theorem pass_length (s : TaskScheduler) (frames : List Frame) (Q : DeferQ) (x : EntryId) {Q₁ Q₂ : DeferQ}
    (ne : Q₁ ≠ Q₂) :
    ((s.pass frames Q x).deferQ Q₁).length + ((s.pass frames Q x).deferQ Q₂).length ≤
      (({ s with frames }.deleteFromDeferQ Q x).deferQ Q₁).length +
        (({ s with frames }.deleteFromDeferQ Q x).deferQ Q₂).length + 1 :=
  (rerun_runDeferEntry x).length_add_le ne

theorem pass_waitq_of_ne (frames : List Frame) {z : EntryId} (ne : z ≠ x) :
    ((s.pass frames Q x).entries z).waitq = (s.entries z).waitq := by
  rw [TaskScheduler.pass, (rerun_runDeferEntry x).waitq_of_ne ne, waitq_deleteFromDeferQ]

theorem frames_pass (frames : List Frame) : (s.pass frames Q x).frames = frames := by
  rw [TaskScheduler.pass, frames_runDeferEntry, frames_deleteFromDeferQ]

/-- A pass of the loop of a group costs one. -/
theorem frameCost_pass_group (settles : s.Settles) {g : Nat} (rest : List Frame) (mem : x ∈ s.deferQ (.group g)) :
    (s.pass (.groupDeferQ g (next x (s.deferQ (.group g))) :: rest) (.group g) x).frameCost
        (.groupDeferQ g (next x (s.deferQ (.group g)))) < s.frameCost (.groupDeferQ g (some x)) := by
  obtain ⟨ahead, walked⟩ := settles.pass_walked (.groupDeferQ g (next x (s.deferQ (.group g))) :: rest) mem
  have left := (settles.pass_remaining _ mem ahead).2 (by simp)
  simp only [frameCost]
  omega

/-- A pass of the loop of an entry costs one, or brings the entry back with a
task fewer waiting in it. -/
theorem frameCost_pass_entry (settles : s.Settles) {owner : EntryId} (rest : List Frame)
    (mem : x ∈ s.deferQ (.entry owner)) :
    (s.pass (.entryDeferQ owner (next x (s.deferQ (.entry owner))) :: rest) (.entry owner) x).frameCost
        (.entryDeferQ owner (next x (s.deferQ (.entry owner)))) < s.frameCost (.entryDeferQ owner (some x)) := by
  obtain ⟨ahead, walked⟩ := settles.pass_walked (.entryDeferQ owner (next x (s.deferQ (.entry owner))) :: rest) mem
  have left := settles.pass_remaining _ mem ahead
  simp only [frameCost]
  by_cases same : owner = x
  · subst same
    omega
  · have other := left.2 (by simpa using same)
    rw [pass_waitq_of_ne _ same]
    omega

theorem pass_waitq_length_le (s : TaskScheduler) (frames : List Frame) (Q : DeferQ) (x : EntryId) (z : EntryId) :
    ((s.pass frames Q x).entries z).waitq.length ≤ (s.entries z).waitq.length := by
  have shrinks := ((rerun_runDeferEntry (s := { s with frames }.deleteFromDeferQ Q x) x).waitq_sublist z).length_le
  rwa [waitq_deleteFromDeferQ] at shrinks

/-- A pass of the combined loop over the group's queue: that queue costs one
less, the entry's queue may gain the entry before its iterator, and the two
grow by the entry at most, which, put behind an iterator, has a task fewer
waiting. -/
theorem frameCost_pass_combinedGroup (settles : s.Settles) {g : Nat} {i : Int} {gEntry tEntry : EntryId}
    (rest : List Frame) (within : (Frame.combinedDeferQ g i (some gEntry) (some tEntry)).Within s)
    (lt : s.getTaskDeferEntrySeqno gEntry < s.getTaskDeferEntrySeqno tEntry) :
    (s.pass (.combinedDeferQ g i (next gEntry (s.deferQ (.group g))) (some tEntry) :: rest) (.group g) gEntry).frameCost
        (.combinedDeferQ g i (next gEntry (s.deferQ (.group g))) (some tEntry)) <
      s.frameCost (.combinedDeferQ g i (some gEntry) (some tEntry)) := by
  set frames := Frame.combinedDeferQ g i (next gEntry (s.deferQ (.group g))) (some tEntry) :: rest
  have mem : gEntry ∈ s.deferQ (.group g) := within.1 gEntry rfl
  have apart : DeferQ.entry (.entry g i) ≠ .group g := by simp
  have kept : ({ s with frames }.deleteFromDeferQ (.group g) gEntry).deferQ (.entry (.entry g i)) =
      s.deferQ (.entry (.entry g i)) := by
    rw [deferQ_deleteFromDeferQ, if_neg apart, deferQ_frames]
  have erased : (({ s with frames }.deleteFromDeferQ (.group g) gEntry).deferQ (.group g)).length + 1 =
      (s.deferQ (.group g)).length := by
    rw [deferQ_deleteFromDeferQ, if_pos rfl, deferQ_frames, List.length_erase_of_mem mem]
    have := List.length_pos_of_mem mem
    omega
  obtain ⟨ahead, walked⟩ := settles.pass_walked frames mem
  have walkedLeft := (settles.pass_remaining frames mem ahead).2 (by simp)
  -- the entry's iterator stands after every key smaller than its own
  have aheadE : ∀ y ∈ some tEntry, y ∈ ({ s with frames }.deleteFromDeferQ (.group g) gEntry).deferQ
      (.entry (.entry g i)) ∧ s.getTaskDeferEntrySeqno gEntry ≤ s.getTaskDeferEntrySeqno y := by
    rintro y ⟨⟩
    exact ⟨kept ▸ within.2 tEntry rfl, lt.le⟩
  have other := settles.pass_remaining frames mem aheadE
  have grown := pass_length s frames (.group g) gEntry apart.symm
  have shrinks := pass_waitq_length_le s frames (.group g) gEntry (.entry g i)
  rw [kept] at other grown
  simp only [frameCost]
  by_cases same : EntryId.entry g i = gEntry
  · subst same
    omega
  · have left := other.2 (by simpa using same)
    rw [pass_waitq_of_ne _ same]
    omega

/-- A pass of the combined loop over the entry's queue, on a key no larger than
the group's. -/
theorem frameCost_pass_combinedEntry (settles : s.Settles) {g : Nat} {i : Int} {gEntry tEntry : EntryId}
    (rest : List Frame) (within : (Frame.combinedDeferQ g i (some gEntry) (some tEntry)).Within s)
    (le : ¬s.getTaskDeferEntrySeqno gEntry < s.getTaskDeferEntrySeqno tEntry) :
    (s.pass (.combinedDeferQ g i (some gEntry) (next tEntry (s.deferQ (.entry (.entry g i)))) :: rest)
        (.entry (.entry g i)) tEntry).frameCost
        (.combinedDeferQ g i (some gEntry) (next tEntry (s.deferQ (.entry (.entry g i))))) <
      s.frameCost (.combinedDeferQ g i (some gEntry) (some tEntry)) := by
  set frames := Frame.combinedDeferQ g i (some gEntry) (next tEntry (s.deferQ (.entry (.entry g i)))) :: rest
  have mem : tEntry ∈ s.deferQ (.entry (.entry g i)) := within.2 tEntry rfl
  have apart : DeferQ.group g ≠ .entry (.entry g i) := by simp
  have kept : ({ s with frames }.deleteFromDeferQ (.entry (.entry g i)) tEntry).deferQ (.group g) =
      s.deferQ (.group g) := by
    rw [deferQ_deleteFromDeferQ, if_neg apart, deferQ_frames]
  have erased : (({ s with frames }.deleteFromDeferQ (.entry (.entry g i)) tEntry).deferQ
      (.entry (.entry g i))).length + 1 = (s.deferQ (.entry (.entry g i))).length := by
    rw [deferQ_deleteFromDeferQ, if_pos rfl, deferQ_frames, List.length_erase_of_mem mem]
    have := List.length_pos_of_mem mem
    omega
  obtain ⟨ahead, walked⟩ := settles.pass_walked frames mem
  have walkedBoth := settles.pass_remaining frames mem ahead
  -- the group's iterator stands at a key no smaller than the entry's
  have aheadG : ∀ y ∈ some gEntry, y ∈ ({ s with frames }.deleteFromDeferQ (.entry (.entry g i)) tEntry).deferQ
      (.group g) ∧ s.getTaskDeferEntrySeqno tEntry ≤ s.getTaskDeferEntrySeqno y := by
    rintro y ⟨⟩
    exact ⟨kept ▸ within.1 gEntry rfl, not_lt.mp le⟩
  have other := (settles.pass_remaining frames mem aheadG).2 (by simp)
  have grown := pass_length s frames (.entry (.entry g i)) tEntry apart
  have shrinks := pass_waitq_length_le s frames (.entry (.entry g i)) tEntry (.entry g i)
  rw [kept] at other grown
  simp only [frameCost]
  by_cases same : EntryId.entry g i = tEntry
  · subst same
    omega
  · have left := walkedBoth.2 (by simpa using same)
    rw [pass_waitq_of_ne _ same]
    omega

theorem frameCost_pos (s : TaskScheduler) (f : Frame) : 0 < s.frameCost f := by
  cases f <;> simp [frameCost]

/-- Every pass of a loop, and every loop that ends or gives way to another,
costs one at least. -/
theorem settleCost_step_lt (settles : s.Settles) (busy : s.frames ≠ []) : s.step.settleCost < s.settleCost := by
  cases top : s.frames with
  | nil => exact absurd top busy
  | cons f rest =>
    have nested := settles.nested
    rw [top] at nested
    have within := settles.within f (top ▸ List.mem_cons_self)
    -- the ends of exits below a loop cost the same in every state
    have below : f.IsLoop → ∀ s' : TaskScheduler, (rest.map s'.frameCost).sum = (rest.map s.frameCost).sum :=
      fun loop _ => exits_cost fun _ mem => nested.exit_of_mem loop mem
    have positive := frameCost_pos s f
    simp only [settleCost, top, List.map_cons, List.sum_cons]
    cases f with
    | groupDeferQ g it =>
      cases it with
      | none =>
        simp only [TaskScheduler.step, top]
        rw [below trivial]
        omega
      | some x =>
        rw [step_groupDeferQ top, frames_pass, List.map_cons, List.sum_cons, below trivial]
        have := settles.frameCost_pass_group rest (within x rfl)
        omega
    | entryDeferQ owner it =>
      cases it with
      | none =>
        simp only [TaskScheduler.step, top]
        rw [below trivial]
        omega
      | some x =>
        rw [step_entryDeferQ top, frames_pass, List.map_cons, List.sum_cons, below trivial]
        have := settles.frameCost_pass_entry rest (within x rfl)
        omega
    | combinedDeferQ g i groupIt entryIt =>
      cases groupIt with
      | some gEntry =>
        cases entryIt with
        | some tEntry =>
          rw [step_combinedDeferQ top]
          split_ifs with lt
          · rw [frames_pass, List.map_cons, List.sum_cons, below trivial]
            have := settles.frameCost_pass_combinedGroup rest within lt
            omega
          · rw [frames_pass, List.map_cons, List.sum_cons, below trivial]
            have := settles.frameCost_pass_combinedEntry rest within lt
            omega
        | none =>
          -- the group's queue is walked again from its start
          simp only [TaskScheduler.step, top, List.map_cons, List.sum_cons]
          rw [below trivial]
          have restart : remaining (s.deferQ (.group g)) (s.groups g).deferq.head? = (s.deferQ (.group g)).length :=
            remaining_head? _
          have started : 1 ≤ remaining (s.deferQ (.group g)) (some gEntry) := by simp [remaining]
          simp only [frameCost, deferQ_frames]
          omega
      | none =>
        cases entryIt with
        | some tEntry =>
          -- the entry's queue is walked again from its start
          simp only [TaskScheduler.step, top, List.map_cons, List.sum_cons]
          rw [below trivial]
          have restart : remaining (s.deferQ (.entry (.entry g i))) (s.entries (.entry g i)).deferq.head? =
              (s.deferQ (.entry (.entry g i))).length :=
            remaining_head? _
          have started : 1 ≤ remaining (s.deferQ (.entry (.entry g i))) (some tEntry) := by simp [remaining]
          simp only [frameCost, deferQ_frames]
          omega
        | none =>
          simp only [TaskScheduler.step, top]
          rw [below trivial]
          omega
    | taskExited t =>
      obtain rfl := nested.exit_top
      simp only [TaskScheduler.step, top, frames_taskExitedTail]
      simp [frameCost]

/-- With as much fuel as the passes left, `settle` ends every loop in progress. -/
theorem settle_frames (settles : s.Settles) {fuel : Nat} (enough : s.settleCost ≤ fuel) :
    (settle fuel s).frames = [] := by
  induction fuel generalizing s with
  | zero =>
    -- no pass left: no frame, since each costs one at least
    cases top : s.frames with
    | nil => exact top
    | cons f rest =>
      have := frameCost_pos s f
      simp only [settleCost, top, List.map_cons, List.sum_cons] at enough
      omega
  | succ fuel ih =>
    unfold settle
    split_ifs with idle
    · exact idle
    · have cheaper := settles.settleCost_step_lt idle
      exact ih settles.step (by omega)

end Settles

end TaskScheduler

/-- From every reachable state the loops in progress end within `settleCost`
passes, and more fuel leaves the state `settle` reaches as it is. -/
theorem Reachable.settle_frames {s : TaskScheduler} (reachable : Reachable s) {fuel : Nat}
    (enough : s.settleCost ≤ fuel) (extra : Nat) :
    (TaskScheduler.settle fuel s).frames = [] ∧
      TaskScheduler.settle (fuel + extra) s = TaskScheduler.settle fuel s := by
  have settled := reachable.settles.settle_frames enough
  exact ⟨settled, TaskScheduler.settle_add settled extra⟩

/-- `runOps` never stops for want of fuel: with fuel for the passes an enabled
operation leaves, it runs the operation to the end of its loops and goes on. -/
theorem Reachable.runOps_cons {s : TaskScheduler} (reachable : Reachable s) (idle : s.frames = []) {o : Op}
    (enabled : o.Enabled s) {fuel : Nat} (enough : (o.apply s).settleCost ≤ fuel) (rest : List Op) :
    TaskScheduler.runOps fuel s (o :: rest) =
      TaskScheduler.runOps fuel (TaskScheduler.settle fuel (o.apply s)) rest := by
  have settled := ((reachable.op o idle enabled).settle_frames enough 0).1
  simp [TaskScheduler.runOps, idle, enabled, settled]

end Contrail.Base
