import Contrail.Db.TablePartition
import Contrail.Lib.ListCount
import Mathlib

/-! What every run of a table partition keeps. An entry is on the change list
exactly when its flag says so, and on the remove queue exactly when its flag
says so; the table's `DBState` count of a listener is the number of entries in
the tree with a state of it; every `Remove` erases an entry that is in the
tree, once. In a table with listeners, an entry is removed only while marked
deleted, off the change list and without state, every entry notified while not
deleted stays on the change list until `RunNotify` takes it, and a deleted
entry off the change list without state is on the remove queue or is the one
`RunNotify` is checking, so that the partition task's own next steps remove it. -/
namespace Contrail.Db

namespace TablePartition

/-- What the invariant says of an entry in the tree. -/
structure EntryOk (p : TablePartition) (e : Nat) : Prop where
  onlist_iff : (p.entries e).onlist = true ↔ e ∈ p.changeList
  onremoveq_iff : (p.entries e).onremoveq = true ↔ e ∈ p.removeQueue
  state_nodup : (p.entries e).state.Nodup
  silent : p.hasListeners = false → (p.entries e).state = []
  eligible : p.hasListeners = true → (p.entries e).deleted = true → (p.entries e).onlist = false →
    (p.entries e).state = [] → e ∈ p.removeQueue ∨ p.pc = .runNotify e

structure Invariant (p : TablePartition) : Prop where
  tree_nodup : p.tree.Nodup
  changeList_nodup : p.changeList.Nodup
  removeQueue_nodup : p.removeQueue.Nodup
  changeList_sub : ∀ e ∈ p.changeList, e ∈ p.tree
  removeQueue_sub : ∀ e ∈ p.removeQueue, e ∈ p.tree
  entryOk : ∀ e ∈ p.tree, p.EntryOk e
  count : ∀ l, p.dbStateCount l = p.tree.countP fun e => l ∈ (p.entries e).state
  checking : ∀ e, p.pc = .runNotify e → e ∈ p.tree ∧ (p.entries e).onlist = false
  removed_absent : ∀ r ∈ p.removals, r.entry ∉ p.tree
  removals_nodup : (p.removals.map Removal.entry).Nodup
  removals_found : ∀ r ∈ p.removals, ∃ entry, r.found = some entry ∧
    (p.hasListeners = true → entry.deleted = true ∧ entry.onlist = false ∧ entry.state = [])
  pending : p.hasListeners = true → ∀ e, p.pending e = true → e ∈ p.changeList
  silentQueue : p.hasListeners = false → p.removeQueue = []

theorem invariant_init (hasListeners : Bool) : (TablePartition.init hasListeners).Invariant where
  tree_nodup := List.nodup_nil
  changeList_nodup := List.nodup_nil
  removeQueue_nodup := List.nodup_nil
  changeList_sub := by simp [TablePartition.init]
  removeQueue_sub := by simp [TablePartition.init]
  entryOk := by simp [TablePartition.init]
  count := by simp [TablePartition.init]
  checking := by simp [TablePartition.init]
  removed_absent := by simp [TablePartition.init]
  removals_nodup := List.nodup_nil
  removals_found := by simp [TablePartition.init]
  pending := by simp [TablePartition.init]
  silentQueue := fun _ => rfl

variable {p : TablePartition}

/-- An entry keeps what the invariant says of it when its flags and state,
its places on the two lists and the listeners stay, and a check of it in
progress goes on. -/
theorem EntryOk.frame {q : TablePartition} {x : Nat} (ok : p.EntryOk x) (entry : q.entries x = p.entries x)
    (onList : x ∈ q.changeList ↔ x ∈ p.changeList) (onQueue : x ∈ q.removeQueue ↔ x ∈ p.removeQueue)
    (listeners : q.hasListeners = p.hasListeners) (checking : p.pc = .runNotify x → q.pc = .runNotify x) :
    q.EntryOk x where
  onlist_iff := by rw [entry, onList]; exact ok.onlist_iff
  onremoveq_iff := by rw [entry, onQueue]; exact ok.onremoveq_iff
  state_nodup := entry ▸ ok.state_nodup
  silent := by rw [entry, listeners]; exact ok.silent
  eligible := by
    rw [entry, listeners, onQueue]
    intro withListeners deleted offList empty
    exact (ok.eligible withListeners deleted offList empty).imp_right checking

/-- A `Remove` of an entry in the tree without state, by the partition task
when free or at the end of its check of that entry, with the entry taken off
the change list and the remove queue: `q` is the state after it, given field
by field. -/
theorem Invariant.remove {e : Nat} {q : TablePartition} (inv : p.Invariant) (mem : e ∈ p.tree)
    (empty : (p.entries e).state = []) (task : p.pc = .idle ∨ p.pc = .runNotify e)
    (flags : p.hasListeners = true → (p.entries e).deleted = true ∧ (p.entries e).onlist = false)
    (tree : q.tree = p.tree.erase e) (entries : q.entries = p.entries)
    (changeList : q.changeList = p.changeList.erase e) (removeQueue : q.removeQueue = p.removeQueue.erase e)
    (pc : q.pc = .idle) (removals : q.removals = p.removals ++ [⟨e, some (p.entries e)⟩])
    (pending : q.pending = p.pending) (count : q.dbStateCount = p.dbStateCount)
    (listeners : q.hasListeners = p.hasListeners) : q.Invariant where
  tree_nodup := tree ▸ inv.tree_nodup.erase e
  changeList_nodup := changeList ▸ inv.changeList_nodup.erase e
  removeQueue_nodup := removeQueue ▸ inv.removeQueue_nodup.erase e
  changeList_sub x listed := by
    rw [changeList] at listed
    have other : x ≠ e := by rintro rfl; exact inv.changeList_nodup.not_mem_erase listed
    rw [tree]
    exact (List.mem_erase_of_ne other).mpr (inv.changeList_sub x (List.mem_of_mem_erase listed))
  removeQueue_sub x queued := by
    rw [removeQueue] at queued
    have other : x ≠ e := by rintro rfl; exact inv.removeQueue_nodup.not_mem_erase queued
    rw [tree]
    exact (List.mem_erase_of_ne other).mpr (inv.removeQueue_sub x (List.mem_of_mem_erase queued))
  entryOk x kept := by
    rw [tree] at kept
    have other : x ≠ e := by rintro rfl; exact inv.tree_nodup.not_mem_erase kept
    refine (inv.entryOk x (List.mem_of_mem_erase kept)).frame (by rw [entries])
      (by rw [changeList, List.mem_erase_of_ne other]) (by rw [removeQueue, List.mem_erase_of_ne other])
      listeners ?_
    -- the task was free or checking `e`, so it was not checking `x`
    intro checking
    rcases task with idle | atE
    · rw [idle] at checking; cases checking
    · rw [atE, PartitionPc.runNotify.injEq] at checking; exact absurd checking.symm other
  count l := by
    rw [count, inv.count l, tree, entries, List.countP_erase]
    simp [empty]
  checking e' checking := by rw [pc] at checking; cases checking
  removed_absent r removed := by
    rw [removals, List.mem_append, List.mem_singleton] at removed
    rw [tree]
    rcases removed with earlier | rfl
    · exact fun erased => inv.removed_absent r earlier (List.mem_of_mem_erase erased)
    · exact inv.tree_nodup.not_mem_erase
  removals_nodup := by
    rw [removals, List.map_append, List.map_singleton]
    refine List.nodup_append.mpr ⟨inv.removals_nodup, List.nodup_singleton e, ?_⟩
    -- the entries removed before are out of the tree, and `e` is in it
    intro x earlier y now same
    rw [List.mem_singleton] at now
    obtain ⟨r, removed, rfl⟩ := List.mem_map.mp earlier
    exact inv.removed_absent r removed (same ▸ now ▸ mem)
  removals_found r removed := by
    rw [removals, List.mem_append, List.mem_singleton] at removed
    rw [listeners]
    rcases removed with earlier | rfl
    · exact inv.removals_found r earlier
    · exact ⟨p.entries e, rfl, fun withListeners => ⟨(flags withListeners).1, (flags withListeners).2, empty⟩⟩
  pending withListeners x noted := by
    rw [listeners] at withListeners
    rw [pending] at noted
    have listed := inv.pending withListeners x noted
    -- with listeners, the entry removed was off the change list
    have other : x ≠ e := by
      rintro rfl
      exact absurd ((inv.entryOk x mem).onlist_iff.mpr listed) (by simp [(flags withListeners).2])
    rw [changeList]
    exact (List.mem_erase_of_ne other).mpr listed
  silentQueue withoutListeners := by
    rw [removeQueue, inv.silentQueue (listeners ▸ withoutListeners), List.erase_nil]

/-- The count of a listener's states does not see flags. -/
theorem countP_state_of_update {entries : Nat → DBEntryBase} {e : Nat} {entry : DBEntryBase}
    (sameState : entry.state = (entries e).state) (tree : List Nat) (l : Nat) :
    (tree.countP fun x => l ∈ (Function.update entries e entry x).state) =
      tree.countP fun x => l ∈ (entries x).state := by
  refine List.countP_congr fun x _ => ?_
  by_cases same : x = e
  · subst same
    simp [sameState]
  · simp [Function.update_of_ne same]

/-- `Notify` of an entry in the tree by the free partition task, after its
delete mark is set to `d` (as `Delete` does) or left as it is. -/
theorem Invariant.markNotify {e : Nat} (inv : p.Invariant) (idle : p.pc = .idle) (mem : e ∈ p.tree)
    (d : Bool) : ((p.updateEntry e fun entry => { entry with deleted := d }).notify e).Invariant := by
  have ok := inv.entryOk e mem
  set q := (p.updateEntry e fun entry => { entry with deleted := d }).notify e with hq
  -- what the notification changes: the entry's mark and flag, its place on the change list
  have entryE : q.entries e = { p.entries e with deleted := d, onlist := true } := by
    by_cases listed : (p.entries e).onlist = true <;> simp [q, listed]
  have entryX : ∀ x, x ≠ e → q.entries x = p.entries x := by
    intro x other
    by_cases listed : (p.entries e).onlist = true <;> simp [q, listed, Function.update_of_ne other]
  have listedE : e ∈ q.changeList := by
    by_cases listed : (p.entries e).onlist = true
    · simpa [q, listed] using ok.onlist_iff.mp listed
    · simp [q, listed]
  have listedX : ∀ x, x ≠ e → (x ∈ q.changeList ↔ x ∈ p.changeList) := by
    intro x other
    by_cases listed : (p.entries e).onlist = true <;> simp [q, listed, other]
  have nodup : q.changeList.Nodup := by
    by_cases listed : (p.entries e).onlist = true
    · simpa [q, listed] using inv.changeList_nodup
    · have offList : e ∉ p.changeList := fun listed' => listed (ok.onlist_iff.mpr listed')
      rw [show q.changeList = p.changeList ++ [e] by simp [q, listed]]
      refine List.nodup_append.mpr ⟨inv.changeList_nodup, List.nodup_singleton e, ?_⟩
      intro a listedA b atE
      rw [List.mem_singleton] at atE
      rintro rfl
      exact offList (atE ▸ listedA)
  have pendingX : ∀ x, x ≠ e → q.pending x = p.pending x := by
    intro x other
    simp [q, Function.update_of_ne other]
  refine ⟨by simpa [q] using inv.tree_nodup, nodup, by simpa [q] using inv.removeQueue_nodup, ?_, ?_, ?_, ?_, ?_,
    by simpa [q] using inv.removed_absent, by simpa [q] using inv.removals_nodup,
    by simpa [q] using inv.removals_found, ?_, by simpa [q] using inv.silentQueue⟩
  · intro x listed
    by_cases same : x = e
    · simpa [q, same] using mem
    · simpa [q] using inv.changeList_sub x ((listedX x same).mp listed)
  · simpa [q] using inv.removeQueue_sub
  · intro x inTree
    have inTree' : x ∈ p.tree := by simpa [q] using inTree
    by_cases same : x = e
    · subst same
      -- the entry is now on the change list, so it is not eligible for removal
      refine ⟨by simp [entryE, listedE], by rw [entryE]; simpa [q] using ok.onremoveq_iff,
        by simpa [entryE] using ok.state_nodup, by rw [entryE]; simpa [q] using ok.silent, ?_⟩
      intro _ _ offList
      simp [entryE] at offList
    · exact (inv.entryOk x inTree').frame (entryX x same) (listedX x same) (by simp [q]) (by simp [q])
        (by simp [q])
  · intro l
    rw [show q.dbStateCount l = p.dbStateCount l by simp [q], inv.count l, show q.tree = p.tree by simp [q]]
    refine congrArg _ (List.countP_congr fun x _ => ?_)
    by_cases same : x = e
    · simp [same, entryE]
    · simp [entryX x same]
  · intro x checking
    simp [q, idle] at checking
  · intro withListeners x noted
    by_cases same : x = e
    · exact same ▸ listedE
    · rw [pendingX x same] at noted
      exact (listedX x same).mpr (inv.pending (by simpa [q] using withListeners) x noted)

theorem updateEntry_deleted_self (e : Nat) :
    (p.updateEntry e fun entry => { entry with deleted := (p.entries e).deleted }) = p := by
  cases p
  simp [updateEntry]

theorem Invariant.change {e : Nat} (inv : p.Invariant) (idle : p.pc = .idle) (mem : e ∈ p.tree) :
    (p.notify e).Invariant := by
  have notified := inv.markNotify idle mem (p.entries e).deleted
  rwa [updateEntry_deleted_self] at notified

/-- `Add` puts a fresh entry into the tree, then notifies it. -/
theorem Invariant.add {e : Nat} (inv : p.Invariant) (idle : p.pc = .idle) (fresh : e ∉ p.tree)
    (unused : e ∉ p.removals.map Removal.entry) : (p.add e).Invariant := by
  let added : TablePartition :=
    { p with tree := p.tree ++ [e], entries := Function.update p.entries e DBEntryBase.init }
  have offList : e ∉ p.changeList := fun listed => fresh (inv.changeList_sub e listed)
  have offQueue : e ∉ p.removeQueue := fun queued => fresh (inv.removeQueue_sub e queued)
  have addedInv : added.Invariant := by
    refine ⟨?_, inv.changeList_nodup, inv.removeQueue_nodup, ?_, ?_, ?_, ?_, fun _ => by simp [added, idle],
      ?_, inv.removals_nodup, inv.removals_found, inv.pending, inv.silentQueue⟩
    · exact List.nodup_append.mpr ⟨inv.tree_nodup, List.nodup_singleton e, by
        rintro x inTree y atE rfl
        exact fresh ((List.mem_singleton.mp atE) ▸ inTree)⟩
    · exact fun x listed => List.mem_append_left _ (inv.changeList_sub x listed)
    · exact fun x queued => List.mem_append_left _ (inv.removeQueue_sub x queued)
    · intro x inTree
      by_cases same : x = e
      · subst same
        exact ⟨by simp [added, offList, DBEntryBase.init], by simp [added, offQueue, DBEntryBase.init],
          by simp [added, DBEntryBase.init], by simp [added, DBEntryBase.init], by simp [added, DBEntryBase.init]⟩
      · have inTree' : x ∈ p.tree := by simpa [added, same] using inTree
        exact (inv.entryOk x inTree').frame (by simp [added, Function.update_of_ne same]) Iff.rfl Iff.rfl rfl id
    · intro l
      have before : (p.tree.countP fun x => l ∈ (added.entries x).state) =
          p.tree.countP fun x => l ∈ (p.entries x).state :=
        ListCount.countP_of_not_mem fresh fun x other => by simp [added, Function.update_of_ne other]
      simp only [added, List.countP_append, inv.count l]
      rw [before]
      simp [DBEntryBase.init]
    · intro r removed inTree
      rcases List.mem_append.mp inTree with earlier | atE
      · exact inv.removed_absent r removed earlier
      · exact unused (List.mem_map.mpr ⟨r, removed, List.mem_singleton.mp atE⟩)
  exact addedInv.change (by simp [added, idle]) (by simp [added])

theorem Invariant.delete {e : Nat} (inv : p.Invariant) (idle : p.pc = .idle) (mem : e ∈ p.tree) :
    (p.delete e).Invariant := by
  unfold TablePartition.delete
  split
  · exact inv.markNotify idle mem true
  · -- with no listener the entry has no state and no remove request: it goes at once
    rename_i withoutListeners
    simp only [Bool.not_eq_true] at withoutListeners
    have ok := inv.entryOk e mem
    have noQueue := inv.silentQueue withoutListeners
    by_cases listed : (p.entries e).onlist = true
    · simp only [listed, if_true]
      exact inv.remove mem (ok.silent withoutListeners) (.inl idle) (by simp [withoutListeners]) rfl rfl rfl
        (by simp [noQueue]) (by simp [idle]) (by simp [mem]) rfl rfl rfl
    · have offList : e ∉ p.changeList := fun listed' => listed (ok.onlist_iff.mpr listed')
      simp only [listed, Bool.false_eq_true, if_false]
      exact inv.remove mem (ok.silent withoutListeners) (.inl idle) (by simp [withoutListeners]) rfl rfl
        (List.erase_of_not_mem offList).symm (by simp [noQueue]) (by simp [idle]) (by simp [mem]) rfl rfl rfl

/-- A change of one entry's flags or state that keeps its places on both lists
and its `onlist` flag: the other entries keep what the invariant says of them. -/
theorem Invariant.entryOk_updateEntry_of_ne {e x : Nat} {f : DBEntryBase → DBEntryBase} (inv : p.Invariant)
    (inTree : x ∈ p.tree) (other : x ≠ e) : (p.updateEntry e f).EntryOk x :=
  (inv.entryOk x inTree).frame (by simp [Function.update_of_ne other]) Iff.rfl Iff.rfl rfl id

/-- The listeners of an entry's states, if they do not change, keep every count. -/
theorem Invariant.count_updateEntry {e : Nat} {f : DBEntryBase → DBEntryBase} (inv : p.Invariant)
    (sameState : (f (p.entries e)).state = (p.entries e).state) (l : Nat) :
    (p.updateEntry e f).dbStateCount l = (p.updateEntry e f).tree.countP fun x => l ∈ ((p.updateEntry e f).entries x).state := by
  simp only [updateEntry_dbStateCount, updateEntry_tree, updateEntry_entries]
  rw [inv.count l, countP_state_of_update sameState]

/-- A change of one entry that keeps its `onlist` flag keeps the check in progress. -/
theorem Invariant.checking_updateEntry {e : Nat} {f : DBEntryBase → DBEntryBase} (inv : p.Invariant)
    (sameFlag : (f (p.entries e)).onlist = (p.entries e).onlist) (x : Nat)
    (checking : (p.updateEntry e f).pc = .runNotify x) :
    x ∈ (p.updateEntry e f).tree ∧ ((p.updateEntry e f).entries x).onlist = false := by
  obtain ⟨inTree, offList⟩ := inv.checking x checking
  by_cases same : x = e
  · subst same
    simpa [sameFlag] using ⟨inTree, offList⟩
  · simpa [Function.update_of_ne same] using ⟨inTree, offList⟩

theorem Invariant.clearDelete {e : Nat} (inv : p.Invariant) (mem : e ∈ p.tree) :
    (p.clearDelete e).Invariant := by
  have ok := inv.entryOk e mem
  unfold TablePartition.clearDelete
  refine ⟨inv.tree_nodup, inv.changeList_nodup, inv.removeQueue_nodup, inv.changeList_sub, inv.removeQueue_sub,
    ?_, inv.count_updateEntry rfl, ?_, inv.removed_absent, inv.removals_nodup, inv.removals_found, inv.pending,
    inv.silentQueue⟩
  · intro x inTree
    by_cases same : x = e
    · subst same
      -- an entry no longer marked deleted is not eligible for removal
      exact ⟨by simpa using ok.onlist_iff, by simpa using ok.onremoveq_iff, by simpa using ok.state_nodup,
        by simpa using ok.silent, by simp⟩
    · exact inv.entryOk_updateEntry_of_ne inTree same
  · exact inv.checking_updateEntry rfl

/-- The count of listener `l` after one entry's states change from `old` to `new`. -/
theorem Invariant.count_of_state {e : Nat} {f : DBEntryBase → DBEntryBase} (inv : p.Invariant) (mem : e ∈ p.tree)
    (l : Nat) :
    ((p.updateEntry e f).tree.countP fun x => l ∈ ((p.updateEntry e f).entries x).state : Int) =
      p.dbStateCount l - (if l ∈ (p.entries e).state then 1 else 0) +
        (if l ∈ (f (p.entries e)).state then 1 else 0) := by
  simp only [updateEntry_tree, updateEntry_entries]
  rw [ListCount.countP_of_update inv.tree_nodup mem (p := fun x => l ∈ (p.entries x).state)
    fun x other => by simp [Function.update_of_ne other], inv.count l]
  simp

theorem Invariant.setState {l e : Nat} (inv : p.Invariant) (withListeners : p.hasListeners = true)
    (mem : e ∈ p.tree) : (p.setState l e).Invariant := by
  unfold TablePartition.setState
  split
  · exact inv
  rename_i fresh
  have ok := inv.entryOk e mem
  refine ⟨inv.tree_nodup, inv.changeList_nodup, inv.removeQueue_nodup, inv.changeList_sub, inv.removeQueue_sub,
    ?_, ?_, fun x checking => inv.checking_updateEntry (e := e)
      (f := fun entry => { entry with state := entry.state ++ [l] }) rfl x checking,
    inv.removed_absent, inv.removals_nodup, inv.removals_found, inv.pending, inv.silentQueue⟩
  · intro x inTree
    by_cases same : x = e
    · subst same
      -- the entry now has a state, so it is not eligible for removal
      exact ⟨by simpa using ok.onlist_iff, by simpa using ok.onremoveq_iff,
        by simpa [List.nodup_append] using ⟨ok.state_nodup, fun a inState atL => fresh (atL ▸ inState)⟩,
        by simp [withListeners], by simp⟩
    · exact (inv.entryOk x inTree).frame (by simp [Function.update_of_ne same]) (by simp) (by simp) (by simp)
        (by simp)
  · intro l'
    have counted := inv.count_of_state (f := fun entry => { entry with state := entry.state ++ [l] }) mem l'
    by_cases same : l' = l
    · subst same
      simp only [fresh] at counted
      simpa using counted.symm
    · simp only [updateEntry_tree, updateEntry_entries] at counted
      simpa [Function.update_of_ne same, same] using counted.symm

/-- Clearing the state of `l` on `e` takes one from the count of `l` only. -/
theorem Invariant.count_clearState {l e : Nat} (inv : p.Invariant) (mem : e ∈ p.tree)
    (held : l ∈ (p.entries e).state) (l' : Nat) :
    Function.update p.dbStateCount l (p.dbStateCount l - 1) l' =
      p.tree.countP fun x => l' ∈ (Function.update p.entries e
        { p.entries e with state := (p.entries e).state.erase l } x).state := by
  have counted := inv.count_of_state (f := fun entry => { entry with state := entry.state.erase l }) mem l'
  simp only [updateEntry_tree, updateEntry_entries] at counted
  rw [counted]
  by_cases same : l' = l
  · subst same
    simp [held, (inv.entryOk e mem).state_nodup.not_mem_erase]
  · simp [Function.update_of_ne same, List.mem_erase_of_ne same]

theorem Invariant.clearState {l e : Nat} (inv : p.Invariant) (mem : e ∈ p.tree)
    (held : l ∈ (p.entries e).state) : (p.clearState l e).Invariant := by
  have ok := inv.entryOk e mem
  -- an entry with a state exists only in a table with listeners
  have withListeners : p.hasListeners = true := by
    cases listeners : p.hasListeners
    · rw [ok.silent listeners] at held
      cases held
    · rfl
  have nodup : ((p.entries e).state.erase l).Nodup := ok.state_nodup.erase l
  unfold TablePartition.clearState
  dsimp only
  split_ifs with eligible
  · -- the last state of a deleted entry off the change list: a remove request
    simp only [updateEntry_entries, Function.update_self, Bool.not_eq_true'] at eligible
    obtain ⟨empty, deleted, offList, offQueue⟩ := eligible
    have notQueued : e ∉ p.removeQueue := fun queued => by
      simp [ok.onremoveq_iff.mpr queued] at offQueue
    refine ⟨by simpa using inv.tree_nodup, by simpa using inv.changeList_nodup, ?_, by simpa using inv.changeList_sub,
      ?_, ?_, ?_, ?_, by simpa using inv.removed_absent, by simpa using inv.removals_nodup,
      by simpa using inv.removals_found, by simpa using inv.pending, by simp [withListeners]⟩
    · simpa [List.nodup_append] using ⟨inv.removeQueue_nodup, fun a queued atE => notQueued (atE ▸ queued)⟩
    · intro x queued
      simp only [enqueueRemove_removeQueue, updateEntry_removeQueue, List.mem_append, List.mem_singleton] at queued
      rcases queued with earlier | rfl
      · simpa using inv.removeQueue_sub x earlier
      · simpa using mem
    · intro x inTree
      simp only [enqueueRemove_tree, updateEntry_tree] at inTree
      by_cases same : x = e
      · subst same
        refine ⟨by simpa using ok.onlist_iff, by simp, by simpa using nodup, by simp [withListeners], ?_⟩
        intro _ _ _ _
        simp
      · exact (inv.entryOk x inTree).frame (by simp [Function.update_of_ne same]) (by simp)
          (by simp [same]) (by simp) (by simp)
    · intro l'
      -- the remove request does not change the entry's states
      simp only [enqueueRemove_dbStateCount, enqueueRemove_tree, updateEntry_tree, enqueueRemove_entries,
        updateEntry_entries, Function.update_self]
      rw [countP_state_of_update (by simp)]
      simpa using inv.count_clearState mem held l'
    · intro x checking
      have stillChecking : p.pc = .runNotify x := by simpa using checking
      obtain ⟨inTree, offList'⟩ := inv.checking x stillChecking
      by_cases same : x = e
      · subst same
        simpa using ⟨inTree, offList'⟩
      · simpa [Function.update_of_ne same] using ⟨inTree, offList'⟩
  · refine ⟨by simpa using inv.tree_nodup, by simpa using inv.changeList_nodup, by simpa using inv.removeQueue_nodup,
      by simpa using inv.changeList_sub, by simpa using inv.removeQueue_sub, ?_, ?_, ?_,
      by simpa using inv.removed_absent, by simpa using inv.removals_nodup, by simpa using inv.removals_found,
      by simpa using inv.pending, by simp [withListeners]⟩
    · intro x inTree
      simp only [updateEntry_tree] at inTree
      by_cases same : x = e
      · subst same
        refine ⟨by simpa using ok.onlist_iff, by simpa using ok.onremoveq_iff, by simpa using nodup,
          by simp [withListeners], ?_⟩
        -- an entry left off the remove queue here was already on it
        intro _ deleted offList empty
        simp only [updateEntry_entries, Function.update_self] at deleted offList empty
        have onQueue : (p.entries x).onremoveq = true := by
          simpa [empty, deleted, offList] using eligible
        exact .inl (by simpa using ok.onremoveq_iff.mp onQueue)
      · exact (inv.entryOk x inTree).frame (by simp [Function.update_of_ne same]) (by simp) (by simp) (by simp)
          (by simp)
    · intro l'
      simpa using inv.count_clearState mem held l'
    · intro x checking
      have stillChecking : p.pc = .runNotify x := by simpa using checking
      obtain ⟨inTree, offList'⟩ := inv.checking x stillChecking
      by_cases same : x = e
      · subst same
        simpa using ⟨inTree, offList'⟩
      · simpa [Function.update_of_ne same] using ⟨inTree, offList'⟩

theorem Invariant.runNotifyTake {next : TablePartition} (inv : p.Invariant) (idle : p.pc = .idle)
    (taken : p.runNotifyTake = some next) : next.Invariant := by
  unfold TablePartition.runNotifyTake at taken
  split at taken
  · cases taken
  rename_i e rest list
  cases taken
  have mem : e ∈ p.tree := inv.changeList_sub e (by simp [list])
  have ok := inv.entryOk e mem
  have nodup : (e :: rest).Nodup := list ▸ inv.changeList_nodup
  have fresh : e ∉ rest := (List.nodup_cons.mp nodup).1
  have listedX : ∀ x, x ≠ e → (x ∈ rest ↔ x ∈ p.changeList) := by
    intro x other
    simp [list, other]
  refine ⟨by simpa using inv.tree_nodup, (List.nodup_cons.mp nodup).2, by simpa using inv.removeQueue_nodup,
    fun x listed => by simpa using inv.changeList_sub x ((listedX x (fun same => fresh (same ▸ listed))).mp listed),
    by simpa using inv.removeQueue_sub, ?_, ?_, ?_, by simpa using inv.removed_absent,
    by simpa using inv.removals_nodup, by simpa using inv.removals_found, ?_, by simpa using inv.silentQueue⟩
  · intro x inTree
    simp only [updateEntry_tree] at inTree
    by_cases same : x = e
    · subst same
      -- the entry being checked is eligible through the check itself
      exact ⟨by simp [fresh], by simpa using ok.onremoveq_iff, by simpa using ok.state_nodup,
        by simpa using ok.silent, fun _ _ _ _ => .inr rfl⟩
    · exact (inv.entryOk x inTree).frame (by simp [Function.update_of_ne same]) (listedX x same) (by simp)
        (by simp) (by simp [idle])
  · intro l
    simp only [updateEntry_dbStateCount, updateEntry_tree, updateEntry_entries]
    rw [countP_state_of_update (by simp)]
    exact inv.count l
  · intro x checking
    simp only [PartitionPc.runNotify.injEq] at checking
    subst checking
    simpa using mem
  · intro withListeners x noted
    by_cases same : x = e
    · simp [same] at noted
    · simp only [Function.update_of_ne same] at noted
      exact (listedX x same).mpr (inv.pending withListeners x noted)

theorem Invariant.runNotifyCheck {e : Nat} (inv : p.Invariant) (atE : p.pc = .runNotify e) :
    (p.runNotifyCheck e).Invariant := by
  obtain ⟨mem, offList⟩ := inv.checking e atE
  have ok := inv.entryOk e mem
  have unlisted : e ∉ p.changeList := fun listed => by simp [ok.onlist_iff.mpr listed] at offList
  unfold TablePartition.runNotifyCheck
  dsimp only
  split_ifs with eligible
  · obtain ⟨deleted, empty, offQueue⟩ := eligible
    have unqueued : e ∉ p.removeQueue := fun queued => by simp [ok.onremoveq_iff.mpr queued] at offQueue
    exact inv.remove mem empty (.inr atE) (fun _ => ⟨deleted, offList⟩) rfl rfl
      (List.erase_of_not_mem unlisted).symm (List.erase_of_not_mem unqueued).symm rfl (by simp [mem]) rfl rfl rfl
  · refine ⟨inv.tree_nodup, inv.changeList_nodup, inv.removeQueue_nodup, inv.changeList_sub, inv.removeQueue_sub,
      ?_, inv.count, (fun _ idle => by simp at idle), inv.removed_absent, inv.removals_nodup,
      inv.removals_found, inv.pending, inv.silentQueue⟩
    intro x inTree
    by_cases same : x = e
    · subst same
      -- a deleted entry without state that stays was found on the remove queue
      refine ⟨ok.onlist_iff, ok.onremoveq_iff, ok.state_nodup, ok.silent, ?_⟩
      intro _ deleted _ empty
      dsimp only at deleted empty
      have onQueue : (p.entries x).onremoveq = true := by simpa [deleted, empty] using eligible
      exact .inl (ok.onremoveq_iff.mp onQueue)
    · refine (inv.entryOk x inTree).frame rfl Iff.rfl Iff.rfl rfl ?_
      intro checking
      rw [atE, PartitionPc.runNotify.injEq] at checking
      exact absurd checking.symm same

theorem Invariant.runRemoveQueue {next : TablePartition} (inv : p.Invariant) (idle : p.pc = .idle)
    (ran : p.runRemoveQueue = some next) : next.Invariant := by
  unfold TablePartition.runRemoveQueue at ran
  split at ran
  · cases ran
  rename_i e rest queue
  have nodup : (e :: rest).Nodup := queue ▸ inv.removeQueue_nodup
  have fresh : e ∉ rest := (List.nodup_cons.mp nodup).1
  have mem : e ∈ p.tree := inv.removeQueue_sub e (by simp [queue])
  have ok := inv.entryOk e mem
  have queuedX : ∀ x, x ≠ e → (x ∈ rest ↔ x ∈ p.removeQueue) := by
    intro x other
    simp [queue, other]
  dsimp only at ran
  split_ifs at ran with stale
  · -- the entry is no longer eligible: it only loses its mark
    cases ran
    refine ⟨by simpa using inv.tree_nodup, by simpa using inv.changeList_nodup, (List.nodup_cons.mp nodup).2,
      by simpa using inv.changeList_sub,
      (fun x queued => by simpa using inv.removeQueue_sub x ((queuedX x (fun same => fresh (same ▸ queued))).mp queued)),
      ?_, ?_, (fun x checking => by simp [idle] at checking), by simpa using inv.removed_absent,
      by simpa using inv.removals_nodup, by simpa using inv.removals_found, by simpa using inv.pending, ?_⟩
    · intro x inTree
      simp only [updateEntry_tree] at inTree
      by_cases same : x = e
      · subst same
        refine ⟨by simpa using ok.onlist_iff, by simp [fresh], by simpa using ok.state_nodup, by simpa using ok.silent, ?_⟩
        intro _ deleted offList empty
        simp only [updateEntry_entries, Function.update_self] at deleted offList empty
        simp [deleted, offList, empty] at stale
      · exact (inv.entryOk x inTree).frame (by simp [Function.update_of_ne same]) (by simp) (queuedX x same)
          (by simp) (by simp [idle])
    · intro l
      simp only [updateEntry_dbStateCount, updateEntry_tree, updateEntry_entries]
      rw [countP_state_of_update (by simp)]
      exact inv.count l
    · intro withoutListeners
      have empty := inv.silentQueue withoutListeners
      simp [queue] at empty
  · -- a deleted entry off the change list without state: removed
    cases ran
    simp only [Bool.or_eq_true, Bool.not_eq_true', decide_eq_true_eq, not_or, Bool.not_eq_false,
      Bool.not_eq_true, ne_eq, not_not] at stale
    obtain ⟨⟨deleted, offList⟩, empty⟩ := stale
    have unlisted : e ∉ p.changeList := fun listed => by simp [ok.onlist_iff.mpr listed] at offList
    exact inv.remove mem empty (.inl idle) (fun _ => ⟨deleted, offList⟩) rfl rfl
      (List.erase_of_not_mem unlisted).symm (by simp [queue]) (by simp [idle]) (by simp [mem]) rfl rfl rfl

/-- Every call keeps the invariant. -/
theorem Invariant.apply {a : DbAction} {next : TablePartition} (inv : p.Invariant)
    (applied : p.apply a = some next) : next.Invariant := by
  cases a with
  | add e =>
    simp only [TablePartition.apply] at applied
    split_ifs at applied with ready
    cases applied
    exact inv.add ready.1 ready.2.1 ready.2.2
  | change e =>
    simp only [TablePartition.apply] at applied
    split_ifs at applied with ready
    cases applied
    exact inv.change ready.1 ready.2
  | delete e =>
    simp only [TablePartition.apply] at applied
    split_ifs at applied with ready
    cases applied
    exact inv.delete ready.1 ready.2
  | clearDelete e =>
    simp only [TablePartition.apply] at applied
    split_ifs at applied with ready
    cases applied
    exact inv.clearDelete ready.2.1
  | runNotifyTake =>
    simp only [TablePartition.apply] at applied
    split_ifs at applied with idle
    exact inv.runNotifyTake idle applied
  | runNotifyCheck =>
    simp only [TablePartition.apply] at applied
    split at applied
    · rename_i e atE
      cases applied
      exact inv.runNotifyCheck atE
    · cases applied
  | runRemoveQueue =>
    simp only [TablePartition.apply] at applied
    split_ifs at applied with idle
    exact inv.runRemoveQueue idle applied
  | setState l e =>
    simp only [TablePartition.apply] at applied
    split_ifs at applied with ready
    cases applied
    exact inv.setState ready.1 ready.2.1
  | clearState l e =>
    simp only [TablePartition.apply] at applied
    split_ifs at applied with ready
    cases applied
    exact inv.clearState ready.1 ready.2

theorem Reachable.invariant (reachable : p.Reachable) : p.Invariant := by
  induction reachable with
  | init hasListeners => exact invariant_init hasListeners
  | step a _ applied inv => exact inv.apply applied

/-! ## The partition task removes what it should

The partition task left to itself ends the `RunNotify` pass it is in and then
serves the remove queue in order. The requests before an eligible entry's touch
only their own entries, so the entry is still eligible when its request is
served, and is removed then. -/

/-- The partition task's next steps: the end of the `RunNotify` pass it is in,
then `n` remove requests. -/
def partitionTaskRun (p : TablePartition) (n : Nat) : List DbAction :=
  (match p.pc with
    | .runNotify _ => [.runNotifyCheck]
    | .idle => []) ++ List.replicate n .runRemoveQueue

/-- An entry marked deleted, off the change list and without state. -/
def Eligible (p : TablePartition) (e : Nat) : Prop :=
  (p.entries e).deleted = true ∧ (p.entries e).onlist = false ∧ (p.entries e).state = []

/-- Serving the head request of the remove queue leaves every eligible entry as
it was: the head is unmarked when it is not eligible, and removed when it is. -/
theorem runRemoveQueue_keeps {e x : Nat} {rest : List Nat} (eligible : p.Eligible e)
    (queue : p.removeQueue = x :: rest) :
    ∃ served, p.runRemoveQueue = some served ∧ served.pc = p.pc ∧ served.removeQueue = rest ∧
      served.entries e = p.entries e := by
  obtain ⟨deleted, offList, empty⟩ := eligible
  unfold TablePartition.runRemoveQueue
  simp only [queue]
  split_ifs with stale
  · refine ⟨_, rfl, rfl, rfl, ?_⟩
    have other : e ≠ x := by
      rintro rfl
      simp [deleted, offList, empty] at stale
    simp [Function.update_of_ne other]
  · exact ⟨_, rfl, rfl, rfl, rfl⟩

/-- Served up to its own request, the remove queue removes an eligible entry;
the induction is on the requests in front of it. -/
theorem runRemoveQueue_removes {e : Nat} :
    ∀ (front : List Nat) {p : TablePartition} {back : List Nat}, p.pc = .idle →
      p.removeQueue = front ++ e :: back → p.Eligible e →
      ∃ next, p.runActions (List.replicate (front.length + 1) .runRemoveQueue) = some next ∧
        e ∈ next.removals.map Removal.entry
  | [], p, back, idle, queue, ⟨deleted, offList, empty⟩ => by
    refine ⟨({ p with removeQueue := back } : TablePartition).remove e, ?_, by simp⟩
    simp [runActions, TablePartition.apply, idle, TablePartition.runRemoveQueue, queue, deleted, offList, empty]
  | x :: front, p, back, idle, queue, eligible => by
    obtain ⟨served, ran, samePc, rest, sameEntry⟩ := runRemoveQueue_keeps eligible queue
    have stillEligible : served.Eligible e := by
      simpa only [Eligible, sameEntry] using eligible
    obtain ⟨next, ranRest, removed⟩ := runRemoveQueue_removes front (samePc.trans idle) rest stillEligible
    refine ⟨next, ?_, removed⟩
    show p.runActions (.runRemoveQueue :: List.replicate (front.length + 1) .runRemoveQueue) = some next
    simp only [runActions, TablePartition.apply, idle, if_true, ran, Option.bind_some]
    exact ranRest

/-- The end of a `RunNotify` pass frees the partition task and leaves the
remove queue and every entry's flags as they were. -/
theorem runNotifyCheck_frame (e : Nat) :
    (p.runNotifyCheck e).pc = .idle ∧ (p.runNotifyCheck e).removeQueue = p.removeQueue ∧
      (p.runNotifyCheck e).entries = p.entries := by
  unfold TablePartition.runNotifyCheck
  dsimp only
  split_ifs <;> exact ⟨rfl, rfl, rfl⟩

/-- With listeners, the partition task's own next steps remove every eligible
entry of the tree, within as many remove requests as are queued. -/
theorem Invariant.eventually_removed (inv : p.Invariant) (withListeners : p.hasListeners = true) {e : Nat}
    (mem : e ∈ p.tree) (eligible : p.Eligible e) :
    ∃ n ≤ p.removeQueue.length, ∃ next, p.runActions (p.partitionTaskRun n) = some next ∧
      e ∈ next.removals.map Removal.entry := by
  have ok := inv.entryOk e mem
  obtain ⟨deleted, offList, empty⟩ := eligible
  -- an eligible entry that is queued is removed by the queue from an idle task
  have fromQueue : ∀ q : TablePartition, q.pc = .idle → q.removeQueue = p.removeQueue →
      q.entries = p.entries → e ∈ p.removeQueue → ∃ n ≤ p.removeQueue.length, ∃ next,
        q.runActions (List.replicate n .runRemoveQueue) = some next ∧ e ∈ next.removals.map Removal.entry := by
    intro q idle queue entries queued
    obtain ⟨front, back, split⟩ := List.append_of_mem queued
    obtain ⟨next, ran, removed⟩ := runRemoveQueue_removes front idle (queue.trans split)
      (by simpa only [Eligible, entries] using (⟨deleted, offList, empty⟩ : p.Eligible e))
    exact ⟨front.length + 1, by simp [split], next, ran, removed⟩
  cases atPc : p.pc with
  | idle =>
    have queued : e ∈ p.removeQueue := by
      simpa [atPc] using ok.eligible withListeners deleted offList empty
    obtain ⟨n, bound, next, ran, removed⟩ := fromQueue p atPc rfl rfl queued
    exact ⟨n, bound, next, by simpa [partitionTaskRun, atPc] using ran, removed⟩
  | runNotify x =>
    obtain ⟨idle, queue, entries⟩ := runNotifyCheck_frame (p := p) x
    have checked : ∀ n, p.runActions (p.partitionTaskRun n) =
        (p.runNotifyCheck x).runActions (List.replicate n .runRemoveQueue) := by
      intro n
      simp [partitionTaskRun, atPc, runActions, TablePartition.apply]
    by_cases queued : e ∈ p.removeQueue
    · obtain ⟨n, bound, next, ran, removed⟩ := fromQueue _ idle queue entries queued
      exact ⟨n, bound, next, (checked n).trans ran, removed⟩
    · -- off the queue, the entry is the one `RunNotify` is checking, and the check removes it
      have atE : x = e := by
        simpa [atPc, queued] using ok.eligible withListeners deleted offList empty
      subst atE
      have unmarked : (p.entries x).onremoveq = false :=
        Bool.eq_false_iff.mpr fun marked => queued (ok.onremoveq_iff.mp marked)
      refine ⟨0, Nat.zero_le _, ({ p with pc := .idle } : TablePartition).remove x, ?_, by simp⟩
      rw [checked 0]
      simp [runActions, TablePartition.runNotifyCheck, deleted, empty, unmarked]

end TablePartition

open TablePartition

theorem tablePartition_removes_once {p : TablePartition} (reachable : p.Reachable) :
    (p.removals.map Removal.entry).Nodup ∧
      (∀ r ∈ p.removals, ∃ entry, r.found = some entry ∧
        (p.hasListeners = true → entry.deleted = true ∧ entry.onlist = false ∧ entry.state = [])) ∧
      (∀ e ∈ p.tree, (p.entries e).onlist = true ↔ e ∈ p.changeList) ∧
      (p.hasListeners = true → ∀ e, p.pending e = true → e ∈ p.changeList) ∧
      (p.hasListeners = true → ∀ e ∈ p.tree, (p.entries e).deleted = true → (p.entries e).onlist = false →
        (p.entries e).state = [] → ∃ n ≤ p.removeQueue.length, ∃ next,
          p.runActions (p.partitionTaskRun n) = some next ∧ e ∉ next.tree ∧
            e ∈ next.removals.map Removal.entry) ∧
      (∀ l, p.dbStateCount l = p.tree.countP fun e => l ∈ (p.entries e).state) := by
  have inv := reachable.invariant
  refine ⟨inv.removals_nodup, inv.removals_found, fun e mem => (inv.entryOk e mem).onlist_iff, inv.pending,
    ?_, inv.count⟩
  intro withListeners e mem deleted offList empty
  obtain ⟨n, bound, next, ran, removed⟩ := inv.eventually_removed withListeners mem ⟨deleted, offList, empty⟩
  -- a removed entry has left the tree, by the invariant of the state the run reaches
  obtain ⟨r, recorded, named⟩ := List.mem_map.mp removed
  have absent := (reachable.runActions ran).invariant.removed_absent r recorded
  exact ⟨n, bound, next, ran, named ▸ absent, removed⟩

/-- Entries 0 and 1 are added with a state of listener 1 and deleted; `RunNotify`
passes both while they hold state, and the listener's `ClearState`s queue 1 and
then 0 for removal. -/
def clearedActions : List DbAction :=
  [.add 0, .add 1, .setState 1 0, .setState 1 1, .delete 1, .delete 0, .runNotifyTake, .runNotifyCheck,
    .runNotifyTake, .runNotifyCheck, .clearState 1 1, .clearState 1 0]

theorem tablePartition_removes_once_after_clearState :
    ∃ p, (TablePartition.init true).runActions clearedActions = some p ∧ p.removeQueue = [1, 0] ∧
      (p.removals.map Removal.entry).Nodup ∧
      (∀ r ∈ p.removals, ∃ entry, r.found = some entry ∧
        (p.hasListeners = true → entry.deleted = true ∧ entry.onlist = false ∧ entry.state = [])) ∧
      (∀ e ∈ p.tree, (p.entries e).onlist = true ↔ e ∈ p.changeList) ∧
      (p.hasListeners = true → ∀ e, p.pending e = true → e ∈ p.changeList) ∧
      (p.hasListeners = true → ∀ e ∈ p.tree, (p.entries e).deleted = true → (p.entries e).onlist = false →
        (p.entries e).state = [] → ∃ n ≤ p.removeQueue.length, ∃ next,
          p.runActions (p.partitionTaskRun n) = some next ∧ e ∉ next.tree ∧
            e ∈ next.removals.map Removal.entry) ∧
      (∀ l, p.dbStateCount l = p.tree.countP fun e => l ∈ (p.entries e).state) := by
  have ran : ((TablePartition.init true).runActions clearedActions).map TablePartition.removeQueue = some [1, 0] := by
    decide
  obtain ⟨p, reached, queue⟩ := Option.map_eq_some_iff.mp ran
  exact ⟨p, reached, queue, tablePartition_removes_once ((Reachable.init true).runActions reached)⟩

/-! ## A table without listeners

Entry 0 is added, which notifies it, and deleted: with no listener `Delete`
takes it off the change list and removes it at once, not marked deleted and
before `RunNotify` ever saw it. -/

def unlistenedActions : List DbAction := [.add 0, .delete 0]

def removedUnmarked (p : TablePartition) : Bool :=
  decide (p.removals = [⟨0, some { DBEntryBase.init with onlist := true }⟩] ∧ p.pending 0 = true ∧
    p.changeList = [])

theorem delete_without_listeners_removes_unmarked :
    ∃ p : TablePartition, p.Reachable ∧
      (∃ r ∈ p.removals, ∃ entry, r.found = some entry ∧ entry.deleted = false) ∧
      ∃ e, p.pending e = true ∧ e ∉ p.changeList := by
  obtain ⟨p, reachable, removed⟩ := @Reachable.of_runActions (TablePartition.init false) unlistenedActions
    removedUnmarked (.init false) (by decide)
  simp only [removedUnmarked, decide_eq_true_eq] at removed
  obtain ⟨removals, pending, emptyList⟩ := removed
  refine ⟨p, reachable, ⟨⟨0, some { DBEntryBase.init with onlist := true }⟩, by simp [removals],
    { DBEntryBase.init with onlist := true }, rfl, rfl⟩, 0, pending, by simp [emptyList]⟩

end Contrail.Db
