import Mathlib

/-! A table partition of `db/db_table_partition.cc` with the remove queue of
its `DBPartition`. The partition task adds, changes and deletes entries, runs
`RunNotify` over the change list and removes the entries the remove queue
names; listeners in any task set and clear their `DBState` under the
partition's `dbstate_mutex`. `RunNotify` takes an entry off the change list and
clears its flag, and checks it for removal in a later step, so that a
`ClearState` can come in between. Entries are numbered, a number never used
again once its entry is freed. Requests, the notification of listeners and the
table's deletion are not modeled. -/
namespace Contrail.Db

/-- The flags of a `DBEntryBase` and the listeners of its `DBState` map. -/
structure DBEntryBase where
  deleted : Bool
  onlist : Bool
  onremoveq : Bool
  state : List Nat
  deriving DecidableEq, Repr

def DBEntryBase.init : DBEntryBase :=
  { deleted := false, onlist := false, onremoveq := false, state := [] }

/-- Where the partition task is: free, or in `RunNotify` between taking an
entry off the change list and checking it for removal. -/
inductive PartitionPc
  | idle
  | runNotify (entry : Nat)
  deriving DecidableEq, Repr

/-- A `Remove` of an entry, with the entry as it was; `none` when it was not in
the tree, where `tree_.erase` fails and the process aborts. -/
structure Removal where
  entry : Nat
  found : Option DBEntryBase
  deriving DecidableEq, Repr

/-- The partition's tree, change list, remove queue and the table's `DBState`
counts, the partition task's place, and two records: the `Remove`s so far,
and the entries notified while not deleted that `RunNotify` has not yet taken. -/
structure TablePartition where
  hasListeners : Bool
  tree : List Nat
  entries : Nat → DBEntryBase
  changeList : List Nat
  removeQueue : List Nat
  dbStateCount : Nat → Int
  pc : PartitionPc
  removals : List Removal
  pending : Nat → Bool

namespace TablePartition

variable (p : TablePartition)

def init (hasListeners : Bool) : TablePartition :=
  { hasListeners, tree := [], entries := fun _ => DBEntryBase.init, changeList := [], removeQueue := [],
    dbStateCount := fun _ => 0, pc := .idle, removals := [], pending := fun _ => false }

@[simps]
def updateEntry (e : Nat) (f : DBEntryBase → DBEntryBase) : TablePartition :=
  { p with entries := Function.update p.entries e (f (p.entries e)) }

/-- `DBTablePartBase::Notify`: an entry already on the change list stays where it is. -/
@[simps]
def notify (e : Nat) : TablePartition :=
  let listed := (p.entries e).onlist
  { p with
    entries := if listed then p.entries else Function.update p.entries e { p.entries e with onlist := true }
    changeList := if listed then p.changeList else p.changeList ++ [e]
    pending := Function.update p.pending e (p.pending e || !(p.entries e).deleted) }

/-- `DBTablePartition::Remove`: the entry leaves the tree and is freed. -/
@[simps]
def remove (e : Nat) : TablePartition :=
  let found := if e ∈ p.tree then some (p.entries e) else none
  { p with tree := p.tree.erase e, removals := p.removals ++ [⟨e, found⟩] }

/-- `DBTablePartBase::Delete`: with no listener the entry is removed at once. -/
def delete (e : Nat) : TablePartition :=
  if p.hasListeners then (p.updateEntry e fun entry => { entry with deleted := true }).notify e
  else
    let unlisted := if (p.entries e).onlist then { p with changeList := p.changeList.erase e } else p
    unlisted.remove e

/-- `DBTablePartition::Add`. -/
def add (e : Nat) : TablePartition :=
  { p with tree := p.tree ++ [e], entries := Function.update p.entries e DBEntryBase.init }.notify e

/-- `DBEntryBase::ClearDelete`. -/
def clearDelete (e : Nat) : TablePartition :=
  p.updateEntry e fun entry => { entry with deleted := false }

/-- `DBEntryBase::SetState`: a listener's first state counts for the table. -/
def setState (l e : Nat) : TablePartition :=
  if l ∈ (p.entries e).state then p
  else { p.updateEntry e (fun entry => { entry with state := entry.state ++ [l] }) with
    dbStateCount := Function.update p.dbStateCount l (p.dbStateCount l + 1) }

/-- `DBPartition::EnqueueRemove`. -/
@[simps]
def enqueueRemove (e : Nat) : TablePartition :=
  { p.updateEntry e (fun entry => { entry with onremoveq := true }) with removeQueue := p.removeQueue ++ [e] }

/-- `DBEntryBase::ClearState`: the last state of a deleted entry off the
change list and off the remove queue sends it to the remove queue. -/
def clearState (l e : Nat) : TablePartition :=
  let cleared := { p.updateEntry e (fun entry => { entry with state := entry.state.erase l }) with
    dbStateCount := Function.update p.dbStateCount l (p.dbStateCount l - 1) }
  let entry := cleared.entries e
  if entry.state = [] ∧ entry.deleted ∧ !entry.onlist ∧ !entry.onremoveq then cleared.enqueueRemove e
  else cleared

/-- The first part of a `RunNotify` pass: the entry leaves the change list,
the table runs its listeners and the entry's flag is cleared. -/
def runNotifyTake : Option TablePartition :=
  match p.changeList with
  | [] => none
  | e :: rest =>
    some { p.updateEntry e (fun entry => { entry with onlist := false }) with
      changeList := rest, pending := Function.update p.pending e false, pc := .runNotify e }

/-- The rest of the pass: `is_state_empty`, then `IsOnRemoveQ`. -/
def runNotifyCheck (e : Nat) : TablePartition :=
  let entry := p.entries e
  let checked := { p with pc := .idle }
  if entry.deleted ∧ entry.state = [] ∧ !entry.onremoveq then checked.remove e else checked

/-- One remove request of `DBPartition::QueueRunner::Run`: an entry that is
no longer eligible is only unmarked. -/
def runRemoveQueue : Option TablePartition :=
  match p.removeQueue with
  | [] => none
  | e :: rest =>
    let taken := { p with removeQueue := rest }
    let entry := p.entries e
    if !entry.deleted || entry.onlist || entry.state ≠ [] then
      some (taken.updateEntry e fun entry => { entry with onremoveq := false })
    else some (taken.remove e)

end TablePartition

/-- The calls of the partition task, and of listeners in any task. -/
inductive DbAction
  | add (entry : Nat)
  | change (entry : Nat)
  | delete (entry : Nat)
  | clearDelete (entry : Nat)
  | runNotifyTake
  | runNotifyCheck
  | runRemoveQueue
  | setState (listener entry : Nat)
  | clearState (listener entry : Nat)
  deriving DecidableEq, Repr

namespace TablePartition

variable (p : TablePartition)

/-- The partition task starts a call only when it is free; an entry is added
under a number never used before; `SetState` of a new listener on a deleted
entry and `ClearState` of a listener without state fail their assertions. -/
def apply : DbAction → Option TablePartition
  | .add e =>
    if p.pc = .idle ∧ e ∉ p.tree ∧ e ∉ p.removals.map Removal.entry then some (p.add e) else none
  | .change e => if p.pc = .idle ∧ e ∈ p.tree then some (p.notify e) else none
  | .delete e => if p.pc = .idle ∧ e ∈ p.tree then some (p.delete e) else none
  | .clearDelete e =>
    if p.pc = .idle ∧ e ∈ p.tree ∧ (p.entries e).deleted then some (p.clearDelete e) else none
  | .runNotifyTake => if p.pc = .idle then p.runNotifyTake else none
  | .runNotifyCheck =>
    match p.pc with
    | .runNotify e => some (p.runNotifyCheck e)
    | .idle => none
  | .runRemoveQueue => if p.pc = .idle then p.runRemoveQueue else none
  | .setState l e =>
    if p.hasListeners ∧ e ∈ p.tree ∧ (l ∈ (p.entries e).state ∨ (p.entries e).deleted = false) then
      some (p.setState l e)
    else none
  | .clearState l e => if e ∈ p.tree ∧ l ∈ (p.entries e).state then some (p.clearState l e) else none

/-- The states a table partition reaches from its creation. -/
inductive Reachable : TablePartition → Prop
  | init (hasListeners : Bool) : Reachable (TablePartition.init hasListeners)
  | step {p next : TablePartition} (a : DbAction) : Reachable p → p.apply a = some next → Reachable next

def runActions : TablePartition → List DbAction → Option TablePartition
  | p, [] => some p
  | p, a :: rest => (p.apply a).bind fun next => runActions next rest

theorem Reachable.runActions {actions : List DbAction} :
    ∀ {p next : TablePartition}, p.Reachable → p.runActions actions = some next → next.Reachable := by
  induction actions with
  | nil =>
    intro p next reachable ran
    simp only [TablePartition.runActions, Option.some.injEq] at ran
    exact ran ▸ reachable
  | cons a rest ih =>
    intro p next reachable ran
    obtain ⟨middle, applied, ran⟩ := Option.bind_eq_some_iff.mp ran
    exact ih (.step a reachable applied) ran

/-- A run of actions from a reachable state that ends where `q` holds. -/
theorem Reachable.of_runActions {start : TablePartition} {actions : List DbAction} {q : TablePartition → Bool}
    (reachable : start.Reachable) (ran : (start.runActions actions).map q = some true) :
    ∃ p, p.Reachable ∧ q p = true := by
  cases final : start.runActions actions with
  | none => simp [final] at ran
  | some p =>
    simp only [final, Option.map_some, Option.some.injEq] at ran
    exact ⟨p, reachable.runActions final, ran⟩

end TablePartition

end Contrail.Db
