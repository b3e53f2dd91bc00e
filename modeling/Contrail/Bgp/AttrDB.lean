import Mathlib

/-! `BgpPathAttributeDB` of `bgp/bgp_attr_base.h`, which interns path
attributes, with the reference counts of `bgp/bgp_attr.h`
(`intrusive_ptr_add_ref`, `intrusive_ptr_del_ref`, `intrusive_ptr_release`).
The database is `hash_size_` sets of attribute pointers, each under its own
mutex; `Locate` inserts a freshly allocated attribute or takes the equivalent
entry, and the last `intrusive_ptr_release` of an entry erases it from its set
(taking the mutex) and deletes it. Threads step at the granularity of one
mutex operation, one set operation or one atomic operation on `refcount_`; a
thread that finds its mutex taken stays where it is. The attribute type is a
parameter with its `CompareTo` and `hash_value`. -/
namespace Contrail.Bgp

/-- An attribute on the heap: its contents, `refcount_`, and whether it has been
deleted. -/
structure AttrObject (α : Type) where
  contents : α
  refcount : Int
  freed : Bool

/-- Where a thread is in the loop of `LocateInternal`. -/
inductive LocatePc
  /-- The top of the loop: `scoped_lock lock(mutex_[hash])`. -/
  | lock
  | insert
  | addRef (entry : Nat) (inserted : Bool)
  /-- `prev > 0`: `delete attr`. -/
  | deleteAttr (entry : Nat)
  /-- `TypePtr(*ret.first)`. -/
  | takePtr (entry : Nat)
  | delRef (entry : Nat) (returning : Bool)
  /-- The end of the scope of `lock`, returning the pointer or retrying. -/
  | unlock (entry : Nat) (returning : Bool)
  deriving DecidableEq, Repr

/-- Where a thread is in `intrusive_ptr_release` after its decrement found 1:
`Remove` (that is `Delete`), the assertion and the deletion. -/
inductive RemovePc
  | lock (hash : Nat)
  | erase (hash : Nat)
  | unlock (hash : Nat)
  | assertZero
  | delete
  deriving DecidableEq, Repr

/-- A thread: in `Locate` of the object `attr` whose contents were `requested`,
holding a pointer `Locate` returned, or removing an entry. -/
inductive ThreadPc (α : Type)
  | idle
  | locate (attr hash : Nat) (requested : α) (pc : LocatePc)
  | holding (entry : Nat) (requested : α)
  | remove (entry : Nat) (pc : RemovePc)

/-- The database, the heap of attributes and the threads. `set` and `mutex`
are `set_` and `mutex_`, arrays of `hashSize` elements; a mutex holds the
thread that has it. Threads from `spawned` on have not started. -/
structure BgpPathAttributeDB (α : Type) where
  hashSize : Nat
  objects : Nat → Option (AttrObject α)
  nextObject : Nat
  set : Nat → List Nat
  mutex : Nat → Option Nat
  threads : Nat → ThreadPc α
  spawned : Nat

/-- What the code does that it must not: a failed `assert`, a use of a deleted
attribute, an index past the end of `set_` or `mutex_`. -/
inductive DBFault
  | assertion
  | useAfterFree
  | outOfBounds
  deriving DecidableEq, Repr

variable {α : Type} (compareTo : α → α → Int) (hashValue : α → Nat)

/-- `BgpPathAttributeDB::HashCompute` on the contents of an attribute. -/
def hashCompute (hashSize : Nat) (attr : α) : Nat :=
  if hashSize ≤ 1 then 0 else hashValue attr % hashSize

/-- The keys `std::set<Type *, TypeCompare>` takes as one: neither is
`CompareTo`-less than the other. -/
def equivalent (a b : α) : Bool :=
  !decide (compareTo a b < 0) && !decide (compareTo b a < 0)

namespace BgpPathAttributeDB

/-- The constructor: empty sets, free mutexes, no attributes, no threads. -/
def init (hashSize : Nat) : BgpPathAttributeDB α :=
  { hashSize, objects := fun _ => none, nextObject := 0, set := fun _ => [],
    mutex := fun _ => none, threads := fun _ => .idle, spawned := 0 }

/-- The contents of an attribute that is allocated and not deleted. -/
def contentsOf (db : BgpPathAttributeDB α) (id : Nat) : Option α :=
  match db.objects id with
  | some obj => if obj.freed then none else some obj.contents
  | none => none

/-- Reading an attribute: its contents, unless it has been deleted. -/
def read (db : BgpPathAttributeDB α) (id : Nat) : Except DBFault α :=
  match db.contentsOf id with
  | some contents => .ok contents
  | none => .error .useAfterFree

/-- An atomic `fetch_and_add` on `refcount_`: the previous count. -/
def fetchAndAdd (db : BgpPathAttributeDB α) (id : Nat) (delta : Int) :
    Except DBFault (Int × BgpPathAttributeDB α) :=
  match db.objects id with
  | some obj =>
    if obj.freed then .error .useAfterFree
    else .ok (obj.refcount,
      { db with objects := Function.update db.objects id
                  (some { obj with refcount := obj.refcount + delta }) })
  | none => .error .useAfterFree

/-- `delete` of an attribute. -/
def free (db : BgpPathAttributeDB α) (id : Nat) : Except DBFault (BgpPathAttributeDB α) :=
  match db.objects id with
  | some obj =>
    if obj.freed then .error .useAfterFree
    else .ok { db with objects := Function.update db.objects id (some { obj with freed := true }) }
  | none => .error .useAfterFree

/-- The contents of the entries of a set, each of which the set's comparisons read. -/
def entries (db : BgpPathAttributeDB α) (hash : Nat) : Except DBFault (List (Nat × α)) :=
  (db.set hash).mapM fun e => do return (e, ← db.read e)

/-- `set_[hash].insert(attr)`: the entry equivalent to `attr` and `false`, or
`attr` itself, inserted, and `true`. -/
def setInsert (db : BgpPathAttributeDB α) (hash attr : Nat) :
    Except DBFault (Nat × Bool × BgpPathAttributeDB α) := do
  let key ← db.read attr
  let present ← db.entries hash
  match present.find? fun entry => equivalent compareTo entry.2 key with
  | some entry => return (entry.1, false, db)
  | none => return (attr, true, { db with set := Function.update db.set hash (attr :: db.set hash) })

/-- `set_[hash].erase(attr)`: erase the entries equivalent to `attr`. -/
def setErase (db : BgpPathAttributeDB α) (hash attr : Nat) :
    Except DBFault (BgpPathAttributeDB α) := do
  let key ← db.read attr
  let present ← db.entries hash
  return { db with
    set := Function.update db.set hash
      ((present.filter fun entry => !equivalent compareTo entry.2 key).map (·.1)) }

def setThread (db : BgpPathAttributeDB α) (t : Nat) (pc : ThreadPc α) : BgpPathAttributeDB α :=
  { db with threads := Function.update db.threads t pc }

/-- `scoped_lock lock(mutex_[hash])`: taken when free, else the thread waits. -/
def lockThen (db : BgpPathAttributeDB α) (t hash : Nat) (pc : ThreadPc α) :
    Except DBFault (BgpPathAttributeDB α) :=
  if db.hashSize ≤ hash then .error .outOfBounds
  else if db.mutex hash = none then
    .ok { db with mutex := Function.update db.mutex hash (some t),
                  threads := Function.update db.threads t pc }
  else .ok db

def unlockThen (db : BgpPathAttributeDB α) (t hash : Nat) (pc : ThreadPc α) :
    BgpPathAttributeDB α :=
  { db with mutex := Function.update db.mutex hash none,
            threads := Function.update db.threads t pc }

/-- One step of `LocateInternal` for thread `t` locating `attr` in `set_[hash]`. -/
def stepLocate (db : BgpPathAttributeDB α) (t attr hash : Nat) (requested : α) :
    LocatePc → Except DBFault (BgpPathAttributeDB α)
  | .lock => db.lockThen t hash (.locate attr hash requested .insert)
  | .insert => do
    let (entry, inserted, db) ← db.setInsert compareTo hash attr
    return db.setThread t (.locate attr hash requested (.addRef entry inserted))
  | .addRef entry inserted => do
    let (prev, db) ← db.fetchAndAdd entry 1
    let pc := if inserted then .takePtr entry
      else if prev > 0 then .deleteAttr entry
      else .delRef entry false
    return db.setThread t (.locate attr hash requested pc)
  | .deleteAttr entry => do
    let db ← db.free attr
    return db.setThread t (.locate attr hash requested (.takePtr entry))
  | .takePtr entry => do
    let (_, db) ← db.fetchAndAdd entry 1
    return db.setThread t (.locate attr hash requested (.delRef entry true))
  | .delRef entry returning => do
    let (_, db) ← db.fetchAndAdd entry (-1)
    return db.setThread t (.locate attr hash requested (.unlock entry returning))
  | .unlock entry returning =>
    return db.unlockThen t hash
      (if returning then .holding entry requested else .locate attr hash requested .lock)

/-- One step of `Remove` and the rest of `intrusive_ptr_release` for thread `t`. -/
def stepRemove (db : BgpPathAttributeDB α) (t entry : Nat) :
    RemovePc → Except DBFault (BgpPathAttributeDB α)
  | .lock hash => db.lockThen t hash (.remove entry (.erase hash))
  | .erase hash => do
    let db ← db.setErase compareTo hash entry
    return db.setThread t (.remove entry (.unlock hash))
  | .unlock hash => return db.unlockThen t hash (.remove entry .assertZero)
  | .assertZero =>
    match db.objects entry with
    | some obj =>
      if obj.freed then .error .useAfterFree
      else if obj.refcount = 0 then .ok (db.setThread t (.remove entry .delete))
      else .error .assertion
    | none => .error .useAfterFree
  | .delete => do
    let db ← db.free entry
    return db.setThread t .idle

/-- `Locate` of a freshly allocated attribute with the given contents, by an
idle thread; `HashCompute` is taken before the loop. -/
def locate (db : BgpPathAttributeDB α) (t : Nat) (contents : α) : BgpPathAttributeDB α :=
  match db.threads t with
  | .idle =>
    let attr := db.nextObject
    { db with
      objects := Function.update db.objects attr (some ⟨contents, 0, false⟩)
      nextObject := attr + 1
      threads := Function.update db.threads t
        (.locate attr (hashCompute hashValue db.hashSize contents) contents .lock)
      spawned := max db.spawned (t + 1) }
  | _ => db

/-- `intrusive_ptr_release` of the pointer a thread holds: the decrement, and
when it found 1, the hash `Remove` locks. -/
def release (db : BgpPathAttributeDB α) (t : Nat) : Except DBFault (BgpPathAttributeDB α) :=
  match db.threads t with
  | .holding entry _ => do
    let (prev, db) ← db.fetchAndAdd entry (-1)
    if prev = 1 then
      let contents ← db.read entry
      return db.setThread t (.remove entry (.lock (hashCompute hashValue db.hashSize contents)))
    else return db.setThread t .idle
  | _ => .ok db

/-- The next step of a thread inside `Locate` or `intrusive_ptr_release`. -/
def run (db : BgpPathAttributeDB α) (t : Nat) : Except DBFault (BgpPathAttributeDB α) :=
  match db.threads t with
  | .locate attr hash requested pc => db.stepLocate compareTo t attr hash requested pc
  | .remove entry pc => db.stepRemove compareTo t entry pc
  | _ => .ok db

end BgpPathAttributeDB

/-- What the threads do: start a `Locate`, release the pointer they hold, or
take their next step. -/
inductive AttrAction (α : Type)
  | locate (t : Nat) (contents : α)
  | release (t : Nat)
  | run (t : Nat)

namespace BgpPathAttributeDB

def apply (db : BgpPathAttributeDB α) : AttrAction α → Except DBFault (BgpPathAttributeDB α)
  | .locate t contents => .ok (db.locate hashValue t contents)
  | .release t => db.release hashValue t
  | .run t => db.run compareTo t

/-- The states a database reaches from its construction, over steps that do
not fault. -/
inductive Reachable : BgpPathAttributeDB α → Prop
  | init (hashSize : Nat) : Reachable (init hashSize)
  | step {db next : BgpPathAttributeDB α} (a : AttrAction α) :
      Reachable db → db.apply compareTo hashValue a = .ok next → Reachable next

end BgpPathAttributeDB

end Contrail.Bgp
