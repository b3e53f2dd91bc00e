import Contrail.Bgp.UpdateQueue

/-! The dequeue side of `bgp/bgp_ribout_updates.cc` and the parts of
`bgp/bgp_update_monitor.cc` it calls, on one update queue. The outcomes of
building and sending messages and the send-ready peers are arbitrary, given as
`Outcomes`; the history of advertisements, the DB state of the routes and the
`UpdateList`s are left out. The dequeue loops walk the FIFO with a fuel of
twice its length: each pass leaves an entry behind, and at most one marker is
added for each RouteUpdate. -/
namespace Contrail.Bgp

/-- What happens to one message: whether `Message::Start` fits the first
route, how many more routes `AddRoute` takes, which peers `SendUpdate`
reports blocked. -/
structure MessageOutcome where
  built : Bool
  room : Nat
  blocked : Finset Nat

/-- The outcomes during one dequeue: the message built for each UpdateInfo of
each RouteUpdate, the send-ready peers when each marker is looked at, and the
peers that `FlushUpdate` reports blocked. -/
structure Outcomes where
  message : Nat → Nat → MessageOutcome
  ready : Nat → Finset Nat
  flushBlocked : Finset Nat

namespace UpdateQueue

variable (q : UpdateQueue)

/-- `RibOutUpdates::ClearAdvertisedBits` on an UpdateInfo of a RouteUpdate:
reset the peers sent to; true when none is left. -/
def clearAdvertisedBits (u id : Nat) (isect : Finset Nat) : Bool × UpdateQueue :=
  let updates := (q.routes u).updates.map fun x => if x.id = id then { x with target := x.target \ isect } else x
  (updates.any fun x => decide (x.id = id ∧ x.target = ∅), q.setUpdates u updates)

/-- `RouteUpdate::RemoveUpdateInfo`; true when no UpdateInfo is left. -/
def removeUpdateInfo (u id : Nat) : Bool × UpdateQueue :=
  let updates := (q.routes u).updates.filter fun x => x.id ≠ id
  (updates.isEmpty, q.setUpdates u updates)

/-- `RibOutUpdates::ClearUpdate`, through `RibUpdateMonitor::DequeueUpdate`. -/
def clearUpdate (u : Nat) : UpdateQueue := q.dequeue u

/-- The callers of `ClearUpdate` first check `update->empty()`. -/
def clearUpdateIfEmpty (u : Nat) : UpdateQueue :=
  if (q.routes u).updates = [] then q.clearUpdate u else q

/-- The UpdateInfos that `UpdatePack` reaches by `AttrNext`, at most `fuel`. -/
def attrChain : Nat → Nat → UpdateInfo → List (Nat × UpdateInfo)
  | 0, _, _ => []
  | fuel + 1, u, x =>
    match q.attrNext u x with
    | none => []
    | some (v, y) => (v, y) :: attrChain fuel v y

/-- The UpdateInfo added to a message is cleared of its peers; left without
target it is removed, and a RouteUpdate left without UpdateInfo is cleared. -/
def clearPacked (v id : Nat) (msgset : Finset Nat) : UpdateQueue :=
  let cleared := q.clearAdvertisedBits v id msgset
  if cleared.1 then
    let removed := cleared.2.removeUpdateInfo v id
    if removed.1 then removed.2.clearUpdate v else removed.2
  else cleared.2

/-- The loop of `UpdatePack` over the UpdateInfos after the first: one whose
target holds all of `msgset` is added while the message has room. -/
def packRoutes (msgset : Finset Nat) : Nat → List (Nat × UpdateInfo) → UpdateQueue → UpdateQueue
  | _, [], q => q
  | room, (v, y) :: rest, q =>
    if msgset ⊆ y.target then
      match room with
      | 0 => q
      | room + 1 => packRoutes msgset room rest (q.clearPacked v y.id msgset)
    else packRoutes msgset room rest q

/-- `RibOutUpdates::UpdatePack`; the chain has at most as many members as the
attribute set. -/
def updatePack (u : Nat) (x : UpdateInfo) (msgset : Finset Nat) (room : Nat) : UpdateQueue :=
  packRoutes msgset room (q.attrChain q.attrSet.length u x) q

/-- `RibOutUpdates::UpdateMarkersOnBlocked`: true when all the marker's peers
are blocked and the marker moves after the RouteUpdate; otherwise the blocked
peers get a new marker there. -/
def updateMarkersOnBlocked (marker u : Nat) (blocked : Finset Nat) : Option (Bool × UpdateQueue) :=
  if blocked = ∅ then none
  else if q.members marker = blocked then some (true, q.moveMarker marker u)
  else if q.members marker \ blocked = ∅ then none
  else
    let (created, q') := { q with members := Function.update q.members marker (q.members marker \ blocked)
      }.newMarker blocked
    (q'.addMarker created u).map fun q' => (false, q')

/-- `RibUpdateMonitor::GetNextUpdate`: past the last RouteUpdate the tail
marker moves after it. -/
def getNextUpdate (e : UpdateEntry) : Option Nat × UpdateQueue :=
  match q.nextUpdate e, e with
  | none, .update u => (none, q.moveMarker tailMarker u)
  | next, _ => (next, q)

/-- `RibOutUpdates::UpdateFlush`, skipped for XMPP. -/
def updateFlush (o : Outcomes) (dst blocked : Finset Nat) : Finset Nat :=
  if q.encodingIsXmpp then blocked else blocked ∪ (dst ∩ o.flushBlocked)

def walkFuel : Nat := 2 * q.queue.length

end UpdateQueue

open UpdateQueue

/-- The loop of `DequeueCommon` over the UpdateInfos of `u`: those passed are
`done`, the RouteUpdate holding `done ++ rest`. A message goes to the peers of
both the target and the marker; its UpdateInfo is then cleared of them. -/
def dequeueInfos (o : Outcomes) (marker u : Nat) (done : List UpdateInfo) :
    List UpdateInfo → Finset Nat → UpdateQueue → Finset Nat × UpdateQueue
  | [], rtBlocked, q => (rtBlocked, q)
  | x :: rest, rtBlocked, q =>
    let msgset := x.target ∩ q.members marker
    if msgset = ∅ then dequeueInfos o marker u (done ++ [x]) rest rtBlocked q
    else
      let msg := o.message u x.id
      let q := if msg.built then q.updatePack u x msgset msg.room else q
      let msgBlocked := if msg.built then msgset ∩ msg.blocked else ∅
      let x := { x with target := x.target \ msgset }
      let done := if x.target = ∅ then done else done ++ [x]
      dequeueInfos o marker u done rest (rtBlocked ∪ msgBlocked) (q.setUpdates u (done ++ rest))

/-- `RibOutUpdates::DequeueCommon`: the blocked peers, and false when all the
marker's peers got blocked. -/
def dequeueCommon (o : Outcomes) (q : UpdateQueue) (marker u : Nat) : Option (Bool × Finset Nat × UpdateQueue) :=
  let (rtBlocked, q) := dequeueInfos o marker u [] (q.routes u).updates ∅ q
  if rtBlocked = ∅ then some (true, ∅, q)
  else (q.updateMarkersOnBlocked marker u rtBlocked).map fun (allBlocked, q) => (!allBlocked, rtBlocked, q)

/-- The loop of `RibOutUpdates::TailDequeue` from the RouteUpdate `u`. -/
def tailDequeueLoop (o : Outcomes) : Nat → UpdateQueue → Nat → Finset Nat →
    Option (Bool × Finset Nat × UpdateQueue)
  | 0, _, _, _ => none
  | fuel + 1, q, u, blocked => do
    let (more, rtBlocked, q) ← dequeueCommon o q tailMarker u
    let blocked := blocked ∪ rtBlocked
    if !more then return (false, blocked, q.clearUpdateIfEmpty u)
    let (next, q) := q.getNextUpdate (.update u)
    let q := q.clearUpdateIfEmpty u
    match next with
    | none => return (true, blocked, q)
    | some v => tailDequeueLoop o fuel q v blocked

/-- `RibOutUpdates::TailDequeue` for the in-sync peers `msync`: whether some
peer is not blocked, the blocked peers and the peers of the tail marker not in
sync, which get a marker of their own. -/
def tailDequeue (o : Outcomes) (msync : Finset Nat) (q : UpdateQueue) :
    Option ((Bool × Finset Nat × Finset Nat) × UpdateQueue) :=
  let (update, q) := q.getNextUpdate (.marker tailMarker)
  match update with
  | none => some ((true, ∅, ∅), q)
  | some u =>
    let unsync := q.members tailMarker \ msync
    if unsync = q.members tailMarker then some ((false, ∅, unsync), q)
    else do
      let q ← if unsync = ∅ then some q else q.markerSplit tailMarker unsync
      let members := q.members tailMarker
      let (more, blocked, q) ← tailDequeueLoop o q.walkFuel q u ∅
      if more then
        let blocked := q.updateFlush o members blocked
        return ((decide (members ≠ blocked), blocked, unsync), q)
      else return ((false, blocked, unsync), q)

/-- The loop of `RibOutUpdates::PeerDequeue` from the entry `e`: RouteUpdates
are sent to the peers of the marker `start`, which takes in the send-ready
peers of the markers it passes and joins the tail marker on reaching it. -/
def peerDequeueLoop (o : Outcomes) (start : Nat) : Nat → UpdateQueue → UpdateEntry → Finset Nat →
    Finset Nat → Option (Finset Nat × Finset Nat × UpdateQueue)
  | 0, _, _, _, _ => none
  | fuel + 1, q, .marker m, members, blocked =>
    if m = tailMarker then do
      let q ← q.markerMerge tailMarker start (q.members start)
      return (members, blocked, q)
    else do
      let next := q.nextEntry (.marker m)
      let mmove := q.members m ∩ o.ready m
      let (q, members) ← if mmove = ∅ then some (q, members)
        else (q.markerMerge start m mmove).map fun q => (q, members ∪ mmove)
      match next with
      | none => return (members, blocked, q)
      | some e => peerDequeueLoop o start fuel q e members blocked
  | fuel + 1, q, .update u, members, blocked => do
    let (more, rtBlocked, q) ← dequeueCommon o q start u
    let blocked := blocked ∪ rtBlocked
    if !more then return (members, blocked, q.clearUpdateIfEmpty u)
    let next := q.nextEntry (.update u)
    let q := q.clearUpdateIfEmpty u
    match next with
    | none => return (members, blocked, q)
    | some e => peerDequeueLoop o start fuel q e members blocked

/-- `RibOutUpdates::PeerDequeue` for the peer with index `peer`: whether some
peer is not blocked, and the blocked peers. -/
def peerDequeue (o : Outcomes) (peer : Nat) (q : UpdateQueue) : Option ((Bool × Finset Nat) × UpdateQueue) := do
  let start ← q.getMarker peer
  if start = tailMarker then return ((true, ∅), q)
  let mready := q.members start ∩ o.ready start
  if peer ∉ mready then return ((false, {peer}), q)
  let notready := q.members start \ mready
  let q ← if notready = ∅ then some q else q.markerSplit start notready
  let e ← q.nextEntry (.marker start)
  let (members, blocked, q) ← peerDequeueLoop o start q.walkFuel q e (q.members start) ∅
  let blocked := q.updateFlush o members blocked
  return ((decide (members ≠ blocked), blocked), q)

namespace UpdateQueue

variable (q : UpdateQueue)

/-- `RibUpdateMonitor::UpdateInfoSListClearBits` on a queued RouteUpdate,
which `RouteUpdateClearPeerSet` and `UpdateListClearPeerSet` dequeue once it
has no UpdateInfo left. -/
def clearPeerSet (u : Nat) (mleave : Finset Nat) : UpdateQueue :=
  let updates := ((q.routes u).updates.map fun x => { x with target := x.target \ mleave }).filter
    fun x => x.target ≠ ∅
  if updates = [] then (q.setUpdates u updates).dequeue u else q.setUpdates u updates

end UpdateQueue

/-- The calls that change one update queue: peers joining and leaving the
RibOut, the export and the leave walk through `RibUpdateMonitor` enqueueing,
dequeueing and clearing peers from RouteUpdates, and the two dequeues of the
sender. -/
inductive QueueOp
  | join (bit : Nat)
  | leave (bit : Nat)
  | enqueue (update : Nat) (updates : List UpdateInfo)
  | dequeue (update : Nat)
  | clearPeerSet (update : Nat) (mleave : Finset Nat)
  | tailDequeue (msync : Finset Nat) (o : Outcomes)
  | peerDequeue (peer : Nat) (o : Outcomes)

/-- An update queue and the peers that joined it and have not left. -/
structure QueueState where
  queue : UpdateQueue
  joined : Finset Nat

namespace QueueState

/-- A peer joins once the leave walk of the previous holder of its index has
cleared it from every UpdateInfo, export targeting only active peers; the
monitor enqueues a RouteUpdate that is on no queue and dequeues or clears one
that is. -/
def apply (s : QueueState) : QueueOp → Option QueueState
  | .join bit =>
    if ∀ p ∈ s.queue.attrSet, bit ∉ p.2.target then
      (s.queue.join bit).map fun (_, q) => ⟨q, insert bit s.joined⟩
    else none
  | .leave bit => (s.queue.leave bit).map fun q => ⟨q, s.joined.erase bit⟩
  | .enqueue u updates =>
    if .update u ∉ s.queue.queue then (s.queue.enqueue u updates).map fun (_, q) => ⟨q, s.joined⟩ else none
  | .dequeue u => if .update u ∈ s.queue.queue then some ⟨s.queue.dequeue u, s.joined⟩ else none
  | .clearPeerSet u mleave =>
    if .update u ∈ s.queue.queue then some ⟨s.queue.clearPeerSet u mleave, s.joined⟩ else none
  | .tailDequeue msync o => (tailDequeue o msync s.queue).map fun (_, q) => ⟨q, s.joined⟩
  | .peerDequeue peer o => (peerDequeue o peer s.queue).map fun (_, q) => ⟨q, s.joined⟩

inductive Reachable : QueueState → Prop
  | init (encodingIsXmpp : Bool) : Reachable ⟨UpdateQueue.init encodingIsXmpp, ∅⟩
  | step {s s' : QueueState} (op : QueueOp) : Reachable s → s.apply op = some s' → Reachable s'

/-- The operations in order from a state. -/
def run (s : QueueState) : List QueueOp → Option QueueState
  | [] => some s
  | op :: ops => (s.apply op).bind (·.run ops)

theorem Reachable.run {s s' : QueueState} (reach : s.Reachable) :
    ∀ {ops : List QueueOp}, s.run ops = some s' → s'.Reachable := by
  intro ops
  induction ops generalizing s with
  | nil =>
    intro ran
    cases ran
    exact reach
  | cons op ops ih =>
    intro ran
    obtain ⟨s₁, step, rest⟩ := Option.bind_eq_some_iff.mp ran
    exact ih (.step op reach step) rest

end QueueState

end Contrail.Bgp
