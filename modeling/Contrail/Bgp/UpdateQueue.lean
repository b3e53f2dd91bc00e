import Mathlib
import Contrail.Lib.ListOrder

/-! The update queue of a RibOut, `bgp/bgp_update_queue.cc`: a FIFO of
RouteUpdates and UpdateMarkers, the marker of each peer, and the timestamps.
A `RibPeerSet`, a bit set of peer indices, is a finite set of indices. An
`UpdateMarker`, a `RouteUpdate` and an `UpdateInfo` are named by numbers
standing for their addresses, the tail marker by `0`. The attribute set
`attr_set_` is not stored: it holds exactly the UpdateInfos of the
RouteUpdates on the FIFO, so it is computed from them. -/
namespace Contrail.Bgp

/-- An `UpdateInfo`: its address, the `BgpAttr` of its `RibOutAttr` (`0` for
none, a withdrawal) and the peers it is still to be sent to. -/
structure UpdateInfo where
  id : Nat
  attr : Nat
  target : Finset Nat
  deriving DecidableEq

structure RouteUpdate where
  tstamp : Nat
  updates : List UpdateInfo
  deriving DecidableEq

inductive UpdateEntry
  | marker (id : Nat)
  | update (id : Nat)
  deriving DecidableEq

def UpdateEntry.isMarker : UpdateEntry → Bool
  | .marker _ => true
  | .update _ => false

structure UpdateQueue where
  encodingIsXmpp : Bool
  tstamp : Nat
  markerCount : Nat
  queue : List UpdateEntry
  markers : Nat → Option Nat
  members : Nat → Finset Nat
  routes : Nat → RouteUpdate
  nextMarker : Nat

namespace UpdateQueue

def tailMarker : Nat := 0

/-- The constructor: the tail marker alone on the FIFO. -/
@[simps]
def init (encodingIsXmpp : Bool) : UpdateQueue :=
  { encodingIsXmpp, tstamp := 0, markerCount := 0, queue := [.marker tailMarker],
    markers := fun _ => none, members := fun _ => ∅, routes := fun _ => ⟨0, []⟩, nextMarker := 1 }

variable (q : UpdateQueue)

/-- `UpdateQueue::Enqueue`: stamp the RouteUpdate and append it; true when
the tail marker was the last entry. Inserting an UpdateInfo twice into the
attribute set fails its assertion. -/
def enqueue (u : Nat) (updates : List UpdateInfo) : Option (Bool × UpdateQueue) :=
  if (updates.map UpdateInfo.id).Nodup then
    some (decide (q.queue.getLast? = some (.marker tailMarker)),
      { q with tstamp := q.tstamp + 1, queue := q.queue ++ [.update u],
               routes := Function.update q.routes u ⟨q.tstamp + 1, updates⟩ })
  else none

/-- `UpdateQueue::Dequeue`. -/
@[simps]
def dequeue (u : Nat) : UpdateQueue :=
  { q with queue := q.queue.erase (.update u) }

/-- `UpdateQueue::NextUpdate`. -/
def nextUpdate (e : UpdateEntry) : Option Nat :=
  (ListOrder.after e q.queue).findSome? fun
    | .update u => some u
    | .marker _ => none

/-- `UpdateQueue::NextEntry`. -/
def nextEntry (e : UpdateEntry) : Option UpdateEntry :=
  (ListOrder.after e q.queue).head?

@[simps]
def setUpdates (u : Nat) (updates : List UpdateInfo) : UpdateQueue :=
  { q with routes := Function.update q.routes u { q.routes u with updates } }

/-- The attribute set: the UpdateInfos of the RouteUpdates on the FIFO. -/
def attrSet : List (Nat × UpdateInfo) :=
  q.queue.flatMap fun e =>
    match e with
    | .update u => (q.routes u).updates.map fun x => (u, x)
    | .marker _ => []

/-- The key of `UpdateByAttrCmp`: the attribute, or for XMPP only whether
there is one, then the timestamp and the addresses of the RouteUpdate and of
the UpdateInfo. -/
def attrKey (u : Nat) (x : UpdateInfo) : Nat × Nat × Nat × Nat :=
  (if q.encodingIsXmpp then (if x.attr = 0 then 0 else 1) else x.attr, (q.routes u).tstamp, u, x.id)

/-- The lexicographic order of the keys. -/
def keyLt : Nat × Nat × Nat × Nat → Nat × Nat × Nat × Nat → Bool
  | (a, t, u, i), (a', t', u', i') =>
    decide (a < a' ∨ a = a' ∧ (t < t' ∨ t = t' ∧ (u < u' ∨ u = u' ∧ i < i')))

/-- The member of the attribute set next after a key. -/
def attrSucc (k : Nat × Nat × Nat × Nat) : Option (Nat × UpdateInfo) :=
  q.attrSet.foldl (fun best e =>
    if keyLt k (q.attrKey e.1 e.2) then
      match best with
      | some b => if keyLt (q.attrKey e.1 e.2) (q.attrKey b.1 b.2) then some e else best
      | none => some e
    else best) none

/-- `UpdateQueue::AttrNext`: the next UpdateInfo if it belongs to another
RouteUpdate and has the same attribute, for XMPP the same reachability. -/
def attrNext (u : Nat) (x : UpdateInfo) : Option (Nat × UpdateInfo) :=
  match q.attrSucc (q.attrKey u x) with
  | none => none
  | some (v, y) =>
    if v = u then none
    else if q.encodingIsXmpp then (if (y.attr = 0 ↔ x.attr = 0) then some (v, y) else none)
    else if y.attr = x.attr then some (v, y) else none

/-- A new `UpdateMarker` with the given members. -/
def newMarker (members : Finset Nat) : Nat × UpdateQueue :=
  (q.nextMarker,
    { q with nextMarker := q.nextMarker + 1, members := Function.update q.members q.nextMarker members })

/-- Point each peer of a set at a marker, after the assertion that it had one. -/
def pointMarkers (bits : Finset Nat) (marker : Nat) : Option UpdateQueue :=
  if ∀ i ∈ bits, (q.markers i).isSome then
    some { q with markers := fun i => if i ∈ bits then some marker else q.markers i }
  else none

/-- `UpdateQueue::AddMarker`: a marker right after a RouteUpdate, its peers
pointed at it. -/
def addMarker (marker u : Nat) : Option UpdateQueue :=
  if q.members marker = ∅ then none
  else
    { q with markerCount := q.markerCount + 1,
             queue := ListOrder.insertAfter (fun _ => false) (.update u) (.marker marker) q.queue
    }.pointMarkers (q.members marker) marker

/-- `UpdateQueue::MoveMarker`: the tail marker also goes past the markers
right after the RouteUpdate. -/
@[simps]
def moveMarker (marker u : Nat) : UpdateQueue :=
  let skip : UpdateEntry → Bool := if marker = tailMarker then UpdateEntry.isMarker else fun _ => false
  { q with queue := ListOrder.insertAfter skip (.update u) (.marker marker) (q.queue.erase (.marker marker)) }

/-- `UpdateQueue::MarkerSplit`: a new marker for the split peers right before
the marker, which keeps the others. -/
def markerSplit (marker : Nat) (msplit : Finset Nat) : Option UpdateQueue :=
  if msplit = ∅ ∨ q.members marker \ msplit = ∅ then none
  else
    let (split, q') := q.newMarker msplit
    { q' with members := Function.update q'.members marker (q.members marker \ msplit),
              queue := ListOrder.insertBefore (.marker marker) (.marker split) q.queue,
              markerCount := q.markerCount + 1 }.pointMarkers msplit split

/-- `UpdateQueue::MarkerMerge`: the peers move from `src` to `dst`; an emptied
`src`, never the tail marker, leaves the FIFO. -/
def markerMerge (dst src : Nat) (bitset : Finset Nat) : Option UpdateQueue := do
  if bitset = ∅ then none
  let q' ← { q with members := Function.update q.members dst (q.members dst ∪ bitset) }.pointMarkers bitset dst
  let remaining := q'.members src \ bitset
  let q' := { q' with members := Function.update q'.members src remaining }
  if remaining = ∅ then
    if src = tailMarker then none
    else some { q' with queue := q'.queue.erase (.marker src), markerCount := q'.markerCount - 1 }
  else some q'

/-- `UpdateQueue::GetMarker`: asserts that the peer has a marker. -/
def getMarker (bit : Nat) : Option Nat := q.markers bit

/-- `UpdateQueue::Join`: a new peer starts at the tail marker; true when the
tail marker is not the last entry. -/
def join (bit : Nat) : Option (Bool × UpdateQueue) :=
  match q.markers bit with
  | some _ => none
  | none => some (decide (q.queue.getLast? ≠ some (.marker tailMarker)),
      { q with members := Function.update q.members tailMarker (insert bit (q.members tailMarker)),
               markers := Function.update q.markers bit (some tailMarker) })

/-- `UpdateQueue::Leave`: an emptied marker other than the tail marker leaves
the FIFO, `marker_count_` unchanged. -/
def leave (bit : Nat) : Option UpdateQueue :=
  match q.markers bit with
  | none => none
  | some marker =>
    let q' := { q with markers := Function.update q.markers bit none,
                       members := Function.update q.members marker ((q.members marker).erase bit) }
    if marker ≠ tailMarker ∧ (q.members marker).erase bit = ∅ then
      some { q' with queue := q'.queue.erase (.marker marker) }
    else some q'

end UpdateQueue

end Contrail.Bgp
