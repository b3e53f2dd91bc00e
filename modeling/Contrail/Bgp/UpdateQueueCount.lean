import Mathlib
import Contrail.Bgp.UpdateQueueSafety

/-! `marker_count_` of `bgp/bgp_update_queue.cc` against the markers on the
FIFO. The calls on one update queue are taken with what the source needs of
their arguments: its assertions, and the entries that `iterator_to` finds on
the FIFO (the marker merged away or moved, the RouteUpdate a marker goes after
or that leaves, a RouteUpdate enqueued only once). After any sequence of
calls the counter is the number of markers on the FIFO other than the tail
marker plus the number of markers that `Leave` took off it, which it does
without lowering the counter. -/
namespace Contrail.Bgp

/-- An UpdateMarker other than the tail marker. -/
def UpdateEntry.isCountedMarker : UpdateEntry → Bool
  | .marker m => m != UpdateQueue.tailMarker
  | .update _ => false

namespace UpdateQueue

open ListOrder

variable {q q' : UpdateQueue}

/-- The UpdateMarkers on the FIFO other than the tail marker. -/
def markersOnQueue (q : UpdateQueue) : Nat := q.queue.countP UpdateEntry.isCountedMarker

/-- Whether `Leave` of the peer takes its marker off the FIFO. -/
def leaveDrops (q : UpdateQueue) (bit : Nat) : Bool :=
  match q.markers bit with
  | some m => m != tailMarker && decide ((q.members m).erase bit = ∅)
  | none => false

end UpdateQueue

open UpdateQueue

/-- The calls on an update queue; the marker that `AddMarker` places is made
by its caller with the given peers. -/
inductive QueueCall
  | join (bit : Nat)
  | leave (bit : Nat)
  | addMarker (members : Finset Nat) (update : Nat)
  | markerSplit (marker : Nat) (msplit : Finset Nat)
  | markerMerge (dst src : Nat) (bitset : Finset Nat)
  | moveMarker (marker update : Nat)
  | enqueue (update : Nat) (updates : List UpdateInfo)
  | dequeue (update : Nat)

namespace QueueCall

/-- A call, none when an assertion fails or an entry the call needs on the
FIFO is not there; a marker is merged into another one. -/
def apply (q : UpdateQueue) : QueueCall → Option UpdateQueue
  | .join bit => (q.join bit).map Prod.snd
  | .leave bit => q.leave bit
  | .addMarker members u =>
    if .update u ∈ q.queue then (q.newMarker members).2.addMarker q.nextMarker u else none
  | .markerSplit marker msplit =>
    if .marker marker ∈ q.queue then q.markerSplit marker msplit else none
  | .markerMerge dst src bitset =>
    if .marker dst ∈ q.queue ∧ .marker src ∈ q.queue ∧ dst ≠ src then q.markerMerge dst src bitset
    else none
  | .moveMarker marker u =>
    if .marker marker ∈ q.queue ∧ .update u ∈ q.queue then some (q.moveMarker marker u) else none
  | .enqueue u updates => if .update u ∉ q.queue then (q.enqueue u updates).map Prod.snd else none
  | .dequeue u => if .update u ∈ q.queue then some (q.dequeue u) else none

/-- The markers a call takes off the FIFO without counting them down. -/
def dropped (q : UpdateQueue) : QueueCall → Nat
  | .leave bit => if q.leaveDrops bit then 1 else 0
  | _ => 0

end QueueCall

/-- The queues that calls from construction reach, with the number of markers
`Leave` took off the FIFO. -/
inductive CallReachable : UpdateQueue → Nat → Prop
  | init (encodingIsXmpp : Bool) : CallReachable (UpdateQueue.init encodingIsXmpp) 0
  | step {q q' : UpdateQueue} {dropped : Nat} (c : QueueCall) :
      CallReachable q dropped → c.apply q = some q' → CallReachable q' (dropped + c.dropped q)

/-- Calls in order from a queue, counting the markers `Leave` takes off the FIFO. -/
def QueueCall.run : UpdateQueue × Nat → List QueueCall → Option (UpdateQueue × Nat)
  | s, [] => some s
  | (q, dropped), c :: calls => (c.apply q).bind fun q' => QueueCall.run (q', dropped + c.dropped q) calls

theorem CallReachable.run {q : UpdateQueue} {dropped : Nat} (reach : CallReachable q dropped) :
    ∀ {calls : List QueueCall} {q' : UpdateQueue} {dropped' : Nat},
      QueueCall.run (q, dropped) calls = some (q', dropped') → CallReachable q' dropped' := by
  intro calls
  induction calls generalizing q dropped with
  | nil =>
    intro q' dropped' ran
    cases ran
    exact reach
  | cons c calls ih =>
    intro q' dropped' ran
    obtain ⟨q₁, step, rest⟩ := Option.bind_eq_some_iff.mp ran
    exact ih (.step c reach step) rest

namespace UpdateQueue

open ListOrder

variable {q q' : UpdateQueue}

/-- What the calls keep of the layout: each entry once, the tail marker on the
FIFO, fresh marker numbers, and each peer's marker on the FIFO holding it. -/
structure CallLayout (q : UpdateQueue) : Prop where
  nodup : q.queue.Nodup
  tail_mem : .marker tailMarker ∈ q.queue
  fresh : ∀ {m}, .marker m ∈ q.queue → m < q.nextMarker
  marker_mem : ∀ {i m}, q.markers i = some m → .marker m ∈ q.queue ∧ i ∈ q.members m

theorem callLayout_init (encodingIsXmpp : Bool) : (init encodingIsXmpp).CallLayout where
  nodup := by simp
  tail_mem := by simp
  fresh := by simp [tailMarker]
  marker_mem := by simp

/-! ## Counting markers -/

theorem markersOnQueue_of_perm {e : UpdateEntry} (perm : q'.queue.Perm (e :: q.queue)) :
    q'.markersOnQueue = q.markersOnQueue + if e.isCountedMarker then 1 else 0 := by
  rw [markersOnQueue, markersOnQueue, perm.countP_eq, List.countP_cons]

theorem countP_counted_erase {l : List UpdateEntry} {e : UpdateEntry} (present : e ∈ l) :
    l.countP UpdateEntry.isCountedMarker =
      (l.erase e).countP UpdateEntry.isCountedMarker + if e.isCountedMarker then 1 else 0 := by
  rw [(List.perm_cons_erase present).countP_eq, List.countP_cons]

theorem CallLayout.nextMarker_pos (lay : q.CallLayout) : tailMarker < q.nextMarker :=
  lay.fresh lay.tail_mem

/-! ## The calls -/

theorem CallLayout.join (lay : q.CallLayout) {bit : Nat} {r : Bool × UpdateQueue}
    (joined : q.join bit = some r) : r.2.CallLayout ∧ r.2.markerCount = q.markerCount ∧
      r.2.markersOnQueue = q.markersOnQueue := by
  unfold UpdateQueue.join at joined
  split at joined
  · cases joined
  · cases joined
    refine ⟨⟨lay.nodup, lay.tail_mem, lay.fresh, fun {i m} pointed => ?_⟩, rfl, rfl⟩
    dsimp only at pointed ⊢
    by_cases same : i = bit
    · subst same
      simp only [Function.update_self, Option.some.injEq] at pointed
      subst pointed
      simp [lay.tail_mem]
    · rw [Function.update_of_ne same] at pointed
      obtain ⟨onQueue, member⟩ := lay.marker_mem pointed
      refine ⟨onQueue, ?_⟩
      by_cases atTail : m = tailMarker
      · subst atTail
        simp [member]
      · simpa [Function.update_of_ne atTail] using member

theorem CallLayout.leave (lay : q.CallLayout) {bit : Nat} (left : q.leave bit = some q') :
    q'.CallLayout ∧ q'.markerCount = q.markerCount ∧
      q.markersOnQueue = q'.markersOnQueue + if q.leaveDrops bit then 1 else 0 := by
  unfold UpdateQueue.leave at left
  split at left
  · cases left
  · rename_i m pointed
    have drops : q.leaveDrops bit = (m != tailMarker && decide ((q.members m).erase bit = ∅)) := by
      simp [leaveDrops, pointed]
    obtain ⟨onQueue, -⟩ := lay.marker_mem pointed
    -- a peer still pointing at `m` is one of its members other than `bit`
    have others : ∀ {i m'}, (Function.update q.markers bit none) i = some m' →
        i ≠ bit ∧ .marker m' ∈ q.queue ∧
          i ∈ (Function.update q.members m ((q.members m).erase bit)) m' := by
      intro i m' pointed'
      have other : i ≠ bit := fun same => by simp [same] at pointed'
      rw [Function.update_of_ne other] at pointed'
      obtain ⟨present, member⟩ := lay.marker_mem pointed'
      refine ⟨other, present, ?_⟩
      by_cases same : m' = m
      · subst same
        simpa using Finset.mem_erase.mpr ⟨other, member⟩
      · simpa [Function.update_of_ne same] using member
    split_ifs at left with emptied <;> cases left
    · refine ⟨⟨lay.nodup.erase _, ?_, fun present => lay.fresh (List.mem_of_mem_erase present),
        fun {i m'} pointed' => ?_⟩, rfl, ?_⟩
      · exact (List.mem_erase_of_ne (by simpa [eq_comm] using emptied.1)).mpr lay.tail_mem
      · obtain ⟨other, present, member⟩ := others pointed'
        refine ⟨(List.mem_erase_of_ne fun same => ?_).mpr present, member⟩
        cases same
        simp [emptied.2] at member
      · simp only [markersOnQueue]
        rw [drops, countP_counted_erase onQueue]
        simp [UpdateEntry.isCountedMarker, emptied.1, emptied.2]
    · refine ⟨⟨lay.nodup, lay.tail_mem, lay.fresh, fun pointed' => (others pointed').2⟩, rfl, ?_⟩
      change q.markersOnQueue = q.markersOnQueue + _
      rw [drops]
      simp only [ne_eq, not_and_or, not_not] at emptied
      rcases emptied with tail | remaining
      · simp [tail]
      · simp [remaining]

theorem CallLayout.addMarker (lay : q.CallLayout) {members : Finset Nat} {u : Nat}
    (atU : .update u ∈ q.queue) (added : (q.newMarker members).2.addMarker q.nextMarker u = some q') :
    q'.CallLayout ∧ q'.markerCount = q.markerCount + 1 ∧ q'.markersOnQueue = q.markersOnQueue + 1 := by
  unfold UpdateQueue.addMarker at added
  split_ifs at added
  obtain ⟨-, rfl⟩ := pointMarkers_eq_some.mp added
  have freshN : .marker q.nextMarker ∉ q.queue := fun present => lt_irrefl _ (lay.fresh present)
  have perm := insertAfter_perm (fun _ => false) (b := UpdateEntry.marker q.nextMarker) atU
  refine ⟨⟨?_, perm.symm.subset (List.mem_cons_of_mem _ lay.tail_mem), fun {m} present => ?_,
    fun {i m} pointed => ?_⟩, rfl, ?_⟩
  · exact perm.nodup_iff.mpr (List.nodup_cons.mpr ⟨freshN, lay.nodup⟩)
  · rcases List.mem_cons.mp (perm.subset present) with same | old
    · cases same
      simp [newMarker]
    · simpa [newMarker] using Nat.lt_succ_of_lt (lay.fresh old)
  · have placed : (q.newMarker members).2.members q.nextMarker = members := by simp [newMarker]
    dsimp only at pointed ⊢
    rw [placed] at pointed
    by_cases moved : i ∈ members
    · rw [if_pos moved, Option.some.injEq] at pointed
      subst pointed
      exact ⟨perm.symm.subset List.mem_cons_self, by rwa [placed]⟩
    · rw [if_neg moved] at pointed
      obtain ⟨present, member⟩ := lay.marker_mem pointed
      have older : m ≠ q.nextMarker := (lay.fresh present).ne
      exact ⟨perm.symm.subset (List.mem_cons_of_mem _ present), by simpa [newMarker, Function.update_of_ne older] using member⟩
  · rw [markersOnQueue_of_perm perm]
    simp [UpdateEntry.isCountedMarker, lay.nextMarker_pos.ne']

theorem CallLayout.markerSplit (lay : q.CallLayout) {marker : Nat} {msplit : Finset Nat}
    (present : .marker marker ∈ q.queue) (split : q.markerSplit marker msplit = some q') :
    q'.CallLayout ∧ q'.markerCount = q.markerCount + 1 ∧ q'.markersOnQueue = q.markersOnQueue + 1 := by
  unfold UpdateQueue.markerSplit at split
  split_ifs at split
  obtain ⟨-, rfl⟩ := pointMarkers_eq_some.mp split
  have freshN : .marker q.nextMarker ∉ q.queue := fun present => lt_irrefl _ (lay.fresh present)
  have perm := insertBefore_perm (b := UpdateEntry.marker q.nextMarker) present
  have ne : marker ≠ q.nextMarker := (lay.fresh present).ne
  refine ⟨⟨?_, perm.symm.subset (List.mem_cons_of_mem _ lay.tail_mem), fun {m} present' => ?_,
    fun {i m} pointed => ?_⟩, rfl, ?_⟩
  · exact perm.nodup_iff.mpr (List.nodup_cons.mpr ⟨freshN, lay.nodup⟩)
  · rcases List.mem_cons.mp (perm.subset present') with same | old
    · cases same
      simp
    · simpa [newMarker] using Nat.lt_succ_of_lt (lay.fresh old)
  · dsimp only [newMarker] at pointed ⊢
    split_ifs at pointed with moved
    · cases pointed
      exact ⟨perm.symm.subset List.mem_cons_self, by simpa [Function.update_of_ne ne.symm] using moved⟩
    · obtain ⟨present', member⟩ := lay.marker_mem pointed
      have older : m ≠ q.nextMarker := (lay.fresh present').ne
      refine ⟨perm.symm.subset (List.mem_cons_of_mem _ present'), ?_⟩
      by_cases atMarker : m = marker
      · subst atMarker
        simpa [Function.update_of_ne older] using ⟨member, moved⟩
      · simpa [Function.update_of_ne atMarker, Function.update_of_ne older] using member
  · rw [markersOnQueue_of_perm perm]
    simp [UpdateEntry.isCountedMarker, lay.nextMarker_pos.ne']

/-- The peers of `bitset` point at `dst`; the others keep their marker. -/
theorem CallLayout.merged_marker_mem (lay : q.CallLayout) {dst src : Nat} {bitset : Finset Nat}
    (atDst : .marker dst ∈ q.queue) (ne : dst ≠ src) {i m : Nat}
    (pointed : (q.merged dst src bitset).markers i = some m) :
    .marker m ∈ q.queue ∧ i ∈ (q.merged dst src bitset).members m ∧ (m = src → i ∉ bitset) := by
  rw [merged_members ne]
  dsimp only [merged] at pointed
  by_cases moved : i ∈ bitset
  · rw [if_pos moved, Option.some.injEq] at pointed
    subst pointed
    simp [atDst, ne, moved]
  · rw [if_neg moved] at pointed
    obtain ⟨present, member⟩ := lay.marker_mem pointed
    refine ⟨present, ?_, fun _ => moved⟩
    split_ifs with atSrc atDst
    · subst atSrc
      simp [member, moved]
    · subst atDst
      simp [member]
    · exact member

theorem CallLayout.markerMerge (lay : q.CallLayout) {dst src : Nat} {bitset : Finset Nat} {d : Nat}
    (atDst : .marker dst ∈ q.queue) (atSrc : .marker src ∈ q.queue) (ne : dst ≠ src)
    (counted : q.markerCount = q.markersOnQueue + d) (merge : q.markerMerge dst src bitset = some q') :
    q'.CallLayout ∧ q'.markerCount = q'.markersOnQueue + d := by
  obtain ⟨-, -, kept | removed⟩ := markerMerge_cases ne merge
  · -- the peers move and `src`, keeping some, stays
    obtain ⟨-, rfl⟩ := kept
    exact ⟨⟨lay.nodup, lay.tail_mem, lay.fresh, fun pointed => (lay.merged_marker_mem atDst ne pointed).imp_right And.left⟩,
      counted⟩
  · -- `src`, emptied, leaves the FIFO and the counter
    obtain ⟨emptied, notTail, rfl⟩ := removed
    have erased := countP_counted_erase atSrc
    refine ⟨⟨lay.nodup.erase _, (List.mem_erase_of_ne (by simpa [eq_comm] using notTail)).mpr lay.tail_mem,
      fun present => lay.fresh (List.mem_of_mem_erase present), fun {i m} pointed => ?_⟩, ?_⟩
    · obtain ⟨present, member, fromSrc⟩ := lay.merged_marker_mem atDst ne pointed
      refine ⟨(List.mem_erase_of_ne fun same => ?_).mpr present, member⟩
      cases same
      rw [merged_members ne, if_pos rfl, emptied] at member
      cases member
    · simp only [UpdateEntry.isCountedMarker, bne_iff_ne, ne_eq, notTail, not_false_eq_true, if_true] at erased
      simp only [markersOnQueue] at counted ⊢
      omega

theorem CallLayout.moveMarker (lay : q.CallLayout) {marker u : Nat} (atMarker : .marker marker ∈ q.queue)
    (atU : .update u ∈ q.queue) :
    (q.moveMarker marker u).CallLayout ∧ (q.moveMarker marker u).markersOnQueue = q.markersOnQueue := by
  have perm : (q.moveMarker marker u).queue.Perm q.queue := by
    rw [moveMarker_queue]
    exact move_perm _ atU atMarker (by simp)
  refine ⟨⟨perm.nodup_iff.mpr lay.nodup, perm.symm.subset lay.tail_mem,
    fun present => lay.fresh (perm.subset present), fun pointed => ?_⟩, perm.countP_eq _⟩
  obtain ⟨present, member⟩ := lay.marker_mem pointed
  exact ⟨perm.symm.subset present, member⟩

theorem CallLayout.enqueue (lay : q.CallLayout) {u : Nat} {updates : List UpdateInfo} {r : Bool × UpdateQueue}
    (absent : .update u ∉ q.queue) (enqueued : q.enqueue u updates = some r) :
    r.2.CallLayout ∧ r.2.markerCount = q.markerCount ∧ r.2.markersOnQueue = q.markersOnQueue := by
  unfold UpdateQueue.enqueue at enqueued
  split_ifs at enqueued
  cases enqueued
  refine ⟨⟨?_, List.mem_append_left _ lay.tail_mem, fun present => ?_, fun pointed => ?_⟩, rfl, ?_⟩
  · refine List.nodup_append.mpr ⟨lay.nodup, List.nodup_singleton _, fun e present e' added => ?_⟩
    rw [List.mem_singleton] at added
    subst added
    exact fun same => absent (same ▸ present)
  · rcases List.mem_append.mp present with old | added
    · exact lay.fresh old
    · simp at added
  · obtain ⟨present, member⟩ := lay.marker_mem pointed
    exact ⟨List.mem_append_left _ present, member⟩
  · simp [markersOnQueue, UpdateEntry.isCountedMarker]

theorem CallLayout.dequeue (lay : q.CallLayout) (u : Nat) :
    (q.dequeue u).CallLayout ∧ (q.dequeue u).markersOnQueue = q.markersOnQueue := by
  have keeps : ∀ {m}, .marker m ∈ q.queue → .marker m ∈ (q.dequeue u).queue :=
    fun present => (List.mem_erase_of_ne (by simp)).mpr present
  refine ⟨⟨lay.nodup.erase _, keeps lay.tail_mem, fun present => lay.fresh (List.mem_of_mem_erase present),
    fun pointed => (lay.marker_mem pointed).imp_left keeps⟩, ?_⟩
  by_cases present : .update u ∈ q.queue
  · simp only [markersOnQueue, dequeue_queue]
    rw [countP_counted_erase present (l := q.queue)]
    simp [UpdateEntry.isCountedMarker]
  · simp [markersOnQueue, List.erase_of_not_mem present]

/-- One call keeps the layout, and the counter stays the markers on the FIFO
plus those `Leave` took off it. -/
theorem CallLayout.call (lay : q.CallLayout) {d : Nat} (counted : q.markerCount = q.markersOnQueue + d)
    {c : QueueCall} (called : c.apply q = some q') :
    q'.CallLayout ∧ q'.markerCount = q'.markersOnQueue + (d + c.dropped q) := by
  cases c with
  | join bit =>
    obtain ⟨r, joined, rfl⟩ := Option.map_eq_some_iff.mp called
    obtain ⟨lay', count, onQueue⟩ := lay.join joined
    exact ⟨lay', by simp [QueueCall.dropped, count, onQueue, counted]⟩
  | leave bit =>
    obtain ⟨lay', count, onQueue⟩ := lay.leave called
    refine ⟨lay', ?_⟩
    simp only [QueueCall.dropped]
    omega
  | addMarker members u =>
    simp only [QueueCall.apply] at called
    split_ifs at called with atU
    obtain ⟨lay', count, onQueue⟩ := lay.addMarker atU called
    exact ⟨lay', by simp only [QueueCall.dropped]; omega⟩
  | markerSplit marker msplit =>
    simp only [QueueCall.apply] at called
    split_ifs at called with present
    obtain ⟨lay', count, onQueue⟩ := lay.markerSplit present called
    exact ⟨lay', by simp only [QueueCall.dropped]; omega⟩
  | markerMerge dst src bitset =>
    simp only [QueueCall.apply] at called
    split_ifs at called with present
    exact lay.markerMerge present.1 present.2.1 present.2.2 counted called
  | moveMarker marker u =>
    simp only [QueueCall.apply] at called
    split_ifs at called with present
    cases called
    obtain ⟨lay', onQueue⟩ := lay.moveMarker present.1 present.2
    exact ⟨lay', by simp only [QueueCall.dropped, moveMarker_markerCount]; omega⟩
  | enqueue u updates =>
    simp only [QueueCall.apply] at called
    split_ifs at called with absent
    obtain ⟨r, enqueued, rfl⟩ := Option.map_eq_some_iff.mp called
    obtain ⟨lay', count, onQueue⟩ := lay.enqueue absent enqueued
    exact ⟨lay', by simp only [QueueCall.dropped]; omega⟩
  | dequeue u =>
    simp only [QueueCall.apply] at called
    split_ifs at called
    cases called
    obtain ⟨lay', onQueue⟩ := lay.dequeue u
    exact ⟨lay', by simp only [QueueCall.dropped, dequeue_markerCount]; omega⟩

end UpdateQueue

open UpdateQueue

/-- After any calls from construction `marker_count_` is the number of markers
on the FIFO other than the tail marker plus the number of markers `Leave` took
off it. -/
theorem markerCount_eq_markersOnQueue_add_dropped {q : UpdateQueue} {dropped : Nat}
    (reach : CallReachable q dropped) : q.markerCount = q.markersOnQueue + dropped := by
  suffices q.CallLayout ∧ q.markerCount = q.markersOnQueue + dropped from this.2
  induction reach with
  | init encodingIsXmpp => exact ⟨callLayout_init encodingIsXmpp, rfl⟩
  | step c _ called ih => exact ih.1.call ih.2 called

/-- Two peers join, a RouteUpdate is enqueued, the second peer is split off the tail marker onto
a marker of its own, which is moved after the update, and the second peer leaves: `Leave` takes
that marker off the FIFO and the counter still counts it. -/
theorem markerCount_eq_markersOnQueue_after_leave :
    ∃ q, QueueCall.run (UpdateQueue.init false, 0)
      [.join 0, .join 1, .enqueue 5 [⟨7, 1, {0, 1}⟩], .markerSplit tailMarker {1},
        .moveMarker 1 5, .leave 1] = some (q, 1) ∧
      q.markerCount = q.markersOnQueue + 1 := by
  have ran : (QueueCall.run (UpdateQueue.init false, 0)
      [.join 0, .join 1, .enqueue 5 [⟨7, 1, {0, 1}⟩], .markerSplit tailMarker {1},
        .moveMarker 1 5, .leave 1]).map Prod.snd = some 1 := by
    decide
  obtain ⟨⟨q, dropped⟩, reached, counted⟩ := Option.map_eq_some_iff.mp ran
  cases counted
  exact ⟨q, reached, markerCount_eq_markersOnQueue_add_dropped (CallReachable.run (.init false) reached)⟩

/-- Two peers join, a RouteUpdate is enqueued, and a tail dequeue with only the
first peer in sync splits the second onto a marker of its own, which the
second peer's `Leave` takes off the FIFO: `marker_count_` still counts it. -/
theorem markerCount_counts_left_marker :
    ∃ s : QueueState, s.Reachable ∧ s.queue.markerCount = 1 ∧ s.queue.markersOnQueue = 0 := by
  have ran : ((⟨UpdateQueue.init false, ∅⟩ : QueueState).run
      [.join 0, .join 1, .enqueue 5 [⟨7, 1, ∅⟩],
        .tailDequeue {0} ⟨fun _ _ => ⟨false, 0, ∅⟩, fun _ => ∅, ∅⟩, .leave 1]).map
      (fun s => (s.queue.markerCount, s.queue.markersOnQueue)) = some (1, 0) := by
    decide
  obtain ⟨s, reached, counts⟩ := Option.map_eq_some_iff.mp ran
  exact ⟨s, QueueState.Reachable.run (.init false) reached, (Prod.mk.inj counts).1, (Prod.mk.inj counts).2⟩

end Contrail.Bgp
