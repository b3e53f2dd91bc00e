import Contrail.Bgp.UpdateQueueSafety

/-! The dequeue loops never run out of fuel. A pass of either loop leaves the
entry it is at behind, and from a RouteUpdate adds at most the one marker
right after it; so the cost of the entry the loop is at and of those after
it, two for a RouteUpdate and one for a marker, drops at every pass. That
cost starts within `walkFuel`, twice the length of the FIFO, so on a queue
that keeps the invariant more fuel changes no result of either loop. -/
namespace Contrail.Bgp

/-- What a pass of a dequeue loop at the entry may still cost. -/
def UpdateEntry.cost : UpdateEntry → Nat
  | .marker _ => 1
  | .update _ => 2

namespace UpdateQueue

open ListOrder

/-- The cost of the entries after `e`. -/
def costAfter (q : UpdateQueue) (e : UpdateEntry) : Nat := ((after e q.queue).map UpdateEntry.cost).sum

variable {q q' : UpdateQueue} {J : Finset Nat}

theorem costAfter_le_of_sublist (sub : q'.queue.Sublist q.queue) (e : UpdateEntry) :
    q'.costAfter e ≤ q.costAfter e :=
  ((after_sublist sub e).map _).sum_le_sum fun _ _ => Nat.zero_le _

/-- An entry after `c` and those after it cost no more than what follows `c`. -/
theorem cost_add_costAfter_le (nodup : q.queue.Nodup) {c e : UpdateEntry} (before : Before q.queue c e) :
    e.cost + q.costAfter e ≤ q.costAfter c := by
  have suffix := (before.cons_after_suffix nodup).map UpdateEntry.cost
  have le := suffix.sublist.sum_le_sum fun _ _ => Nat.zero_le _
  rwa [List.map_cons, List.sum_cons] at le

theorem costAfter_le_walkFuel (e : UpdateEntry) : q.costAfter e ≤ q.walkFuel := by
  have each : ∀ x ∈ (after e q.queue).map UpdateEntry.cost, x ≤ 2 := by
    intro x mem
    obtain ⟨y, -, rfl⟩ := List.mem_map.mp mem
    cases y <;> simp [UpdateEntry.cost]
  calc q.costAfter e ≤ (after e q.queue).length * 2 := by
        simpa [costAfter] using List.sum_le_card_nsmul _ 2 each
    _ ≤ q.queue.length * 2 := Nat.mul_le_mul_right 2 (after_suffix e q.queue).length_le
    _ = q.walkFuel := by rw [walkFuel, Nat.mul_comm]

/-- The marker for the blocked peers stands right after the RouteUpdate. -/
theorem costAfter_blockedAfter {M u : Nat} {B : Finset Nat} (atU : .update u ∈ q.queue) :
    (q.blockedAfter M u B).costAfter (.update u) = q.costAfter (.update u) + 1 := by
  have taken : (after (.update u) q.queue).takeWhile (fun _ => false) = [] := by simp
  have dropped : (after (.update u) q.queue).dropWhile (fun _ => false) = after (.update u) q.queue := by simp
  rw [costAfter, costAfter, blockedAfter_queue, after_insertAfter _ atU, taken, dropped]
  simp [UpdateEntry.cost, Nat.add_comm]

/-- `DequeueCommon` that keeps some peers adds at most one marker after `u`. -/
theorem dequeueCommon_costAfter {o : Outcomes} {M u : Nat} {B : Finset Nat} (atU : .update u ∈ q.queue)
    (run : dequeueCommon o q M u = some (true, B, q')) :
    q'.costAfter (.update u) ≤ q.costAfter (.update u) + 1 := by
  obtain ⟨q₁, shrinks, atU₁, -, -, result⟩ := dequeueCommon_cases atU run
  have shrunk := costAfter_le_of_sublist shrinks.sublist (.update u)
  rcases result with ⟨-, -, rfl⟩ | ⟨-, moved, -⟩ | ⟨-, -, -, rfl⟩
  · omega
  · cases moved
  · rw [costAfter_blockedAfter atU₁]
    omega

/-- From a RouteUpdate the next entry, once the RouteUpdate is dequeued if it
emptied, costs less than the RouteUpdate did. -/
theorem cost_lt_of_dequeueCommon {o : Outcomes} {M u : Nat} {B : Finset Nat} {e : UpdateEntry}
    (atU : .update u ∈ q.queue) (run : dequeueCommon o q M u = some (true, B, q')) (nodup : q'.queue.Nodup)
    (before : Before q'.queue (.update u) e) :
    e.cost + (q'.clearUpdateIfEmpty u).costAfter e < (UpdateEntry.update u).cost + q.costAfter (.update u) := by
  have added := dequeueCommon_costAfter atU run
  have passed := cost_add_costAfter_le nodup before
  have shrunk := costAfter_le_of_sublist (shrinks_clearUpdateIfEmpty (q := q') u).sublist e
  simp only [UpdateEntry.cost] at *
  omega

/-! ## The tail dequeue -/

theorem TailWalk.loop_fuel {o : Outcomes} : ∀ {fuel : Nat} {q : UpdateQueue} {u : Nat} {blocked : Finset Nat},
    q.TailWalk J u → (UpdateEntry.update u).cost + q.costAfter (.update u) ≤ fuel → ∀ extra,
    tailDequeueLoop o (fuel + extra) q u blocked = tailDequeueLoop o fuel q u blocked
  | 0, _, _, _, _, enough, _ => absurd enough (by simp [UpdateEntry.cost])
  | fuel + 1, q, u, blocked, walk, enough, extra => by
    rw [Nat.add_right_comm]
    simp only [tailDequeueLoop]
    cases step : dequeueCommon o q tailMarker u with
    | none => rfl
    | some result =>
      obtain ⟨more, rtBlocked, q₁⟩ := result
      rcases walk.dequeue step with ⟨rfl, passed⟩ | ⟨rfl, -⟩
      · simp only [Option.bind_eq_bind, Option.bind_some, getNextUpdate_update]
        cases next : q₁.nextUpdate (.update u) with
        | none => simp
        | some v =>
          have cheaper := cost_lt_of_dequeueCommon walk.cursor.mem_right step passed.nodup
            (nextUpdate_eq_some passed.nodup next).1
          simp only [reduceCtorEq, if_false]
          exact TailWalk.loop_fuel (passed.advance next) (by omega) extra
      · rfl

/-- The loop of `TailDequeue`, from the first RouteUpdate after the tail
marker of a queue that keeps the invariant, as the queue is after the split
of the peers not in sync, does not run out of `walkFuel`. -/
theorem Invariant.tailDequeueLoop_walkFuel {o : Outcomes} {u : Nat} (inv : q.Invariant J)
    (next : q.nextUpdate (.marker tailMarker) = some u) (blocked : Finset Nat) (extra : Nat) :
    tailDequeueLoop o (q.walkFuel + extra) q u blocked = tailDequeueLoop o q.walkFuel q u blocked := by
  have first := cost_add_costAfter_le inv.nodup (nextUpdate_eq_some inv.nodup next).1
  exact (TailWalk.start inv next).loop_fuel (first.trans (costAfter_le_walkFuel _)) extra

/-! ## The peer dequeue -/

theorem PeerWalk.loop_fuel {o : Outcomes} {M : Nat} : ∀ {fuel : Nat} {q : UpdateQueue} {e : UpdateEntry}
    {members blocked : Finset Nat}, q.PeerWalk J M e → e.cost + q.costAfter e ≤ fuel → ∀ extra,
    peerDequeueLoop o M (fuel + extra) q e members blocked = peerDequeueLoop o M fuel q e members blocked
  | 0, _, e, _, _, _, enough, _ => absurd enough (by cases e <;> simp [UpdateEntry.cost])
  | fuel + 1, q, .marker m, members, blocked, walk, enough, extra => by
    rw [Nat.add_right_comm]
    by_cases tail : m = tailMarker
    · simp only [peerDequeueLoop, if_pos tail]
    · obtain ⟨e, next⟩ := Option.ne_none_iff_exists'.mp
        (nextEntry_ne_none (walk.untilTail.resolve_left (by simpa using tail)))
      -- the next entry, taken before the send-ready peers move, costs less than the marker
      have cheaper := cost_add_costAfter_le walk.nodup (nextEntry_before next)
      simp only [UpdateEntry.cost] at enough
      simp only [peerDequeueLoop, if_neg tail, next, Option.bind_eq_bind]
      split
      · rw [Option.bind_some, Option.bind_some]
        exact PeerWalk.loop_fuel (walk.pass tail next) (by omega) extra
      · cases merge : q.markerMerge M m (q.members m ∩ o.ready m) with
        | none => rfl
        | some q₁ =>
          have shrunk := costAfter_le_of_sublist (markerMerge_frame (by
            simpa using walk.cursor.ne walk.nodup) merge).1 e
          simp only [Option.map_some, Option.bind_some]
          exact PeerWalk.loop_fuel (walk.merge tail next Finset.inter_subset_left merge) (by omega) extra
  | fuel + 1, q, .update u, members, blocked, walk, enough, extra => by
    rw [Nat.add_right_comm]
    simp only [peerDequeueLoop]
    cases step : dequeueCommon o q M u with
    | none => rfl
    | some result =>
      obtain ⟨more, rtBlocked, q₁⟩ := result
      rcases walk.dequeue step with ⟨rfl, passed⟩ | ⟨rfl, -⟩
      · obtain ⟨e, next⟩ := Option.ne_none_iff_exists'.mp (nextEntry_ne_none passed.beforeTail)
        have cheaper := cost_lt_of_dequeueCommon walk.cursor.mem_right step passed.nodup (nextEntry_before next)
        simp only [Option.bind_eq_bind, Option.bind_some, next, Bool.not_true, Bool.false_eq_true, if_false]
        exact PeerWalk.loop_fuel (passed.advance next) (by omega) extra
      · rfl

/-- The loop of `PeerDequeue`, from the entry after the peer's marker on a
queue that keeps the invariant, as the queue is after the split of the peers
not send ready, does not run out of `walkFuel`. -/
theorem Invariant.peerDequeueLoop_walkFuel {o : Outcomes} {M : Nat} {e : UpdateEntry} (inv : q.Invariant J)
    (start : .marker M ∈ q.queue) (notTail : M ≠ tailMarker) (next : q.nextEntry (.marker M) = some e)
    (members blocked : Finset Nat) (extra : Nat) :
    peerDequeueLoop o M (q.walkFuel + extra) q e members blocked =
      peerDequeueLoop o M q.walkFuel q e members blocked := by
  have first := cost_add_costAfter_le inv.nodup (nextEntry_before next)
  exact (PeerWalk.begin inv start notTail next).loop_fuel (first.trans (costAfter_le_walkFuel _)) extra

end UpdateQueue

end Contrail.Bgp
