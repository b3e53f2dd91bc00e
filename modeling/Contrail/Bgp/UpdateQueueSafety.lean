import Contrail.Bgp.DequeueCommon

/-! The invariant of the update queue holds in every reachable state. The two
dequeues keep it through their loops over the FIFO: the tail dequeue through
`TailWalk`, where the markers it leaves behind stand before the RouteUpdate it
is at, and the peer dequeue through `PeerWalk`, where nothing between its
marker and the entry it is at is still to be sent to the marker's peers. -/
namespace Contrail.Bgp

namespace UpdateQueue

open ListOrder

variable {q q' : UpdateQueue} {J : Finset Nat}

/-! ## The next entries -/

theorem nextUpdate_eq_some (nodup : q.queue.Nodup) {e : UpdateEntry} {v : Nat} (next : q.nextUpdate e = some v) :
    Before q.queue e (.update v) ∧ ∀ {w}, Before q.queue e (.update w) → ¬ Before q.queue (.update w) (.update v) := by
  unfold nextUpdate at next
  obtain ⟨P, a, S, split, found, skipped⟩ := List.findSome?_eq_some_iff.mp next
  cases a with
  | marker m => cases found
  | update _ =>
    cases found
    have atV : Before q.queue e (.update v) := by
      unfold Before
      rw [split]
      exact List.mem_append_right _ List.mem_cons_self
    refine ⟨atV, fun {w} atW before => ?_⟩
    have mem : UpdateEntry.update w ∈ P ++ .update v :: S := split ▸ atW
    rcases List.mem_append.mp mem with early | late
    · cases skipped _ early
    · rcases List.mem_cons.mp late with same | late
      · exact before.ne nodup same
      · exact before.asymm nodup (before_of_after_eq_append nodup split late)

theorem nextUpdate_eq_none {e : UpdateEntry} (next : q.nextUpdate e = none) :
    ∀ e' ∈ after e q.queue, e'.isMarker := by
  intro e' mem
  have skipped := List.findSome?_eq_none_iff.mp next e' mem
  cases e' with
  | marker m => rfl
  | update v => cases skipped

theorem nextEntry_eq_some {e e' : UpdateEntry} (next : q.nextEntry e = some e') :
    ∃ rest, after e q.queue = e' :: rest := by
  unfold nextEntry at next
  obtain ⟨rest, split⟩ := List.head?_eq_some_iff.mp next
  exact ⟨rest, split⟩

theorem nextEntry_before {c e : UpdateEntry} (next : q.nextEntry c = some e) : Before q.queue c e := by
  obtain ⟨_, split⟩ := nextEntry_eq_some next
  unfold Before
  rw [split]
  exact List.mem_cons_self

theorem getNextUpdate_update (u : Nat) : q.getNextUpdate (.update u) =
    (q.nextUpdate (.update u), if q.nextUpdate (.update u) = none then q.moveMarker tailMarker u else q) := by
  unfold getNextUpdate
  split <;> simp_all

theorem getNextUpdate_marker (m : Nat) : q.getNextUpdate (.marker m) = (q.nextUpdate (.marker m), q) := by
  unfold getNextUpdate
  split <;> simp_all

theorem mem_clearUpdateIfEmpty {u : Nat} {e : UpdateEntry} (ne : e ≠ .update u) :
    e ∈ (q.clearUpdateIfEmpty u).queue ↔ e ∈ q.queue := by
  unfold clearUpdateIfEmpty clearUpdate
  split_ifs
  · exact List.mem_erase_of_ne ne
  · rfl

theorem markerSplit_queue {M : Nat} {S : Finset Nat} (split : q.markerSplit M S = some q') :
    q'.queue = insertBefore (.marker M) (.marker q.nextMarker) q.queue := by
  unfold markerSplit at split
  split_ifs at split
  obtain ⟨_, rfl⟩ := pointMarkers_eq_some.mp split
  rfl

/-- All that is still to be sent to the peers of `M` stands after `u`, when
nothing between `M` and `u`, nor `u` itself, is still to be sent to them. -/
theorem Layout.placed_past (lay : q.Layout J) {M u : Nat} (atM : .marker M ∈ q.queue) (atU : .update u ∈ q.queue)
    (cleared : ∀ {v p}, Before q.queue (.marker M) (.update v) → Before q.queue (.update v) (.update u) →
      p ∈ q.members M → ¬ q.Targets v p)
    (untargeted : ∀ p ∈ q.members M, ¬ q.Targets u p) :
    ∀ {v p}, .update v ∈ q.queue → q.Targets v p → p ∈ q.members M → Before q.queue (.update u) (.update v) := by
  intro v p present target member
  have after := lay.placed present target (lay.member_marker atM member)
  by_cases same : v = u
  · subst same
    exact absurd target (untargeted p member)
  · rcases before_or_before atU present (by simpa using Ne.symm same) with later | earlier
    · exact later
    · exact absurd target (cleared after earlier member)

/-! ## The tail dequeue -/

/-- The tail dequeue is about to send the RouteUpdate `u`: the markers it left
behind stand before `u`, and nothing between the tail marker and `u` is still
to be sent to the peers of the tail marker. -/
structure TailWalk (q : UpdateQueue) (J : Finset Nat) (u : Nat) : Prop extends Layout q J where
  cursor : Before q.queue (.marker tailMarker) (.update u)
  markers_before : ∀ {m}, Before q.queue (.marker tailMarker) (.marker m) → Before q.queue (.marker m) (.update u)
  cleared : ∀ {v p}, Before q.queue (.marker tailMarker) (.update v) → Before q.queue (.update v) (.update u) →
    p ∈ q.members tailMarker → ¬ q.Targets v p

/-- The tail dequeue has sent the RouteUpdate `u` and kept some peers: a marker
it left behind may stand right after `u`, and `u` too is cleared. -/
structure TailPassed (q : UpdateQueue) (J : Finset Nat) (u : Nat) : Prop extends Layout q J where
  cursor : Before q.queue (.marker tailMarker) (.update u)
  markers_before : ∀ {m}, Before q.queue (.marker tailMarker) (.marker m) →
    Before q.queue (.marker m) (.update u) ∨ (after (.update u) q.queue).head? = some (.marker m)
  cleared : ∀ {v p}, Before q.queue (.marker tailMarker) (.update v) →
    (Before q.queue (.update v) (.update u) ∨ v = u) → p ∈ q.members tailMarker → ¬ q.Targets v p

theorem TailWalk.start (inv : q.Invariant J) {u : Nat} (next : q.nextUpdate (.marker tailMarker) = some u) :
    q.TailWalk J u where
  toLayout := inv.toLayout
  cursor := (nextUpdate_eq_some inv.nodup next).1
  markers_before before := absurd before (inv.tail_last _)
  cleared after before := absurd before ((nextUpdate_eq_some inv.nodup next).2 after)

theorem TailWalk.shrink {u : Nat} (walk : q.TailWalk J u) (shrinks : Shrinks q q') (atU : .update u ∈ q'.queue) :
    q'.TailWalk J u where
  toLayout := walk.toLayout.shrink shrinks
  cursor := walk.cursor.to_sublist shrinks.sublist walk.nodup (shrinks.keeps_markers walk.tail_mem) atU
  markers_before before := by
    have old := walk.markers_before (before.of_sublist shrinks.sublist walk.nodup)
    exact old.to_sublist shrinks.sublist walk.nodup before.mem_right atU
  cleared after before member target := by
    rw [shrinks.members] at member
    exact walk.cleared (after.of_sublist shrinks.sublist walk.nodup) (before.of_sublist shrinks.sublist walk.nodup)
      member (shrinks.targets after.mem_right target)

/-- What one `DequeueCommon` of the tail marker leaves: some peers kept, or
all of them blocked with the tail marker moved after `u`. -/
theorem TailWalk.dequeue {o : Outcomes} {u : Nat} {more : Bool} {B : Finset Nat} (walk : q.TailWalk J u)
    (run : dequeueCommon o q tailMarker u = some (more, B, q')) :
    more = true ∧ q'.TailPassed J u ∨ more = false ∧ q'.Invariant J := by
  obtain ⟨q₁, shrinks, atU, untargeted, blocked, result⟩ := dequeueCommon_cases walk.cursor.mem_right run
  have walk₁ := walk.shrink shrinks atU
  rw [← shrinks.members] at untargeted blocked result
  have placed : ∀ {v p}, .update v ∈ q₁.queue → q₁.Targets v p → p ∈ q₁.members tailMarker →
      Before q₁.queue (.update u) (.update v) :=
    walk₁.placed_past walk₁.tail_mem atU walk₁.cleared untargeted
  rcases result with ⟨_, rfl, rfl⟩ | ⟨_, rfl, _, rfl⟩ | ⟨moved, rfl, kept, rfl⟩
  · refine .inl ⟨rfl, { walk₁ with markers_before := fun before => .inl (walk₁.markers_before before),
                                    cleared := fun after earlier member => ?_ }⟩
    rcases earlier with earlier | rfl
    · exact walk₁.cleared after earlier member
    · exact untargeted _ member
  · -- no marker stands past `u`: all those past the tail marker stand before it
    refine .inr ⟨rfl, walk₁.moveTail atU placed (.inr fun m past => ?_)⟩
    have later : Before q₁.queue (.update u) (.marker m) := past
    exact later.asymm walk₁.nodup (walk₁.markers_before (walk₁.cursor.trans walk₁.nodup later))
  · -- the blocked peers get a marker right after `u`, the first past it
    have freshN : .marker q₁.nextMarker ∉ q₁.queue := fun mem => lt_irrefl _ (walk₁.fresh mem)
    have newNe : ∀ {e : UpdateEntry}, e ∈ q₁.queue → e ≠ .marker q₁.nextMarker :=
      fun mem same => freshN (same ▸ mem)
    have old : ∀ {e : UpdateEntry}, e ∈ (q₁.blockedAfter tailMarker u B).queue → e ≠ .marker q₁.nextMarker →
        e ∈ q₁.queue := by
      intro e mem ne
      rw [blockedAfter_queue, (insertAfter_perm _ atU).mem_iff] at mem
      exact (List.mem_cons.mp mem).resolve_left ne
    have order : ∀ {x y : UpdateEntry}, x ∈ q₁.queue → y ∈ q₁.queue →
        (Before (q₁.blockedAfter tailMarker u B).queue x y ↔ Before q₁.queue x y) := by
      intro x y memX memY
      rw [blockedAfter_queue]
      exact before_insertAfter_iff _ atU freshN walk₁.nodup (newNe memX) (newNe memY)
    have members : (q₁.blockedAfter tailMarker u B).members tailMarker ⊆ q₁.members tailMarker := by
      rw [blockedAfter_members, Function.update_of_ne (by simpa using (newNe walk₁.tail_mem)), Function.update_self]
      exact Finset.sdiff_subset
    have lay := walk₁.toLayout.blockedAfter walk₁.tail_mem atU blocked moved kept
      (fun present target member => placed present target (blocked member))
    refine .inl ⟨rfl, { lay with cursor := ?_, markers_before := ?_, cleared := ?_ }⟩
    · exact (order walk₁.tail_mem atU).mpr walk₁.cursor
    · intro m before
      by_cases new : m = q₁.nextMarker
      · subst new
        right
        rw [blockedAfter_queue, after_insertAfter _ atU]
        cases after (.update u) q₁.queue <;> rfl
      · have memM := old before.mem_right (by simpa using new)
        exact .inl ((order memM atU).mpr (walk₁.markers_before ((order walk₁.tail_mem memM).mp before)))
    · intro v p after earlier member target
      have memV := old after.mem_right (by simp)
      have after₁ := (order walk₁.tail_mem memV).mp after
      rcases earlier with earlier | rfl
      · exact walk₁.cleared after₁ ((order memV atU).mp earlier) (members member) target
      · exact untargeted p (members member) target

theorem TailPassed.next {u v : Nat} (passed : q.TailPassed J u) (next : q.nextUpdate (.update u) = some v) :
    q.TailWalk J v where
  toLayout := passed.toLayout
  cursor := passed.cursor.trans passed.nodup (nextUpdate_eq_some passed.nodup next).1
  markers_before {m} before := by
    have atV := (nextUpdate_eq_some passed.nodup next).1
    rcases passed.markers_before before with earlier | first
    · exact earlier.trans passed.nodup atV
    · obtain ⟨rest, split⟩ := List.head?_eq_some_iff.mp first
      rcases (before_iff_of_after_eq_cons passed.nodup split).mp atV with same | later
      · cases same
      · exact later
  cleared {w p} after before member target := by
    have atV := nextUpdate_eq_some passed.nodup next
    by_cases same : w = u
    · exact passed.cleared after (.inr same) member target
    · rcases before_or_before after.mem_right passed.cursor.mem_right (by simpa using same) with earlier | later
      · exact passed.cleared after (.inl earlier) member target
      · exact atV.2 later before

/-- Past the last RouteUpdate the tail marker moves after it, and is the last
marker again. -/
theorem TailPassed.finish {u : Nat} (passed : q.TailPassed J u) (next : q.nextUpdate (.update u) = none) :
    (q.moveMarker tailMarker u).Invariant J := by
  refine passed.moveTail passed.cursor.mem_right (fun {v p} present target member => ?_) (.inl (nextUpdate_eq_none next))
  have after := passed.placed present target (passed.member_marker passed.tail_mem member)
  by_cases same : v = u
  · exact absurd target (passed.cleared after (.inr same) member)
  · rcases before_or_before passed.cursor.mem_right present (by simpa using Ne.symm same) with later | earlier
    · exact later
    · exact absurd target (passed.cleared after (.inl earlier) member)

/-- The tail dequeue moves on to the next RouteUpdate, `u` dequeued if it emptied. -/
theorem TailPassed.advance {u v : Nat} (passed : q.TailPassed J u) (next : q.nextUpdate (.update u) = some v) :
    (q.clearUpdateIfEmpty u).TailWalk J v := by
  have walk := passed.next next
  have atV : .update v ∈ (q.clearUpdateIfEmpty u).queue :=
    (mem_clearUpdateIfEmpty ((nextUpdate_eq_some passed.nodup next).1.ne passed.nodup).symm).mpr
      walk.cursor.mem_right
  exact walk.shrink (shrinks_clearUpdateIfEmpty u) atV

theorem TailWalk.loop {o : Outcomes} : ∀ {fuel : Nat} {q q' : UpdateQueue} {u : Nat} {blocked blocked' : Finset Nat}
    {more : Bool}, q.TailWalk J u → tailDequeueLoop o fuel q u blocked = some (more, blocked', q') → q'.Invariant J
  | 0, _, _, _, _, _, _, _, run => by cases run
  | fuel + 1, q, q', u, blocked, blocked', more', walk, run => by
    unfold tailDequeueLoop at run
    simp only [Option.bind_eq_bind, Option.bind_eq_some_iff] at run
    obtain ⟨⟨more, rtBlocked, q₁⟩, step, rest⟩ := run
    rcases walk.dequeue step with ⟨rfl, passed⟩ | ⟨rfl, inv⟩
    · rw [getNextUpdate_update] at rest
      cases next : q₁.nextUpdate (.update u) with
      | none =>
        simp only [next, if_true, Bool.not_true, Bool.false_eq_true, if_false, pure, Option.some.injEq,
          Prod.mk.injEq] at rest
        obtain ⟨-, -, rfl⟩ := rest
        exact (passed.finish next).shrink (shrinks_clearUpdateIfEmpty u)
      | some v =>
        simp only [next, Bool.not_true, Bool.false_eq_true, if_false, reduceCtorEq] at rest
        exact TailWalk.loop (passed.advance next) rest
    · simp only [Bool.not_false, if_true, pure, Option.some.injEq, Prod.mk.injEq] at rest
      obtain ⟨-, -, rfl⟩ := rest
      exact inv.shrink (shrinks_clearUpdateIfEmpty u)

theorem Invariant.tailDequeue {o : Outcomes} {msync : Finset Nat} {r : Bool × Finset Nat × Finset Nat}
    (inv : q.Invariant J) (run : tailDequeue o msync q = some (r, q')) : q'.Invariant J := by
  unfold Bgp.tailDequeue at run
  rw [getNextUpdate_marker] at run
  dsimp only at run
  cases next : q.nextUpdate (.marker tailMarker) with
  | none =>
    simp only [next, Option.some.injEq, Prod.mk.injEq] at run
    obtain ⟨-, rfl⟩ := run
    exact inv
  | some u =>
    simp only [next] at run
    by_cases all : q.members tailMarker \ msync = q.members tailMarker
    · rw [if_pos all] at run
      simp only [Option.some.injEq, Prod.mk.injEq] at run
      obtain ⟨-, rfl⟩ := run
      exact inv
    · rw [if_neg all] at run
      -- the peers not in sync get a marker before the tail marker, which keeps its place
      have start : ∀ {q₁}, q₁ = q ∨ q.markerSplit tailMarker (q.members tailMarker \ msync) = some q₁ →
          q₁.Invariant J ∧ q₁.nextUpdate (.marker tailMarker) = some u := by
        rintro q₁ (rfl | split)
        · exact ⟨inv, next⟩
        · refine ⟨inv.markerSplit inv.tail_mem Finset.sdiff_subset split, ?_⟩
          unfold nextUpdate
          rw [markerSplit_queue split, after_insertBefore inv.tail_mem (by simpa using (inv.fresh inv.tail_mem).ne')]
          exact next
      -- the loop from the first RouteUpdate, then `UpdateFlush`, which leaves the queue
      have finish : ∀ {q₁ : UpdateQueue} {more : Bool} {blocked : Finset Nat} {q₂ : UpdateQueue},
          q₁.Invariant J ∧ q₁.nextUpdate (.marker tailMarker) = some u →
          tailDequeueLoop o q₁.walkFuel q₁ u ∅ = some (more, blocked, q₂) →
          (if more = true then pure ((decide (q₁.members tailMarker ≠ q₂.updateFlush o (q₁.members tailMarker) blocked),
              q₂.updateFlush o (q₁.members tailMarker) blocked, q.members tailMarker \ msync), q₂)
            else pure ((false, blocked, q.members tailMarker \ msync), q₂)) = some (r, q') →
          q'.Invariant J := by
        intro q₁ more blocked q₂ ⟨inv₁, next₁⟩ loop result
        have inv₂ := (TailWalk.start inv₁ next₁).loop loop
        split at result <;> simp only [pure, Option.some.injEq, Prod.mk.injEq] at result <;>
          obtain ⟨-, rfl⟩ := result <;> exact inv₂
      split at run
      · simp only [Option.bind_eq_bind, Option.bind_eq_some_iff] at run
        obtain ⟨q₁, kept, ⟨more, blocked, q₂⟩, loop, result⟩ := run
        exact finish (start (.inl (Option.some.inj kept).symm)) loop result
      · simp only [Option.bind_eq_bind, Option.bind_eq_some_iff] at run
        obtain ⟨q₁, split, ⟨more, blocked, q₂⟩, loop, result⟩ := run
        exact finish (start (.inr split)) loop result

/-! ## The peer dequeue -/

/-- The peer dequeue of the marker `M` is at the entry `e`, at or before the
tail marker: nothing between `M` and `e` is still to be sent to the peers of
`M`. -/
structure PeerWalk (q : UpdateQueue) (J : Finset Nat) (M : Nat) (e : UpdateEntry) : Prop extends Invariant q J where
  start : .marker M ∈ q.queue
  notTail : M ≠ tailMarker
  cursor : Before q.queue (.marker M) e
  untilTail : e = .marker tailMarker ∨ Before q.queue e (.marker tailMarker)
  cleared : ∀ {v p}, Before q.queue (.marker M) (.update v) → Before q.queue (.update v) e →
    p ∈ q.members M → ¬ q.Targets v p

/-- The peer dequeue has passed the entry `c`, before the tail marker: `c`
too is cleared for the peers of `M`. -/
structure PeerPassed (q : UpdateQueue) (J : Finset Nat) (M : Nat) (c : UpdateEntry) : Prop extends Invariant q J where
  start : .marker M ∈ q.queue
  notTail : M ≠ tailMarker
  cursor : Before q.queue (.marker M) c
  beforeTail : Before q.queue c (.marker tailMarker)
  cleared : ∀ {v p}, Before q.queue (.marker M) (.update v) → (Before q.queue (.update v) c ∨ .update v = c) →
    p ∈ q.members M → ¬ q.Targets v p

theorem PeerPassed.next {M : Nat} {c e : UpdateEntry} (passed : q.PeerPassed J M c) (next : q.nextEntry c = some e) :
    q.PeerWalk J M e := by
  obtain ⟨rest, split⟩ := nextEntry_eq_some next
  have atE := nextEntry_before next
  exact
    { passed.toInvariant with
      start := passed.start
      notTail := passed.notTail
      cursor := passed.cursor.trans passed.nodup atE
      untilTail := by
        rcases (before_iff_of_after_eq_cons passed.nodup split).mp passed.beforeTail with same | later
        · exact .inl same.symm
        · exact .inr later
      cleared := fun after before => passed.cleared after
        (((before_next_iff passed.nodup split).mp before).symm.imp id id) }

theorem PeerWalk.shrink {M : Nat} {e : UpdateEntry} (walk : q.PeerWalk J M e) (shrinks : Shrinks q q')
    (atE : e ∈ q'.queue) : q'.PeerWalk J M e := by
  have keepsTail := shrinks.keeps_markers walk.tail_mem
  have start := shrinks.keeps_markers walk.start
  refine
    { walk.toInvariant.shrink shrinks with
      start := start
      notTail := walk.notTail
      cursor := walk.cursor.to_sublist shrinks.sublist walk.nodup start atE
      untilTail := walk.untilTail.imp id fun before => before.to_sublist shrinks.sublist walk.nodup atE keepsTail
      cleared := fun after before member target => ?_ }
  rw [shrinks.members] at member
  exact walk.cleared (after.of_sublist shrinks.sublist walk.nodup) (before.of_sublist shrinks.sublist walk.nodup)
    member (shrinks.targets after.mem_right target)

/-- What one `DequeueCommon` of the marker `M` leaves: some peers kept, or all
of them blocked with `M` moved after `u`. -/
theorem PeerWalk.dequeue {o : Outcomes} {M u : Nat} {more : Bool} {B : Finset Nat} (walk : q.PeerWalk J M (.update u))
    (run : dequeueCommon o q M u = some (more, B, q')) :
    more = true ∧ q'.PeerPassed J M (.update u) ∨ more = false ∧ q'.Invariant J := by
  obtain ⟨q₁, shrinks, atU, untargeted, blocked, result⟩ := dequeueCommon_cases walk.cursor.mem_right run
  have walk₁ := walk.shrink shrinks atU
  rw [← shrinks.members] at untargeted blocked result
  have placed : ∀ {v p}, .update v ∈ q₁.queue → q₁.Targets v p → p ∈ q₁.members M →
      Before q₁.queue (.update u) (.update v) :=
    walk₁.placed_past walk₁.start atU walk₁.cleared untargeted
  have beforeTail : Before q₁.queue (.update u) (.marker tailMarker) := walk₁.untilTail.resolve_left (by simp)
  have notPast : ¬ Before q₁.queue (.marker tailMarker) (.update u) := beforeTail.asymm walk₁.nodup
  rcases result with ⟨_, rfl, rfl⟩ | ⟨_, rfl, _, rfl⟩ | ⟨moved, rfl, kept, rfl⟩
  · refine .inl ⟨rfl, { walk₁ with beforeTail := beforeTail, cleared := fun after earlier member => ?_ }⟩
    rcases earlier with earlier | same
    · exact walk₁.cleared after earlier member
    · cases same
      exact untargeted _ member
  · exact .inr ⟨rfl, walk₁.moveMarker walk₁.start atU placed walk₁.notTail notPast⟩
  · -- the blocked peers get a marker right after `u`; the others stay at `M`
    have freshN : .marker q₁.nextMarker ∉ q₁.queue := fun mem => lt_irrefl _ (walk₁.fresh mem)
    have newNe : ∀ {e : UpdateEntry}, e ∈ q₁.queue → e ≠ .marker q₁.nextMarker :=
      fun mem same => freshN (same ▸ mem)
    have order : ∀ {x y : UpdateEntry}, x ∈ q₁.queue → y ∈ q₁.queue →
        (Before (q₁.blockedAfter M u B).queue x y ↔ Before q₁.queue x y) := by
      intro x y memX memY
      rw [blockedAfter_queue]
      exact before_insertAfter_iff _ atU freshN walk₁.nodup (newNe memX) (newNe memY)
    have old : ∀ {e : UpdateEntry}, e ∈ (q₁.blockedAfter M u B).queue → e ≠ .marker q₁.nextMarker →
        e ∈ q₁.queue := by
      intro e mem ne
      rw [blockedAfter_queue, (insertAfter_perm _ atU).mem_iff] at mem
      exact (List.mem_cons.mp mem).resolve_left ne
    have members : (q₁.blockedAfter M u B).members M ⊆ q₁.members M := by
      rw [blockedAfter_members, Function.update_of_ne (by simpa using (newNe walk₁.start)), Function.update_self]
      exact Finset.sdiff_subset
    have inv := walk₁.toInvariant.blockedAfter walk₁.start atU blocked moved kept
      (fun present target member => placed present target (blocked member)) notPast
    refine .inl ⟨rfl,
      { inv with
        start := by
          rw [blockedAfter_queue, (insertAfter_perm _ atU).mem_iff]
          exact List.mem_cons_of_mem _ walk₁.start
        notTail := walk₁.notTail
        cursor := (order walk₁.start atU).mpr walk₁.cursor
        beforeTail := (order atU walk₁.tail_mem).mpr beforeTail
        cleared := fun {v p} after earlier member target => ?_ }⟩
    have memV := old after.mem_right (by simp)
    have after₁ := (order walk₁.start memV).mp after
    rcases earlier with earlier | same
    · exact walk₁.cleared after₁ ((order memV atU).mp earlier) (members member) target
    · cases same
      exact untargeted p (members member) target

theorem nextEntry_ne_none {c d : UpdateEntry} (before : Before q.queue c d) : q.nextEntry c ≠ none := by
  unfold nextEntry
  intro none
  rw [List.head?_eq_none_iff] at none
  unfold Before at before
  rw [none] at before
  cases before

/-- The peer dequeue passes a marker before the tail marker. -/
theorem PeerWalk.pass {M m : Nat} {e : UpdateEntry} (walk : q.PeerWalk J M (.marker m)) (notTail : m ≠ tailMarker)
    (next : q.nextEntry (.marker m) = some e) : q.PeerWalk J M e :=
  PeerPassed.next
    { walk.toInvariant with
      start := walk.start
      notTail := walk.notTail
      cursor := walk.cursor
      beforeTail := walk.untilTail.resolve_left (by simpa using notTail)
      cleared := fun after earlier => walk.cleared after (earlier.resolve_right (by simp)) } next

theorem markerMerge_frame {dst src : Nat} {S : Finset Nat} (ne : dst ≠ src) (merge : q.markerMerge dst src S = some q') :
    q'.queue.Sublist q.queue ∧ (∀ {x}, x ≠ .marker src → x ∈ q.queue → x ∈ q'.queue) ∧
      q'.members dst = q.members dst ∪ S ∧ q'.routes = q.routes := by
  have members : (q.merged dst src S).members dst = q.members dst ∪ S := by
    rw [merged_members ne, if_neg ne, if_pos rfl]
  obtain ⟨-, -, ⟨-, rfl⟩ | ⟨-, -, rfl⟩⟩ := markerMerge_cases ne merge
  · exact ⟨List.Sublist.refl _, fun _ present => present, members, rfl⟩
  · exact ⟨List.erase_sublist, fun ne present => (List.mem_erase_of_ne ne).mpr present, members, rfl⟩

/-- The send-ready peers `S` of a marker the peer dequeue passes join its
marker `M`: nothing before that marker is still to be sent to them. -/
theorem PeerWalk.merge {M m : Nat} {e : UpdateEntry} {S : Finset Nat} (walk : q.PeerWalk J M (.marker m))
    (notTail : m ≠ tailMarker) (next : q.nextEntry (.marker m) = some e) (sub : S ⊆ q.members m)
    (merge : q.markerMerge M m S = some q') : q'.PeerWalk J M e := by
  have walkE := walk.pass notTail next
  obtain ⟨rest, split⟩ := nextEntry_eq_some next
  have ne : M ≠ m := by simpa using walk.cursor.ne walk.nodup
  have atM := walk.cursor.mem_right
  have pointed : ∀ {p}, p ∈ S → q.markers p = some m := fun moving => walk.member_marker atM (sub moving)
  have inv := walk.toInvariant.markerMerge walk.start atM ne sub
    (fun present target moving => walk.cursor.trans walk.nodup (walk.placed present target (pointed moving))) merge
  obtain ⟨sublist, keep, members, routes⟩ := markerMerge_frame ne merge
  have atE := nextEntry_before next
  have order : ∀ {x y : UpdateEntry}, x ∈ q'.queue → y ∈ q'.queue → (Before q'.queue x y ↔ Before q.queue x y) :=
    fun memX memY => ⟨fun before => before.of_sublist sublist walk.nodup,
      fun before => before.to_sublist sublist walk.nodup memX memY⟩
  have startM : .marker M ∈ q'.queue := keep (by simpa using ne) walk.start
  have atE' : e ∈ q'.queue := keep (atE.ne walk.nodup).symm atE.mem_right
  refine
    { inv with
      start := startM
      notTail := walk.notTail
      cursor := (order startM atE').mpr walkE.cursor
      untilTail := walkE.untilTail.imp id fun before => (order atE' inv.tail_mem).mpr before
      cleared := fun {v p} after before member target => ?_ }
  have memV := after.mem_right
  have after₀ := (order startM memV).mp after
  have before₀ := (order memV atE').mp before
  have target₀ : q.Targets v p := by rwa [Targets, routes] at target
  rw [members] at member
  rcases Finset.mem_union.mp member with old | moving
  · exact walkE.cleared after₀ before₀ old target₀
  · -- a peer moved from `m` has nothing still to be sent before `m`
    have earlier : Before q.queue (.update v) (.marker m) :=
      ((before_next_iff walk.nodup split).mp before₀).resolve_left (by simp)
    exact (walk.placed (sublist.subset memV) target₀ (pointed moving)).asymm walk.nodup earlier

/-- At the tail marker the peers of `M` join it, and `M` leaves the FIFO. -/
theorem PeerWalk.reachTail {M : Nat} (walk : q.PeerWalk J M (.marker tailMarker))
    (merge : q.markerMerge tailMarker M (q.members M) = some q') : q'.Invariant J := by
  refine walk.toInvariant.markerMerge walk.tail_mem walk.start (Ne.symm walk.notTail) subset_rfl
    (fun {v p} present target member => ?_) merge
  have after := walk.placed present target (walk.member_marker walk.start member)
  rcases before_or_before walk.tail_mem present (by simp) with later | earlier
  · exact later
  · exact absurd target (walk.cleared after earlier member)

/-- The peer dequeue moves on from a RouteUpdate to the next entry, the
RouteUpdate dequeued if it emptied. -/
theorem PeerPassed.advance {M u : Nat} {e : UpdateEntry} (passed : q.PeerPassed J M (.update u))
    (next : q.nextEntry (.update u) = some e) : (q.clearUpdateIfEmpty u).PeerWalk J M e := by
  have walk := passed.next next
  have atE := nextEntry_before next
  have kept : e ∈ (q.clearUpdateIfEmpty u).queue :=
    (mem_clearUpdateIfEmpty (atE.ne walk.nodup).symm).mpr atE.mem_right
  exact walk.shrink (shrinks_clearUpdateIfEmpty u) kept

theorem PeerWalk.loop {o : Outcomes} {M : Nat} : ∀ {fuel : Nat} {q q' : UpdateQueue} {e : UpdateEntry}
    {members blocked members' blocked' : Finset Nat}, q.PeerWalk J M e →
    peerDequeueLoop o M fuel q e members blocked = some (members', blocked', q') → q'.Invariant J
  | 0, _, _, _, _, _, _, _, _, run => by cases run
  | fuel + 1, q, q', .marker m, members, blocked, members', blocked', walk, run => by
    unfold peerDequeueLoop at run
    split_ifs at run with tail
    · subst tail
      simp only [Option.bind_eq_bind, Option.bind_eq_some_iff, pure, Option.some.injEq, Prod.mk.injEq] at run
      obtain ⟨q₁, merge, -, -, rfl⟩ := run
      exact walk.reachTail merge
    · obtain ⟨e, next⟩ := Option.ne_none_iff_exists'.mp
        (nextEntry_ne_none (walk.untilTail.resolve_left (by simpa using tail)))
      dsimp only at run
      simp only [next, Option.bind_eq_bind] at run
      -- the send-ready peers of the marker passed, if any, join `M`
      split at run
      · rw [Option.bind_some] at run
        exact PeerWalk.loop (walk.pass tail next) run
      · obtain ⟨⟨q₁, members₁⟩, merged, rest⟩ := Option.bind_eq_some_iff.mp run
        obtain ⟨_, merge, same⟩ := Option.map_eq_some_iff.mp merged
        cases same
        exact PeerWalk.loop (walk.merge tail next Finset.inter_subset_left merge) rest
  | fuel + 1, q, q', .update u, members, blocked, members', blocked', walk, run => by
    unfold peerDequeueLoop at run
    simp only [Option.bind_eq_bind, Option.bind_eq_some_iff] at run
    obtain ⟨⟨more, rtBlocked, q₁⟩, step, rest⟩ := run
    rcases walk.dequeue step with ⟨rfl, passed⟩ | ⟨rfl, inv⟩
    · obtain ⟨e, next⟩ := Option.ne_none_iff_exists'.mp (nextEntry_ne_none passed.beforeTail)
      simp only [next, Bool.not_true, Bool.false_eq_true, if_false] at rest
      exact PeerWalk.loop (passed.advance next) rest
    · simp only [Bool.not_false, if_true, pure, Option.some.injEq, Prod.mk.injEq] at rest
      obtain ⟨-, -, rfl⟩ := rest
      exact inv.shrink (shrinks_clearUpdateIfEmpty u)

/-- The peer dequeue starts at the entry right after its marker. -/
theorem PeerWalk.begin {M : Nat} {e : UpdateEntry} (inv : q.Invariant J) (start : .marker M ∈ q.queue)
    (notTail : M ≠ tailMarker) (next : q.nextEntry (.marker M) = some e) : q.PeerWalk J M e := by
  obtain ⟨rest, split⟩ := nextEntry_eq_some next
  have beforeTail : Before q.queue (.marker M) (.marker tailMarker) :=
    (before_or_before start inv.tail_mem (by simpa using notTail)).resolve_right (inv.tail_last M)
  exact
    { inv with
      start := start
      notTail := notTail
      cursor := nextEntry_before next
      untilTail := ((before_iff_of_after_eq_cons inv.nodup split).mp beforeTail).imp Eq.symm id
      cleared := fun after before => by
        rcases (before_next_iff inv.nodup split).mp before with same | earlier
        · cases same
        · exact absurd earlier (after.asymm inv.nodup) }

theorem Invariant.peerDequeue {o : Outcomes} {peer : Nat} {r : Bool × Finset Nat} (inv : q.Invariant J)
    (run : peerDequeue o peer q = some (r, q')) : q'.Invariant J := by
  unfold Bgp.peerDequeue at run
  simp only [Option.bind_eq_bind, Option.bind_eq_some_iff] at run
  obtain ⟨start, pointed, rest⟩ := run
  have atStart : .marker start ∈ q.queue := (inv.marker_mem pointed).1
  by_cases tail : start = tailMarker
  · rw [if_pos tail] at rest
    simp only [pure, Option.some.injEq, Prod.mk.injEq] at rest
    obtain ⟨-, rfl⟩ := rest
    exact inv
  rw [if_neg tail] at rest
  by_cases notReady : peer ∉ q.members start ∩ o.ready start
  · rw [if_pos notReady] at rest
    simp only [pure, Option.some.injEq, Prod.mk.injEq] at rest
    obtain ⟨-, rfl⟩ := rest
    exact inv
  rw [if_neg notReady] at rest
  by_cases allReady : q.members start \ (q.members start ∩ o.ready start) = ∅
  · rw [if_pos allReady] at rest
    simp only [Option.bind_eq_some_iff, pure, Option.some.injEq, Prod.mk.injEq] at rest
    obtain ⟨_, rfl, e, next, ⟨members, blocked, q₂⟩, loop, -, rfl⟩ := rest
    exact (PeerWalk.begin inv atStart tail next).loop loop
  · rw [if_neg allReady] at rest
    simp only [Option.bind_eq_some_iff, pure, Option.some.injEq, Prod.mk.injEq] at rest
    obtain ⟨q₁, split, e, next, ⟨members, blocked, q₂⟩, loop, -, rfl⟩ := rest
    -- the peers not send ready get a marker right before `start`, which keeps its place
    have inv₁ := inv.markerSplit atStart Finset.sdiff_subset split
    have atStart₁ : .marker start ∈ q₁.queue := by
      rw [markerSplit_queue split, (insertBefore_perm atStart).mem_iff]
      exact List.mem_cons_of_mem _ atStart
    exact (PeerWalk.begin inv₁ atStart₁ tail next).loop loop

end UpdateQueue

namespace QueueState

open UpdateQueue ListOrder

theorem apply_invariant {s s' : QueueState} {op : QueueOp} (inv : s.queue.Invariant s.joined)
    (step : s.apply op = some s') : s'.queue.Invariant s'.joined := by
  cases op with
  | join bit =>
    simp only [QueueState.apply] at step
    split_ifs at step with clear
    obtain ⟨⟨_, q'⟩, joined, rfl⟩ := Option.map_eq_some_iff.mp step
    exact inv.join clear joined
  | leave bit =>
    obtain ⟨q', left, rfl⟩ := Option.map_eq_some_iff.mp step
    exact inv.leave left
  | enqueue u updates =>
    simp only [QueueState.apply] at step
    split_ifs at step with absent
    obtain ⟨⟨_, q'⟩, enqueued, rfl⟩ := Option.map_eq_some_iff.mp step
    exact inv.enqueue absent enqueued
  | dequeue u =>
    simp only [QueueState.apply] at step
    split_ifs at step
    cases step
    exact inv.shrink (shrinks_dequeue u)
  | clearPeerSet u mleave =>
    simp only [QueueState.apply] at step
    split_ifs at step
    cases step
    exact inv.shrink (shrinks_clearPeerSet u mleave)
  | tailDequeue msync o =>
    obtain ⟨⟨_, q'⟩, run, rfl⟩ := Option.map_eq_some_iff.mp step
    exact inv.tailDequeue run
  | peerDequeue peer o =>
    obtain ⟨⟨_, q'⟩, run, rfl⟩ := Option.map_eq_some_iff.mp step
    exact inv.peerDequeue run

theorem Reachable.invariant {s : QueueState} (reach : s.Reachable) : s.queue.Invariant s.joined := by
  induction reach with
  | init encodingIsXmpp => exact invariant_init encodingIsXmpp
  | step op _ step inv => exact apply_invariant inv step

end QueueState

open UpdateQueue ListOrder

theorem updateQueue_marker_invariant {s : QueueState} (reach : s.Reachable) :
    (∀ i, (s.queue.markers i).isSome ↔ i ∈ s.joined) ∧
      (∀ i m, s.queue.markers i = some m → .marker m ∈ s.queue.queue ∧ i ∈ s.queue.members m) ∧
      (∀ m m', .marker m ∈ s.queue.queue → .marker m' ∈ s.queue.queue → m ≠ m' →
        Disjoint (s.queue.members m) (s.queue.members m')) ∧
      (∀ i, i ∈ s.joined ↔ ∃ m, .marker m ∈ s.queue.queue ∧ i ∈ s.queue.members m) ∧
      (∀ m, .marker m ∈ s.queue.queue → m ≠ tailMarker → s.queue.members m ≠ ∅) ∧
      (.marker tailMarker ∈ s.queue.queue ∧
        ∀ A B m, s.queue.queue = A ++ .marker tailMarker :: B → .marker m ∉ B) ∧
      (∀ A B C u v, s.queue.queue = A ++ .update u :: (B ++ .update v :: C) →
        (s.queue.routes u).tstamp < (s.queue.routes v).tstamp) ∧
      (∀ p m, s.queue.markers p = some m → ∀ A B u, s.queue.queue = A ++ .update u :: B → .marker m ∈ B →
        ∀ x ∈ (s.queue.routes u).updates, p ∉ x.target) := by
  have inv := reach.invariant
  refine ⟨fun i => (inv.joined_iff i).symm, fun i m pointed => inv.marker_mem pointed, ?_, ?_,
    fun m present notTail => inv.nonempty present notTail, ⟨inv.tail_mem, ?_⟩, ?_, ?_⟩
  · -- a peer of two markers on the FIFO points at both
    intro m m' present present' ne
    rw [Finset.disjoint_left]
    intro i member member'
    exact ne (Option.some.inj ((inv.member_marker present member).symm.trans (inv.member_marker present' member')))
  · intro i
    rw [inv.joined_iff i, Option.isSome_iff_exists]
    constructor
    · rintro ⟨m, pointed⟩
      exact ⟨m, inv.marker_mem pointed⟩
    · rintro ⟨m, present, member⟩
      exact ⟨m, inv.member_marker present member⟩
  · intro A B m split mem
    exact inv.tail_last m (before_iff_append.mpr ⟨A, B, split, mem⟩)
  · intro A B C u v split
    exact inv.ordered (before_iff_append.mpr ⟨A, B ++ .update v :: C, split, by simp⟩)
  · intro p m pointed A B u split mem x update target
    have present : .update u ∈ s.queue.queue := by simp [split]
    have after := inv.placed present ⟨x, update, target⟩ pointed
    exact after.asymm inv.nodup (before_iff_append.mpr ⟨A, B, split, mem⟩)

/-- Two peers join, two RouteUpdates are enqueued, and a tail dequeue with only the first peer
in sync sends the first update to it and splits the second peer onto a marker of its own: the
queue then holds two markers and the updates between them. -/
theorem updateQueue_marker_invariant_after_split :
    ∃ s : QueueState, (⟨UpdateQueue.init false, ∅⟩ : QueueState).run
      [.join 0, .join 1, .enqueue 5 [⟨7, 1, {0, 1}⟩], .enqueue 6 [⟨8, 1, {0, 1}⟩],
        .tailDequeue {0} ⟨fun _ _ => ⟨false, 0, ∅⟩, fun _ => ∅, ∅⟩] = some s ∧
      s.queue.queue.countP (fun e => e matches .marker _) = 2 ∧
      (∀ i, (s.queue.markers i).isSome ↔ i ∈ s.joined) ∧
      (∀ i m, s.queue.markers i = some m → .marker m ∈ s.queue.queue ∧ i ∈ s.queue.members m) ∧
      (∀ m m', .marker m ∈ s.queue.queue → .marker m' ∈ s.queue.queue → m ≠ m' →
        Disjoint (s.queue.members m) (s.queue.members m')) ∧
      (∀ i, i ∈ s.joined ↔ ∃ m, .marker m ∈ s.queue.queue ∧ i ∈ s.queue.members m) ∧
      (∀ m, .marker m ∈ s.queue.queue → m ≠ tailMarker → s.queue.members m ≠ ∅) ∧
      (.marker tailMarker ∈ s.queue.queue ∧
        ∀ A B m, s.queue.queue = A ++ .marker tailMarker :: B → .marker m ∉ B) ∧
      (∀ A B C u v, s.queue.queue = A ++ .update u :: (B ++ .update v :: C) →
        (s.queue.routes u).tstamp < (s.queue.routes v).tstamp) ∧
      (∀ p m, s.queue.markers p = some m → ∀ A B u, s.queue.queue = A ++ .update u :: B → .marker m ∈ B →
        ∀ x ∈ (s.queue.routes u).updates, p ∉ x.target) := by
  have ran : ((⟨UpdateQueue.init false, ∅⟩ : QueueState).run
      [.join 0, .join 1, .enqueue 5 [⟨7, 1, {0, 1}⟩], .enqueue 6 [⟨8, 1, {0, 1}⟩],
        .tailDequeue {0} ⟨fun _ _ => ⟨false, 0, ∅⟩, fun _ => ∅, ∅⟩]).map
      (fun s => s.queue.queue.countP (fun e => e matches .marker _)) = some 2 := by
    decide
  obtain ⟨s, reached, markers⟩ := Option.map_eq_some_iff.mp ran
  exact ⟨s, reached, markers, updateQueue_marker_invariant (QueueState.Reachable.run (.init false) reached)⟩

end Contrail.Bgp
