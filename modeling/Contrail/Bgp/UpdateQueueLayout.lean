import Contrail.Bgp.RibOutUpdates

/-! The layout of an update queue: the FIFO holds each entry once, the tail
marker among them; the peers of the markers on the FIFO are exactly the
joined peers, each pointed at the one marker that holds it; markers other
than the tail marker hold peers; timestamps increase along the FIFO; and a
RouteUpdate still to be sent to a joined peer stands after that peer's
marker. With the tail marker as the last marker this is the invariant of the
queue. Each operation on markers keeps the layout under a condition on where
the RouteUpdates of the peers it moves stand. -/
namespace Contrail.Bgp

namespace UpdateQueue

open ListOrder

/-- An UpdateInfo of the RouteUpdate is still to be sent to the peer. -/
def Targets (q : UpdateQueue) (u p : Nat) : Prop := ∃ x ∈ (q.routes u).updates, p ∈ x.target

structure Layout (q : UpdateQueue) (joined : Finset Nat) : Prop where
  nodup : q.queue.Nodup
  tail_mem : .marker tailMarker ∈ q.queue
  fresh : ∀ {m}, .marker m ∈ q.queue → m < q.nextMarker
  joined_iff : ∀ i, i ∈ joined ↔ (q.markers i).isSome
  marker_mem : ∀ {i m}, q.markers i = some m → .marker m ∈ q.queue ∧ i ∈ q.members m
  member_marker : ∀ {m i}, .marker m ∈ q.queue → i ∈ q.members m → q.markers i = some m
  nonempty : ∀ {m}, .marker m ∈ q.queue → m ≠ tailMarker → q.members m ≠ ∅
  ordered : ∀ {u v}, Before q.queue (.update u) (.update v) → (q.routes u).tstamp < (q.routes v).tstamp
  stamped : ∀ {u}, .update u ∈ q.queue → (q.routes u).tstamp ≤ q.tstamp
  placed : ∀ {u p m}, .update u ∈ q.queue → q.Targets u p → q.markers p = some m →
    Before q.queue (.marker m) (.update u)

structure Invariant (q : UpdateQueue) (joined : Finset Nat) : Prop extends Layout q joined where
  tail_last : ∀ m, ¬ Before q.queue (.marker tailMarker) (.marker m)

theorem invariant_init (encodingIsXmpp : Bool) : (init encodingIsXmpp).Invariant ∅ where
  nodup := by simp
  tail_mem := by simp
  fresh := by simp [tailMarker]
  joined_iff := by simp
  marker_mem := by simp
  member_marker := by simp
  nonempty := by simp
  ordered := by simp [Before, after]
  stamped := by simp
  placed := by simp
  tail_last := by simp [Before, after]

/-! ## Clearing peers and dequeueing -/

/-- What clearing peers from UpdateInfos, removing UpdateInfos and dequeueing
RouteUpdates keep: the markers, the order of what is left, the timestamps,
and no RouteUpdate gains a peer to send to. -/
structure Shrinks (q q' : UpdateQueue) : Prop where
  markers : q'.markers = q.markers
  members : q'.members = q.members
  nextMarker : q'.nextMarker = q.nextMarker
  tstamp : q'.tstamp = q.tstamp
  sublist : q'.queue.Sublist q.queue
  keeps_markers : ∀ {m}, .marker m ∈ q.queue → .marker m ∈ q'.queue
  stamps : ∀ {u}, .update u ∈ q'.queue → (q'.routes u).tstamp = (q.routes u).tstamp
  targets : ∀ {u p}, .update u ∈ q'.queue → q'.Targets u p → q.Targets u p

theorem Shrinks.refl (q : UpdateQueue) : Shrinks q q :=
  ⟨rfl, rfl, rfl, rfl, List.Sublist.refl _, id, fun _ => rfl, fun _ targets => targets⟩

theorem Shrinks.trans {q q' q'' : UpdateQueue} (first : Shrinks q q') (second : Shrinks q' q'') :
    Shrinks q q'' where
  markers := second.markers.trans first.markers
  members := second.members.trans first.members
  nextMarker := second.nextMarker.trans first.nextMarker
  tstamp := second.tstamp.trans first.tstamp
  sublist := second.sublist.trans first.sublist
  keeps_markers present := second.keeps_markers (first.keeps_markers present)
  stamps present := (second.stamps present).trans (first.stamps (second.sublist.subset present))
  targets present targets := first.targets (second.sublist.subset present) (second.targets present targets)

variable {q q' : UpdateQueue} {J : Finset Nat}

theorem Layout.shrink (lay : q.Layout J) (shrinks : Shrinks q q') : q'.Layout J where
  nodup := lay.nodup.sublist shrinks.sublist
  tail_mem := shrinks.keeps_markers lay.tail_mem
  fresh present := shrinks.nextMarker ▸ lay.fresh (shrinks.sublist.subset present)
  joined_iff i := shrinks.markers ▸ lay.joined_iff i
  marker_mem pointed := by
    rw [shrinks.markers] at pointed
    obtain ⟨present, member⟩ := lay.marker_mem pointed
    exact ⟨shrinks.keeps_markers present, shrinks.members ▸ member⟩
  member_marker present member := by
    rw [shrinks.markers]
    rw [shrinks.members] at member
    exact lay.member_marker (shrinks.sublist.subset present) member
  nonempty present notTail := shrinks.members ▸ lay.nonempty (shrinks.sublist.subset present) notTail
  ordered before := by
    rw [shrinks.stamps before.mem_left, shrinks.stamps before.mem_right]
    exact lay.ordered (before.of_sublist shrinks.sublist lay.nodup)
  stamped present := by
    rw [shrinks.stamps present, shrinks.tstamp]
    exact lay.stamped (shrinks.sublist.subset present)
  placed present targets pointed := by
    rw [shrinks.markers] at pointed
    have before := lay.placed (shrinks.sublist.subset present) (shrinks.targets present targets) pointed
    exact before.to_sublist shrinks.sublist lay.nodup (shrinks.keeps_markers (lay.marker_mem pointed).1) present

theorem Invariant.shrink (inv : q.Invariant J) (shrinks : Shrinks q q') : q'.Invariant J :=
  { inv.toLayout.shrink shrinks with
    tail_last := fun m before => inv.tail_last m (before.of_sublist shrinks.sublist inv.nodup) }

theorem shrinks_dequeue (u : Nat) : Shrinks q (q.dequeue u) where
  markers := rfl
  members := rfl
  nextMarker := rfl
  tstamp := rfl
  sublist := List.erase_sublist
  keeps_markers present := (List.mem_erase_of_ne (by simp)).mpr present
  stamps _ := rfl
  targets _ targets := targets

/-- Replacing the UpdateInfos of a RouteUpdate by ones with fewer peers. -/
theorem shrinks_setUpdates {u : Nat} {updates : List UpdateInfo}
    (fewer : ∀ x ∈ updates, ∃ y ∈ (q.routes u).updates, x.target ⊆ y.target) :
    Shrinks q (q.setUpdates u updates) where
  markers := rfl
  members := rfl
  nextMarker := rfl
  tstamp := rfl
  sublist := List.Sublist.refl _
  keeps_markers := id
  stamps {v} _ := by
    by_cases same : v = u
    · subst same
      simp
    · simp [same]
  targets {v p} _ targets := by
    obtain ⟨x, mem, target⟩ := targets
    by_cases same : v = u
    · subst same
      simp only [setUpdates_routes, Function.update_self] at mem
      obtain ⟨y, memY, fewer⟩ := fewer x mem
      exact ⟨y, memY, fewer target⟩
    · simp only [setUpdates_routes, Function.update_of_ne same] at mem
      exact ⟨x, mem, target⟩

theorem shrinks_clearAdvertisedBits (u id : Nat) (isect : Finset Nat) :
    Shrinks q (q.clearAdvertisedBits u id isect).2 := by
  refine shrinks_setUpdates fun x mem => ?_
  obtain ⟨y, memY, rfl⟩ := List.mem_map.mp mem
  refine ⟨y, memY, ?_⟩
  split
  · exact Finset.sdiff_subset
  · exact Finset.Subset.refl _

theorem shrinks_removeUpdateInfo (u id : Nat) : Shrinks q (q.removeUpdateInfo u id).2 :=
  shrinks_setUpdates fun x mem => ⟨x, (List.mem_filter.mp mem).1, Finset.Subset.refl _⟩

theorem shrinks_clearUpdateIfEmpty (u : Nat) : Shrinks q (q.clearUpdateIfEmpty u) := by
  unfold clearUpdateIfEmpty clearUpdate
  split
  · exact shrinks_dequeue u
  · exact Shrinks.refl q

theorem shrinks_clearPeerSet (u : Nat) (mleave : Finset Nat) : Shrinks q (q.clearPeerSet u mleave) := by
  have fewer : Shrinks q (q.setUpdates u (((q.routes u).updates.map fun x =>
      { x with target := x.target \ mleave }).filter fun x => x.target ≠ ∅)) := by
    refine shrinks_setUpdates fun x mem => ?_
    obtain ⟨y, memY, rfl⟩ := List.mem_map.mp (List.mem_filter.mp mem).1
    exact ⟨y, memY, Finset.sdiff_subset⟩
  unfold clearPeerSet
  dsimp only
  split
  · exact fewer.trans (shrinks_dequeue u)
  · exact fewer

theorem shrinks_clearPacked (v id : Nat) (msgset : Finset Nat) : Shrinks q (q.clearPacked v id msgset) := by
  unfold clearPacked
  dsimp only
  split_ifs
  · exact (shrinks_clearAdvertisedBits v id msgset).trans ((shrinks_removeUpdateInfo v id).trans (shrinks_dequeue v))
  · exact (shrinks_clearAdvertisedBits v id msgset).trans (shrinks_removeUpdateInfo v id)
  · exact shrinks_clearAdvertisedBits v id msgset

theorem shrinks_packRoutes (msgset : Finset Nat) :
    ∀ (room : Nat) (chain : List (Nat × UpdateInfo)) (q : UpdateQueue), Shrinks q (packRoutes msgset room chain q)
  | _, [], q => Shrinks.refl q
  | 0, (v, y) :: rest, q => by
    unfold packRoutes
    split
    · exact Shrinks.refl q
    · exact shrinks_packRoutes msgset 0 rest q
  | room + 1, (v, y) :: rest, q => by
    unfold packRoutes
    split
    · exact (shrinks_clearPacked v y.id msgset).trans (shrinks_packRoutes msgset room rest _)
    · exact shrinks_packRoutes msgset (room + 1) rest q

theorem shrinks_updatePack (u : Nat) (x : UpdateInfo) (msgset : Finset Nat) (room : Nat) :
    Shrinks q (q.updatePack u x msgset room) :=
  shrinks_packRoutes msgset room _ q

/-! ## Moving peers to a new marker -/

/-- Peers `S` of the marker `M` move to a new marker put on the FIFO where
the RouteUpdates still to be sent to them come after it. -/
theorem Layout.regroup (lay : q.Layout J) {M : Nat} {S : Finset Nat} (present : .marker M ∈ q.queue)
    (sub : S ⊆ q.members M) (moved : S ≠ ∅) (kept : q.members M \ S ≠ ∅)
    (perm : q'.queue.Perm (.marker q.nextMarker :: q.queue))
    (erased : q'.queue.erase (.marker q.nextMarker) = q.queue)
    (next : q'.nextMarker = q.nextMarker + 1)
    (members : ∀ m, q'.members m =
      if m = q.nextMarker then S else if m = M then q.members M \ S else q.members m)
    (markers : ∀ i, q'.markers i = if i ∈ S then some q.nextMarker else q.markers i)
    (routes : q'.routes = q.routes) (tstamp : q'.tstamp = q.tstamp)
    (placedS : ∀ {u p}, .update u ∈ q.queue → q.Targets u p → p ∈ S →
      Before q'.queue (.marker q.nextMarker) (.update u)) : q'.Layout J := by
  have freshN : .marker q.nextMarker ∉ q.queue := fun mem => lt_irrefl _ (lay.fresh mem)
  have nodup : q'.queue.Nodup := perm.nodup_iff.mpr (List.nodup_cons.mpr ⟨freshN, lay.nodup⟩)
  have mem : ∀ e, e ∈ q'.queue ↔ e = .marker q.nextMarker ∨ e ∈ q.queue := fun e => by
    rw [perm.mem_iff, List.mem_cons]
  have order : ∀ {x y}, x ≠ .marker q.nextMarker → y ≠ .marker q.nextMarker →
      (Before q'.queue x y ↔ Before q.queue x y) := fun oldX oldY =>
    before_iff_of_erase_eq nodup erased oldX oldY
  have ne : M ≠ q.nextMarker := (lay.fresh present).ne
  -- the moved peers were all at `M`
  have atM : ∀ {i}, i ∈ S → q.markers i = some M := fun moving => lay.member_marker present (sub moving)
  have old : ∀ {m}, .marker m ∈ q.queue → m ≠ q.nextMarker := fun present' => (lay.fresh present').ne
  have targets : ∀ {u p}, q'.Targets u p ↔ q.Targets u p := by
    intro u p
    unfold Targets
    rw [routes]
  refine ⟨nodup, (mem _).mpr (.inr lay.tail_mem), ?_, ?_, ?_, ?_, ?_, ?_, ?_, ?_⟩
  · intro m present'
    rw [next]
    rcases (mem _).mp present' with same | present'
    · cases same
      omega
    · exact Nat.lt_succ_of_lt (lay.fresh present')
  · intro i
    rw [lay.joined_iff, markers]
    split_ifs with moving
    · simp [atM moving]
    · rfl
  · intro i m pointed
    rw [markers] at pointed
    split_ifs at pointed with moving
    · cases pointed
      refine ⟨(mem _).mpr (.inl rfl), ?_⟩
      rw [members, if_pos rfl]
      exact moving
    · obtain ⟨present', member⟩ := lay.marker_mem pointed
      refine ⟨(mem _).mpr (.inr present'), ?_⟩
      rw [members, if_neg (old present')]
      split_ifs with same
      · subst same
        exact Finset.mem_sdiff.mpr ⟨member, moving⟩
      · exact member
  · intro m i present' member
    rw [members] at member
    rw [markers]
    split_ifs at member with new same
    · rw [if_pos member, new]
    · subst same
      obtain ⟨member, staying⟩ := Finset.mem_sdiff.mp member
      rw [if_neg staying]
      exact lay.member_marker present member
    · have onQueue : .marker m ∈ q.queue := ((mem _).mp present').resolve_left (by simpa using new)
      have pointed := lay.member_marker onQueue member
      have staying : i ∉ S := fun moving => same (Option.some.inj ((atM moving).symm.trans pointed)).symm
      rw [if_neg staying]
      exact pointed
  · intro m present' notTail
    rw [members]
    split_ifs with new same
    · exact moved
    · exact kept
    · exact lay.nonempty (((mem _).mp present').resolve_left (by simpa using new)) notTail
  · intro u v before
    rw [routes]
    exact lay.ordered ((order (by simp) (by simp)).mp before)
  · intro u present'
    rw [routes, tstamp]
    exact lay.stamped (((mem _).mp present').resolve_left (by simp))
  · intro u p m present' target pointed
    have onQueue : .update u ∈ q.queue := ((mem _).mp present').resolve_left (by simp)
    rw [targets] at target
    rw [markers] at pointed
    split_ifs at pointed with moving
    · cases pointed
      exact placedS onQueue target moving
    · have before := lay.placed onQueue target pointed
      exact (order (by simpa using old (lay.marker_mem pointed).1) (by simp)).mpr before

theorem Invariant.regroup (inv : q.Invariant J) {M : Nat} {S : Finset Nat} (present : .marker M ∈ q.queue)
    (sub : S ⊆ q.members M) (moved : S ≠ ∅) (kept : q.members M \ S ≠ ∅)
    (perm : q'.queue.Perm (.marker q.nextMarker :: q.queue))
    (erased : q'.queue.erase (.marker q.nextMarker) = q.queue)
    (next : q'.nextMarker = q.nextMarker + 1)
    (members : ∀ m, q'.members m =
      if m = q.nextMarker then S else if m = M then q.members M \ S else q.members m)
    (markers : ∀ i, q'.markers i = if i ∈ S then some q.nextMarker else q.markers i)
    (routes : q'.routes = q.routes) (tstamp : q'.tstamp = q.tstamp)
    (placedS : ∀ {u p}, .update u ∈ q.queue → q.Targets u p → p ∈ S →
      Before q'.queue (.marker q.nextMarker) (.update u))
    (notPastTail : ¬ Before q'.queue (.marker tailMarker) (.marker q.nextMarker)) : q'.Invariant J := by
  have lay := inv.toLayout.regroup present sub moved kept perm erased next members markers routes tstamp placedS
  refine { lay with tail_last := fun m before => ?_ }
  by_cases new : m = q.nextMarker
  · subst new
    exact notPastTail before
  · have tailOld : (UpdateEntry.marker tailMarker) ≠ .marker q.nextMarker := by
      simpa using (inv.fresh inv.tail_mem).ne
    exact inv.tail_last m ((before_iff_of_erase_eq lay.nodup erased tailOld (by simpa using new)).mp before)

theorem pointMarkers_eq_some {bits : Finset Nat} {marker : Nat} :
    q.pointMarkers bits marker = some q' ↔
      (∀ i ∈ bits, (q.markers i).isSome) ∧
        q' = { q with markers := fun i => if i ∈ bits then some marker else q.markers i } := by
  unfold pointMarkers
  by_cases pointed : ∀ i ∈ bits, (q.markers i).isSome
  · rw [if_pos pointed, Option.some.injEq]
    exact ⟨fun h => ⟨pointed, h.symm⟩, fun h => h.2.symm⟩
  · simp [pointed]

theorem Invariant.markerSplit (inv : q.Invariant J) {M : Nat} {S : Finset Nat}
    (present : .marker M ∈ q.queue) (sub : S ⊆ q.members M) (split : q.markerSplit M S = some q') :
    q'.Invariant J := by
  unfold UpdateQueue.markerSplit at split
  split_ifs at split with empty
  obtain ⟨_, rfl⟩ := pointMarkers_eq_some.mp split
  have freshN : .marker q.nextMarker ∉ q.queue := fun mem => lt_irrefl _ (inv.fresh mem)
  have ne : M ≠ q.nextMarker := (inv.fresh present).ne
  refine inv.regroup present sub (not_or.mp empty).1 (not_or.mp empty).2 (insertBefore_perm present)
    (insertBefore_erase present freshN) rfl (fun m => ?_) (fun _ => rfl) rfl rfl ?_ ?_
  · by_cases atM : m = M
    · subst atM
      simp [ne]
    · simp [Function.update_apply, atM]
  · intro u p _ target moving
    rw [before_insertBefore_new present freshN]
    exact .inr (inv.placed (by assumption) target (inv.member_marker present (sub moving)))
  · rw [before_insertBefore_of_new present freshN inv.nodup]
    intro before
    by_cases tail : M = tailMarker
    · subst tail
      exact before.ne inv.nodup rfl
    · exact inv.tail_last M before

/-- The effect of `UpdateMarkersOnBlocked` when only some peers `B` of the
marker got blocked: they move to a new marker right after the RouteUpdate. -/
@[simps]
def blockedAfter (q : UpdateQueue) (M u : Nat) (B : Finset Nat) : UpdateQueue :=
  { q with nextMarker := q.nextMarker + 1, markerCount := q.markerCount + 1,
           members := Function.update (Function.update q.members M (q.members M \ B)) q.nextMarker B,
           queue := insertAfter (fun _ => false) (.update u) (.marker q.nextMarker) q.queue,
           markers := fun i => if i ∈ B then some q.nextMarker else q.markers i }

theorem updateMarkersOnBlocked_cases {M u : Nat} {B : Finset Nat} {all : Bool}
    (h : q.updateMarkersOnBlocked M u B = some (all, q')) :
    B ≠ ∅ ∧ ((all = true ∧ q.members M = B ∧ q' = q.moveMarker M u) ∨
      (all = false ∧ q.members M ≠ B ∧ q.members M \ B ≠ ∅ ∧ q' = q.blockedAfter M u B)) := by
  unfold updateMarkersOnBlocked at h
  split_ifs at h with empty whole rest
  · cases h
    exact ⟨empty, .inl ⟨rfl, whole, rfl⟩⟩
  · simp only [newMarker, addMarker, Function.update_self, if_neg empty, Option.map_eq_some_iff,
      Prod.mk.injEq] at h
    obtain ⟨q'', pointed, rfl, rfl⟩ := h
    obtain ⟨_, rfl⟩ := pointMarkers_eq_some.mp pointed
    exact ⟨empty, .inr ⟨rfl, whole, rest, rfl⟩⟩

/-- The peers `B` of the marker `M` that got blocked on the RouteUpdate `u`
move to a new marker right after it, when nothing before or at `u` is still to
be sent to them. -/
theorem Layout.blockedAfter (lay : q.Layout J) {M u : Nat} {B : Finset Nat} (present : .marker M ∈ q.queue)
    (atU : .update u ∈ q.queue) (sub : B ⊆ q.members M) (moved : B ≠ ∅) (kept : q.members M \ B ≠ ∅)
    (placedB : ∀ {v p}, .update v ∈ q.queue → q.Targets v p → p ∈ B → Before q.queue (.update u) (.update v)) :
    (q.blockedAfter M u B).Layout J := by
  have freshN : .marker q.nextMarker ∉ q.queue := fun mem => lt_irrefl _ (lay.fresh mem)
  refine lay.regroup present sub moved kept (insertAfter_perm _ atU) (insertAfter_erase _ atU freshN) rfl
    (fun m => by rw [blockedAfter_members, Function.update_apply, Function.update_apply]) (fun _ => rfl) rfl rfl ?_
  intro v p present' target moving
  rw [blockedAfter_queue, before_insertAfter_new _ atU freshN, mem_dropWhile_iff _ rfl]
  exact placedB present' target moving

theorem Invariant.blockedAfter (inv : q.Invariant J) {M u : Nat} {B : Finset Nat} (present : .marker M ∈ q.queue)
    (atU : .update u ∈ q.queue) (sub : B ⊆ q.members M) (moved : B ≠ ∅) (kept : q.members M \ B ≠ ∅)
    (placedB : ∀ {v p}, .update v ∈ q.queue → q.Targets v p → p ∈ B → Before q.queue (.update u) (.update v))
    (beforeTail : ¬ Before q.queue (.marker tailMarker) (.update u)) : (q.blockedAfter M u B).Invariant J := by
  have freshN : .marker q.nextMarker ∉ q.queue := fun mem => lt_irrefl _ (inv.fresh mem)
  refine { inv.toLayout.blockedAfter present atU sub moved kept placedB with tail_last := fun m before => ?_ }
  have lay := inv.toLayout.blockedAfter present atU sub moved kept placedB
  by_cases new : m = q.nextMarker
  · subst new
    rw [blockedAfter_queue, before_insertAfter_of_new _ atU freshN inv.nodup] at before
    rcases before with same | before | skipped
    · cases same
    · exact beforeTail before
    · exact Bool.false_ne_true (List.mem_takeWhile_imp skipped)
  · have tailOld : (UpdateEntry.marker tailMarker) ≠ .marker q.nextMarker := by
      simpa using (inv.fresh inv.tail_mem).ne
    exact inv.tail_last m ((before_iff_of_erase_eq lay.nodup (insertAfter_erase _ atU freshN) tailOld
      (by simpa using new)).mp before)

/-! ## Moving a marker -/

theorem moveMarker_queue_eq (M u : Nat) : ∃ skip : UpdateEntry → Bool, (∀ v, skip (.update v) = false) ∧
    (q.moveMarker M u).queue = insertAfter skip (.update u) (.marker M) (q.queue.erase (.marker M)) :=
  ⟨_, fun v => by by_cases tail : M = tailMarker <;> simp [tail, UpdateEntry.isMarker], moveMarker_queue q M u⟩

/-- The marker `M` moves after the RouteUpdate `u`, past which stands all
that is still to be sent to its peers. -/
theorem Layout.moveMarker (lay : q.Layout J) {M u : Nat} (present : .marker M ∈ q.queue)
    (atU : .update u ∈ q.queue)
    (placedM : ∀ {v p}, .update v ∈ q.queue → q.Targets v p → p ∈ q.members M →
      Before q.queue (.update u) (.update v)) :
    (q.moveMarker M u).Layout J := by
  obtain ⟨skip, keeps, moved⟩ := q.moveMarker_queue_eq M u
  have ne : (UpdateEntry.update u) ≠ .marker M := by simp
  have perm : (q.moveMarker M u).queue.Perm q.queue := by
    rw [moved]
    exact move_perm skip atU present ne
  have mem : ∀ {e}, e ∈ (q.moveMarker M u).queue ↔ e ∈ q.queue := perm.mem_iff
  have order : ∀ {x y : UpdateEntry}, x ≠ .marker M → y ≠ .marker M →
      (Before (q.moveMarker M u).queue x y ↔ Before q.queue x y) := by
    intro x y oldX oldY
    rw [moved]
    exact before_move_iff skip lay.nodup atU ne oldX oldY
  refine
    { nodup := perm.nodup_iff.mpr lay.nodup
      tail_mem := mem.mpr lay.tail_mem
      fresh := fun present' => lay.fresh (mem.mp present')
      joined_iff := lay.joined_iff
      marker_mem := fun pointed => ?_
      member_marker := fun present' member => lay.member_marker (mem.mp present') member
      nonempty := fun present' => lay.nonempty (mem.mp present')
      ordered := fun before => lay.ordered ((order (by simp) (by simp)).mp before)
      stamped := fun present' => lay.stamped (mem.mp present')
      placed := fun {v p m} present' target pointed => ?_ }
  · obtain ⟨onQueue, member⟩ := lay.marker_mem pointed
    exact ⟨mem.mpr onQueue, member⟩
  · have old := mem.mp present'
    by_cases same : m = M
    · subst same
      have after := placedM old target (lay.marker_mem pointed).2
      rw [moved, before_insertAfter_new skip ((List.mem_erase_of_ne ne).mpr atU) lay.nodup.not_mem_erase,
        mem_dropWhile_iff skip (keeps v)]
      exact (before_erase_iff lay.nodup).mpr ⟨after, ne, by simp⟩
    · exact (order (by simpa using same) (by simp)).mpr (lay.placed old target pointed)

/-- A marker other than the tail marker moves to a RouteUpdate before the
tail marker. -/
theorem Invariant.moveMarker (inv : q.Invariant J) {M u : Nat} (present : .marker M ∈ q.queue)
    (atU : .update u ∈ q.queue)
    (placedM : ∀ {v p}, .update v ∈ q.queue → q.Targets v p → p ∈ q.members M →
      Before q.queue (.update u) (.update v))
    (notTail : M ≠ tailMarker) (beforeTail : ¬ Before q.queue (.marker tailMarker) (.update u)) :
    (q.moveMarker M u).Invariant J := by
  refine { inv.toLayout.moveMarker present atU placedM with tail_last := fun m before => ?_ }
  have ne : (UpdateEntry.update u) ≠ .marker M := by simp
  rw [moveMarker_queue, if_neg notTail] at before
  by_cases same : m = M
  · subst same
    rw [before_insertAfter_of_new _ ((List.mem_erase_of_ne ne).mpr atU) inv.nodup.not_mem_erase
      (inv.nodup.erase _)] at before
    rcases before with same | before | skipped
    · cases same
    · exact beforeTail ((before_erase_iff inv.nodup).mp before).1
    · exact Bool.false_ne_true (List.mem_takeWhile_imp skipped)
  · rw [before_move_iff _ inv.nodup atU ne (by simpa using (Ne.symm notTail)) (by simpa using same)] at before
    exact inv.tail_last m before

/-- The tail marker moves after a RouteUpdate followed by markers only, or
by no marker at all: it is then the last marker. -/
theorem Layout.moveTail (lay : q.Layout J) {u : Nat} (atU : .update u ∈ q.queue)
    (placedT : ∀ {v p}, .update v ∈ q.queue → q.Targets v p → p ∈ q.members tailMarker →
      Before q.queue (.update u) (.update v))
    (rest : (∀ e ∈ after (.update u) q.queue, e.isMarker) ∨ ∀ m, .marker m ∉ after (.update u) q.queue) :
    (q.moveMarker tailMarker u).Invariant J := by
  refine { lay.moveMarker lay.tail_mem atU placedT with tail_last := fun m before => ?_ }
  have ne : (UpdateEntry.update u) ≠ .marker tailMarker := by simp
  have fewer := after_erase_sublist (l := q.queue) ne.symm
  rw [moveMarker_queue, if_pos rfl, before_insertAfter_new _ ((List.mem_erase_of_ne ne).mpr atU)
    lay.nodup.not_mem_erase] at before
  rcases rest with markersOnly | noMarker
  · rw [List.dropWhile_eq_nil_iff.mpr fun e mem => markersOnly e (fewer.subset mem)] at before
    cases before
  · exact noMarker m (fewer.subset ((List.dropWhile_sublist _).subset before))

/-! ## Merging markers -/

/-- The markers and their peers once `MarkerMerge` moved the peers `S` from
`src` to `dst`. -/
def merged (q : UpdateQueue) (dst src : Nat) (S : Finset Nat) : UpdateQueue :=
  { q with members := Function.update (Function.update q.members dst (q.members dst ∪ S)) src (q.members src \ S),
           markers := fun i => if i ∈ S then some dst else q.markers i }

theorem merged_members {dst src : Nat} {S : Finset Nat} (ne : dst ≠ src) (m : Nat) :
    (q.merged dst src S).members m =
      if m = src then q.members src \ S else if m = dst then q.members dst ∪ S else q.members m := by
  by_cases atSrc : m = src
  · subst atSrc
    simp [merged]
  · by_cases atDst : m = dst
    · subst atDst
      simp [merged, ne]
    · simp [merged, atSrc, atDst]

theorem markerMerge_cases {dst src : Nat} {S : Finset Nat} (ne : dst ≠ src)
    (merge : q.markerMerge dst src S = some q') :
    S ≠ ∅ ∧ (∀ i ∈ S, (q.markers i).isSome) ∧
      (q.members src \ S ≠ ∅ ∧ q' = q.merged dst src S ∨
        q.members src \ S = ∅ ∧ src ≠ tailMarker ∧
          q' = { q.merged dst src S with queue := q.queue.erase (.marker src),
                                         markerCount := q.markerCount - 1 }) := by
  unfold UpdateQueue.markerMerge at merge
  by_cases empty : S = ∅
  · simp [empty] at merge
  · simp only [empty, if_false, Option.bind_eq_bind, Option.bind_eq_some_iff] at merge
    obtain ⟨_, pointed, rest⟩ := merge
    obtain ⟨pointedAll, rfl⟩ := pointMarkers_eq_some.mp pointed
    simp only [Function.update_of_ne ne.symm] at rest
    refine ⟨empty, pointedAll, ?_⟩
    split_ifs at rest with remaining tail
    · cases rest
      exact .inr ⟨remaining, tail, rfl⟩
    · cases rest
      exact .inl ⟨remaining, rfl⟩

/-- The peers `S` of `src` move to `dst`, after which stands all that is still
to be sent to them; `src` leaves the FIFO if it is emptied. -/
theorem Layout.merge (lay : q.Layout J) {dst src : Nat} {S : Finset Nat} (atDst : .marker dst ∈ q.queue)
    (atSrc : .marker src ∈ q.queue) (ne : dst ≠ src) (sub : S ⊆ q.members src) (moved : S ≠ ∅)
    (placedS : ∀ {v p}, .update v ∈ q.queue → q.Targets v p → p ∈ S → Before q.queue (.marker dst) (.update v))
    (sublist : q'.queue.Sublist q.queue)
    (keep : ∀ {e}, e ∈ q.queue → (e = .marker src → q.members src \ S ≠ ∅) → e ∈ q'.queue)
    (srcGone : .marker src ∈ q'.queue → q.members src \ S ≠ ∅) (tailKept : .marker tailMarker ∈ q'.queue)
    (members : q'.members = (q.merged dst src S).members) (markers : q'.markers = (q.merged dst src S).markers)
    (routes : q'.routes = q.routes) (tstamp : q'.tstamp = q.tstamp) (next : q'.nextMarker = q.nextMarker) :
    q'.Layout J := by
  have keepDst : .marker dst ∈ q'.queue := keep atDst fun same => absurd (by simpa using same) ne
  have pointedSrc : ∀ {i}, i ∈ S → q.markers i = some src := fun moving => lay.member_marker atSrc (sub moving)
  have memberAt : ∀ m, q'.members m =
      if m = src then q.members src \ S else if m = dst then q.members dst ∪ S else q.members m := by
    intro m
    rw [members, merged_members ne]
  have pointedAt : ∀ i, q'.markers i = if i ∈ S then some dst else q.markers i := fun i => by
    rw [markers]
    rfl
  have marker_mem : ∀ {i m}, q'.markers i = some m → .marker m ∈ q'.queue ∧ i ∈ q'.members m := by
    intro i m pointed
    rw [pointedAt] at pointed
    split_ifs at pointed with moving
    · cases pointed
      rw [memberAt, if_neg ne]
      exact ⟨keepDst, by simp [moving]⟩
    · obtain ⟨onQueue, member⟩ := lay.marker_mem pointed
      rw [memberAt]
      split_ifs with atSrc' atDst'
      · subst atSrc'
        have remaining : i ∈ q.members m \ S := Finset.mem_sdiff.mpr ⟨member, moving⟩
        exact ⟨keep onQueue fun _ => Finset.ne_empty_of_mem remaining, remaining⟩
      · subst atDst'
        exact ⟨keepDst, Finset.mem_union_left _ member⟩
      · exact ⟨keep onQueue fun same => absurd (by simpa using same) atSrc', member⟩
  refine
    { nodup := lay.nodup.sublist sublist
      tail_mem := tailKept
      fresh := fun present => next ▸ lay.fresh (sublist.subset present)
      joined_iff := fun i => ?_
      marker_mem := marker_mem
      member_marker := fun {m i} present member => ?_
      nonempty := fun {m} present notTail => ?_
      ordered := fun before => ?_
      stamped := fun present => ?_
      placed := fun {v p m} present target pointed => ?_ }
  · rw [pointedAt]
    split_ifs with moving
    · simp [lay.joined_iff, pointedSrc moving]
    · exact lay.joined_iff i
  · have old := sublist.subset present
    rw [pointedAt]
    rw [memberAt] at member
    split_ifs at member with atSrc' atDst'
    · subst atSrc'
      obtain ⟨member, moving⟩ := Finset.mem_sdiff.mp member
      rw [if_neg moving]
      exact lay.member_marker old member
    · subst atDst'
      split_ifs with moving
      · rfl
      · exact lay.member_marker old ((Finset.mem_union.mp member).resolve_right moving)
    · split_ifs with moving
      · have same := (lay.member_marker old member).symm.trans (pointedSrc moving)
        exact absurd (Option.some.inj same) atSrc'
      · exact lay.member_marker old member
  · rw [memberAt]
    split_ifs with atSrc' atDst'
    · subst atSrc'
      exact srcGone present
    · exact fun empty => moved (Finset.subset_empty.mp (empty ▸ Finset.subset_union_right))
    · exact lay.nonempty (sublist.subset present) notTail
  · rw [routes]
    exact lay.ordered (before.of_sublist sublist lay.nodup)
  · rw [routes, tstamp]
    exact lay.stamped (sublist.subset present)
  · have old := sublist.subset present
    have target' : q.Targets v p := by rwa [Targets, routes] at target
    obtain ⟨onQueue, _⟩ := marker_mem pointed
    rw [pointedAt] at pointed
    split_ifs at pointed with moving
    · cases pointed
      exact (placedS old target' moving).to_sublist sublist lay.nodup onQueue present
    · exact (lay.placed old target' pointed).to_sublist sublist lay.nodup onQueue present

theorem Invariant.markerMerge (inv : q.Invariant J) {dst src : Nat} {S : Finset Nat}
    (atDst : .marker dst ∈ q.queue) (atSrc : .marker src ∈ q.queue) (ne : dst ≠ src) (sub : S ⊆ q.members src)
    (placedS : ∀ {v p}, .update v ∈ q.queue → q.Targets v p → p ∈ S → Before q.queue (.marker dst) (.update v))
    (merge : q.markerMerge dst src S = some q') : q'.Invariant J := by
  obtain ⟨moved, _, kept | emptied⟩ := markerMerge_cases ne merge
  · obtain ⟨remaining, rfl⟩ := kept
    have lay : (q.merged dst src S).Layout J :=
      inv.toLayout.merge atDst atSrc ne sub moved placedS (List.Sublist.refl _) (fun present _ => present)
        (fun _ => remaining) inv.tail_mem rfl rfl rfl rfl rfl
    exact { lay with tail_last := inv.tail_last }
  · obtain ⟨remaining, notTail, eq⟩ := emptied
    have keep : ∀ {e}, e ∈ q.queue → (e = .marker src → q.members src \ S ≠ ∅) →
        e ∈ q.queue.erase (.marker src) := by
      intro e present kept
      by_cases same : e = .marker src
      · exact absurd remaining (kept same)
      · exact (List.mem_erase_of_ne same).mpr present
    have tailKept : .marker tailMarker ∈ q.queue.erase (.marker src) :=
      (List.mem_erase_of_ne (by simpa using Ne.symm notTail)).mpr inv.tail_mem
    have lay : q'.Layout J := by
      subst eq
      exact inv.toLayout.merge atDst atSrc ne sub moved placedS List.erase_sublist keep
        (fun gone => absurd gone inv.nodup.not_mem_erase) tailKept rfl rfl rfl rfl rfl
    have sublist : q'.queue.Sublist q.queue := by
      rw [eq]
      exact List.erase_sublist
    exact { lay with tail_last := fun m before => inv.tail_last m (before.of_sublist sublist inv.nodup) }

/-! ## Joining, leaving and enqueueing -/

theorem mem_attrSet {u : Nat} {x : UpdateInfo} :
    (u, x) ∈ q.attrSet ↔ .update u ∈ q.queue ∧ x ∈ (q.routes u).updates := by
  unfold attrSet
  rw [List.mem_flatMap]
  constructor
  · rintro ⟨e, present, mem⟩
    cases e with
    | marker m => cases mem
    | update v =>
      obtain ⟨y, mem, same⟩ := List.mem_map.mp mem
      cases same
      exact ⟨present, mem⟩
  · rintro ⟨present, mem⟩
    exact ⟨.update u, present, List.mem_map.mpr ⟨x, mem, rfl⟩⟩

/-- A peer joins at the tail marker once no UpdateInfo is still to be sent to
its index. -/
theorem Invariant.join (inv : q.Invariant J) {bit : Nat} {result : Bool}
    (clear : ∀ p ∈ q.attrSet, bit ∉ p.2.target) (joined : q.join bit = some (result, q')) :
    q'.Invariant (insert bit J) := by
  unfold UpdateQueue.join at joined
  split at joined
  · cases joined
  · rename_i absent
    simp only [Option.some.injEq, Prod.mk.injEq] at joined
    obtain ⟨-, rfl⟩ := joined
    refine
      { nodup := inv.nodup
        tail_mem := inv.tail_mem
        fresh := inv.fresh
        joined_iff := fun i => ?_
        marker_mem := fun {i m} pointed => ?_
        member_marker := fun {m i} present member => ?_
        nonempty := fun {m} present notTail => ?_
        ordered := inv.ordered
        stamped := inv.stamped
        placed := fun {u p m} present target pointed => ?_
        tail_last := inv.tail_last }
    all_goals dsimp only at *
    · by_cases same : i = bit
      · subst same
        simp
      · simp [same, inv.joined_iff i]
    · by_cases same : i = bit
      · subst same
        simp only [Function.update_self, Option.some.injEq] at pointed
        subst pointed
        simp [inv.tail_mem]
      · rw [Function.update_of_ne same] at pointed
        obtain ⟨onQueue, member⟩ := inv.marker_mem pointed
        refine ⟨onQueue, ?_⟩
        by_cases tail : m = tailMarker
        · subst tail
          simp [member]
        · simpa [Function.update_of_ne tail] using member
    · by_cases tail : m = tailMarker
      · subst tail
        simp only [Function.update_self, Finset.mem_insert] at member
        by_cases same : i = bit
        · subst same
          simp
        · rw [Function.update_of_ne same]
          exact inv.member_marker present (member.resolve_left same)
      · rw [Function.update_of_ne tail] at member
        have pointed := inv.member_marker present member
        have other : i ≠ bit := fun same => by simp [same, absent] at pointed
        rw [Function.update_of_ne other]
        exact pointed
    · simpa [Function.update_of_ne notTail] using inv.nonempty present notTail
    · by_cases same : p = bit
      · subst same
        obtain ⟨x, mem, target⟩ := target
        exact absurd target (clear (u, x) (mem_attrSet.mpr ⟨present, mem⟩))
      · rw [Function.update_of_ne same] at pointed
        exact inv.placed present target pointed

/-- The peer `bit` leaves the marker `m`, which leaves the FIFO if it is
emptied and is not the tail marker. -/
theorem Layout.drop (lay : q.Layout J) {bit m : Nat} (pointed : q.markers bit = some m)
    (sublist : q'.queue.Sublist q.queue)
    (keep : ∀ {e}, e ∈ q.queue → (e = .marker m → (q.members m).erase bit ≠ ∅ ∨ m = tailMarker) → e ∈ q'.queue)
    (gone : .marker m ∈ q'.queue → (q.members m).erase bit ≠ ∅ ∨ m = tailMarker)
    (members : q'.members = Function.update q.members m ((q.members m).erase bit))
    (markers : q'.markers = Function.update q.markers bit none)
    (routes : q'.routes = q.routes) (tstamp : q'.tstamp = q.tstamp) (next : q'.nextMarker = q.nextMarker) :
    q'.Layout (J.erase bit) := by
  have marker_mem : ∀ {i m'}, q'.markers i = some m' → .marker m' ∈ q'.queue ∧ i ∈ q'.members m' := by
    intro i m' pointed'
    rw [markers] at pointed'
    have other : i ≠ bit := fun same => by simp [same] at pointed'
    rw [Function.update_of_ne other] at pointed'
    obtain ⟨onQueue, member⟩ := lay.marker_mem pointed'
    rw [members]
    by_cases same : m' = m
    · subst same
      have remaining : i ∈ (q.members m').erase bit := Finset.mem_erase.mpr ⟨other, member⟩
      exact ⟨keep onQueue fun _ => .inl (Finset.ne_empty_of_mem remaining), by simpa using remaining⟩
    · exact ⟨keep onQueue fun atM => absurd (by simpa using atM) same, by simpa [same] using member⟩
  refine
    { nodup := lay.nodup.sublist sublist
      tail_mem := keep lay.tail_mem fun atM => .inr (by simpa [eq_comm] using atM)
      fresh := fun present => next ▸ lay.fresh (sublist.subset present)
      joined_iff := fun i => ?_
      marker_mem := marker_mem
      member_marker := fun {m' i} present member => ?_
      nonempty := fun {m'} present notTail => ?_
      ordered := fun before => ?_
      stamped := fun present => ?_
      placed := fun {v p m'} present target pointed' => ?_ }
  · rw [markers]
    by_cases same : i = bit
    · subst same
      simp
    · simp [same, lay.joined_iff i]
  · have old := sublist.subset present
    rw [markers]
    rw [members] at member
    by_cases same : m' = m
    · subst same
      obtain ⟨other, member⟩ := Finset.mem_erase.mp (by simpa using member)
      rw [Function.update_of_ne other]
      exact lay.member_marker old member
    · rw [Function.update_of_ne same] at member
      have pointedI := lay.member_marker old member
      have other : i ≠ bit := fun atBit => by
        subst atBit
        exact same (Option.some.inj (pointedI.symm.trans pointed))
      rw [Function.update_of_ne other]
      exact pointedI
  · rw [members]
    by_cases same : m' = m
    · subst same
      simpa using (gone present).resolve_right notTail
    · simpa [same] using lay.nonempty (sublist.subset present) notTail
  · rw [routes]
    exact lay.ordered (before.of_sublist sublist lay.nodup)
  · rw [routes, tstamp]
    exact lay.stamped (sublist.subset present)
  · have old := sublist.subset present
    have target' : q.Targets v p := by rwa [Targets, routes] at target
    obtain ⟨onQueue, _⟩ := marker_mem pointed'
    rw [markers] at pointed'
    have other : p ≠ bit := fun same => by simp [same] at pointed'
    rw [Function.update_of_ne other] at pointed'
    exact (lay.placed old target' pointed').to_sublist sublist lay.nodup onQueue present

theorem Invariant.leave (inv : q.Invariant J) {bit : Nat} (left : q.leave bit = some q') :
    q'.Invariant (J.erase bit) := by
  unfold UpdateQueue.leave at left
  split at left
  · cases left
  · rename_i m pointed
    split_ifs at left with emptied <;> cases left
    · have keep : ∀ {e}, e ∈ q.queue → (e = .marker m → (q.members m).erase bit ≠ ∅ ∨ m = tailMarker) →
          e ∈ q.queue.erase (.marker m) := by
        intro e present kept
        by_cases same : e = .marker m
        · rcases kept same with remaining | tail
          · exact absurd emptied.2 remaining
          · exact absurd tail emptied.1
        · exact (List.mem_erase_of_ne same).mpr present
      refine ⟨inv.toLayout.drop pointed List.erase_sublist keep
        (fun present => absurd present inv.nodup.not_mem_erase) rfl rfl rfl rfl rfl, ?_⟩
      exact fun m' before => inv.tail_last m' (before.of_sublist List.erase_sublist inv.nodup)
    · have kept : (q.members m).erase bit ≠ ∅ ∨ m = tailMarker := by tauto
      exact ⟨inv.toLayout.drop pointed (List.Sublist.refl _) (fun present _ => present) (fun _ => kept)
        rfl rfl rfl rfl rfl, inv.tail_last⟩

/-- A RouteUpdate that is not on the FIFO is stamped and appended. -/
theorem Invariant.enqueue (inv : q.Invariant J) {u : Nat} {updates : List UpdateInfo} {result : Bool}
    (absent : .update u ∉ q.queue) (enqueued : q.enqueue u updates = some (result, q')) : q'.Invariant J := by
  unfold UpdateQueue.enqueue at enqueued
  split_ifs at enqueued
  simp only [Option.some.injEq, Prod.mk.injEq] at enqueued
  obtain ⟨-, rfl⟩ := enqueued
  have old : ∀ {e}, e ∈ q.queue ++ [.update u] → e ≠ .update u → e ∈ q.queue := by
    intro e present ne
    simpa [ne] using present
  have routesOld : ∀ {v}, .update v ∈ q.queue → Function.update q.routes u ⟨q.tstamp + 1, updates⟩ v = q.routes v :=
    fun present => Function.update_of_ne (by rintro rfl; exact absent present) _ _
  refine
    { nodup := inv.nodup.append (List.nodup_singleton _) (List.disjoint_singleton.mpr absent)
      tail_mem := List.mem_append_left _ inv.tail_mem
      fresh := fun present => inv.fresh (old present (by simp))
      joined_iff := inv.joined_iff
      marker_mem := fun pointed => ⟨List.mem_append_left _ (inv.marker_mem pointed).1, (inv.marker_mem pointed).2⟩
      member_marker := fun present member => inv.member_marker (old present (by simp)) member
      nonempty := fun present => inv.nonempty (old present (by simp))
      ordered := fun {a b} before => ?_
      stamped := fun {v} present => ?_
      placed := fun {v p m} present target pointed => ?_
      tail_last := fun m before => ?_ }
  all_goals dsimp only at *
  · rcases before_append_singleton_iff.mp before with before | ⟨present, last⟩
    · rw [routesOld before.mem_left, routesOld before.mem_right]
      exact inv.ordered before
    · cases last
      rw [routesOld present, Function.update_self]
      exact Nat.lt_succ_of_le (inv.stamped present)
  · by_cases same : v = u
    · subst same
      simp
    · have present' := old present (by simpa using same)
      rw [routesOld present']
      exact Nat.le_succ_of_le (inv.stamped present')
  · by_cases same : v = u
    · subst same
      exact before_append_singleton_iff.mpr (.inr ⟨(inv.marker_mem pointed).1, rfl⟩)
    · have present' := old present (by simpa using same)
      obtain ⟨x, mem, target⟩ := target
      dsimp only at mem
      rw [routesOld present'] at mem
      exact before_append_singleton_iff.mpr (.inl (inv.placed present' ⟨x, mem, target⟩ pointed))
  · rcases before_append_singleton_iff.mp before with before | ⟨_, last⟩
    · exact inv.tail_last m before
    · cases last

end UpdateQueue

end Contrail.Bgp
