import Contrail.Bgp.UpdateQueueLayout

/-! One pass of `DequeueCommon` over a RouteUpdate: its UpdateInfos are
cleared of the peers of the marker, `UpdatePack` clears and dequeues only
other RouteUpdates, and the peers reported blocked are the marker's. The
chain of `AttrNext` climbs the attribute order, so it never comes back to the
RouteUpdate being sent. -/
namespace Contrail.Bgp

namespace UpdateQueue

open ListOrder

variable {q q' : UpdateQueue}

/-! ## The attribute order -/

theorem attrSucc_spec {k : Nat × Nat × Nat × Nat} {e : Nat × UpdateInfo} (succ : q.attrSucc k = some e) :
    e ∈ q.attrSet ∧ keyLt k (q.attrKey e.1 e.2) = true := by
  unfold attrSucc at succ
  refine (foldl_select _ (fun e => keyLt k (q.attrKey e.1 e.2) = true) ?_ _ _ succ).resolve_left (by simp)
  intro best e
  split_ifs with later
  · split
    · split_ifs
      · exact .inr ⟨rfl, later⟩
      · exact .inl rfl
    · exact .inr ⟨rfl, later⟩
  · exact .inl rfl

/-- `AttrNext` moves to a later RouteUpdate: a later timestamp, or the same
one and a higher address. -/
theorem attrNext_later {w v : Nat} {z y : UpdateInfo} (next : q.attrNext w z = some (v, y)) :
    (q.routes w).tstamp < (q.routes v).tstamp ∨ (q.routes w).tstamp = (q.routes v).tstamp ∧ w < v := by
  unfold attrNext at next
  split at next
  · cases next
  · rename_i v' y' succ
    have lt := (attrSucc_spec succ).2
    split_ifs at next with same xmpp reach attr <;> cases next
    all_goals simp only [keyLt, attrKey, decide_eq_true_eq] at lt
    · -- for XMPP the same reachability gives the same first key
      simp only [xmpp, if_true] at lt
      by_cases zero : z.attr = 0
      · simp only [zero, reach.mpr zero, if_true] at lt
        omega
      · simp only [zero, mt reach.mp zero, if_false] at lt
        omega
    · simp only [xmpp, attr] at lt
      omega

/-- Every RouteUpdate of the chain from `w` comes after `u` when `w` does not
come before it. -/
theorem attrChain_later {u : Nat} : ∀ {fuel w : Nat} {z : UpdateInfo},
    ((q.routes u).tstamp < (q.routes w).tstamp ∨ (q.routes u).tstamp = (q.routes w).tstamp ∧ u ≤ w) →
    ∀ p ∈ q.attrChain fuel w z,
      (q.routes u).tstamp < (q.routes p.1).tstamp ∨ (q.routes u).tstamp = (q.routes p.1).tstamp ∧ u < p.1
  | 0, _, _, _, _, mem => by cases mem
  | fuel + 1, w, z, start, p, mem => by
    unfold attrChain at mem
    split at mem
    · cases mem
    · rename_i v y next
      have later := attrNext_later next
      rcases List.mem_cons.mp mem with rfl | mem
      · dsimp only
        omega
      · exact attrChain_later (by omega) p mem

theorem attrChain_update_ne {fuel u : Nat} {x : UpdateInfo} : ∀ p ∈ q.attrChain fuel u x, p.1 ≠ u := by
  intro p mem same
  have later := attrChain_later (Or.inr ⟨rfl, le_refl u⟩) p mem
  rw [same] at later
  omega

/-! ## `UpdatePack` leaves the RouteUpdate alone -/

theorem clearPacked_other {u v id : Nat} {msgset : Finset Nat} (ne : v ≠ u) :
    (q.clearPacked v id msgset).routes u = q.routes u ∧
      (.update u ∈ (q.clearPacked v id msgset).queue ↔ .update u ∈ q.queue) := by
  have kept : (UpdateEntry.update u) ≠ .update v := by simpa using Ne.symm ne
  unfold clearPacked clearAdvertisedBits removeUpdateInfo clearUpdate
  dsimp only
  split_ifs <;> simp [Function.update_of_ne (Ne.symm ne), List.mem_erase_of_ne kept]

theorem packRoutes_other {u : Nat} {msgset : Finset Nat} : ∀ {room : Nat} {chain : List (Nat × UpdateInfo)}
    {q : UpdateQueue}, (∀ p ∈ chain, p.1 ≠ u) →
    (packRoutes msgset room chain q).routes u = q.routes u ∧
      (.update u ∈ (packRoutes msgset room chain q).queue ↔ .update u ∈ q.queue)
  | _, [], _, _ => ⟨rfl, Iff.rfl⟩
  | room, (v, y) :: rest, q, away => by
    have restAway : ∀ p ∈ rest, p.1 ≠ u := fun p mem => away p (List.mem_cons_of_mem _ mem)
    unfold packRoutes
    split_ifs
    · cases room with
      | zero => exact ⟨rfl, Iff.rfl⟩
      | succ room =>
        have cleared : (q.clearPacked v y.id msgset).routes u = q.routes u ∧
            (.update u ∈ (q.clearPacked v y.id msgset).queue ↔ .update u ∈ q.queue) :=
          clearPacked_other (away _ List.mem_cons_self)
        have packed := @packRoutes_other u msgset room rest (q.clearPacked v y.id msgset) restAway
        exact ⟨packed.1.trans cleared.1, packed.2.trans cleared.2⟩
    · exact packRoutes_other restAway

theorem updatePack_other {u : Nat} {x : UpdateInfo} {msgset : Finset Nat} {room : Nat} :
    (q.updatePack u x msgset room).routes u = q.routes u ∧
      (.update u ∈ (q.updatePack u x msgset room).queue ↔ .update u ∈ q.queue) :=
  packRoutes_other attrChain_update_ne

/-! ## The loop over the UpdateInfos -/

/-- The loop over the UpdateInfos of `u` shrinks the queue, keeps `u` on it,
clears its UpdateInfos of the marker's peers and reports only those peers
blocked; `done` are the UpdateInfos passed and `rest` those to come. -/
theorem dequeueInfos_spec {o : Outcomes} {M u : Nat} {B : Finset Nat} :
    ∀ {rest done : List UpdateInfo} {rtBlocked : Finset Nat} {q q' : UpdateQueue},
    dequeueInfos o M u done rest rtBlocked q = (B, q') →
    (q.routes u).updates = done ++ rest → (∀ x ∈ done, x.target ∩ q.members M = ∅) →
    rtBlocked ⊆ q.members M → .update u ∈ q.queue →
    Shrinks q q' ∧ .update u ∈ q'.queue ∧ (∀ x ∈ (q'.routes u).updates, x.target ∩ q.members M = ∅) ∧
      B ⊆ q.members M
  | [], done, rtBlocked, q, q', run, updates, cleared, blocked, atU => by
    unfold dequeueInfos at run
    cases run
    refine ⟨Shrinks.refl q, atU, ?_, blocked⟩
    rw [updates, List.append_nil]
    exact cleared
  | x :: rest, done, rtBlocked, q, q', run, updates, cleared, blocked, atU => by
    unfold dequeueInfos at run
    dsimp only at run
    by_cases idle : x.target ∩ q.members M = ∅
    · -- no peer of the marker is a target: the UpdateInfo is passed over
      rw [if_pos idle] at run
      refine dequeueInfos_spec run (by rw [updates, List.append_assoc, List.singleton_append]) ?_ blocked atU
      intro y mem
      rcases List.mem_append.mp mem with old | new
      · exact cleared y old
      · rw [List.mem_singleton.mp new]
        exact idle
    · rw [if_neg idle] at run
      generalize packedEq : (if (o.message u x.id).built = true then
        q.updatePack u x (x.target ∩ q.members M) (o.message u x.id).room else q) = packed at run
      generalize doneEq : (if x.target \ (x.target ∩ q.members M) = ∅ then done
        else done ++ [{ x with target := x.target \ (x.target ∩ q.members M) }]) = done' at run
      have pack : Shrinks q packed ∧ packed.routes u = q.routes u ∧ .update u ∈ packed.queue := by
        rw [← packedEq]
        split
        · exact ⟨shrinks_updatePack _ _ _ _, updatePack_other.1, updatePack_other.2.mpr atU⟩
        · exact ⟨Shrinks.refl q, rfl, atU⟩
      -- the UpdateInfo sent keeps only the peers outside the marker
      have passed : ∀ y ∈ done', y.target ∩ q.members M = ∅ ∧ ∃ z ∈ (q.routes u).updates, y.target ⊆ z.target := by
        intro y mem
        rw [← doneEq] at mem
        rw [updates]
        split_ifs at mem
        · exact ⟨cleared y mem, y, List.mem_append_left _ mem, subset_rfl⟩
        · rcases List.mem_append.mp mem with old | new
          · exact ⟨cleared y old, y, List.mem_append_left _ old, subset_rfl⟩
          · rw [List.mem_singleton.mp new]
            refine ⟨?_, x, by simp, Finset.sdiff_subset⟩
            ext i
            simp only [Finset.mem_inter, Finset.mem_sdiff, Finset.notMem_empty, iff_false]
            tauto
      have write : Shrinks packed (packed.setUpdates u (done' ++ rest)) := by
        refine shrinks_setUpdates fun y mem => ?_
        rw [pack.2.1]
        rcases List.mem_append.mp mem with sent | later
        · exact (passed y sent).2
        · exact ⟨y, by simp [updates, later], subset_rfl⟩
      have shrinks := pack.1.trans write
      have blocked' : rtBlocked ∪ (if (o.message u x.id).built = true then
          x.target ∩ q.members M ∩ (o.message u x.id).blocked else ∅) ⊆ q.members M := by
        refine Finset.union_subset blocked ?_
        split
        · exact Finset.inter_subset_left.trans Finset.inter_subset_right
        · exact Finset.empty_subset _
      obtain ⟨later, atU', clearedAfter, blockedAfter⟩ := dequeueInfos_spec run (by simp)
        (by rw [shrinks.members]; exact fun y mem => (passed y mem).1) (by rw [shrinks.members]; exact blocked')
        pack.2.2
      rw [shrinks.members] at clearedAfter blockedAfter
      exact ⟨shrinks.trans later, atU', clearedAfter, blockedAfter⟩

/-! ## `DequeueCommon` -/

/-- `DequeueCommon` on the marker `M` and the RouteUpdate `u`: the loop over
the UpdateInfos gives a shrunk queue `q₁` in which nothing of `u` is still to
be sent to the peers of `M`; then none got blocked, or all of them and `M`
moves after `u`, or some of them and they get a new marker after `u`. -/
theorem dequeueCommon_cases {o : Outcomes} {M u : Nat} {more : Bool} {B : Finset Nat}
    (atU : .update u ∈ q.queue) (run : dequeueCommon o q M u = some (more, B, q')) :
    ∃ q₁, Shrinks q q₁ ∧ .update u ∈ q₁.queue ∧ (∀ p ∈ q.members M, ¬ q₁.Targets u p) ∧ B ⊆ q.members M ∧
      (B = ∅ ∧ more = true ∧ q' = q₁ ∨
        B ≠ ∅ ∧ more = false ∧ q.members M = B ∧ q' = q₁.moveMarker M u ∨
        B ≠ ∅ ∧ more = true ∧ q.members M \ B ≠ ∅ ∧ q' = q₁.blockedAfter M u B) := by
  unfold dequeueCommon at run
  rcases infos : dequeueInfos o M u [] (q.routes u).updates ∅ q with ⟨B₁, q₁⟩
  rw [infos] at run
  obtain ⟨shrinks, atU₁, cleared, blocked⟩ :=
    dequeueInfos_spec infos (List.nil_append _).symm (by simp) (Finset.empty_subset _) atU
  have untargeted : ∀ p ∈ q.members M, ¬ q₁.Targets u p := by
    rintro p member ⟨x, mem, target⟩
    have outside := cleared x mem
    rw [Finset.eq_empty_iff_forall_notMem] at outside
    exact outside p (Finset.mem_inter.mpr ⟨target, member⟩)
  refine ⟨q₁, shrinks, atU₁, untargeted, ?_⟩
  dsimp only at run
  split_ifs at run with none
  · simp only [Option.some.injEq, Prod.mk.injEq] at run
    obtain ⟨rfl, rfl, rfl⟩ := run
    exact ⟨Finset.empty_subset _, .inl ⟨rfl, rfl, rfl⟩⟩
  · obtain ⟨⟨all, q₂⟩, blockedCase, result⟩ := Option.map_eq_some_iff.mp run
    simp only [Prod.mk.injEq] at result
    obtain ⟨rfl, rfl, rfl⟩ := result
    refine ⟨blocked, ?_⟩
    rw [← shrinks.members]
    obtain ⟨-, moved | split⟩ := updateMarkersOnBlocked_cases blockedCase
    · obtain ⟨rfl, whole, rfl⟩ := moved
      exact .inr (.inl ⟨none, rfl, whole, rfl⟩)
    · obtain ⟨rfl, -, rest, rfl⟩ := split
      exact .inr (.inr ⟨none, rfl, rest, rfl⟩)

end UpdateQueue

end Contrail.Bgp
