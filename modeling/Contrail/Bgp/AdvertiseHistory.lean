import Mathlib

/-! The advertisement history of a route in a RibOut, `RouteUpdate::UpdateHistory`
of `bgp/bgp_update.cc`: the AdvertiseInfos, each the attributes sent and the
peers they went to. A `RibOutAttr` is of any type with equality, with
`isReachable` for `IsReachable`; a `RibPeerSet` is a finite set of peer
indices. A history is well formed when its peer sets are non-empty and
pairwise disjoint and its attributes distinct and reachable; it then maps each
peer to at most one attribute. -/
namespace Contrail.Bgp

/-- `AdvertiseInfo`. -/
structure AdvertiseInfo (α : Type) where
  roattr : α
  bitset : Finset Nat
  deriving DecidableEq

namespace AdvertiseInfo

variable {α : Type} [DecidableEq α]

/-- The loop of `UpdateHistory` over the history from the flag that an element
matching `roattr` was met: the matching element is passed over, the others lose
the peers `bits` and leave when emptied; none when a second element matches. -/
def resetHistory (roattr : α) (bits : Finset Nat) :
    List (AdvertiseInfo α) → Bool → Option (Bool × List (AdvertiseInfo α))
  | [], found => some (found, [])
  | info :: rest, found =>
    if info.roattr = roattr then
      if found then none
      else (resetHistory roattr bits rest true).map fun (found, rest) => (found, info :: rest)
    else
      let info := { info with bitset := info.bitset \ bits }
      (resetHistory roattr bits rest found).map fun (found, rest) =>
        (found, if info.bitset = ∅ then rest else info :: rest)

/-- `RouteUpdate::UpdateHistory` with the attributes `roattr` and the peers
`bits`: the matching element takes in the peers, or a new element in front
holds them; an unreachable `roattr` only resets, and asserts that no element
matches it. -/
def UpdateHistory (isReachable : α → Bool) (history : List (AdvertiseInfo α)) (roattr : α)
    (bits : Finset Nat) : Option (List (AdvertiseInfo α)) := do
  let (found, history) ← resetHistory roattr bits history false
  if isReachable roattr then
    if found then
      return history.map fun info =>
        if info.roattr = roattr then { info with bitset := info.bitset ∪ bits } else info
    else return ⟨roattr, ∅ ∪ bits⟩ :: history
  else if found then none
  else return history

/-! ## What a history says -/

/-- The attributes last sent to the peer `p`, if any. -/
def attrOf (history : List (AdvertiseInfo α)) (p : Nat) : Option α :=
  (history.find? fun info => p ∈ info.bitset).map AdvertiseInfo.roattr

/-- Non-empty, pairwise disjoint peer sets and distinct reachable attributes. -/
structure WellFormed (isReachable : α → Bool) (history : List (AdvertiseInfo α)) : Prop where
  nonempty : ∀ info ∈ history, info.bitset ≠ ∅
  reachable : ∀ info ∈ history, isReachable info.roattr = true
  distinct : (history.map AdvertiseInfo.roattr).Nodup
  disjoint : history.Pairwise fun info info' => Disjoint info.bitset info'.bitset

/-- What the loop of `UpdateHistory` leaves of one element. -/
def resetOther (roattr : α) (bits : Finset Nat) (info : AdvertiseInfo α) : Option (AdvertiseInfo α) :=
  if info.roattr = roattr then some info
  else if info.bitset \ bits = ∅ then none
  else some { info with bitset := info.bitset \ bits }

section Lemmas

variable {roattr : α} {bits : Finset Nat}

/-- The loop with distinct attributes: whether one matched, and each element by
`resetOther`; it fails only on a second match. -/
theorem resetHistory_eq {history : List (AdvertiseInfo α)}
    (distinct : (history.map AdvertiseInfo.roattr).Nodup) (found : Bool)
    (single : ¬ (found = true ∧ roattr ∈ history.map AdvertiseInfo.roattr)) :
    resetHistory roattr bits history found =
      some (found || decide (roattr ∈ history.map AdvertiseInfo.roattr),
        history.filterMap (resetOther roattr bits)) := by
  induction history generalizing found with
  | nil => simp [resetHistory]
  | cons info rest ih =>
    rw [List.map_cons, List.nodup_cons] at distinct
    by_cases same : info.roattr = roattr
    · -- the match is passed over; no later element matches
      have first : found = false := by
        cases found
        · rfl
        · exact absurd ⟨rfl, by simp [same]⟩ single
      have later : roattr ∉ rest.map AdvertiseInfo.roattr := same ▸ distinct.1
      rw [resetHistory, if_pos same, first, if_neg Bool.false_ne_true, ih distinct.2 true (by simp [later])]
      simp [resetOther, same]
    · have single' : ¬ (found = true ∧ roattr ∈ rest.map AdvertiseInfo.roattr) :=
        fun ⟨isFound, member⟩ => single ⟨isFound, List.mem_cons_of_mem _ member⟩
      rw [resetHistory, if_neg same, ih distinct.2 found single']
      by_cases emptied : info.bitset \ bits = ∅ <;> simp [resetOther, same, emptied, Ne.symm same]

theorem resetOther_roattr {info info' : AdvertiseInfo α} (kept : resetOther roattr bits info = some info') :
    info'.roattr = info.roattr := by
  unfold resetOther at kept
  split_ifs at kept <;> cases kept <;> rfl

/-- An element other than the match loses the peers, and stays only if some are left. -/
theorem resetOther_other {info info' : AdvertiseInfo α} (other : info.roattr ≠ roattr)
    (kept : resetOther roattr bits info = some info') :
    info'.bitset = info.bitset \ bits ∧ info'.bitset ≠ ∅ := by
  unfold resetOther at kept
  rw [if_neg other] at kept
  split_ifs at kept with emptied
  cases kept
  exact ⟨rfl, emptied⟩

theorem resetOther_subset {info info' : AdvertiseInfo α} (kept : resetOther roattr bits info = some info') :
    info'.bitset ⊆ info.bitset := by
  by_cases same : info.roattr = roattr
  · simp only [resetOther, if_pos same, Option.some.injEq] at kept
    rw [kept]
  · rw [(resetOther_other same kept).1]
    exact Finset.sdiff_subset

/-! ## Reading the peers' attributes -/

omit [DecidableEq α] in
theorem attrOf_cons (info : AdvertiseInfo α) (history : List (AdvertiseInfo α)) (p : Nat) :
    attrOf (info :: history) p = if p ∈ info.bitset then some info.roattr else attrOf history p := by
  by_cases member : p ∈ info.bitset <;> simp [attrOf, member]

omit [DecidableEq α] in
/-- A filter of the elements that keeps whether each holds `p` and its
attributes, and drops only elements without `p`, gives `p` the same attributes. -/
theorem attrOf_filterMap {f : AdvertiseInfo α → Option (AdvertiseInfo α)} {p : Nat}
    (keeps : ∀ {info info'}, f info = some info' → (p ∈ info'.bitset ↔ p ∈ info.bitset) ∧
      info'.roattr = info.roattr)
    (drops : ∀ {info}, f info = none → p ∉ info.bitset) (history : List (AdvertiseInfo α)) :
    attrOf (history.filterMap f) p = attrOf history p := by
  induction history with
  | nil => rfl
  | cons info rest ih =>
    rw [attrOf_cons]
    cases kept : f info with
    | none =>
      rw [List.filterMap_cons_none kept, ih, if_neg (drops kept)]
    | some info' =>
      rw [List.filterMap_cons_some kept, attrOf_cons, ih]
      simp only [(keeps kept).1, (keeps kept).2]

omit [DecidableEq α] in
theorem attrOf_eq_some {history : List (AdvertiseInfo α)} {p : Nat} {info : AdvertiseInfo α}
    (present : info ∈ history) (member : p ∈ info.bitset)
    (only : ∀ info' ∈ history, p ∈ info'.bitset → info'.roattr = info.roattr) :
    attrOf history p = some info.roattr := by
  have exists_ : (history.find? fun info => decide (p ∈ info.bitset)).isSome :=
    List.find?_isSome.mpr ⟨info, present, by simpa using member⟩
  obtain ⟨first, found⟩ := Option.isSome_iff_exists.mp exists_
  have holds := List.find?_some found
  rw [attrOf, found, Option.map_some, only first (List.mem_of_find?_eq_some found) (by simpa using holds)]

omit [DecidableEq α] in
theorem attrOf_eq_none {history : List (AdvertiseInfo α)} {p : Nat}
    (absent : ∀ info ∈ history, p ∉ info.bitset) : attrOf history p = none := by
  rw [attrOf, Option.map_eq_none_iff, List.find?_eq_none]
  simpa using absent

omit [DecidableEq α] in
theorem attrOf_map {f : AdvertiseInfo α → AdvertiseInfo α} {p : Nat}
    (keeps : ∀ info, (p ∈ (f info).bitset ↔ p ∈ info.bitset) ∧ (f info).roattr = info.roattr)
    (history : List (AdvertiseInfo α)) : attrOf (history.map f) p = attrOf history p := by
  rw [← List.filterMap_eq_map]
  exact attrOf_filterMap (fun kept => by cases kept; exact keeps _) (fun dropped => by cases dropped) history

/-! ## The elements the loop leaves -/

variable {isReachable : α → Bool} {history : List (AdvertiseInfo α)}

theorem roattrs_reset_sublist (history : List (AdvertiseInfo α)) :
    ((history.filterMap (resetOther roattr bits)).map AdvertiseInfo.roattr).Sublist
      (history.map AdvertiseInfo.roattr) := by
  induction history with
  | nil => exact List.Sublist.slnil
  | cons info rest ih =>
    cases kept : resetOther roattr bits info with
    | none =>
      rw [List.filterMap_cons_none kept]
      exact ih.cons _
    | some info' =>
      rw [List.filterMap_cons_some kept, List.map_cons, List.map_cons, resetOther_roattr kept]
      exact ih.cons_cons _

theorem WellFormed.reset (wf : WellFormed isReachable history) :
    WellFormed isReachable (history.filterMap (resetOther roattr bits)) where
  nonempty := by
    intro info' kept
    obtain ⟨info, present, kept⟩ := List.mem_filterMap.mp kept
    by_cases same : info.roattr = roattr
    · simp only [resetOther, if_pos same, Option.some.injEq] at kept
      exact kept ▸ wf.nonempty info present
    · exact (resetOther_other same kept).2
  reachable := by
    intro info' kept
    obtain ⟨info, present, kept⟩ := List.mem_filterMap.mp kept
    rw [resetOther_roattr kept]
    exact wf.reachable info present
  distinct := wf.distinct.sublist (roattrs_reset_sublist history)
  disjoint := wf.disjoint.filterMap _ fun info info' apart y kept y' kept' =>
    Finset.disjoint_of_subset_left (resetOther_subset kept) (Finset.disjoint_of_subset_right (resetOther_subset kept') apart)

/-- An element left other than the match holds none of the peers `bits`. -/
theorem reset_disjoint {info' : AdvertiseInfo α} (kept : info' ∈ history.filterMap (resetOther roattr bits))
    (other : info'.roattr ≠ roattr) : Disjoint info'.bitset bits := by
  obtain ⟨info, -, kept⟩ := List.mem_filterMap.mp kept
  rw [resetOther_roattr kept] at other
  rw [(resetOther_other other kept).1]
  exact Finset.sdiff_disjoint

/-- Outside `bits` the loop leaves each peer its attributes. -/
theorem attrOf_reset {p : Nat} (outside : p ∉ bits) (history : List (AdvertiseInfo α)) :
    attrOf (history.filterMap (resetOther roattr bits)) p = attrOf history p := by
  refine attrOf_filterMap (fun {info info'} kept => ⟨?_, resetOther_roattr kept⟩) (fun {info} dropped => ?_) history
  · by_cases same : info.roattr = roattr
    · simp only [resetOther, if_pos same, Option.some.injEq] at kept
      rw [kept]
    · rw [(resetOther_other same kept).1, Finset.mem_sdiff]
      simp [outside]
  · unfold resetOther at dropped
    split_ifs at dropped with same emptied
    intro member
    have : p ∈ info.bitset \ bits := Finset.mem_sdiff.mpr ⟨member, outside⟩
    simp [emptied] at this

end Lemmas

/-- `UpdateHistory` on a well-formed history never asserts; it gives the peers
`bits` the attributes `roattr` when reachable, and none otherwise, leaving the
other peers as they were; and with some peers in `bits` the history stays well
formed. -/
theorem updateHistory_remaps {isReachable : α → Bool} {history : List (AdvertiseInfo α)}
    (wf : WellFormed isReachable history) (roattr : α) (bits : Finset Nat) :
    ∃ history', UpdateHistory isReachable history roattr bits = some history' ∧
      (∀ p, attrOf history' p =
        if p ∈ bits then (if isReachable roattr then some roattr else none) else attrOf history p) ∧
      (bits ≠ ∅ → WellFormed isReachable history') := by
  have loop : resetHistory roattr bits history false =
      some (false || decide (roattr ∈ history.map AdvertiseInfo.roattr),
        history.filterMap (resetOther roattr bits)) :=
    resetHistory_eq wf.distinct false (by simp)
  have reset : WellFormed isReachable (history.filterMap (resetOther roattr bits)) := wf.reset
  set left := history.filterMap (resetOther roattr bits) with leftEq
  unfold UpdateHistory
  rw [loop]
  simp only [Bool.false_or, Option.bind_eq_bind, Option.bind_some]
  -- with no match every element left has lost the peers `bits`
  have others : roattr ∉ history.map AdvertiseInfo.roattr → ∀ info ∈ left, info.roattr ≠ roattr :=
    fun found info member same => found ((roattrs_reset_sublist history).subset (List.mem_map.mpr ⟨info, member, same⟩))
  by_cases reach : isReachable roattr = true
  · by_cases found : roattr ∈ history.map AdvertiseInfo.roattr
    · -- the match takes in the peers
      rw [if_pos reach, if_pos (decide_eq_true found)]
      refine ⟨_, rfl, fun p => ?_, fun _ => ⟨?_, ?_, ?_, ?_⟩⟩
      · obtain ⟨matched, present, same⟩ := List.mem_map.mp found
        have kept : matched ∈ left := List.mem_filterMap.mpr ⟨matched, present, by simp [resetOther, same]⟩
        by_cases inside : p ∈ bits
        · rw [if_pos inside, if_pos reach]
          have grown : { matched with bitset := matched.bitset ∪ bits } ∈ left.map fun info =>
              if info.roattr = roattr then { info with bitset := info.bitset ∪ bits } else info :=
            List.mem_map.mpr ⟨matched, kept, by simp [same]⟩
          refine (attrOf_eq_some grown (by simp [inside]) fun info' member held => ?_).trans (by rw [← same])
          obtain ⟨info, kept', rfl⟩ := List.mem_map.mp member
          by_cases isMatch : info.roattr = roattr
          · simp [isMatch, same]
          · rw [if_neg isMatch] at held
            exact absurd inside (Finset.disjoint_left.mp (reset_disjoint kept' isMatch) held)
        · rw [if_neg inside, attrOf_map (fun info => ?_), leftEq, attrOf_reset inside]
          by_cases isMatch : info.roattr = roattr <;> simp [isMatch, inside]
      · intro info' member
        obtain ⟨info, kept, rfl⟩ := List.mem_map.mp member
        split
        · exact Finset.nonempty_iff_ne_empty.mp
            ((Finset.nonempty_iff_ne_empty.mpr (reset.nonempty info kept)).mono Finset.subset_union_left)
        · exact reset.nonempty info kept
      · intro info' member
        obtain ⟨info, kept, rfl⟩ := List.mem_map.mp member
        split <;> exact reset.reachable info kept
      · have roattrs : ∀ info : AdvertiseInfo α,
            (if info.roattr = roattr then { info with bitset := info.bitset ∪ bits } else info).roattr =
              info.roattr := fun info => by split <;> rfl
        simpa [List.map_map, Function.comp_def, roattrs] using reset.distinct
      · refine List.pairwise_map.mpr ((reset.disjoint.and (List.pairwise_map.mp reset.distinct)).imp_of_mem ?_)
        rintro info info' member member' ⟨apart, distinct⟩
        by_cases isMatch : info.roattr = roattr
        · have other : info'.roattr ≠ roattr := isMatch ▸ distinct.symm
          rw [if_pos isMatch, if_neg other]
          exact Finset.disjoint_union_left.mpr ⟨apart, (reset_disjoint member' other).symm⟩
        · rw [if_neg isMatch]
          split
          · exact Finset.disjoint_union_right.mpr ⟨apart, reset_disjoint member isMatch⟩
          · exact apart
    · -- a new element in front holds the peers
      rw [if_pos reach, if_neg (by simpa using found)]
      refine ⟨_, rfl, fun p => ?_, fun nonempty => ⟨?_, ?_, ?_, ?_⟩⟩
      · rw [attrOf_cons]
        by_cases inside : p ∈ bits
        · simp [inside, reach]
        · simpa [inside] using attrOf_reset inside history
      · intro info member
        rcases List.mem_cons.mp member with rfl | member
        · simpa using nonempty
        · exact reset.nonempty info member
      · intro info member
        rcases List.mem_cons.mp member with rfl | member
        · exact reach
        · exact reset.reachable info member
      · refine List.nodup_cons.mpr ⟨fun member => ?_, reset.distinct⟩
        obtain ⟨info, member, same⟩ := List.mem_map.mp member
        exact others found info member same
      · refine List.pairwise_cons.mpr ⟨fun info member => ?_, reset.disjoint⟩
        rw [Finset.empty_union]
        exact (reset_disjoint member (others found info member)).symm
  · -- nothing matches an unreachable attribute
    have found : roattr ∉ history.map AdvertiseInfo.roattr := by
      intro member
      obtain ⟨info, present, same⟩ := List.mem_map.mp member
      exact reach (same ▸ wf.reachable info present)
    rw [if_neg reach, if_neg (by simpa using found)]
    refine ⟨_, rfl, fun p => ?_, fun _ => reset⟩
    by_cases inside : p ∈ bits
    · rw [if_pos inside, if_neg reach]
      exact attrOf_eq_none fun info member held =>
        Finset.disjoint_left.mp (reset_disjoint member (others found info member)) held inside
    · rw [if_neg inside]
      exact attrOf_reset inside history

/-- Peers 0 and 1 advertised attribute 1, peer 2 attribute 3; peer 0 moves to 3. -/
theorem updateHistory_remaps_two_elements :
    WellFormed (fun _ : Nat => true) [⟨1, {0, 1}⟩, ⟨3, {2}⟩] ∧
      ∃ history', UpdateHistory (fun _ : Nat => true) [⟨1, {0, 1}⟩, ⟨3, {2}⟩] 3 {0} = some history' ∧
        (∀ p, attrOf history' p =
          if p ∈ ({0} : Finset Nat) then (if (fun _ : Nat => true) 3 then some 3 else none)
          else attrOf [⟨1, {0, 1}⟩, ⟨3, {2}⟩] p) ∧
        (({0} : Finset Nat) ≠ ∅ → WellFormed (fun _ : Nat => true) history') := by
  have wf : WellFormed (fun _ : Nat => true) [⟨1, {0, 1}⟩, ⟨3, {2}⟩] :=
    ⟨by simp, by simp, by simp, by simp⟩
  exact ⟨wf, updateHistory_remaps wf 3 {0}⟩

/-- With no peers, `UpdateHistory` of a new reachable attribute adds an element
holding none. -/
theorem updateHistory_adds_empty_element :
    UpdateHistory (fun _ : Nat => true) [] 1 ∅ = some [⟨1, ∅⟩] ∧
      ¬ WellFormed (fun _ : Nat => true) [⟨1, ∅⟩] :=
  ⟨rfl, fun wf => wf.nonempty _ List.mem_cons_self rfl⟩

end AdvertiseInfo

end Contrail.Bgp
