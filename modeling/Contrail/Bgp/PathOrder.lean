import Contrail.Bgp.Path

/-! When path selection is a strict weak order. `PathCompare` decides two of
its steps from the pair rather than from each path: MED is compared only for
paths from the same neighbor AS, and AS-path length moves past the ECMP cut
when both paths carry an origin-vn-path. On a set where both decisions are
uniform it ranks paths by a key, so it is a strict weak order there and the
best path of a route does not depend on the order its paths arrived in. -/
namespace Contrail.Bgp

open ThreeWay BgpPath

/-- The comparisons after the local/peer split, as keys. -/
def peerKey (path : BgpPath) : IPeer → List Int
  | .bgpPeer peerType identifier key =>
    [1, path.pathId, if peerType == .IBGP then 1 else 0,
      path.routerId (.bgpPeer peerType identifier key), path.attr.clusterListLength,
      key.endpoint, key.uuid]
  | .xmppPeer identifier =>
    [0, path.pathId, 0, path.routerId (.xmppPeer identifier), path.attr.clusterListLength]

/-- The key by which `PathCompare` ranks a uniform set: `serviceChain` says
whether the paths carry an origin-vn-path, `medOn` whether MEDs are compared. -/
def selectionKey (serviceChain medOn : Bool) (path : BgpPath) : List Int :=
  [if path.isFeasible then 0 else 1, -(path.attr.localPref : Int),
    if path.attr.etreeLeaf then 1 else 0, if path.attr.evpnStickyMac then 1 else 0,
    -(path.attr.sequenceNumber : Int), if path.llgrStale then 1 else 0,
    if serviceChain then 0 else path.attr.asPathCount, path.attr.origin,
    if medOn then path.attr.med else 0, if serviceChain then path.attr.asPathCount else 0,
    if path.peer.isNone then 0 else 1, -(path.source.toNat : Int)] ++
  match path.peer with
  | none => [path.pathId]
  | some peer => peerKey path peer

/-- A set of paths on which `PathCompare` decides origin-vn-path placement
and MED comparison the same way for every two distinct paths. -/
structure Uniform (alwaysCompareMed : Bool) (S : Set BgpPath) (serviceChain medOn : Bool) :
    Prop where
  originVnPath : ∀ path ∈ S, path.attr.originVnPath.isSome = serviceChain
  med : ∀ lhs ∈ S, ∀ rhs ∈ S, lhs ≠ rhs → medCompared alwaysCompareMed lhs rhs = medOn

theorem andThen_congr {first rest rest' : Int} (same : first = 0 → rest = rest') :
    andThen first rest = andThen first rest' := by
  unfold andThen
  split_ifs with h
  · exact same h
  · rfl

theorem boolCompare_reverse (a b : Bool) :
    boolCompare a b = keyCompare (if b then (1 : Int) else 0) (if a then 1 else 0) := by
  cases a <;> cases b <;> decide

theorem keyCompare_peerKey (key rkey : BgpPeerKey) :
    keyCompare key rkey =
      keyCompare [(key.endpoint : Int), key.uuid] [(rkey.endpoint : Int), rkey.uuid] := by
  have lt_iff : ∀ a b : BgpPeerKey,
      a < b ↔ [(a.endpoint : Int), a.uuid] < [(b.endpoint : Int), b.uuid] := by
    intro a b
    rw [show a < b ↔ _ from Prod.Lex.toLex_lt_toLex]
    simp [List.cons_lt_cons_iff]
  unfold keyCompare
  by_cases h₁ : key < rkey
  · simp [h₁, (lt_iff key rkey).mp h₁]
  · by_cases h₂ : rkey < key
    · simp [h₁, h₂, (lt_iff rkey key).mp h₂, mt (lt_iff key rkey).mpr h₁]
    · simp [h₁, h₂, mt (lt_iff key rkey).mpr h₁, mt (lt_iff rkey key).mpr h₂]

@[simp] theorem peerCompare_self (path : BgpPath) (peer : IPeer) :
    peerCompare path path peer peer = 0 := by
  cases peer <;> simp [peerCompare]

@[simp] theorem pathCompare_self (alwaysCompareMed allowEcmp : Bool) (path : BgpPath) :
    pathCompare alwaysCompareMed path path allowEcmp = 0 := by
  unfold pathCompare
  cases allowEcmp <;> cases path.peer <;> simp

/-- Two paths from peers compare as their peer keys. -/
theorem peerCompare_eq_keyCompare (lhs rhs : BgpPath) (peer rpeer : IPeer) :
    peerCompare lhs rhs peer rpeer = keyCompare (peerKey lhs peer) (peerKey rhs rpeer) := by
  cases peer <;> cases rpeer <;>
    simp only [peerCompare, peerKey, IPeer.isXmppPeer, IPeer.peerType, keyCompare_cons,
      boolCompare_eq_keyCompare, keyCompare_natCast, keyCompare_bool, keyCompare_peerKey,
      keyCompare_nil] <;> rfl

theorem keyCompare_bool_reverse (a b : Bool) :
    keyCompare b a = keyCompare (if a then (0 : Int) else 1) (if b then 0 else 1) := by
  cases a <;> cases b <;> decide

/-- The tail of the key after the local/peer split, as `PathCompare` reads it. -/
def tailKey (path : BgpPath) : List Int :=
  match path.peer with
  | none => [path.pathId]
  | some peer => peerKey path peer

/-- Past the local/peer step, paths with the same peer presence compare as
their tail keys. -/
theorem tailCompare_eq_keyCompare {lhs rhs : BgpPath}
    (presence : lhs.peer.isNone = rhs.peer.isNone) :
    (match lhs.peer, rhs.peer with
      | none, none => keyCompare lhs.pathId rhs.pathId
      | some peer, some rpeer => peerCompare lhs rhs peer rpeer
      | _, _ => 0) = keyCompare (tailKey lhs) (tailKey rhs) := by
  unfold tailKey
  cases hl : lhs.peer <;> cases hr : rhs.peer <;> simp only [hl, hr, Option.isNone_none,
    Option.isNone_some, Bool.false_eq_true, Bool.true_eq_false] at presence ⊢
  · rw [keyCompare_cons, keyCompare_nil, keyCompare_natCast]
    simp [andThen]
  · exact peerCompare_eq_keyCompare lhs rhs _ _

/-- On a uniform set, `PathCompare` is the comparison of the selection keys. -/
theorem pathCompare_ranksOn {alwaysCompareMed : Bool} {S : Set BgpPath}
    {serviceChain medOn : Bool} (uniform : Uniform alwaysCompareMed S serviceChain medOn) :
    RanksOn (fun lhs rhs => pathCompare alwaysCompareMed lhs rhs false)
      (selectionKey serviceChain medOn) S := by
  intro lhs hl rhs hr
  by_cases same : lhs = rhs
  · subst same
    simp
  have ovnL := uniform.originVnPath lhs hl
  have ovnR := uniform.originVnPath rhs hr
  have med := uniform.med lhs hl rhs hr same
  -- each step of `PathCompare` is the comparison of one key component
  have early : (if lhs.attr.originVnPath.isNone || rhs.attr.originVnPath.isNone then
      keyCompare lhs.attr.asPathCount rhs.attr.asPathCount else 0) =
      keyCompare (if serviceChain then (0 : Int) else lhs.attr.asPathCount)
        (if serviceChain then 0 else rhs.attr.asPathCount) := by
    simp only [← Option.not_isSome, ovnL, ovnR]
    cases serviceChain <;> simp [keyCompare_natCast]
  have medStep : (if medCompared alwaysCompareMed lhs rhs then
      keyCompare lhs.attr.med rhs.attr.med else 0) =
      keyCompare (if medOn then (lhs.attr.med : Int) else 0) (if medOn then rhs.attr.med else 0) := by
    cases medOn <;> simp [med, keyCompare_natCast]
  have late : (if lhs.attr.originVnPath.isSome && rhs.attr.originVnPath.isSome then
      keyCompare lhs.attr.asPathCount rhs.attr.asPathCount else 0) =
      keyCompare (if serviceChain then (lhs.attr.asPathCount : Int) else 0)
        (if serviceChain then rhs.attr.asPathCount else 0) := by
    cases serviceChain <;> simp [ovnL, ovnR, keyCompare_natCast]
  have tail := fun presence : lhs.peer.isNone = rhs.peer.isNone =>
    tailCompare_eq_keyCompare presence
  unfold pathCompare
  simp only [Bool.false_eq_true, if_false, early, medStep, late]
  rw [show selectionKey serviceChain medOn lhs = _ ++ tailKey lhs from rfl,
    show selectionKey serviceChain medOn rhs = _ ++ tailKey rhs from rfl]
  simp only [List.cons_append, List.nil_append, keyCompare_cons]
  rw [keyCompare_bool_reverse, keyCompare_reverse lhs.attr.localPref,
    boolCompare_reverse rhs.attr.etreeLeaf, boolCompare_reverse rhs.attr.evpnStickyMac,
    keyCompare_reverse lhs.attr.sequenceNumber, keyCompare_bool lhs.llgrStale,
    keyCompare_natCast lhs.attr.origin, boolCompare_eq_keyCompare lhs.peer.isNone,
    keyCompare_reverse (lhs.source.toNat)]
  -- the tail is reached only when the peer presence step found no difference
  refine andThen_congr fun _ => andThen_congr fun _ => andThen_congr fun _ =>
    andThen_congr fun _ => andThen_congr fun _ => andThen_congr fun _ => ?_
  refine andThen_congr fun _ => andThen_congr fun _ => andThen_congr fun _ => ?_
  refine andThen_congr fun _ => andThen_congr fun presence => andThen_congr fun _ => ?_
  apply tail
  have := keyCompare_eq_zero_iff.mp presence
  cases hl : lhs.peer.isNone <;> cases hr : rhs.peer.isNone <;> simp_all

/-- On a uniform set, `PathSelection` is a strict weak order. -/
theorem pathSelection_isStrictWeakOrder {alwaysCompareMed : Bool} {S : Set BgpPath}
    {serviceChain medOn : Bool} (uniform : Uniform alwaysCompareMed S serviceChain medOn) :
    IsStrictWeakOrder S (fun lhs rhs => pathSelection alwaysCompareMed lhs rhs) :=
  (pathCompare_ranksOn uniform).isStrictWeakOrder

/-- A path learnt from an EBGP peer with router id `identifier`, over one AS
sequence, with local preference 100 and no other distinguishing attribute. -/
def ebgpPath (identifier med : Nat) (asns : List (Bytes.Word 2))
    (originVnPath : Option (List Nat)) : BgpPath :=
  { peer := some (.bgpPeer .EBGP identifier ⟨identifier, 0⟩), pathId := 0, source := .BGP_XMPP,
    attr :=
      { localPref := 100, med := med, origin := 0,
        asPath := some ⟨[⟨AS_SEQUENCE, asns⟩]⟩, community := none, originVnPath := originVnPath,
        originatorId := 0, clusterList := [], sequenceNumber := 0, evpnStickyMac := false,
        etreeLeaf := false },
    flags := 0 }

/-- Three paths a route can hold form a preference cycle for either setting
of `always_compare_med`: MED decides only between the two paths from neighbor
AS 100, router id decides the other pairs; with MED always compared, AS-path
length decides the pairs with one service chain path and MED the other pair. -/
theorem pathSelection_not_strictWeakOrder :
    ¬IsStrictWeakOrder ({ebgpPath 3 10 [100] none, ebgpPath 1 20 [100] none,
        ebgpPath 2 0 [200] none} : Set BgpPath) (fun lhs rhs => pathSelection false lhs rhs) ∧
      ¬IsStrictWeakOrder ({ebgpPath 1 20 [100] (some []), ebgpPath 2 10 [100, 1, 2] (some []),
        ebgpPath 3 0 [100, 1] none} : Set BgpPath) (fun lhs rhs => pathSelection true lhs rhs) := by
  constructor
  · exact @not_isStrictWeakOrder_of_cycle _ _ ⟨ebgpPath 3 10 [100] none, by simp⟩
      ⟨ebgpPath 1 20 [100] none, by simp⟩ ⟨ebgpPath 2 0 [200] none, by simp⟩
      (by decide) (by decide) (by decide)
  · exact @not_isStrictWeakOrder_of_cycle _ _ ⟨ebgpPath 2 10 [100, 1, 2] (some []), by simp⟩
      ⟨ebgpPath 1 20 [100] (some []), by simp⟩ ⟨ebgpPath 3 0 [100, 1] none, by simp⟩
      (by decide) (by decide) (by decide)

/-- `BgpRoute::InsertPath` and `BgpRoute::DeletePath` calls on one route. -/
inductive RouteOp
  | insert (path : BgpPath)
  | delete (path : BgpPath)
  deriving DecidableEq, Repr

def RouteOp.path : RouteOp → BgpPath
  | .insert path => path
  | .delete path => path

def applyRouteOp (alwaysCompareMed : Bool) (paths : PathList) : RouteOp → PathList
  | .insert path => insertPath alwaysCompareMed paths path
  | .delete path => deletePath alwaysCompareMed paths path

def runRouteOps (alwaysCompareMed : Bool) (paths : PathList) (ops : List RouteOp) : PathList :=
  ops.foldl (applyRouteOp alwaysCompareMed) paths

/-- The paths a sequence of operations leaves, in no particular order. -/
def netPaths (paths : List BgpPath) (ops : List RouteOp) : List BgpPath :=
  ops.foldl (fun paths op => match op with
    | .insert path => paths ++ [path]
    | .delete path => paths.erase path) paths

theorem netPaths_perm {paths paths' : List BgpPath} (perm : paths.Perm paths')
    (ops : List RouteOp) : (netPaths paths ops).Perm (netPaths paths' ops) := by
  induction ops generalizing paths paths' with
  | nil => exact perm
  | cons op rest ih =>
    cases op with
    | insert path => exact ih (perm.append_right [path])
    | delete path => exact ih (perm.erase path)

theorem runRouteOps_perm (alwaysCompareMed : Bool) (paths : PathList) (ops : List RouteOp) :
    (runRouteOps alwaysCompareMed paths ops).Perm (netPaths paths ops) := by
  induction ops generalizing paths with
  | nil => exact List.Perm.refl _
  | cons op rest ih =>
    have step : (applyRouteOp alwaysCompareMed paths op).Perm (netPaths paths [op]) := by
      cases op <;> exact sortBy_perm _ _
    exact (ih _).trans (netPaths_perm step rest)

theorem mem_netPaths {paths : List BgpPath} {ops : List RouteOp} {path : BgpPath}
    (mem : path ∈ netPaths paths ops) : path ∈ paths ∨ ∃ op ∈ ops, op.path = path := by
  induction ops generalizing paths with
  | nil => exact .inl mem
  | cons op rest ih =>
    rcases ih mem with held | ⟨later, hlater, rfl⟩
    · cases op with
      | insert inserted =>
        rcases List.mem_append.mp held with old | new
        · exact .inl old
        · exact .inr ⟨.insert inserted, by simp, (List.mem_singleton.mp new).symm⟩
      | delete deleted => exact .inl (List.mem_of_mem_erase held)
    · exact .inr ⟨later, List.mem_cons_of_mem _ hlater, rfl⟩

/-- After any operations, a route's paths are sorted by their selection keys. -/
theorem runRouteOps_sorted {alwaysCompareMed : Bool} {S : Set BgpPath}
    {serviceChain medOn : Bool} (uniform : Uniform alwaysCompareMed S serviceChain medOn)
    {ops : List RouteOp} (held : ∀ op ∈ ops, op.path ∈ S) :
    ((runRouteOps alwaysCompareMed [] ops).map (selectionKey serviceChain medOn)).Pairwise
      (· ≤ ·) := by
  have inS : ∀ {paths : List BgpPath} {rest : List RouteOp}, rest ⊆ ops →
      (∀ path ∈ paths, path ∈ S) → ∀ path ∈ netPaths paths rest, path ∈ S := by
    intro paths rest sub old path mem
    rcases mem_netPaths mem with held' | ⟨op, hop, rfl⟩
    · exact old path held'
    · exact held op (sub hop)
  rcases List.eq_nil_or_concat ops with rfl | ⟨init, op, rfl⟩
  · simp [runRouteOps]
  rw [List.concat_eq_append] at held inS
  rw [List.concat_eq_append, runRouteOps, List.foldl_append, List.foldl_cons, List.foldl_nil]
  have before : ∀ path ∈ (runRouteOps alwaysCompareMed [] init), path ∈ S := by
    intro path mem
    exact inS (List.subset_append_left init [op]) (by simp)
      path ((runRouteOps_perm _ _ _).mem_iff.mp mem)
  have opHeld := held op (by simp)
  have ranks := pathCompare_ranksOn uniform
  cases op with
  | insert path =>
    apply ranks.sortBy_sorted
    intro member mem
    rcases List.mem_append.mp mem with old | new
    · exact before member old
    · exact (List.mem_singleton.mp new) ▸ opHeld
  | delete path =>
    apply ranks.sortBy_sorted
    intro member mem
    exact before member (List.mem_of_mem_erase mem)

theorem runRouteOps_mem {S : Set BgpPath} {alwaysCompareMed : Bool} {ops : List RouteOp}
    (held : ∀ op ∈ ops, op.path ∈ S) {path : BgpPath}
    (mem : path ∈ runRouteOps alwaysCompareMed [] ops) : path ∈ S := by
  rcases mem_netPaths ((runRouteOps_perm _ _ _).mem_iff.mp mem) with none | ⟨op, hop, rfl⟩
  · simp at none
  · exact held op hop

/-- Path selection on a uniform set of paths: it is a strict weak order, and two
sequences of `InsertPath`/`DeletePath` calls that leave a route with the same
paths leave it with `PathCompare`-equivalent best paths. -/
theorem bestPath_order_independent {alwaysCompareMed : Bool} {S : Set BgpPath}
    {serviceChain medOn : Bool} (uniform : Uniform alwaysCompareMed S serviceChain medOn) :
    IsStrictWeakOrder S (fun lhs rhs => pathSelection alwaysCompareMed lhs rhs) ∧
      ∀ ops₁ ops₂ : List RouteOp, (∀ op ∈ ops₁, op.path ∈ S) → (∀ op ∈ ops₂, op.path ∈ S) →
        (netPaths [] ops₁).Perm (netPaths [] ops₂) →
        (bestPath (runRouteOps alwaysCompareMed [] ops₁)).isSome =
            (bestPath (runRouteOps alwaysCompareMed [] ops₂)).isSome ∧
          ∀ best₁ ∈ bestPath (runRouteOps alwaysCompareMed [] ops₁),
          ∀ best₂ ∈ bestPath (runRouteOps alwaysCompareMed [] ops₂),
            BgpPath.pathCompare alwaysCompareMed best₁ best₂ false = 0 := by
  refine ⟨pathSelection_isStrictWeakOrder uniform, ?_⟩
  intro ops₁ ops₂ held₁ held₂ sameSet
  let key := selectionKey serviceChain medOn
  -- both routes end sorted by key over the same multiset, so their keys agree
  have keys : (runRouteOps alwaysCompareMed [] ops₁).map key =
      (runRouteOps alwaysCompareMed [] ops₂).map key := by
    apply List.Perm.eq_of_pairwise' (runRouteOps_sorted uniform held₁)
      (runRouteOps_sorted uniform held₂)
    apply List.Perm.map
    exact ((runRouteOps_perm _ _ _).trans sameSet).trans (runRouteOps_perm _ _ _).symm
  have heads := congrArg List.head? keys
  simp only [List.head?_map] at heads
  refine ⟨?_, ?_⟩
  · have := congrArg Option.isSome heads
    simpa [bestPath] using this
  · intro best₁ hbest₁ best₂ hbest₂
    have mem₁ := runRouteOps_mem held₁ (List.mem_of_mem_head? hbest₁)
    have mem₂ := runRouteOps_mem held₂ (List.mem_of_mem_head? hbest₂)
    rw [bestPath] at hbest₁ hbest₂
    rw [Option.mem_def] at hbest₁ hbest₂
    rw [hbest₁, hbest₂, Option.map_some, Option.map_some, Option.some.injEq] at heads
    exact ((pathCompare_ranksOn uniform).eq_zero_iff mem₁ mem₂).mpr heads

/-- Two paths from different neighbor ASes without an origin-vn-path form a
uniform set; routes that receive them in either order agree on the best path. -/
theorem bestPath_order_independent_two_peers :
    Uniform false {ebgpPath 1 0 [100] none, ebgpPath 2 0 [200] none} false false ∧
      (IsStrictWeakOrder ({ebgpPath 1 0 [100] none, ebgpPath 2 0 [200] none} : Set BgpPath)
          (fun lhs rhs => pathSelection false lhs rhs) ∧
        ∀ ops₁ ops₂ : List RouteOp,
          (∀ op ∈ ops₁, op.path ∈ ({ebgpPath 1 0 [100] none, ebgpPath 2 0 [200] none} : Set _)) →
          (∀ op ∈ ops₂, op.path ∈ ({ebgpPath 1 0 [100] none, ebgpPath 2 0 [200] none} : Set _)) →
          (netPaths [] ops₁).Perm (netPaths [] ops₂) →
          (bestPath (runRouteOps false [] ops₁)).isSome =
              (bestPath (runRouteOps false [] ops₂)).isSome ∧
            ∀ best₁ ∈ bestPath (runRouteOps false [] ops₁),
            ∀ best₂ ∈ bestPath (runRouteOps false [] ops₂),
              BgpPath.pathCompare false best₁ best₂ false = 0) := by
  have uniform : Uniform false {ebgpPath 1 0 [100] none, ebgpPath 2 0 [200] none} false false := by
    constructor
    · intro path mem
      rcases mem with rfl | rfl <;> rfl
    · intro lhs hl rhs hr ne
      rcases hl with rfl | rfl <;> rcases hr with rfl | rfl
      all_goals first | exact absurd rfl ne | decide
  exact ⟨uniform, bestPath_order_independent uniform⟩

end Contrail.Bgp
