import Contrail.Lib.ThreeWay
import Contrail.Bgp.AsPath
import Mathlib

/-! `BgpPath::PathCompare` and the path list of a `BgpRoute`. A path keeps
the attribute values that path selection reads; the values that `BgpAttr`
derives from the extended communities (MAC mobility sequence number, sticky
MAC, E-Tree leaf) are kept as values. The peer is one of the two `IPeer`
implementations of the control node, `BgpPeer` and `BgpXmppChannel::XmppPeer`.
`Route::Sort` is `std::list::sort`, a stable sort by `PathSelection`. -/
namespace Contrail.Bgp

open ThreeWay

/-- `CommunityType::LlgrStale`. -/
def LlgrStaleCommunity : Nat := 0xFFFF0006

/-- The attribute values of a `BgpAttr` read by `PathCompare`. -/
structure BgpAttr where
  localPref : Nat
  med : Nat
  origin : Nat
  asPath : Option AsPathSpec
  community : Option (List Nat)
  originVnPath : Option (List Nat)
  originatorId : Nat
  clusterList : List Nat
  sequenceNumber : Nat
  evpnStickyMac : Bool
  etreeLeaf : Bool
  deriving DecidableEq, Repr

namespace BgpAttr

/-- `BgpAttr::neighbor_as`. -/
def neighborAs (attr : BgpAttr) : Nat :=
  match attr.asPath with
  | some spec => spec.asLeftMost
  | none => 0

/-- `BgpAttr::as_path_count`. -/
def asPathCount (attr : BgpAttr) : Nat :=
  match attr.asPath with
  | some spec => spec.asCount
  | none => 0

/-- `BgpAttr::cluster_list_length`. -/
def clusterListLength (attr : BgpAttr) : Nat := attr.clusterList.length

/-- `attr->community() && attr->community()->ContainsValue(LlgrStale)`. -/
def hasLlgrStaleCommunity (attr : BgpAttr) : Bool :=
  match attr.community with
  | some values => values.contains LlgrStaleCommunity
  | none => false

end BgpAttr

/-- `BgpProto::BgpPeerType`. -/
inductive BgpPeerType
  | IBGP
  | EBGP
  | XMPP
  deriving DecidableEq, Repr

/-- `BgpPeerKey`, ordered by endpoint and then by uuid. -/
structure BgpPeerKey where
  endpoint : Nat
  uuid : Nat
  deriving DecidableEq, Repr

instance : LinearOrder BgpPeerKey :=
  LinearOrder.lift' (fun key => toLex (key.endpoint, key.uuid)) (by
    rintro ⟨endpoint, uuid⟩ ⟨rendpoint, ruuid⟩ same
    have pair : (endpoint, uuid) = (rendpoint, ruuid) := toLex.injective same
    simp only [Prod.mk.injEq] at pair
    rw [pair.1, pair.2])

/-- The peers a path can come from. -/
inductive IPeer
  | bgpPeer (peerType : BgpPeerType) (bgpIdentifier : Nat) (peerKey : BgpPeerKey)
  | xmppPeer (bgpIdentifier : Nat)
  deriving DecidableEq, Repr

namespace IPeer

def isXmppPeer : IPeer → Bool
  | .bgpPeer .. => false
  | .xmppPeer _ => true

def peerType : IPeer → BgpPeerType
  | .bgpPeer peerType _ _ => peerType
  | .xmppPeer _ => .XMPP

def bgpIdentifier : IPeer → Nat
  | .bgpPeer _ identifier _ => identifier
  | .xmppPeer identifier => identifier

end IPeer

/-- `BgpPath::PathSource`, compared by its value. -/
inductive PathSource
  | None
  | BGP_XMPP
  | ServiceChain
  | StaticRoute
  | Aggregate
  | Local
  deriving DecidableEq, Repr

def PathSource.toNat : PathSource → Nat
  | .None => 0
  | .BGP_XMPP => 1
  | .ServiceChain => 2
  | .StaticRoute => 3
  | .Aggregate => 4
  | .Local => 5

/-- `BgpPath::INFEASIBLE_MASK`: AsPathLooped, NoNeighborAs, NoTunnelEncap,
OriginatorIdLooped, ResolveNexthop, RoutingPolicyReject, ClusterListLooped. -/
def INFEASIBLE_MASK : Nat := 1 ||| 2 ||| 8 ||| 16 ||| 32 ||| 128 ||| 512

/-- `BgpPath::LlgrStale`. -/
def LlgrStaleFlag : Nat := 256

/-- A `BgpPath`; a locally generated path has no peer. -/
structure BgpPath where
  peer : Option IPeer
  pathId : Nat
  source : PathSource
  attr : BgpAttr
  flags : Nat
  deriving DecidableEq, Repr

namespace BgpPath

def isFeasible (path : BgpPath) : Bool := path.flags &&& INFEASIBLE_MASK == 0

def isLlgrStale (path : BgpPath) : Bool := path.flags &&& LlgrStaleFlag != 0

/-- The LLGR_STALE test of `PathCompare`: the community or the path flag. -/
def llgrStale (path : BgpPath) : Bool :=
  path.attr.hasLlgrStaleCommunity || path.isLlgrStale

/-- Router id of `PathCompare`: the originator id when set, else the peer's. -/
def routerId (path : BgpPath) (peer : IPeer) : Nat :=
  if path.attr.originatorId ≠ 0 then path.attr.originatorId else peer.bgpIdentifier

/-- Whether `PathCompare` compares the MEDs of the two paths. -/
def medCompared (alwaysCompareMed : Bool) (lhs rhs : BgpPath) : Bool :=
  alwaysCompareMed || (lhs.attr.neighborAs != 0 && lhs.attr.neighborAs == rhs.attr.neighborAs)

/-- The comparisons after the local/peer split, for two paths from peers. -/
def peerCompare (lhs rhs : BgpPath) (peer rpeer : IPeer) : Int :=
  andThen (boolCompare peer.isXmppPeer rpeer.isXmppPeer) <|
  andThen (keyCompare lhs.pathId rhs.pathId) <|
  andThen (keyCompare (peer.peerType == .IBGP) (rpeer.peerType == .IBGP)) <|
  andThen (keyCompare (lhs.routerId peer) (rhs.routerId rpeer)) <|
  andThen (keyCompare lhs.attr.clusterListLength rhs.attr.clusterListLength) <|
  match peer, rpeer with
  | .bgpPeer _ _ key, .bgpPeer _ _ rkey => keyCompare key rkey
  | _, _ => 0

/-- `BgpPath::PathCompare`: negative when `lhs` is the better path. Each step
is a `KEY_COMPARE` or `BOOL_COMPARE` of the source, in its order. -/
def pathCompare (alwaysCompareMed : Bool) (lhs rhs : BgpPath) (allowEcmp : Bool) : Int :=
  andThen (keyCompare rhs.isFeasible lhs.isFeasible) <|
  andThen (keyCompare rhs.attr.localPref lhs.attr.localPref) <|
  andThen (boolCompare rhs.attr.etreeLeaf lhs.attr.etreeLeaf) <|
  andThen (boolCompare rhs.attr.evpnStickyMac lhs.attr.evpnStickyMac) <|
  andThen (keyCompare rhs.attr.sequenceNumber lhs.attr.sequenceNumber) <|
  andThen (keyCompare lhs.llgrStale rhs.llgrStale) <|
  -- service chain paths compare AS path length only after the ECMP cut
  andThen (if lhs.attr.originVnPath.isNone || rhs.attr.originVnPath.isNone then
      keyCompare lhs.attr.asPathCount rhs.attr.asPathCount else 0) <|
  andThen (keyCompare lhs.attr.origin rhs.attr.origin) <|
  andThen (if medCompared alwaysCompareMed lhs rhs then
      keyCompare lhs.attr.med rhs.attr.med else 0) <|
  if allowEcmp then 0 else
  andThen (if lhs.attr.originVnPath.isSome && rhs.attr.originVnPath.isSome then
      keyCompare lhs.attr.asPathCount rhs.attr.asPathCount else 0) <|
  andThen (boolCompare lhs.peer.isNone rhs.peer.isNone) <|
  andThen (keyCompare rhs.source.toNat lhs.source.toNat) <|
  match lhs.peer, rhs.peer with
  | none, none => keyCompare lhs.pathId rhs.pathId
  | some peer, some rpeer => peerCompare lhs rhs peer rpeer
  -- one local and one peer path were told apart by the BOOL_COMPARE above
  | _, _ => 0

end BgpPath

/-- `BgpTable::PathSelection`: `lhs` sorts before `rhs`. -/
def pathSelection (alwaysCompareMed : Bool) (lhs rhs : BgpPath) : Prop :=
  BgpPath.pathCompare alwaysCompareMed lhs rhs false < 0

instance (alwaysCompareMed : Bool) : DecidableRel (pathSelection alwaysCompareMed) :=
  fun _ _ => inferInstanceAs (Decidable (_ < _))

/-- The path list of a `BgpRoute`, best path first. -/
abbrev PathList := List BgpPath

/-- `Route::Sort` with `BgpTable::PathSelection`. -/
def sortPaths (alwaysCompareMed : Bool) (paths : PathList) : PathList :=
  sortBy (fun lhs rhs => BgpPath.pathCompare alwaysCompareMed lhs rhs false) paths

/-- `BgpRoute::BestPath`: the front of the list. -/
def bestPath (paths : PathList) : Option BgpPath := paths.head?

/-- `BgpRoute::InsertPath`: `Route::insert` appends, then the list is sorted. -/
def insertPath (alwaysCompareMed : Bool) (paths : PathList) (path : BgpPath) : PathList :=
  sortPaths alwaysCompareMed (paths ++ [path])

/-- `BgpRoute::DeletePath`: `Route::remove` unlinks the path, then the list is sorted. -/
def deletePath (alwaysCompareMed : Bool) (paths : PathList) (path : BgpPath) : PathList :=
  sortPaths alwaysCompareMed (paths.erase path)

end Contrail.Bgp
