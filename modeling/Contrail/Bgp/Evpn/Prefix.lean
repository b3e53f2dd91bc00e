import Contrail.Lib.Bytes
import Contrail.Lib.ThreeWay

/-! EVPN route keys and their NLRI (`bgp/evpn/evpn_route.cc`).
`EvpnPrefix::BuildProtoPrefix` resizes a zeroed buffer for the route type and
copies the fields in at consecutive offsets, with the MPLS label (shifted past
the bottom-of-stack bit) or the 24-bit VXLAN VNI after them;
`EvpnPrefix::FromProtoPrefix` checks the NLRI length for the type, reads the
fields back, and takes the label from a non-zero ethernet tag or from the PMSI
tunnel attribute where the VXLAN rules say so. The route distinguisher, ESI,
MAC and IP addresses are held as the big-endian values of their bytes, which
is the order `memcmp` and `boost::asio::ip::address` give `CompareTo`. -/
namespace Contrail.Bgp.Evpn

open Bytes ThreeWay

/-! ## Fields -/

/-- `RouteDistinguisher`: its eight bytes. -/
structure RouteDistinguisher where
  data : Word 8
  deriving DecidableEq, Repr

namespace RouteDistinguisher

@[simp] def kSize : Nat := 8

/-- `RouteDistinguisher(const uint8_t *data)`. -/
def ofBytes (bytes : List UInt8) : RouteDistinguisher := ⟨takeWord kSize bytes⟩

def getData (rd : RouteDistinguisher) : List UInt8 := putBE kSize rd.data.val

end RouteDistinguisher

/-- `EthernetSegmentId`: its ten bytes. -/
structure EthernetSegmentId where
  data : Word 10
  deriving DecidableEq, Repr

namespace EthernetSegmentId

@[simp] def kSize : Nat := 10

/-- `EthernetSegmentId()` and `kZeroEsi`. -/
def kZeroEsi : EthernetSegmentId := ⟨0⟩

/-- `EthernetSegmentId(const uint8_t *data)`. -/
def ofBytes (bytes : List UInt8) : EthernetSegmentId := ⟨takeWord kSize bytes⟩

def getData (esi : EthernetSegmentId) : List UInt8 := putBE kSize esi.data.val

def isZero (esi : EthernetSegmentId) : Bool := esi = kZeroEsi

end EthernetSegmentId

/-- `MacAddress`: its six bytes. -/
structure MacAddress where
  addr : Word 6
  deriving DecidableEq, Repr

namespace MacAddress

@[simp] def size : Nat := 6

/-- `MacAddress(const uint8_t *data)`. -/
def ofBytes (bytes : List UInt8) : MacAddress := ⟨takeWord size bytes⟩

def getData (mac : MacAddress) : List UInt8 := putBE size mac.addr.val

end MacAddress

/-- `boost::asio::ip::address`: an IPv4 or an IPv6 address. -/
inductive IpAddress
  | v4 (bytes : Word 4)
  | v6 (bytes : Word 16)
  deriving DecidableEq, Repr

namespace IpAddress

def isUnspecified : IpAddress → Bool
  | v4 bytes => bytes.val = 0
  | v6 bytes => bytes.val = 0

/-- The order of `operator<`: IPv4 addresses first, then by value. -/
def key : IpAddress → List Nat
  | v4 bytes => [0, bytes.val]
  | v6 bytes => [1, bytes.val]

end IpAddress

/-- The values of `Address::Family` an EVPN prefix takes. -/
inductive Family
  | unspec
  | inet
  | inet6
  deriving DecidableEq, Repr

/-- A family other than `UNSPEC` names the kind of the address beside it: every
constructor of `EvpnPrefix` and `ReadIpAddress` set the two together. -/
def Family.agrees : Family → IpAddress → Bool
  | .unspec, _ => true
  | .inet, .v4 _ => true
  | .inet6, .v6 _ => true
  | _, _ => false

/-! ## Attributes -/

/-- `TunnelEncapType::VXLAN`. -/
def VXLAN : Nat := 8

/-- `TunnelEncapType::VXLAN_CONTRAIL`. -/
def VXLAN_CONTRAIL : Nat := 37002

/-- One extended community: a tunnel encapsulation with its `Encap` value, or
a community of another kind. -/
inductive ExtCommunityValue
  | tunnelEncap (encap : Nat)
  | other
  deriving DecidableEq, Repr

structure ExtCommunity where
  communities : List ExtCommunityValue
  deriving DecidableEq, Repr

def ExtCommunity.containsTunnelEncapVxlan (extcomm : ExtCommunity) : Bool :=
  extcomm.communities.any fun
    | .tunnelEncap encap => encap = VXLAN || encap = VXLAN_CONTRAIL
    | .other => false

/-- `PmsiTunnelSpec::IngressReplication`. -/
def IngressReplication : Nat := 6

/-- `PmsiTunnelSpec::AssistedReplicationContrail`. -/
def AssistedReplicationContrail : Nat := 252

structure PmsiTunnel where
  tunnelType : Nat
  label : Nat
  deriving DecidableEq, Repr

def PmsiTunnel.getLabel (pmsiTunnel : PmsiTunnel) (isVni : Bool) : Nat :=
  if isVni then pmsiTunnel.label else pmsiTunnel.label >>> 4

/-- The parts of `BgpAttr` the EVPN NLRI code reads. -/
structure BgpAttr where
  esi : EthernetSegmentId
  extCommunity : Option ExtCommunity
  pmsiTunnel : Option PmsiTunnel
  deriving DecidableEq, Repr

/-- `BgpAttrDB::ReplaceEsiAndLocate`: the interned attribute with the ESI replaced. -/
def replaceEsiAndLocate (attr : BgpAttr) (esi : EthernetSegmentId) : BgpAttr :=
  { attr with esi := esi }

/-- `extcomm && extcomm->ContainsTunnelEncapVxlan()` with
`extcomm = attr ? attr->ext_community() : NULL`. -/
def vxlanEncap (attr : Option BgpAttr) : Bool :=
  match attr.bind (·.extCommunity) with
  | some extcomm => extcomm.containsTunnelEncapVxlan
  | none => false

/-! ## The NLRI buffer -/

/-- `BgpProtoPrefix`: the route type, the length in bits and the NLRI bytes. -/
structure BgpProtoPrefix where
  type : Nat
  prefixlen : Nat
  bytes : List UInt8
  deriving DecidableEq, Repr

namespace BgpProtoPrefix

@[simp] def kLabelSize : Nat := 3

/-- `type = type_; prefix.clear(); prefixlen = nlri_size * 8; prefix.resize(nlri_size, 0)`. -/
def resize (type nlriSize : Nat) : BgpProtoPrefix :=
  { type := type, prefixlen := nlriSize * 8, bytes := List.replicate nlriSize 0 }

/-- `copy(bytes.begin(), bytes.end(), prefix.begin() + offset)`. -/
def copy (proto : BgpProtoPrefix) (offset : Nat) (bytes : List UInt8) : BgpProtoPrefix :=
  { proto with bytes := overwrite proto.bytes offset bytes }

/-- `put_value(&prefix[offset], size, value)`. -/
def putValue (proto : BgpProtoPrefix) (offset size value : Nat) : BgpProtoPrefix :=
  proto.copy offset (putBE size value)

/-- `prefix[offset] = value`. -/
def set (proto : BgpProtoPrefix) (offset value : Nat) : BgpProtoPrefix :=
  proto.copy offset [UInt8.ofNat value]

/-- `prefix[offset]`. -/
def byteAt (proto : BgpProtoPrefix) (offset : Nat) : Nat :=
  (proto.bytes.getD offset 0).toNat

/-- `get_value(&prefix[offset], size)`, and the field constructors that copy
`size` bytes from `&prefix[offset]`. -/
def getValue (proto : BgpProtoPrefix) (offset size : Nat) : Word size :=
  takeWord size (proto.bytes.drop offset)

/-- `copy(prefix.begin() + offset, prefix.begin() + offset + psize, bytes.begin())`
into `bytes_type bytes = {{ 0 }}` of `size` bytes. -/
def copyBytes (proto : BgpProtoPrefix) (offset size psize : Nat) : Word size :=
  takeWord size ((proto.bytes.drop offset).take psize ++ List.replicate size 0)

/-- `BgpProtoPrefix::ReadLabel`: a 24-bit VNI, or a 20-bit MPLS label above the
bottom-of-stack bit. -/
def readLabel (proto : BgpProtoPrefix) (labelOffset : Nat) (isVni : Bool) : Nat :=
  if isVni then (proto.getValue labelOffset kLabelSize).val
  else (proto.byteAt labelOffset <<< 16 ||| proto.byteAt (labelOffset + 1) <<< 8 |||
    proto.byteAt (labelOffset + 2)) >>> 4

/-- `BgpProtoPrefix::WriteLabel`; its loop over the three bytes of `tmp` is
`put_value`'s. -/
def writeLabel (proto : BgpProtoPrefix) (labelOffset label : Nat) (isVni : Bool) :
    BgpProtoPrefix :=
  if isVni then proto.putValue labelOffset kLabelSize label
  else proto.putValue labelOffset kLabelSize ((label <<< 4 ||| 0x1) % 2 ^ 32)

end BgpProtoPrefix

/-! ## Prefixes -/

/-- `EvpnPrefix::RouteType`. -/
inductive RouteType
  | unspecified
  | autoDiscoveryRoute
  | macAdvertisementRoute
  | inclusiveMulticastRoute
  | segmentRoute
  | ipPrefixRoute
  deriving DecidableEq, Repr

namespace RouteType

def toNat : RouteType → Nat
  | unspecified => 0
  | autoDiscoveryRoute => 1
  | macAdvertisementRoute => 2
  | inclusiveMulticastRoute => 3
  | segmentRoute => 4
  | ipPrefixRoute => 5

/-- The route type a `uint8_t` names; the values the `switch` sends to its
`default` case are `Unspecified`. -/
def ofType : Nat → RouteType
  | 1 => autoDiscoveryRoute
  | 2 => macAdvertisementRoute
  | 3 => inclusiveMulticastRoute
  | 4 => segmentRoute
  | 5 => ipPrefixRoute
  | _ => unspecified

end RouteType

/-- `EvpnPrefix`, whose family and address always agree. -/
structure EvpnPrefix where
  type : RouteType
  rd : RouteDistinguisher
  esi : EthernetSegmentId
  /-- `uint32_t tag_`. -/
  tag : Word 4
  macAddr : MacAddress
  family : Family
  ipAddress : IpAddress
  ipPrefixlen : UInt8
  familyAgrees : family.agrees ipAddress = true
  deriving DecidableEq

namespace EvpnPrefix

def kInvalidLabel : Nat := 0x00100000
def kNullTag : Nat := 0
def kMaxTag : Nat := 0xFFFFFFFF
def kMaxVni : Nat := 0x00FFFFFF

@[simp] def kRdSize : Nat := RouteDistinguisher.kSize
@[simp] def kEsiSize : Nat := EthernetSegmentId.kSize
@[simp] def kTagSize : Nat := 4
@[simp] def kIp4AddrSize : Nat := 4
@[simp] def kIp6AddrSize : Nat := 16
@[simp] def kMacSize : Nat := MacAddress.size
@[simp] def kLabelSize : Nat := BgpProtoPrefix.kLabelSize

@[simp] def kMinAutoDiscoveryRouteSize : Nat := kRdSize + kEsiSize + kTagSize
@[simp] def kMinMacAdvertisementRouteSize : Nat := kRdSize + kEsiSize + kTagSize + 1 + kMacSize + 1
@[simp] def kMinInclusiveMulticastRouteSize : Nat := kRdSize + kTagSize + 1
@[simp] def kMinSegmentRouteSize : Nat := kRdSize + kEsiSize + 1
@[simp] def kMinInetPrefixRouteSize : Nat := kRdSize + kEsiSize + kTagSize + 1 + 2 * kIp4AddrSize
@[simp] def kMinInet6PrefixRouteSize : Nat := kRdSize + kEsiSize + kTagSize + 1 + 2 * kIp6AddrSize

/-- `EvpnPrefix()`, which `kNullPrefix` and `BgpPeer::ProcessNlri` use. -/
def kNullPrefix : EvpnPrefix where
  type := .unspecified
  rd := ⟨0⟩
  esi := .kZeroEsi
  tag := ⟨kNullTag, by decide⟩
  macAddr := ⟨0⟩
  family := .unspec
  ipAddress := .v4 0
  ipPrefixlen := 0
  familyAgrees := rfl

/-- The family the address constructors give: `INET` or `INET6` for a
specified address, `UNSPEC` for `0.0.0.0` and `::`. -/
def familyOf (ip : IpAddress) : Family :=
  match ip with
  | .v4 _ => if ip.isUnspecified then .unspec else .inet
  | .v6 _ => if ip.isUnspecified then .unspec else .inet6

theorem familyOf_agrees (ip : IpAddress) : (familyOf ip).agrees ip = true := by
  cases ip <;> simp only [familyOf] <;> split <;> rfl

/-- `EvpnPrefix(rd, esi, tag)`. -/
def autoDiscovery (rd : RouteDistinguisher) (esi : EthernetSegmentId) (tag : Word 4) :
    EvpnPrefix :=
  { kNullPrefix with type := .autoDiscoveryRoute, rd := rd, esi := esi, tag := tag }

/-- `EvpnPrefix(rd, tag, mac_addr, ip_address)`; the constructor without a tag
passes `kNullTag`. -/
def macAdvertisement (rd : RouteDistinguisher) (tag : Word 4) (macAddr : MacAddress)
    (ipAddress : IpAddress) : EvpnPrefix :=
  { kNullPrefix with
    type := .macAdvertisementRoute, rd := rd, tag := tag, macAddr := macAddr,
    family := familyOf ipAddress, ipAddress := ipAddress,
    familyAgrees := familyOf_agrees ipAddress }

/-- `EvpnPrefix(rd, tag, ip_address)`. -/
def inclusiveMulticast (rd : RouteDistinguisher) (tag : Word 4) (ipAddress : IpAddress) :
    EvpnPrefix :=
  { kNullPrefix with
    type := .inclusiveMulticastRoute, rd := rd, tag := tag,
    family := familyOf ipAddress, ipAddress := ipAddress,
    familyAgrees := familyOf_agrees ipAddress }

/-- `EvpnPrefix(rd, esi, ip_address)`. -/
def segment (rd : RouteDistinguisher) (esi : EthernetSegmentId) (ipAddress : IpAddress) :
    EvpnPrefix :=
  { kNullPrefix with
    type := .segmentRoute, rd := rd, esi := esi,
    family := familyOf ipAddress, ipAddress := ipAddress,
    familyAgrees := familyOf_agrees ipAddress }

/-- The family `EvpnPrefix(rd, tag, ip_address, ip_prefixlen)` sets: that of the
address, specified or not. -/
def prefixFamily : IpAddress → Family
  | .v4 _ => .inet
  | .v6 _ => .inet6

theorem prefixFamily_agrees (ip : IpAddress) : (prefixFamily ip).agrees ip = true := by
  cases ip <;> rfl

/-- `EvpnPrefix(rd, tag, ip_address, ip_prefixlen)`. -/
def ipPrefix (rd : RouteDistinguisher) (tag : Word 4) (ipAddress : IpAddress)
    (ipPrefixlen : UInt8) : EvpnPrefix :=
  { kNullPrefix with
    type := .ipPrefixRoute, rd := rd, tag := tag,
    family := prefixFamily ipAddress, ipAddress := ipAddress, ipPrefixlen := ipPrefixlen,
    familyAgrees := prefixFamily_agrees ipAddress }

def getIpAddressSize (pfx : EvpnPrefix) : Nat :=
  match pfx.family with
  | .inet => kIp4AddrSize
  | .inet6 => kIp6AddrSize
  | .unspec => 0

/-- `EvpnPrefix::ReadIpAddress`: `ip_psize` bytes of an address of `ip_size`
bytes; a size of zero leaves the address as it was. -/
def readIpAddress (pfx : EvpnPrefix) (proto : BgpProtoPrefix)
    (ipOffset ipSize ipPsize : Nat) : EvpnPrefix :=
  if ipSize = 0 then { pfx with family := .unspec, familyAgrees := rfl }
  else if ipSize = kIp4AddrSize then
    { pfx with
      family := .inet, ipAddress := .v4 (proto.copyBytes ipOffset 4 ipPsize),
      familyAgrees := rfl }
  else if ipSize = kIp6AddrSize then
    { pfx with
      family := .inet6, ipAddress := .v6 (proto.copyBytes ipOffset 16 ipPsize),
      familyAgrees := rfl }
  else pfx

/-- `EvpnPrefix::WriteIpAddress`; the pairs other than `INET` with an IPv4
address and `INET6` with an IPv6 one are `UNSPEC`, which writes nothing. -/
def writeIpAddress (pfx : EvpnPrefix) (proto : BgpProtoPrefix) (ipOffset : Nat) :
    BgpProtoPrefix :=
  match pfx.family, pfx.ipAddress with
  | .inet, .v4 bytes => proto.copy ipOffset (putBE kIp4AddrSize bytes.val)
  | .inet6, .v6 bytes => proto.copy ipOffset (putBE kIp6AddrSize bytes.val)
  | _, _ => proto

end EvpnPrefix

open EvpnPrefix

/-! ## Labels and the gateway address -/

/-- The file-static `ReadLabel`: none without an attribute; with VXLAN, a
non-zero ethernet tag up to `kMaxVni` is the label and `kMaxTag` gives zero. -/
def readLabel (proto : BgpProtoPrefix) (attr : Option BgpAttr) (offset tag : Nat) : Nat :=
  match attr with
  | none => 0
  | some _ =>
    if vxlanEncap attr then
      if tag ≠ 0 then
        if tag = kMaxTag then 0
        else if tag ≤ kMaxVni then tag
        else proto.readLabel offset true
      else proto.readLabel offset true
    else proto.readLabel offset false

/-- The file-static `WriteLabel`. -/
def writeLabel (proto : BgpProtoPrefix) (attr : Option BgpAttr) (offset label : Nat) :
    BgpProtoPrefix :=
  proto.writeLabel offset label (vxlanEncap attr)

/-- The file-static `ReadGwAddress`, for the sizes its assertion allows. -/
def readGwAddress (proto : BgpProtoPrefix) (gwOffset ipSize : Nat) : IpAddress :=
  if ipSize = kIp4AddrSize then .v4 (proto.getValue gwOffset 4)
  else .v6 (proto.getValue gwOffset 16)

/-! ## Encoding -/

namespace EvpnPrefix

/-- `EvpnPrefix::BuildProtoPrefix`; the `default` case asserts. -/
def buildProtoPrefix (pfx : EvpnPrefix) (attr : Option BgpAttr) (label l3Label : Nat) :
    Option BgpProtoPrefix :=
  match pfx.type with
  | .autoDiscoveryRoute =>
    let nlriSize := kMinAutoDiscoveryRouteSize + kLabelSize
    let rdOffset := 0
    let esiOffset := rdOffset + kRdSize
    let tagOffset := esiOffset + kEsiSize
    let labelOffset := tagOffset + kTagSize
    let proto := BgpProtoPrefix.resize pfx.type.toNat nlriSize
      |>.copy rdOffset pfx.rd.getData
      |>.copy esiOffset pfx.esi.getData
      |>.putValue tagOffset kTagSize pfx.tag.val
    some (writeLabel proto attr labelOffset label)
  | .macAdvertisementRoute =>
    let ipSize := pfx.getIpAddressSize
    let nlriSize := kMinMacAdvertisementRouteSize + ipSize + kLabelSize +
      if l3Label ≠ 0 then kLabelSize else 0
    let rdOffset := 0
    let esiOffset := rdOffset + kRdSize
    let tagOffset := esiOffset + kEsiSize
    let macLenOffset := tagOffset + kTagSize
    let macOffset := macLenOffset + 1
    let ipLenOffset := macOffset + kMacSize
    let ipOffset := ipLenOffset + 1
    let labelOffset := ipOffset + ipSize
    let proto := BgpProtoPrefix.resize pfx.type.toNat nlriSize
      |>.copy rdOffset pfx.rd.getData
    -- the ESI of a MAC route is not part of its key: it comes from the attribute
    let proto := match attr with
      | some attr => proto.copy esiOffset attr.esi.getData
      | none => proto
    let proto := proto.putValue tagOffset kTagSize pfx.tag.val
      |>.set macLenOffset 48
      |>.copy macOffset pfx.macAddr.getData
      |>.set ipLenOffset (ipSize * 8)
    let proto := writeLabel (pfx.writeIpAddress proto ipOffset) attr labelOffset label
    some (if l3Label ≠ 0 then writeLabel proto attr (labelOffset + kLabelSize) l3Label
      else proto)
  | .inclusiveMulticastRoute =>
    let ipSize := pfx.getIpAddressSize
    let nlriSize := kMinInclusiveMulticastRouteSize + ipSize
    let rdOffset := 0
    let tagOffset := rdOffset + kRdSize
    let ipLenOffset := tagOffset + kTagSize
    let ipOffset := ipLenOffset + 1
    let proto := BgpProtoPrefix.resize pfx.type.toNat nlriSize
      |>.copy rdOffset pfx.rd.getData
      |>.putValue tagOffset kTagSize pfx.tag.val
      |>.set ipLenOffset (ipSize * 8)
    some (pfx.writeIpAddress proto ipOffset)
  | .segmentRoute =>
    let ipSize := pfx.getIpAddressSize
    let nlriSize := kMinSegmentRouteSize + ipSize
    let rdOffset := 0
    let esiOffset := rdOffset + kRdSize
    let ipLenOffset := esiOffset + kEsiSize
    let ipOffset := ipLenOffset + 1
    let proto := BgpProtoPrefix.resize pfx.type.toNat nlriSize
      |>.copy rdOffset pfx.rd.getData
      |>.copy esiOffset pfx.esi.getData
      |>.set ipLenOffset (ipSize * 8)
    some (pfx.writeIpAddress proto ipOffset)
  | .ipPrefixRoute =>
    let ipSize := if pfx.family = .inet then kIp4AddrSize else kIp6AddrSize
    let nlriSize := if pfx.family = .inet then kMinInetPrefixRouteSize + kLabelSize
      else kMinInet6PrefixRouteSize + kLabelSize
    let rdOffset := 0
    let esiOffset := rdOffset + kRdSize
    let tagOffset := esiOffset + kEsiSize
    let ipPlenOffset := tagOffset + kTagSize
    let ipOffset := ipPlenOffset + 1
    let gwOffset := ipOffset + ipSize
    let labelOffset := gwOffset + ipSize
    let proto := BgpProtoPrefix.resize pfx.type.toNat nlriSize
      |>.copy rdOffset pfx.rd.getData
    let proto := match attr with
      | some attr => proto.copy esiOffset attr.esi.getData
      | none => proto
    let proto := proto.putValue tagOffset kTagSize pfx.tag.val
      |>.set ipPlenOffset pfx.ipPrefixlen.toNat
    -- the gateway address stays zero
    some (writeLabel (pfx.writeIpAddress proto ipOffset) attr labelOffset label)
  | .unspecified => none

/-! ## Decoding -/

/-- The out-parameters of `EvpnPrefix::FromProtoPrefix`. -/
structure Decoded where
  evpnPrefix : EvpnPrefix
  newAttr : Option BgpAttr
  label : Nat
  l3Label : Nat

/-- The label of an inclusive multicast route: from its PMSI tunnel attribute
when that is ingress replication, from a non-zero tag up to `kMaxVni` under
VXLAN. -/
def pmsiLabel (attr : Option BgpAttr) (tag : Nat) : Nat :=
  match attr.bind (·.pmsiTunnel) with
  | some pmsiTunnel =>
    if pmsiTunnel.tunnelType = IngressReplication ∨
        pmsiTunnel.tunnelType = AssistedReplicationContrail then
      if vxlanEncap attr then
        if tag ≠ 0 ∧ tag ≤ kMaxVni then tag else pmsiTunnel.getLabel true
      else pmsiTunnel.getLabel false
    else 0
  | none => 0

/-- `EvpnPrefix::FromProtoPrefix` into the caller's `prefix`, with a non-null
`l3_label`; `none` is a return of `-1`. -/
def fromProtoPrefix (proto : BgpProtoPrefix) (attr : Option BgpAttr) (pfx : EvpnPrefix) :
    Option Decoded :=
  let nlriSize := proto.bytes.length
  match RouteType.ofType proto.type with
  | .autoDiscoveryRoute => do
    let expectedMinNlriSize := kMinAutoDiscoveryRouteSize + if attr.isSome then kLabelSize else 0
    guard (expectedMinNlriSize ≤ nlriSize)
    let rdOffset := 0
    let esiOffset := rdOffset + kRdSize
    let tagOffset := esiOffset + kEsiSize
    let labelOffset := tagOffset + kTagSize
    let tag := proto.getValue tagOffset kTagSize
    pure { evpnPrefix := { pfx with
             type := .autoDiscoveryRoute,
             rd := .ofBytes (proto.bytes.drop rdOffset),
             esi := .ofBytes (proto.bytes.drop esiOffset), tag := tag }
           newAttr := attr, label := readLabel proto attr labelOffset tag.val, l3Label := 0 }
  | .macAdvertisementRoute => do
    let expectedMinNlriSize :=
      kMinMacAdvertisementRouteSize + if attr.isSome then kLabelSize else 0
    guard (expectedMinNlriSize ≤ nlriSize)
    let rdOffset := 0
    let esiOffset := rdOffset + kRdSize
    let newAttr := attr.map fun attr =>
      replaceEsiAndLocate attr (.ofBytes (proto.bytes.drop esiOffset))
    let tagOffset := esiOffset + kEsiSize
    let tag := proto.getValue tagOffset kTagSize
    let macLenOffset := tagOffset + kTagSize
    guard (proto.byteAt macLenOffset = 48)
    let macOffset := macLenOffset + 1
    let ipLenOffset := macOffset + kMacSize
    let ipLen := proto.byteAt ipLenOffset
    guard (ipLen = 0 ∨ ipLen = 32 ∨ ipLen = 128)
    let ipSize := ipLen / 8
    guard (expectedMinNlriSize + ipSize ≤ nlriSize)
    let ipOffset := ipLenOffset + 1
    let pfx := { pfx with
      type := .macAdvertisementRoute,
      rd := .ofBytes (proto.bytes.drop rdOffset), tag := tag,
      macAddr := .ofBytes (proto.bytes.drop macOffset) }
    let labelOffset := ipOffset + ipSize
    let l3LabelOffset := labelOffset + kLabelSize
    pure { evpnPrefix := pfx.readIpAddress proto ipOffset ipSize ipSize, newAttr := newAttr,
           label := readLabel proto attr labelOffset tag.val,
           l3Label := if l3LabelOffset + kLabelSize ≤ nlriSize
             then readLabel proto attr l3LabelOffset kNullTag else 0 }
  | .inclusiveMulticastRoute => do
    guard (kMinInclusiveMulticastRouteSize ≤ nlriSize)
    let rdOffset := 0
    let tagOffset := rdOffset + kRdSize
    let tag := proto.getValue tagOffset kTagSize
    let ipLenOffset := tagOffset + kTagSize
    let ipLen := proto.byteAt ipLenOffset
    guard (ipLen = 32 ∨ ipLen = 128)
    let ipSize := ipLen / 8
    guard (kMinInclusiveMulticastRouteSize + ipSize ≤ nlriSize)
    let ipOffset := ipLenOffset + 1
    let pfx := { pfx with
      type := .inclusiveMulticastRoute,
      rd := .ofBytes (proto.bytes.drop rdOffset), tag := tag }
    pure { evpnPrefix := pfx.readIpAddress proto ipOffset ipSize ipSize, newAttr := attr,
           label := pmsiLabel attr tag.val, l3Label := 0 }
  | .segmentRoute => do
    guard (kMinSegmentRouteSize ≤ nlriSize)
    let rdOffset := 0
    let esiOffset := rdOffset + kRdSize
    let ipLenOffset := esiOffset + kEsiSize
    let ipLen := proto.byteAt ipLenOffset
    guard (ipLen = 32 ∨ ipLen = 128)
    let ipSize := ipLen / 8
    guard (kMinSegmentRouteSize + ipSize ≤ nlriSize)
    let ipOffset := ipLenOffset + 1
    let pfx := { pfx with
      type := .segmentRoute,
      rd := .ofBytes (proto.bytes.drop rdOffset), esi := .ofBytes (proto.bytes.drop esiOffset) }
    pure { evpnPrefix := pfx.readIpAddress proto ipOffset ipSize ipSize, newAttr := attr,
           label := 0, l3Label := 0 }
  | .ipPrefixRoute => do
    -- with an attribute the label is required; a withdrawal may carry it or not
    let ipSize ← if attr.isSome then
        if nlriSize = kMinInet6PrefixRouteSize + kLabelSize then some kIp6AddrSize
        else if nlriSize = kMinInetPrefixRouteSize + kLabelSize then some kIp4AddrSize
        else none
      else
        if nlriSize = kMinInet6PrefixRouteSize ∨
            nlriSize = kMinInet6PrefixRouteSize + kLabelSize then some kIp6AddrSize
        else if nlriSize = kMinInetPrefixRouteSize ∨
            nlriSize = kMinInetPrefixRouteSize + kLabelSize then some kIp4AddrSize
        else none
    let rdOffset := 0
    let esiOffset := rdOffset + kRdSize
    guard (EthernetSegmentId.ofBytes (proto.bytes.drop esiOffset)).isZero
    let tagOffset := esiOffset + kEsiSize
    let tag := proto.getValue tagOffset kTagSize
    let ipPlenOffset := tagOffset + kTagSize
    let ipPrefixlen := proto.byteAt ipPlenOffset
    guard ¬(ipSize = kIp4AddrSize ∧ ipPrefixlen > 32)
    guard ¬(ipSize = kIp6AddrSize ∧ ipPrefixlen > 128)
    let ipOffset := ipPlenOffset + 1
    let ipPsize := (ipPrefixlen + 7) / 8
    let pfx := { pfx with
      type := .ipPrefixRoute,
      rd := .ofBytes (proto.bytes.drop rdOffset), tag := tag,
      ipPrefixlen := UInt8.ofNat ipPrefixlen }
    let gwOffset := ipOffset + ipSize
    guard (readGwAddress proto gwOffset ipSize).isUnspecified
    let labelOffset := gwOffset + ipSize
    pure { evpnPrefix := pfx.readIpAddress proto ipOffset ipSize ipPsize, newAttr := attr,
           label := readLabel proto attr labelOffset kNullTag, l3Label := 0 }
  | .unspecified => none

/-! ## Comparison -/

/-- `EvpnPrefix::CompareTo`: the type, then the key fields of that type. -/
def compareTo (lhs rhs : EvpnPrefix) : Int :=
  andThen (keyCompare lhs.type.toNat rhs.type.toNat) <|
  match lhs.type with
  | .autoDiscoveryRoute =>
    andThen (keyCompare lhs.rd.data rhs.rd.data) <|
    andThen (keyCompare lhs.esi.data rhs.esi.data) (keyCompare lhs.tag rhs.tag)
  | .macAdvertisementRoute =>
    andThen (keyCompare lhs.rd.data rhs.rd.data) <|
    andThen (keyCompare lhs.tag rhs.tag) <|
    andThen (keyCompare lhs.macAddr.addr rhs.macAddr.addr)
      (keyCompare lhs.ipAddress.key rhs.ipAddress.key)
  | .inclusiveMulticastRoute =>
    andThen (keyCompare lhs.rd.data rhs.rd.data) <|
    andThen (keyCompare lhs.tag rhs.tag) (keyCompare lhs.ipAddress.key rhs.ipAddress.key)
  | .segmentRoute =>
    andThen (keyCompare lhs.rd.data rhs.rd.data) <|
    andThen (keyCompare lhs.esi.data rhs.esi.data)
      (keyCompare lhs.ipAddress.key rhs.ipAddress.key)
  | .ipPrefixRoute =>
    andThen (keyCompare lhs.rd.data rhs.rd.data) <|
    andThen (keyCompare lhs.tag rhs.tag) <|
    andThen (keyCompare lhs.ipAddress.key rhs.ipAddress.key)
      (keyCompare lhs.ipPrefixlen.toNat rhs.ipPrefixlen.toNat)
  | .unspecified => 0

end EvpnPrefix

end Contrail.Bgp.Evpn
