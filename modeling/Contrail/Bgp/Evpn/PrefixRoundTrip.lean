import Contrail.Bgp.Evpn.PrefixLayout

/-! `FromProtoPrefix` undoes `BuildProtoPrefix`: on the NLRI built for a prefix
whose key its type's layout carries, decoding succeeds, the decoded prefix
compares equal, a MAC route's ESI comes back in the new attribute, and the
labels written come back where the NLRI holds them. -/
namespace Contrail.Bgp.Evpn

open Bytes ThreeWay EvpnPrefix

/-- An address of `plen` bits: the length fits the address and every bit past
it is zero. -/
def IpAddress.HostBitsZero : IpAddress → Nat → Prop
  | .v4 bytes, plen => plen ≤ 32 ∧ 2 ^ (32 - plen) ∣ bytes.val
  | .v6 bytes, plen => plen ≤ 128 ∧ 2 ^ (128 - plen) ∣ bytes.val

instance : (ip : IpAddress) → (plen : Nat) → Decidable (ip.HostBitsZero plen)
  | .v4 _, _ => inferInstanceAs (Decidable (_ ∧ _))
  | .v6 _, _ => inferInstanceAs (Decidable (_ ∧ _))

namespace EvpnPrefix

/-- The prefixes whose key the layout of their type carries: a MAC route
without an address holds the `0.0.0.0` the decoder leaves in place, inclusive
multicast and segment routes have an address, and an IP prefix route has its
host bits clear and no ESI in its attribute. -/
def Encodable (pfx : EvpnPrefix) (attr : Option BgpAttr) : Prop :=
  match pfx.type with
  | .autoDiscoveryRoute => True
  | .macAdvertisementRoute => pfx.family = .unspec → pfx.ipAddress = .v4 ⟨0, by decide⟩
  | .inclusiveMulticastRoute | .segmentRoute => pfx.family ≠ .unspec
  | .ipPrefixRoute =>
    pfx.family ≠ .unspec ∧ pfx.ipAddress.HostBitsZero pfx.ipPrefixlen.toNat ∧
      attr.all (·.esi.isZero)
  | .unspecified => False

instance (pfx : EvpnPrefix) (attr : Option BgpAttr) : Decidable (pfx.Encodable attr) := by
  unfold EvpnPrefix.Encodable
  split <;> infer_instance

/-- The route types whose NLRI holds a label. -/
def CarriesLabel (pfx : EvpnPrefix) : Prop :=
  pfx.type = .autoDiscoveryRoute ∨ pfx.type = .macAdvertisementRoute ∨
    pfx.type = .ipPrefixRoute

/-- The VXLAN rules of `ReadLabel`: the label of an auto-discovery or MAC route
comes from a non-zero ethernet tag instead of the NLRI. -/
def LabelFromTag (pfx : EvpnPrefix) (attr : Option BgpAttr) : Prop :=
  (pfx.type = .autoDiscoveryRoute ∨ pfx.type = .macAdvertisementRoute) ∧
    vxlanEncap attr = true ∧ pfx.tag.val ≠ 0 ∧ (pfx.tag.val = kMaxTag ∨ pfx.tag.val ≤ kMaxVni)

/-- What decoding gives back of a prefix built with an attribute and labels. -/
structure Recovers (pfx : EvpnPrefix) (attr : Option BgpAttr) (label l3Label : Nat)
    (decoded : Decoded) : Prop where
  key : decoded.evpnPrefix.compareTo pfx = 0
  newAttr : decoded.newAttr = attr
  label : attr.isSome → pfx.CarriesLabel → ¬pfx.LabelFromTag attr → decoded.label = label
  l3Label : attr.isSome → pfx.type = .macAdvertisementRoute → decoded.l3Label = l3Label

end EvpnPrefix

/-! ## Reading the fields back -/

theorem readLabel_of_untagged {pfx : EvpnPrefix} {proto : BgpProtoPrefix} {offset : Nat}
    {attr : Option BgpAttr} {label : Nat} {rest : List UInt8}
    (dropped : proto.bytes.drop offset = labelBytes attr label ++ rest)
    (fits : LabelFits attr label)
    (kind : pfx.type = .autoDiscoveryRoute ∨ pfx.type = .macAdvertisementRoute)
    (untagged : ¬pfx.LabelFromTag attr) (present : attr.isSome) :
    readLabel proto attr offset pfx.tag.val = label :=
  readLabel_of_drop dropped fits (fun tagged => untagged ⟨kind, tagged⟩) present

theorem readLabel_null_tag {proto : BgpProtoPrefix} {offset : Nat} {attr : Option BgpAttr}
    {label : Nat} {rest : List UInt8}
    (dropped : proto.bytes.drop offset = labelBytes attr label ++ rest)
    (fits : LabelFits attr label) (present : attr.isSome) :
    readLabel proto attr offset kNullTag = label :=
  readLabel_of_drop dropped fits (fun tagged => tagged.2.1 rfl) present

/-- A MAC route's new attribute is the one it was built with: the ESI read
back is the attribute's own. -/
theorem replaceEsi_esiBytes (attr : Option BgpAttr) (rest : List UInt8) :
    attr.map (fun a => replaceEsiAndLocate a (.ofBytes (esiBytes attr ++ rest))) = attr := by
  cases attr with
  | none => rfl
  | some a => simp [esiBytes, replaceEsiAndLocate]

/-- `copy` of the first `kept` bytes of a field into a zeroed one gives the
field back when its low `width - kept` bytes are zero. -/
theorem BgpProtoPrefix.copyBytes_of_drop {proto : BgpProtoPrefix} {offset width kept value : Nat}
    {rest : List UInt8} (dropped : proto.bytes.drop offset = putBE width value ++ rest)
    (le : kept ≤ width) (fits : value < 256 ^ width) (cleared : 256 ^ (width - kept) ∣ value) :
    (proto.copyBytes offset width kept).val = value := by
  rw [BgpProtoPrefix.copyBytes, dropped, List.take_append_of_le_length (by simpa using le),
    takeWord_take_putBE_of_dvd le fits cleared]

/-- The address `ReadIpAddress` copies from the first `(plen + 7) / 8` bytes is
the prefix's own when its host bits are clear. -/
theorem readIpAddress_of_hostBitsZero {pfx into : EvpnPrefix} {proto : BgpProtoPrefix}
    {offset : Nat} {rest : List UInt8}
    (dropped : proto.bytes.drop offset = pfx.ipBytes ++ rest)
    (family : pfx.family ≠ .unspec)
    (network : pfx.ipAddress.HostBitsZero pfx.ipPrefixlen.toNat) :
    (into.readIpAddress proto offset pfx.getIpAddressSize
        ((pfx.ipPrefixlen.toNat + 7) / 8)).ipAddress = pfx.ipAddress := by
  obtain ⟨_, _, _, _, _, fam, ip, plen, agrees⟩ := pfx
  cases fam <;> cases ip <;>
    first
    | exact absurd rfl family
    | exact absurd agrees Bool.false_ne_true
    | obtain ⟨short, cleared⟩ := network
      simp only [EvpnPrefix.ipBytes] at dropped
      simp only at short cleared
      simp only [readIpAddress, getIpAddressSize, kIp4AddrSize, kIp6AddrSize] at dropped ⊢
      simp only [Nat.reduceEqDiff, if_false, if_true, IpAddress.v4.injEq, IpAddress.v6.injEq]
      exact Fin.ext (BgpProtoPrefix.copyBytes_of_drop dropped (by omega) (Fin.isLt _)
        (pow_bytes_dvd_of_pow_bits_dvd (by omega) cleared))

theorem getIpAddressSize_of_ne_unspec {pfx : EvpnPrefix} (family : pfx.family ≠ .unspec) :
    pfx.getIpAddressSize = 4 ∨ pfx.getIpAddressSize = 16 := by
  unfold getIpAddressSize
  cases fam : pfx.family <;> simp_all

/-- The prefix length of an address with its host bits clear fits the address
size its family gives. -/
theorem ipPrefixlen_le_of_hostBitsZero {pfx : EvpnPrefix} (family : pfx.family ≠ .unspec)
    (network : pfx.ipAddress.HostBitsZero pfx.ipPrefixlen.toNat) :
    pfx.ipPrefixlen.toNat ≤ pfx.getIpAddressSize * 8 := by
  obtain ⟨_, _, _, _, _, fam, ip, _, agrees⟩ := pfx
  cases fam <;> cases ip <;>
    first
    | exact absurd rfl family
    | exact absurd agrees Bool.false_ne_true
    | simpa [getIpAddressSize] using network.1

/-! ## Each route type

Each lemma takes the NLRI `BuildProtoPrefix` returned and reads every field
`FromProtoPrefix` looks at off the layout of `PrefixLayout`. -/

theorem autoDiscovery_round_trip {pfx : EvpnPrefix} (type : pfx.type = .autoDiscoveryRoute)
    {attr : Option BgpAttr} {label l3Label : Nat} (fits : LabelFits attr label)
    {proto : BgpProtoPrefix} (built : pfx.buildProtoPrefix attr label l3Label = some proto) :
    ∃ decoded, fromProtoPrefix proto attr kNullPrefix = some decoded ∧
      Recovers pfx attr label l3Label decoded := by
  obtain ⟨protoType, bytes⟩ : proto.type = 1 ∧ proto.bytes = autoDiscoveryNlri pfx attr label := by
    rw [buildProtoPrefix_autoDiscovery type, Option.some.injEq] at built
    subst built
    exact ⟨rfl, rfl⟩
  have long : kMinAutoDiscoveryRouteSize + (if attr.isSome then kLabelSize else 0) ≤
      proto.bytes.length := by
    simp [bytes, autoDiscoveryNlri]
    split <;> omega
  refine ⟨_, fromProtoPrefix_autoDiscovery protoType long, ?_⟩
  have rd : RouteDistinguisher.ofBytes proto.bytes = pfx.rd := by
    simp [bytes, autoDiscoveryNlri]
  have esi : EthernetSegmentId.ofBytes (proto.bytes.drop 8) = pfx.esi := by
    simp [bytes, autoDiscoveryNlri]
  have tag : proto.getValue 18 4 = pfx.tag := by
    simp [BgpProtoPrefix.getValue, bytes, autoDiscoveryNlri, List.drop_append,
      List.drop_eq_nil_of_le, takeWord_putBE_append]
  have dropped : proto.bytes.drop 22 = labelBytes attr label ++ [] := by
    simp [bytes, autoDiscoveryNlri, List.drop_append, List.drop_eq_nil_of_le]
  constructor
  · simp [compareTo, type, rd, esi, tag]
  · rfl
  · intro present _ untagged
    simp only [tag]
    exact readLabel_of_untagged dropped fits (.inl type) untagged present
  · intro _ mac
    simp [type] at mac

theorem macAdvertisement_round_trip {pfx : EvpnPrefix}
    (type : pfx.type = .macAdvertisementRoute) {attr : Option BgpAttr}
    (unspecified : pfx.family = .unspec → pfx.ipAddress = .v4 0) {label l3Label : Nat}
    (fits : LabelFits attr label) (l3Fits : LabelFits attr l3Label)
    {proto : BgpProtoPrefix} (built : pfx.buildProtoPrefix attr label l3Label = some proto) :
    ∃ decoded, fromProtoPrefix proto attr kNullPrefix = some decoded ∧
      Recovers pfx attr label l3Label decoded := by
  obtain ⟨protoType, bytes⟩ :
      proto.type = 2 ∧ proto.bytes = macAdvertisementNlri pfx attr label l3Label := by
    rw [buildProtoPrefix_macAdvertisement type, Option.some.injEq] at built
    subst built
    exact ⟨rfl, rfl⟩
  have sized := getIpAddressSize_cases pfx
  have long : kMinMacAdvertisementRouteSize + (if attr.isSome then kLabelSize else 0) +
      pfx.getIpAddressSize ≤ proto.bytes.length := by
    simp only [bytes, length_macAdvertisementNlri, kMinMacAdvertisementRouteSize, kRdSize,
      kEsiSize, kTagSize, kMacSize, kLabelSize, RouteDistinguisher.kSize,
      EthernetSegmentId.kSize, MacAddress.size, BgpProtoPrefix.kLabelSize]
    split <;> split <;> omega
  have macLen : proto.byteAt 22 = 48 := by
    simp [BgpProtoPrefix.byteAt_eq, bytes, macAdvertisementNlri, List.drop_append,
      List.drop_eq_nil_of_le]
  have ipLen : proto.byteAt 29 = pfx.getIpAddressSize * 8 := by
    rcases sized with size | size | size <;>
      simp [BgpProtoPrefix.byteAt_eq, bytes, macAdvertisementNlri, List.drop_append,
        List.drop_eq_nil_of_le, size]
  refine ⟨_, fromProtoPrefix_macAdvertisement protoType macLen ipLen sized long, ?_⟩
  have rd : RouteDistinguisher.ofBytes proto.bytes = pfx.rd := by
    simp [bytes, macAdvertisementNlri]
  have esi : proto.bytes.drop 8 = esiBytes attr ++ proto.bytes.drop 18 := by
    simp [bytes, macAdvertisementNlri, List.drop_append, List.drop_eq_nil_of_le]
  have tag : proto.getValue 18 4 = pfx.tag := by
    simp [BgpProtoPrefix.getValue, bytes, macAdvertisementNlri, List.drop_append,
      List.drop_eq_nil_of_le, takeWord_putBE_append]
  have mac : MacAddress.ofBytes (proto.bytes.drop 23) = pfx.macAddr := by
    simp [bytes, macAdvertisementNlri, List.drop_append, List.drop_eq_nil_of_le]
  have address : proto.bytes.drop 30 =
      pfx.ipBytes ++ proto.bytes.drop (30 + pfx.getIpAddressSize) := by
    simp +arith [bytes, macAdvertisementNlri, List.drop_append, List.drop_eq_nil_of_le]
  have labels : proto.bytes.drop (30 + pfx.getIpAddressSize) =
      labelBytes attr label ++ if l3Label ≠ 0 then labelBytes attr l3Label else [] := by
    simp +arith [bytes, macAdvertisementNlri, List.drop_append, List.drop_eq_nil_of_le]
  constructor
  · simp [compareTo, type, rd, tag, mac]
    rw [readIpAddress_ipBytes address, keyCompare_self]
    intro unspec
    rw [unspecified unspec]
    rfl
  · simp only [esi, replaceEsi_esiBytes]
  · intro present _ untagged
    simp only [tag]
    exact readLabel_of_untagged labels fits (.inr type) untagged present
  · intro present _
    -- the second label is read only when the NLRI is long enough to hold it
    by_cases l3 : l3Label = 0
    · have short : ¬30 + pfx.getIpAddressSize + 3 + 3 ≤ proto.bytes.length := by
        simp only [bytes, length_macAdvertisementNlri, l3, ne_eq, not_true_eq_false, if_false]
        omega
      simp [short, l3]
    · have room : 30 + pfx.getIpAddressSize + 3 + 3 ≤ proto.bytes.length := by
        simp only [bytes, length_macAdvertisementNlri, l3, ne_eq, not_false_eq_true, if_true]
        omega
      have second : proto.bytes.drop (30 + pfx.getIpAddressSize + 3) =
          labelBytes attr l3Label ++ [] := by
        rw [← List.drop_drop, labels]
        simp [l3]
      simp [room, readLabel_null_tag second l3Fits present]

theorem inclusiveMulticast_round_trip {pfx : EvpnPrefix}
    (type : pfx.type = .inclusiveMulticastRoute) (family : pfx.family ≠ .unspec)
    {attr : Option BgpAttr} {label l3Label : Nat} {proto : BgpProtoPrefix}
    (built : pfx.buildProtoPrefix attr label l3Label = some proto) :
    ∃ decoded, fromProtoPrefix proto attr kNullPrefix = some decoded ∧
      Recovers pfx attr label l3Label decoded := by
  obtain ⟨protoType, bytes⟩ : proto.type = 3 ∧ proto.bytes = inclusiveMulticastNlri pfx := by
    rw [buildProtoPrefix_inclusiveMulticast type, Option.some.injEq] at built
    subst built
    exact ⟨rfl, rfl⟩
  have sized := getIpAddressSize_of_ne_unspec family
  have long : kMinInclusiveMulticastRouteSize + pfx.getIpAddressSize ≤ proto.bytes.length := by
    simp [bytes, inclusiveMulticastNlri]
    omega
  have ipLen : proto.byteAt 12 = pfx.getIpAddressSize * 8 := by
    rcases sized with size | size <;>
      simp [BgpProtoPrefix.byteAt_eq, bytes, inclusiveMulticastNlri, List.drop_append,
        List.drop_eq_nil_of_le, size]
  refine ⟨_, fromProtoPrefix_inclusiveMulticast protoType ipLen sized long, ?_⟩
  have rd : RouteDistinguisher.ofBytes proto.bytes = pfx.rd := by
    simp [bytes, inclusiveMulticastNlri]
  have tag : proto.getValue 8 4 = pfx.tag := by
    simp [BgpProtoPrefix.getValue, bytes, inclusiveMulticastNlri, takeWord_putBE_append]
  have address : proto.bytes.drop 13 = pfx.ipBytes ++ [] := by
    simp [bytes, inclusiveMulticastNlri, List.drop_append, List.drop_eq_nil_of_le]
  constructor
  · simp [compareTo, type, rd, tag]
    rw [readIpAddress_ipBytes address, keyCompare_self]
    exact fun unspec => absurd unspec family
  · rfl
  · intro _ carries
    simp [CarriesLabel, type] at carries
  · intro _ mac
    simp [type] at mac

theorem segment_round_trip {pfx : EvpnPrefix} (type : pfx.type = .segmentRoute)
    (family : pfx.family ≠ .unspec) {attr : Option BgpAttr} {label l3Label : Nat}
    {proto : BgpProtoPrefix} (built : pfx.buildProtoPrefix attr label l3Label = some proto) :
    ∃ decoded, fromProtoPrefix proto attr kNullPrefix = some decoded ∧
      Recovers pfx attr label l3Label decoded := by
  obtain ⟨protoType, bytes⟩ : proto.type = 4 ∧ proto.bytes = segmentNlri pfx := by
    rw [buildProtoPrefix_segment type, Option.some.injEq] at built
    subst built
    exact ⟨rfl, rfl⟩
  have sized := getIpAddressSize_of_ne_unspec family
  have long : kMinSegmentRouteSize + pfx.getIpAddressSize ≤ proto.bytes.length := by
    simp [bytes, segmentNlri]
    omega
  have ipLen : proto.byteAt 18 = pfx.getIpAddressSize * 8 := by
    rcases sized with size | size <;>
      simp [BgpProtoPrefix.byteAt_eq, bytes, segmentNlri, List.drop_append,
        List.drop_eq_nil_of_le, size]
  refine ⟨_, fromProtoPrefix_segment protoType ipLen sized long, ?_⟩
  have rd : RouteDistinguisher.ofBytes proto.bytes = pfx.rd := by
    simp [bytes, segmentNlri]
  have esi : EthernetSegmentId.ofBytes (proto.bytes.drop 8) = pfx.esi := by
    simp [bytes, segmentNlri]
  have address : proto.bytes.drop 19 = pfx.ipBytes ++ [] := by
    simp [bytes, segmentNlri, List.drop_append, List.drop_eq_nil_of_le]
  constructor
  · simp [compareTo, type, rd, esi]
    rw [readIpAddress_ipBytes address, keyCompare_self]
    exact fun unspec => absurd unspec family
  · rfl
  · intro _ carries
    simp [CarriesLabel, type] at carries
  · intro _ mac
    simp [type] at mac

theorem ipPrefix_round_trip {pfx : EvpnPrefix} (type : pfx.type = .ipPrefixRoute)
    (family : pfx.family ≠ .unspec)
    (network : pfx.ipAddress.HostBitsZero pfx.ipPrefixlen.toNat) {attr : Option BgpAttr}
    (noEsi : attr.all (·.esi.isZero)) {label l3Label : Nat} (fits : LabelFits attr label)
    {proto : BgpProtoPrefix} (built : pfx.buildProtoPrefix attr label l3Label = some proto) :
    ∃ decoded, fromProtoPrefix proto attr kNullPrefix = some decoded ∧
      Recovers pfx attr label l3Label decoded := by
  obtain ⟨protoType, bytes⟩ : proto.type = 5 ∧ proto.bytes = ipPrefixNlri pfx attr label := by
    rw [buildProtoPrefix_ipPrefix type family, Option.some.injEq] at built
    subst built
    exact ⟨rfl, rfl⟩
  have sized := getIpAddressSize_of_ne_unspec family
  have long : pfx.getIpAddressSize = kIp4AddrSize ∧
        proto.bytes.length = kMinInetPrefixRouteSize + kLabelSize ∨
      pfx.getIpAddressSize = kIp6AddrSize ∧
        proto.bytes.length = kMinInet6PrefixRouteSize + kLabelSize := by
    rcases sized with size | size <;> simp [bytes, ipPrefixNlri, size]
  -- the decoder insists on a zero ESI, which the encoder copied from the attribute
  have esi : (EthernetSegmentId.ofBytes (proto.bytes.drop 8)).isZero := by
    have dropped : proto.bytes.drop 8 = esiBytes attr ++ proto.bytes.drop 18 := by
      simp [bytes, ipPrefixNlri, List.drop_append, List.drop_eq_nil_of_le]
    rw [dropped, ofBytes_esiBytes_append]
    cases attr with
    | none => rfl
    | some a => exact noEsi
  have plenByte : proto.byteAt 22 = pfx.ipPrefixlen.toNat := by
    simp [BgpProtoPrefix.byteAt_eq, bytes, ipPrefixNlri, List.drop_append, List.drop_eq_nil_of_le]
  have plen : proto.byteAt 22 ≤ pfx.getIpAddressSize * 8 := by
    rw [plenByte]
    exact ipPrefixlen_le_of_hostBitsZero family network
  have afterAddress : proto.bytes.drop (23 + pfx.getIpAddressSize) =
      List.replicate pfx.getIpAddressSize 0 ++ labelBytes attr label := by
    simp +arith [bytes, ipPrefixNlri, List.drop_append, List.drop_eq_nil_of_le]
  have gateway : (readGwAddress proto (23 + pfx.getIpAddressSize)
      pfx.getIpAddressSize).isUnspecified := by
    rcases sized with size | size <;> rw [size] at afterAddress ⊢ <;>
      simp only [readGwAddress, BgpProtoPrefix.getValue, afterAddress,
        takeWord_replicate_zero_append] <;>
      rfl
  refine ⟨_, fromProtoPrefix_ipPrefix protoType long esi plen gateway, ?_⟩
  have rd : RouteDistinguisher.ofBytes proto.bytes = pfx.rd := by
    simp [bytes, ipPrefixNlri]
  have tag : proto.getValue 18 4 = pfx.tag := by
    simp [BgpProtoPrefix.getValue, bytes, ipPrefixNlri, List.drop_append,
      List.drop_eq_nil_of_le, takeWord_putBE_append]
  have address : proto.bytes.drop 23 = pfx.ipBytes ++ proto.bytes.drop (23 + pfx.getIpAddressSize) := by
    simp +arith [bytes, ipPrefixNlri, List.drop_append, List.drop_eq_nil_of_le]
  have labelled : proto.bytes.drop (23 + pfx.getIpAddressSize + pfx.getIpAddressSize) =
      labelBytes attr label ++ [] := by
    rw [← List.drop_drop, afterAddress]
    simp
  constructor
  · simp [compareTo, type, rd, tag, plenByte]
    rw [readIpAddress_of_hostBitsZero address family network]
    simp
  · rfl
  · intro present _ _
    exact readLabel_null_tag labelled fits present
  · intro _ mac
    simp [type] at mac

/-! ## The round trip -/

/-- `FromProtoPrefix` on the NLRI `BuildProtoPrefix` produced for an encodable
prefix and labels that fit the encoding succeeds and recovers the prefix, the
attribute, the labels the NLRI holds and the second label of a MAC route. -/
theorem evpn_nlri_round_trip (pfx : EvpnPrefix) (attr : Option BgpAttr) (label l3Label : Nat)
    (encodable : pfx.Encodable attr) (fits : LabelFits attr label)
    (l3Fits : LabelFits attr l3Label) :
    ∃ proto decoded, pfx.buildProtoPrefix attr label l3Label = some proto ∧
      fromProtoPrefix proto attr kNullPrefix = some decoded ∧
      Recovers pfx attr label l3Label decoded := by
  -- an unspecified route type is not encodable
  cases type : pfx.type <;> simp only [EvpnPrefix.Encodable, type] at encodable
  case autoDiscoveryRoute =>
    have built := buildProtoPrefix_autoDiscovery type attr label l3Label
    obtain ⟨decoded, decodes, recovers⟩ := autoDiscovery_round_trip type fits built
    exact ⟨_, decoded, built, decodes, recovers⟩
  case macAdvertisementRoute =>
    have built := buildProtoPrefix_macAdvertisement type attr label l3Label
    obtain ⟨decoded, decodes, recovers⟩ :=
      macAdvertisement_round_trip type encodable fits l3Fits built
    exact ⟨_, decoded, built, decodes, recovers⟩
  case inclusiveMulticastRoute =>
    have built := buildProtoPrefix_inclusiveMulticast type attr label l3Label
    obtain ⟨decoded, decodes, recovers⟩ := inclusiveMulticast_round_trip type encodable built
    exact ⟨_, decoded, built, decodes, recovers⟩
  case segmentRoute =>
    have built := buildProtoPrefix_segment type attr label l3Label
    obtain ⟨decoded, decodes, recovers⟩ := segment_round_trip type encodable built
    exact ⟨_, decoded, built, decodes, recovers⟩
  case ipPrefixRoute =>
    obtain ⟨family, network, noEsi⟩ := encodable
    have built := buildProtoPrefix_ipPrefix type family attr label l3Label
    obtain ⟨decoded, decodes, recovers⟩ :=
      ipPrefix_round_trip type family network noEsi fits built
    exact ⟨_, decoded, built, decodes, recovers⟩

/-- A MAC route with an IPv4 address, built under VXLAN with an ESI in the
attribute and a VNI. -/
theorem evpn_nlri_round_trip_vxlan_mac :
    (macAdvertisement ⟨7⟩ ⟨0, by decide⟩ ⟨5⟩ (.v4 ⟨0x0A000001, by decide⟩)).Encodable
        (some ⟨⟨3⟩, some ⟨[.tunnelEncap VXLAN]⟩, none⟩) ∧
      ∃ proto decoded,
        (macAdvertisement ⟨7⟩ ⟨0, by decide⟩ ⟨5⟩ (.v4 ⟨0x0A000001, by decide⟩)).buildProtoPrefix
          (some ⟨⟨3⟩, some ⟨[.tunnelEncap VXLAN]⟩, none⟩) 5000 0 = some proto ∧
        fromProtoPrefix proto (some ⟨⟨3⟩, some ⟨[.tunnelEncap VXLAN]⟩, none⟩) kNullPrefix =
          some decoded ∧
        Recovers (macAdvertisement ⟨7⟩ ⟨0, by decide⟩ ⟨5⟩ (.v4 ⟨0x0A000001, by decide⟩))
          (some ⟨⟨3⟩, some ⟨[.tunnelEncap VXLAN]⟩, none⟩) 5000 0 decoded := by
  have encodable : (macAdvertisement ⟨7⟩ ⟨0, by decide⟩ ⟨5⟩
      (.v4 ⟨0x0A000001, by decide⟩)).Encodable (some ⟨⟨3⟩, some ⟨[.tunnelEncap VXLAN]⟩, none⟩) := by
    decide
  exact ⟨encodable, evpn_nlri_round_trip _ _ 5000 0 encodable (by decide) (by decide)⟩

/-- Prefixes of the route types the round trip covers that do not come back:
an IP prefix route built with an attribute that carries an ESI fails the
decoder's zero-ESI check, a MAC route with the IPv6 address `::` comes back
with `0.0.0.0` and compares below the original, and an inclusive multicast
route with `0.0.0.0` fails the address length check. -/
theorem evpn_nlri_round_trip_fails :
    (((ipPrefix ⟨7⟩ ⟨0, by decide⟩ (.v4 ⟨0xC0010100, by decide⟩) 24).buildProtoPrefix
        (some ⟨⟨1⟩, none, none⟩) 16 0).bind
      (fromProtoPrefix · (some ⟨⟨1⟩, none, none⟩) kNullPrefix)).isNone ∧
    (((macAdvertisement ⟨7⟩ ⟨0, by decide⟩ ⟨5⟩ (.v6 0)).buildProtoPrefix none 0 0).bind
      (fromProtoPrefix · none kNullPrefix)).map
        (·.evpnPrefix.compareTo (macAdvertisement ⟨7⟩ ⟨0, by decide⟩ ⟨5⟩ (.v6 0))) =
      some (-1) ∧
    (((inclusiveMulticast ⟨7⟩ ⟨0, by decide⟩ (.v4 0)).buildProtoPrefix none 0 0).bind
      (fromProtoPrefix · none kNullPrefix)).isNone := by
  decide

end Contrail.Bgp.Evpn
