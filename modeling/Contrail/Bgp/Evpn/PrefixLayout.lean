import Contrail.Bgp.Evpn.Prefix

/-! The wire layout of each EVPN route type and what `FromProtoPrefix` does on
it. `BuildProtoPrefix` copies every field at the offset where the previous one
ends, so the buffer it returns is the concatenation of the fields (with zeros
where nothing is copied); each branch of `FromProtoPrefix` is then stated once
for a buffer that passes its checks, and the fields it reads are read off the
concatenation. -/
namespace Contrail.Bgp.Evpn

open Bytes EvpnPrefix

/-! ## Fields -/

@[simp] theorem RouteDistinguisher.length_getData (rd : RouteDistinguisher) :
    rd.getData.length = 8 := length_putBE _ _

@[simp] theorem EthernetSegmentId.length_getData (esi : EthernetSegmentId) :
    esi.getData.length = 10 := length_putBE _ _

@[simp] theorem MacAddress.length_getData (mac : MacAddress) :
    mac.getData.length = 6 := length_putBE _ _

@[simp] theorem RouteDistinguisher.ofBytes_getData_append (rd : RouteDistinguisher)
    (rest : List UInt8) : RouteDistinguisher.ofBytes (rd.getData ++ rest) = rd := by
  show RouteDistinguisher.mk (takeWord 8 (putBE 8 rd.data.val ++ rest)) = rd
  rw [takeWord_putBE_append]

@[simp] theorem EthernetSegmentId.ofBytes_getData_append (esi : EthernetSegmentId)
    (rest : List UInt8) : EthernetSegmentId.ofBytes (esi.getData ++ rest) = esi := by
  show EthernetSegmentId.mk (takeWord 10 (putBE 10 esi.data.val ++ rest)) = esi
  rw [takeWord_putBE_append]

@[simp] theorem MacAddress.ofBytes_getData_append (mac : MacAddress)
    (rest : List UInt8) : MacAddress.ofBytes (mac.getData ++ rest) = mac := by
  show MacAddress.mk (takeWord 6 (putBE 6 mac.addr.val ++ rest)) = mac
  rw [takeWord_putBE_append]

theorem takeWord_replicate_zero_append (width : Nat) (rest : List UInt8) :
    takeWord width (List.replicate width 0 ++ rest) = 0 := by
  apply Fin.ext
  simpa [takeWord, List.take_left'] using valueBE_append_replicate_zero [] width

theorem BgpProtoPrefix.byteAt_eq (proto : BgpProtoPrefix) (offset : Nat) :
    proto.byteAt offset = ((proto.bytes.drop offset).headD 0).toNat := by
  rw [BgpProtoPrefix.byteAt, getD_eq_headD_drop]

/-- The ESI field of a MAC or IP prefix route: the attribute's, or zero. -/
def esiBytes (attr : Option BgpAttr) : List UInt8 :=
  match attr with
  | some attr => attr.esi.getData
  | none => List.replicate 10 0

@[simp] theorem length_esiBytes (attr : Option BgpAttr) : (esiBytes attr).length = 10 := by
  cases attr <;> simp [esiBytes]

theorem ofBytes_esiBytes_append (attr : Option BgpAttr) (rest : List UInt8) :
    EthernetSegmentId.ofBytes (esiBytes attr ++ rest) =
      (attr.map (·.esi)).getD EthernetSegmentId.kZeroEsi := by
  cases attr with
  | some attr => simp [esiBytes]
  | none =>
    show EthernetSegmentId.mk (takeWord 10 (List.replicate 10 0 ++ rest)) = ⟨0⟩
    rw [takeWord_replicate_zero_append]

/-! ## Labels -/

/-- The three bytes `WriteLabel` puts at the label offset. -/
def labelBytes (attr : Option BgpAttr) (label : Nat) : List UInt8 :=
  if vxlanEncap attr then putBE BgpProtoPrefix.kLabelSize label
  else putBE BgpProtoPrefix.kLabelSize ((label <<< 4 ||| 0x1) % 2 ^ 32)

@[simp] theorem length_labelBytes (attr : Option BgpAttr) (label : Nat) :
    (labelBytes attr label).length = 3 := by
  unfold labelBytes
  split <;> simp

theorem writeLabel_eq_copy (proto : BgpProtoPrefix) (attr : Option BgpAttr)
    (offset label : Nat) :
    writeLabel proto attr offset label = proto.copy offset (labelBytes attr label) := by
  unfold writeLabel BgpProtoPrefix.writeLabel labelBytes BgpProtoPrefix.putValue
  split <;> rfl

/-- A label fits the encoding the attribute selects: a VNI up to `kMaxVni`,
an MPLS label below `kInvalidLabel`. -/
def LabelFits (attr : Option BgpAttr) (label : Nat) : Prop :=
  if vxlanEncap attr then label ≤ kMaxVni else label < kInvalidLabel

instance (attr : Option BgpAttr) (label : Nat) : Decidable (LabelFits attr label) :=
  inferInstanceAs (Decidable (if vxlanEncap attr then _ else _))

/-- An MPLS label below `kInvalidLabel` survives the shift past the
bottom-of-stack bit and back. -/
theorem mpls_label_bytes {label : Nat} (fits : label < kInvalidLabel) :
    valueBE (putBE 3 ((label <<< 4 ||| 0x1) % 2 ^ 32)) >>> 4 = label := by
  have word : label <<< 4 ||| 0x1 = label * 16 + 1 := by
    rw [← Nat.shiftLeft_add_eq_or_of_lt (by decide : 1 < 2 ^ 4), Nat.shiftLeft_eq]
  rw [valueBE_putBE, word, Nat.shiftRight_eq_div_pow]
  simp only [kInvalidLabel] at fits
  omega

theorem BgpProtoPrefix.readLabel_of_drop {proto : BgpProtoPrefix} {offset : Nat}
    {attr : Option BgpAttr} {label : Nat} {rest : List UInt8}
    (dropped : proto.bytes.drop offset = labelBytes attr label ++ rest)
    (fits : LabelFits attr label) :
    proto.readLabel offset (vxlanEncap attr) = label := by
  unfold LabelFits at fits
  unfold labelBytes at dropped
  unfold BgpProtoPrefix.readLabel
  split
  · next vxlan =>
    simp only [vxlan, if_true] at dropped fits
    simp only [BgpProtoPrefix.getValue, dropped]
    rw [takeWord_putBE_append_val, Nat.mod_eq_of_lt]
    simp only [kMaxVni] at fits
    simp only [BgpProtoPrefix.kLabelSize]
    omega
  · next vxlan =>
    simp only [vxlan, Bool.false_eq_true, if_false] at dropped fits
    -- the three bytes the MPLS branch or-s together lie inside the buffer
    have inside : offset + 3 ≤ proto.bytes.length := by
      have := congrArg List.length dropped
      simp only [List.length_drop, List.length_append, length_putBE,
        BgpProtoPrefix.kLabelSize] at this
      omega
    simp only [BgpProtoPrefix.byteAt, getD_or_shiftLeft _ inside, dropped]
    rw [BgpProtoPrefix.kLabelSize, List.take_left' (length_putBE _ _), mpls_label_bytes fits]

/-- `ReadLabel` gives back what `WriteLabel` wrote with the same attribute,
unless the VXLAN rules take the label from a non-zero tag. -/
theorem readLabel_of_drop {proto : BgpProtoPrefix} {offset : Nat} {attr : Option BgpAttr}
    {label : Nat} {rest : List UInt8}
    (dropped : proto.bytes.drop offset = labelBytes attr label ++ rest)
    (fits : LabelFits attr label) {tag : Nat}
    (untagged : ¬(vxlanEncap attr = true ∧ tag ≠ 0 ∧ (tag = kMaxTag ∨ tag ≤ kMaxVni)))
    (present : attr.isSome) :
    readLabel proto attr offset tag = label := by
  obtain ⟨a, rfl⟩ := Option.isSome_iff_exists.mp present
  have read := BgpProtoPrefix.readLabel_of_drop dropped fits
  unfold readLabel
  by_cases vxlan : vxlanEncap (some a) = true
  · rw [vxlan] at read
    simp only [vxlan, true_and, not_and, not_or] at untagged
    simp only [vxlan, if_true]
    split_ifs with tagged maxTag small
    · exact absurd maxTag (untagged tagged).1
    · exact absurd small (untagged tagged).2
    · exact read
    · exact read
  · simp only [vxlan] at read
    simpa [vxlan] using read

/-! ## Addresses -/

/-- The bytes `WriteIpAddress` copies. -/
def EvpnPrefix.ipBytes (pfx : EvpnPrefix) : List UInt8 :=
  match pfx.family, pfx.ipAddress with
  | .inet, .v4 bytes => putBE kIp4AddrSize bytes.val
  | .inet6, .v6 bytes => putBE kIp6AddrSize bytes.val
  | _, _ => []

theorem writeIpAddress_eq_copy (pfx : EvpnPrefix) (proto : BgpProtoPrefix) (offset : Nat) :
    pfx.writeIpAddress proto offset = proto.copy offset pfx.ipBytes := by
  obtain ⟨_, _, _, _, _, family, ip, _, _⟩ := pfx
  cases family <;> cases ip <;>
    simp [writeIpAddress, EvpnPrefix.ipBytes, BgpProtoPrefix.copy, overwrite]

@[simp] theorem length_ipBytes (pfx : EvpnPrefix) :
    pfx.ipBytes.length = pfx.getIpAddressSize := by
  obtain ⟨_, _, _, _, _, family, ip, _, agrees⟩ := pfx
  cases family <;> cases ip <;> first
    | exact absurd agrees Bool.false_ne_true
    | simp [EvpnPrefix.ipBytes, getIpAddressSize]

theorem getIpAddressSize_cases (pfx : EvpnPrefix) :
    pfx.getIpAddressSize = 0 ∨ pfx.getIpAddressSize = 4 ∨ pfx.getIpAddressSize = 16 := by
  unfold getIpAddressSize
  split <;> simp

@[simp] theorem readIpAddress_type (pfx : EvpnPrefix) (proto : BgpProtoPrefix)
    (offset size psize : Nat) : (pfx.readIpAddress proto offset size psize).type = pfx.type := by
  unfold readIpAddress
  split_ifs <;> rfl

@[simp] theorem readIpAddress_rd (pfx : EvpnPrefix) (proto : BgpProtoPrefix)
    (offset size psize : Nat) : (pfx.readIpAddress proto offset size psize).rd = pfx.rd := by
  unfold readIpAddress
  split_ifs <;> rfl

@[simp] theorem readIpAddress_esi (pfx : EvpnPrefix) (proto : BgpProtoPrefix)
    (offset size psize : Nat) : (pfx.readIpAddress proto offset size psize).esi = pfx.esi := by
  unfold readIpAddress
  split_ifs <;> rfl

@[simp] theorem readIpAddress_tag (pfx : EvpnPrefix) (proto : BgpProtoPrefix)
    (offset size psize : Nat) : (pfx.readIpAddress proto offset size psize).tag = pfx.tag := by
  unfold readIpAddress
  split_ifs <;> rfl

@[simp] theorem readIpAddress_macAddr (pfx : EvpnPrefix) (proto : BgpProtoPrefix)
    (offset size psize : Nat) :
    (pfx.readIpAddress proto offset size psize).macAddr = pfx.macAddr := by
  unfold readIpAddress
  split_ifs <;> rfl

@[simp] theorem readIpAddress_ipPrefixlen (pfx : EvpnPrefix) (proto : BgpProtoPrefix)
    (offset size psize : Nat) :
    (pfx.readIpAddress proto offset size psize).ipPrefixlen = pfx.ipPrefixlen := by
  unfold readIpAddress
  split_ifs <;> rfl

/-- The address read back from where `WriteIpAddress` wrote it; a prefix
without one keeps the address it had. -/
theorem readIpAddress_ipBytes {into pfx : EvpnPrefix} {proto : BgpProtoPrefix}
    {offset : Nat} {rest : List UInt8}
    (dropped : proto.bytes.drop offset = pfx.ipBytes ++ rest)
    (unspecified : pfx.family = .unspec → into.ipAddress = pfx.ipAddress) :
    (into.readIpAddress proto offset pfx.getIpAddressSize pfx.getIpAddressSize).ipAddress =
      pfx.ipAddress := by
  obtain ⟨_, _, _, _, _, family, ip, _, agrees⟩ := pfx
  cases family <;> cases ip <;>
    first
    | exact absurd agrees Bool.false_ne_true
    | simp only [EvpnPrefix.ipBytes] at dropped
      simp [readIpAddress, getIpAddressSize, BgpProtoPrefix.copyBytes, dropped,
        List.take_left', takeWord_putBE_append, unspecified]

/-! ## Auto-discovery routes -/

/-- RD, ESI, tag and label. -/
def autoDiscoveryNlri (pfx : EvpnPrefix) (attr : Option BgpAttr) (label : Nat) : List UInt8 :=
  pfx.rd.getData ++ pfx.esi.getData ++ putBE 4 pfx.tag.val ++ labelBytes attr label

theorem buildProtoPrefix_autoDiscovery {pfx : EvpnPrefix}
    (type : pfx.type = .autoDiscoveryRoute) (attr : Option BgpAttr) (label l3Label : Nat) :
    pfx.buildProtoPrefix attr label l3Label =
      some { type := 1, prefixlen := 25 * 8, bytes := autoDiscoveryNlri pfx attr label } := by
  simp only [buildProtoPrefix, type, writeLabel_eq_copy, BgpProtoPrefix.putValue,
    BgpProtoPrefix.copy, BgpProtoPrefix.resize, RouteType.toNat]
  simp (disch := simp) only [overwrite_replicate, overwrite_append_replicate]
  simp [autoDiscoveryNlri]

/-- `FromProtoPrefix` on an auto-discovery route long enough for its checks. -/
theorem fromProtoPrefix_autoDiscovery {proto : BgpProtoPrefix} (type : proto.type = 1)
    {attr : Option BgpAttr} {into : EvpnPrefix}
    (long : kMinAutoDiscoveryRouteSize + (if attr.isSome then kLabelSize else 0) ≤
      proto.bytes.length) :
    fromProtoPrefix proto attr into = some
      { evpnPrefix :=
          { into with type := .autoDiscoveryRoute, rd := .ofBytes (proto.bytes.drop 0),
                      esi := .ofBytes (proto.bytes.drop 8), tag := proto.getValue 18 4 }
        newAttr := attr
        label := readLabel proto attr 22 (proto.getValue 18 4).val
        l3Label := 0 } := by
  simp only [kMinAutoDiscoveryRouteSize, kRdSize, kEsiSize, kTagSize, kLabelSize,
    RouteDistinguisher.kSize, EthernetSegmentId.kSize, BgpProtoPrefix.kLabelSize] at long
  simp [fromProtoPrefix, type, RouteType.ofType, long]

/-! ## MAC advertisement routes -/

/-- RD, ESI, tag, MAC length and MAC, address length and address, label and,
when there is one, the second label. -/
def macAdvertisementNlri (pfx : EvpnPrefix) (attr : Option BgpAttr) (label l3Label : Nat) :
    List UInt8 :=
  pfx.rd.getData ++ esiBytes attr ++ putBE 4 pfx.tag.val ++ [48] ++ pfx.macAddr.getData ++
    [UInt8.ofNat (pfx.getIpAddressSize * 8)] ++ pfx.ipBytes ++ labelBytes attr label ++
    if l3Label ≠ 0 then labelBytes attr l3Label else []

theorem buildProtoPrefix_macAdvertisement {pfx : EvpnPrefix}
    (type : pfx.type = .macAdvertisementRoute) (attr : Option BgpAttr) (label l3Label : Nat) :
    pfx.buildProtoPrefix attr label l3Label =
      some
        { type := 2
          prefixlen := (kMinMacAdvertisementRouteSize + pfx.getIpAddressSize + kLabelSize +
            if l3Label ≠ 0 then kLabelSize else 0) * 8
          bytes := macAdvertisementNlri pfx attr label l3Label } := by
  simp only [buildProtoPrefix, type, writeLabel_eq_copy, writeIpAddress_eq_copy,
    BgpProtoPrefix.putValue, BgpProtoPrefix.set, BgpProtoPrefix.copy, BgpProtoPrefix.resize,
    RouteType.toNat]
  -- without an attribute the ESI stays zero: the tag is written ten bytes past the RD
  cases attr <;> by_cases l3 : l3Label = 0 <;> simp only [l3] <;>
    simp (disch := first | omega | (simp; done) | (simp; omega)) only [overwrite_replicate,
      overwrite_append_replicate, overwrite_append_replicate_gap _ _ 10] <;>
    simp [macAdvertisementNlri, esiBytes, l3] <;>
    omega

@[simp] theorem length_macAdvertisementNlri (pfx : EvpnPrefix) (attr : Option BgpAttr)
    (label l3Label : Nat) :
    (macAdvertisementNlri pfx attr label l3Label).length =
      33 + pfx.getIpAddressSize + if l3Label ≠ 0 then 3 else 0 := by
  simp +arith [macAdvertisementNlri]
  split <;> simp +arith

/-- `FromProtoPrefix` on a MAC route whose lengths pass its checks. -/
theorem fromProtoPrefix_macAdvertisement {proto : BgpProtoPrefix} (type : proto.type = 2)
    {attr : Option BgpAttr} {into : EvpnPrefix} {ipSize : Nat}
    (macLen : proto.byteAt 22 = 48) (ipLen : proto.byteAt 29 = ipSize * 8)
    (sized : ipSize = 0 ∨ ipSize = 4 ∨ ipSize = 16)
    (long : kMinMacAdvertisementRouteSize + (if attr.isSome then kLabelSize else 0) + ipSize ≤
      proto.bytes.length) :
    fromProtoPrefix proto attr into = some
      { evpnPrefix := EvpnPrefix.readIpAddress
          { into with type := .macAdvertisementRoute, rd := .ofBytes (proto.bytes.drop 0),
                      tag := proto.getValue 18 4, macAddr := .ofBytes (proto.bytes.drop 23) }
          proto 30 ipSize ipSize
        newAttr := attr.map fun a => replaceEsiAndLocate a (.ofBytes (proto.bytes.drop 8))
        label := readLabel proto attr (30 + ipSize) (proto.getValue 18 4).val
        l3Label := if 30 + ipSize + 3 + 3 ≤ proto.bytes.length
          then readLabel proto attr (30 + ipSize + 3) kNullTag else 0 } := by
  have whole : ipSize * 8 / 8 = ipSize := by omega
  have lens : ipSize * 8 = 0 ∨ ipSize * 8 = 32 ∨ ipSize * 8 = 128 := by omega
  -- the same fact as `simp` may leave it, with the zero case cancelled
  have lens' : ipSize = 0 ∨ ipSize * 8 = 32 ∨ ipSize * 8 = 128 := by omega
  simp only [kMinMacAdvertisementRouteSize, kRdSize, kEsiSize, kTagSize, kMacSize, kLabelSize,
    RouteDistinguisher.kSize, EthernetSegmentId.kSize, MacAddress.size,
    BgpProtoPrefix.kLabelSize] at long
  -- the minimum length depends on whether the label is there to read
  by_cases present : attr.isSome = true
  · have head : 33 ≤ proto.bytes.length := by simp only [present, if_true] at long; omega
    have addressed : 33 + ipSize ≤ proto.bytes.length := by
      simp only [present, if_true] at long; omega
    simp [fromProtoPrefix, type, RouteType.ofType, macLen, ipLen, whole, lens', present, head, addressed]
  · have head : 30 ≤ proto.bytes.length := by simp only [present] at long; omega
    have addressed : 30 + ipSize ≤ proto.bytes.length := by simp only [present] at long; omega
    simp [fromProtoPrefix, type, RouteType.ofType, macLen, ipLen, whole, lens', present, head, addressed]

/-! ## Inclusive multicast and segment routes -/

/-- RD, tag, address length and address. -/
def inclusiveMulticastNlri (pfx : EvpnPrefix) : List UInt8 :=
  pfx.rd.getData ++ putBE 4 pfx.tag.val ++ [UInt8.ofNat (pfx.getIpAddressSize * 8)] ++
    pfx.ipBytes

theorem buildProtoPrefix_inclusiveMulticast {pfx : EvpnPrefix}
    (type : pfx.type = .inclusiveMulticastRoute) (attr : Option BgpAttr) (label l3Label : Nat) :
    pfx.buildProtoPrefix attr label l3Label =
      some
        { type := 3
          prefixlen := (kMinInclusiveMulticastRouteSize + pfx.getIpAddressSize) * 8
          bytes := inclusiveMulticastNlri pfx } := by
  simp only [buildProtoPrefix, type, writeIpAddress_eq_copy, BgpProtoPrefix.putValue,
    BgpProtoPrefix.set, BgpProtoPrefix.copy, BgpProtoPrefix.resize, RouteType.toNat]
  simp (disch := first | omega | (simp; done) | (simp; omega)) only [overwrite_replicate,
    overwrite_append_replicate]
  simp [inclusiveMulticastNlri]
  omega

/-- `FromProtoPrefix` on an inclusive multicast route with an address. -/
theorem fromProtoPrefix_inclusiveMulticast {proto : BgpProtoPrefix} (type : proto.type = 3)
    {attr : Option BgpAttr} {into : EvpnPrefix} {ipSize : Nat}
    (ipLen : proto.byteAt 12 = ipSize * 8) (sized : ipSize = 4 ∨ ipSize = 16)
    (long : kMinInclusiveMulticastRouteSize + ipSize ≤ proto.bytes.length) :
    fromProtoPrefix proto attr into = some
      { evpnPrefix := EvpnPrefix.readIpAddress
          { into with type := .inclusiveMulticastRoute, rd := .ofBytes (proto.bytes.drop 0),
                      tag := proto.getValue 8 4 }
          proto 13 ipSize ipSize
        newAttr := attr
        label := pmsiLabel attr (proto.getValue 8 4).val
        l3Label := 0 } := by
  have whole : ipSize * 8 / 8 = ipSize := by omega
  have lens : ipSize * 8 = 32 ∨ ipSize * 8 = 128 := by omega
  simp only [kMinInclusiveMulticastRouteSize, kRdSize, kTagSize, RouteDistinguisher.kSize]
    at long
  have head : 13 ≤ proto.bytes.length := by omega
  simp [fromProtoPrefix, type, RouteType.ofType, ipLen, whole, lens, head, long]

/-- RD, ESI, address length and address. -/
def segmentNlri (pfx : EvpnPrefix) : List UInt8 :=
  pfx.rd.getData ++ pfx.esi.getData ++ [UInt8.ofNat (pfx.getIpAddressSize * 8)] ++ pfx.ipBytes

theorem buildProtoPrefix_segment {pfx : EvpnPrefix} (type : pfx.type = .segmentRoute)
    (attr : Option BgpAttr) (label l3Label : Nat) :
    pfx.buildProtoPrefix attr label l3Label =
      some
        { type := 4
          prefixlen := (kMinSegmentRouteSize + pfx.getIpAddressSize) * 8
          bytes := segmentNlri pfx } := by
  simp only [buildProtoPrefix, type, writeIpAddress_eq_copy, BgpProtoPrefix.set,
    BgpProtoPrefix.copy, BgpProtoPrefix.resize, RouteType.toNat]
  simp (disch := first | omega | (simp; done) | (simp; omega)) only [overwrite_replicate,
    overwrite_append_replicate]
  simp [segmentNlri]
  omega

/-- `FromProtoPrefix` on a segment route with an address. -/
theorem fromProtoPrefix_segment {proto : BgpProtoPrefix} (type : proto.type = 4)
    {attr : Option BgpAttr} {into : EvpnPrefix} {ipSize : Nat}
    (ipLen : proto.byteAt 18 = ipSize * 8) (sized : ipSize = 4 ∨ ipSize = 16)
    (long : kMinSegmentRouteSize + ipSize ≤ proto.bytes.length) :
    fromProtoPrefix proto attr into = some
      { evpnPrefix := EvpnPrefix.readIpAddress
          { into with type := .segmentRoute, rd := .ofBytes (proto.bytes.drop 0),
                      esi := .ofBytes (proto.bytes.drop 8) }
          proto 19 ipSize ipSize
        newAttr := attr
        label := 0
        l3Label := 0 } := by
  have whole : ipSize * 8 / 8 = ipSize := by omega
  have lens : ipSize * 8 = 32 ∨ ipSize * 8 = 128 := by omega
  simp only [kMinSegmentRouteSize, kRdSize, kEsiSize, RouteDistinguisher.kSize,
    EthernetSegmentId.kSize] at long
  have head : 19 ≤ proto.bytes.length := by omega
  simp [fromProtoPrefix, type, RouteType.ofType, ipLen, whole, lens, head, long]

/-! ## IP prefix routes -/

/-- RD, ESI, tag, prefix length, address, a gateway of zeros as wide as the
address, and label. -/
def ipPrefixNlri (pfx : EvpnPrefix) (attr : Option BgpAttr) (label : Nat) : List UInt8 :=
  pfx.rd.getData ++ esiBytes attr ++ putBE 4 pfx.tag.val ++ [pfx.ipPrefixlen] ++ pfx.ipBytes ++
    List.replicate pfx.getIpAddressSize 0 ++ labelBytes attr label

/-- Under a specified family `BuildProtoPrefix` sizes an IP prefix route by the
prefix's own address size. -/
theorem ipPrefix_ipSize {pfx : EvpnPrefix} (family : pfx.family ≠ .unspec) :
    (if pfx.family = .inet then kIp4AddrSize else kIp6AddrSize) = pfx.getIpAddressSize := by
  unfold getIpAddressSize
  cases fam : pfx.family <;> simp_all

theorem ipPrefix_nlriSize {pfx : EvpnPrefix} (family : pfx.family ≠ .unspec) :
    (if pfx.family = .inet then kMinInetPrefixRouteSize + kLabelSize
      else kMinInet6PrefixRouteSize + kLabelSize) = 26 + 2 * pfx.getIpAddressSize := by
  unfold getIpAddressSize
  cases fam : pfx.family <;> simp_all

theorem buildProtoPrefix_ipPrefix {pfx : EvpnPrefix} (type : pfx.type = .ipPrefixRoute)
    (family : pfx.family ≠ .unspec) (attr : Option BgpAttr) (label l3Label : Nat) :
    pfx.buildProtoPrefix attr label l3Label =
      some
        { type := 5
          prefixlen := (26 + 2 * pfx.getIpAddressSize) * 8
          bytes := ipPrefixNlri pfx attr label } := by
  simp only [buildProtoPrefix, type, writeLabel_eq_copy, writeIpAddress_eq_copy,
    BgpProtoPrefix.putValue, BgpProtoPrefix.set, BgpProtoPrefix.copy, BgpProtoPrefix.resize,
    RouteType.toNat, ipPrefix_ipSize family, ipPrefix_nlriSize family]
  -- the gateway is the gap of zeros between the address and the label
  cases attr <;>
    simp (disch := first | omega | (simp; done) | (simp; omega)) only [overwrite_replicate,
      overwrite_append_replicate, overwrite_append_replicate_gap _ _ 10,
      overwrite_append_replicate_gap _ _ pfx.getIpAddressSize] <;>
    simp [ipPrefixNlri, esiBytes] <;>
    omega

/-- `FromProtoPrefix` on an IP prefix route of one of the two lengths with a
label, a zero ESI, a prefix length that fits and a zero gateway. -/
theorem fromProtoPrefix_ipPrefix {proto : BgpProtoPrefix} (type : proto.type = 5)
    {attr : Option BgpAttr} {into : EvpnPrefix} {ipSize : Nat}
    (sized : ipSize = kIp4AddrSize ∧ proto.bytes.length = kMinInetPrefixRouteSize + kLabelSize ∨
      ipSize = kIp6AddrSize ∧ proto.bytes.length = kMinInet6PrefixRouteSize + kLabelSize)
    (esi : (EthernetSegmentId.ofBytes (proto.bytes.drop 8)).isZero)
    (plen : proto.byteAt 22 ≤ ipSize * 8)
    (gateway : (readGwAddress proto (23 + ipSize) ipSize).isUnspecified) :
    fromProtoPrefix proto attr into = some
      { evpnPrefix := EvpnPrefix.readIpAddress
          { into with type := .ipPrefixRoute, rd := .ofBytes (proto.bytes.drop 0),
                      tag := proto.getValue 18 4, ipPrefixlen := UInt8.ofNat (proto.byteAt 22) }
          proto 23 ipSize ((proto.byteAt 22 + 7) / 8)
        newAttr := attr
        label := readLabel proto attr (23 + ipSize + ipSize) kNullTag
        l3Label := 0 } := by
  rcases sized with ⟨rfl, long⟩ | ⟨rfl, long⟩ <;>
    simp only [kMinInetPrefixRouteSize, kMinInet6PrefixRouteSize, kRdSize, kEsiSize, kTagSize,
      kIp4AddrSize, kIp6AddrSize, kLabelSize, RouteDistinguisher.kSize,
      EthernetSegmentId.kSize, BgpProtoPrefix.kLabelSize, Nat.reduceAdd, Nat.reduceMul]
      at long plen gateway ⊢ <;>
    simp [fromProtoPrefix, type, RouteType.ofType, long, esi, plen, gateway]

end Contrail.Bgp.Evpn
