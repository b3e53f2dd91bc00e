import Mathlib
import Contrail.Bgp.Evpn.SubnetText
import Contrail.Bgp.Evpn.RdText
import Contrail.Bgp.Evpn.EsiText
import Contrail.Bgp.Evpn.PrefixRoundTrip

/-! `EvpnPrefix::ToString` and `EvpnPrefix::FromString` of `bgp/evpn/evpn_route.cc`. The text is
the type, the route distinguisher and the fields of the type, joined by `-`; a MAC route puts a
`,` before its address. The parser finds the `-` after the type, after the route distinguisher
and after the next field, hands each piece to the codec of its field, and sets the family from
the address it read: for a MAC route as its constructor does, for the other routes from the kind
of address alone. -/
namespace Contrail.Bgp.Evpn

open Bytes CText InetText Contrail.Base EvpnPrefix

namespace IpAddress

/-- `address::to_v4()`; `none` where it throws `bad_address_cast`. -/
def toV4 : IpAddress → Option (Word 4)
  | .v4 addr => some addr
  | .v6 _ => none

/-- `address::to_v6()`; `none` where it throws `bad_address_cast`. -/
def toV6 : IpAddress → Option (Word 16)
  | .v4 _ => none
  | .v6 addr => some addr

end IpAddress

namespace RouteType

theorem ofType_toNat {type : RouteType} (known : type ≠ .unspecified) : ofType type.toNat = type := by
  cases type
  case unspecified => contradiction
  all_goals rfl

theorem toNat_range {type : RouteType} (known : type ≠ .unspecified) :
    1 ≤ type.toNat ∧ type.toNat ≤ 5 := by
  cases type <;> first | decide | contradiction

end RouteType

namespace EvpnPrefix

/-- `inet_prefix().ToString()` for an `INET` route, else `inet6_prefix().ToString()`; `none`
where the cast of the address throws. -/
def prefixText (pfx : EvpnPrefix) : Option (List Char) :=
  if pfx.family = .inet then
    pfx.ipAddress.toV4.map fun addr => Ip4Prefix.toString ⟨addr, pfx.ipPrefixlen.toNat⟩
  else pfx.ipAddress.toV6.map fun addr => Inet6Prefix.toString ⟨addr, pfx.ipPrefixlen.toNat⟩

/-- `ToString`; `none` where `prefixText` throws. -/
def toString (pfx : EvpnPrefix) : Option (List Char) :=
  let str := integerToString pfx.type.toNat ++ '-' :: pfx.rd.toString
  match pfx.type with
  | .autoDiscoveryRoute =>
    some (str ++ '-' :: pfx.esi.toString ++ '-' :: integerToString pfx.tag.val)
  | .macAdvertisementRoute =>
    some (str ++ '-' :: integerToString pfx.tag.val ++ '-' :: pfx.macAddr.toString ++
      ',' :: pfx.ipAddress.toString)
  | .inclusiveMulticastRoute =>
    some (str ++ '-' :: integerToString pfx.tag.val ++ '-' :: pfx.ipAddress.toString)
  | .segmentRoute => some (str ++ '-' :: pfx.esi.toString ++ '-' :: pfx.ipAddress.toString)
  | .ipPrefixRoute =>
    pfx.prefixText.map fun text => str ++ '-' :: integerToString pfx.tag.val ++ '-' :: text
  | .unspecified => some str

/-- `tag_` as `stringToInteger` leaves it in a `uint32_t`. -/
def tagOf (tagStr : List Char) : Word 4 := Fin.ofNat _ (stringToInteger 32 tagStr).2

/-- The `switch` of `FromString` on the text `str` whose route distinguisher ends at `pos2`:
`prefix` holds the type and the route distinguisher. Every `return EvpnPrefix::kNullPrefix` with
`*errorp` set is `none`. -/
def fieldsFromString (pfx : EvpnPrefix) (str : List Char) (pos2 : Nat) : Option EvpnPrefix :=
  match pfx.type with
  | .autoDiscoveryRoute => do
    let pos3 ← findFrom str '-' (pos2 + 1)
    let esi := EthernetSegmentId.fromString (substr str (pos2 + 1) (pos3 - pos2 - 1)) true
    guard !esi.2
    let tagStr := str.drop (pos3 + 1)
    guard (stringToInteger 32 tagStr).1
    pure { pfx with esi := esi.1, tag := tagOf tagStr }
  | .macAdvertisementRoute => do
    let pos3 ← findFrom str '-' (pos2 + 1)
    let tagStr := substr str (pos2 + 1) (pos3 - pos2 - 1)
    guard (stringToInteger 32 tagStr).1
    -- `rfind` gives `npos` without a `,`, and the lengths wrap as `size_t`
    let pos4 := (rfind str ',').getD npos
    let macAddr ← MacAddress.fromString
      (substr str (pos3 + 1) (((pos4 : Int) - pos3 - 1) % 2 ^ 64).toNat)
    let ipAddress ← IpAddress.fromString (str.drop ((pos4 + 1) % 2 ^ 64))
    pure { pfx with
      tag := tagOf tagStr, macAddr := macAddr, family := familyOf ipAddress,
      ipAddress := ipAddress, familyAgrees := familyOf_agrees ipAddress }
  | .inclusiveMulticastRoute => do
    let pos3 ← findFrom str '-' (pos2 + 1)
    let tagStr := substr str (pos2 + 1) (pos3 - pos2 - 1)
    guard (stringToInteger 32 tagStr).1
    let ipAddress ← IpAddress.fromString (str.drop (pos3 + 1))
    pure { pfx with
      tag := tagOf tagStr, family := prefixFamily ipAddress, ipAddress := ipAddress,
      familyAgrees := prefixFamily_agrees ipAddress }
  | .segmentRoute => do
    let pos3 ← findFrom str '-' (pos2 + 1)
    let esi := EthernetSegmentId.fromString (substr str (pos2 + 1) (pos3 - pos2 - 1)) true
    guard !esi.2
    let ipAddress ← IpAddress.fromString (str.drop (pos3 + 1))
    pure { pfx with
      esi := esi.1, family := prefixFamily ipAddress, ipAddress := ipAddress,
      familyAgrees := prefixFamily_agrees ipAddress }
  | .ipPrefixRoute => do
    let pos3 ← findFrom str '-' (pos2 + 1)
    let tagStr := substr str (pos2 + 1) (pos3 - pos2 - 1)
    guard (stringToInteger 32 tagStr).1
    let ipStr := str.drop (pos3 + 1)
    -- first as an IPv4 prefix, then as an IPv6 one
    match Ip4Prefix.fromString ipStr with
    | some inetPrefix =>
      some { pfx with
        tag := tagOf tagStr, family := .inet, ipAddress := .v4 inetPrefix.addr,
        ipPrefixlen := UInt8.ofNat inetPrefix.prefixlen, familyAgrees := rfl }
    | none =>
      (Inet6Prefix.fromString ipStr).map fun inet6Prefix =>
        { pfx with
          tag := tagOf tagStr, family := .inet6, ipAddress := .v6 inet6Prefix.addr,
          ipPrefixlen := UInt8.ofNat inet6Prefix.prefixlen, familyAgrees := rfl }
  | .unspecified => some pfx

/-- `FromString(str, errorp)`: the type before the first `-`, of `1` to `5` in a `uint8_t`, the
route distinguisher up to the next `-`, then the fields of the type. -/
def fromString (str : List Char) : Option EvpnPrefix := do
  let pos1 ← find str '-'
  let typeStr := str.take pos1
  guard (stringToInteger 8 typeStr).1
  let type := (stringToInteger 8 typeStr).2
  guard (1 ≤ type ∧ type ≤ 5)
  let pos2 ← findFrom str '-' (pos1 + 1)
  let rd ← RouteDistinguisher.fromString (substr str (pos1 + 1) (pos2 - pos1 - 1))
  fieldsFromString { kNullPrefix with type := RouteType.ofType type, rd := rd } str pos2

/-! ## Reading the text back -/

theorem tagOf_integerToString (tag : Word 4) :
    stringToInteger 32 (integerToString tag.val) = (true, tag.val) ∧
      tagOf (integerToString tag.val) = tag := by
  have read := stringToInteger_integerToString (show 32 ≤ 64 by decide) tag.isLt
  exact ⟨read, by rw [tagOf, read, Fin.ofNat_val_eq_self]⟩

/-- The type and the route distinguisher, up to the `-` after it. -/
theorem fromString_head {type : RouteType} (known : type ≠ .unspecified) {R body : List Char}
    (noR : '-' ∉ R) {rd : RouteDistinguisher} (rdRead : RouteDistinguisher.fromString R = some rd) :
    fromString (integerToString type.toNat ++ '-' :: (R ++ '-' :: body)) =
      fieldsFromString { kNullPrefix with type := type, rd := rd }
        (integerToString type.toNat ++ '-' :: (R ++ '-' :: body))
        ((integerToString type.toNat).length + 1 + R.length) := by
  have noT : '-' ∉ integerToString type.toNat := not_mem_integerToString (by decide) _
  have typeRead := stringToInteger_integerToString (show 8 ≤ 64 by decide)
    (show type.toNat < 2 ^ 8 by cases type <;> decide)
  have range := RouteType.toNat_range known
  obtain ⟨found, cut, -⟩ := cut_field noR body
    (show (integerToString type.toNat ++ ['-']).length = (integerToString type.toNat).length + 1 by simp)
  simp only [List.append_assoc, List.cons_append, List.nil_append] at found cut
  simp [fromString, find_append_cons noT, typeRead, range, found, cut, rdRead,
    RouteType.ofType_toNat known]

/-! ## Reading the fields of each type -/

section Fields

variable {pfx : EvpnPrefix} {front field : List Char} {pos2 : Nat}
  (start : front.length = pos2 + 1) (noField : '-' ∉ field)
include start noField

theorem fieldsFromString_autoDiscovery (type : pfx.type = .autoDiscoveryRoute) {G : List Char}
    {esi : EthernetSegmentId} (esiRead : EthernetSegmentId.fromString field true = (esi, false))
    (tagRead : (stringToInteger 32 G).1 = true) :
    fieldsFromString pfx (front ++ field ++ '-' :: G) pos2 =
      some { pfx with esi := esi, tag := tagOf G } := by
  obtain ⟨found, cut, rest⟩ := cut_field noField G start
  simp only [List.append_assoc] at found cut rest
  simp [fieldsFromString, type, found, cut, rest, esiRead, tagRead]

theorem fieldsFromString_macAdvertisement (type : pfx.type = .macAdvertisementRoute)
    {M I : List Char} (noComma : ',' ∉ I) (fits : front.length + field.length + M.length + 2 < 2 ^ 64)
    (tagRead : (stringToInteger 32 field).1 = true) {mac : MacAddress}
    (macRead : MacAddress.fromString M = some mac) {ip : IpAddress}
    (ipRead : IpAddress.fromString I = some ip) :
    fieldsFromString pfx (front ++ field ++ '-' :: (M ++ ',' :: I)) pos2 =
      some { pfx with
        tag := tagOf field, macAddr := mac, family := familyOf ip, ipAddress := ip,
        familyAgrees := familyOf_agrees ip } := by
  obtain ⟨found, cut, -⟩ := cut_field noField (M ++ ',' :: I) start
  -- the last `,` is the one before the address
  have shape : front ++ field ++ '-' :: (M ++ ',' :: I) = (front ++ field ++ ['-']) ++ M ++ ',' :: I := by
    simp
  have comma : rfind (front ++ field ++ '-' :: (M ++ ',' :: I)) ',' =
      some (pos2 + 1 + field.length + 1 + M.length) := by
    rw [shape, rfind_append_cons noComma]
    simp [start]
    omega
  have length : (((pos2 : Int) + 1 + field.length + 1 + M.length - (pos2 + 1 + field.length) - 1) %
      18446744073709551616).toNat = M.length := by
    rw [Int.emod_eq_of_lt (by omega) (by omega)]
    omega
  have macText : substr (front ++ field ++ '-' :: (M ++ ',' :: I)) (pos2 + 1 + field.length + 1)
      M.length = M := by
    rw [shape, show pos2 + 1 + field.length + 1 = (front ++ field ++ ['-']).length by simp [start]; omega,
      substr_field]
  have ipText : (front ++ field ++ '-' :: (M ++ ',' :: I)).drop
      ((pos2 + 1 + field.length + 1 + M.length + 1) % 18446744073709551616) = I := by
    rw [Nat.mod_eq_of_lt (by omega), shape,
      show pos2 + 1 + field.length + 1 + M.length + 1 = (front ++ field ++ ['-'] ++ M ++ [',']).length by
        simp [start]; omega]
    simp
  simp only [List.append_assoc] at found cut comma macText ipText
  simp [fieldsFromString, type, found, cut, tagRead, comma, npos, length, macText, macRead, ipText,
    ipRead]

theorem fieldsFromString_inclusiveMulticast (type : pfx.type = .inclusiveMulticastRoute)
    {I : List Char} (tagRead : (stringToInteger 32 field).1 = true) {ip : IpAddress}
    (ipRead : IpAddress.fromString I = some ip) :
    fieldsFromString pfx (front ++ field ++ '-' :: I) pos2 =
      some { pfx with
        tag := tagOf field, family := prefixFamily ip, ipAddress := ip,
        familyAgrees := prefixFamily_agrees ip } := by
  obtain ⟨found, cut, rest⟩ := cut_field noField I start
  simp only [List.append_assoc] at found cut rest
  simp [fieldsFromString, type, found, cut, rest, tagRead, ipRead]

theorem fieldsFromString_segment (type : pfx.type = .segmentRoute) {I : List Char}
    {esi : EthernetSegmentId} (esiRead : EthernetSegmentId.fromString field true = (esi, false))
    {ip : IpAddress} (ipRead : IpAddress.fromString I = some ip) :
    fieldsFromString pfx (front ++ field ++ '-' :: I) pos2 =
      some { pfx with
        esi := esi, family := prefixFamily ip, ipAddress := ip,
        familyAgrees := prefixFamily_agrees ip } := by
  obtain ⟨found, cut, rest⟩ := cut_field noField I start
  simp only [List.append_assoc] at found cut rest
  simp [fieldsFromString, type, found, cut, rest, esiRead, ipRead]

theorem fieldsFromString_ipPrefix_inet (type : pfx.type = .ipPrefixRoute)
    (tagRead : (stringToInteger 32 field).1 = true) {inetPrefix : Ip4Prefix}
    (fits : inetPrefix.prefixlen ≤ 32) :
    fieldsFromString pfx (front ++ field ++ '-' :: inetPrefix.toString) pos2 =
      some { pfx with
        tag := tagOf field, family := .inet,
        ipAddress := .v4 (getIp4SubnetAddress inetPrefix.addr inetPrefix.prefixlen),
        ipPrefixlen := UInt8.ofNat inetPrefix.prefixlen, familyAgrees := rfl } := by
  obtain ⟨found, cut, rest⟩ := cut_field noField inetPrefix.toString start
  simp only [List.append_assoc] at found cut rest
  simp [fieldsFromString, type, found, cut, rest, tagRead, Ip4Prefix.fromString_toString fits]

theorem fieldsFromString_ipPrefix_inet6 (type : pfx.type = .ipPrefixRoute)
    (tagRead : (stringToInteger 32 field).1 = true) {inet6Prefix : Inet6Prefix}
    (fits : inet6Prefix.prefixlen ≤ 128) :
    fieldsFromString pfx (front ++ field ++ '-' :: inet6Prefix.toString) pos2 =
      some { pfx with
        tag := tagOf field, family := .inet6,
        ipAddress := .v6 (getIp6SubnetAddress inet6Prefix.addr inet6Prefix.prefixlen),
        ipPrefixlen := UInt8.ofNat inet6Prefix.prefixlen, familyAgrees := rfl } := by
  obtain ⟨found, cut, rest⟩ := cut_field noField inet6Prefix.toString start
  simp only [List.append_assoc] at found cut rest
  simp [fieldsFromString, type, found, cut, rest, tagRead, Ip4Prefix.fromString_inet6,
    Inet6Prefix.fromString_toString fits]

end Fields

/-- The text from the field after the route distinguisher on, for a known type and a route
distinguisher that reads back. -/
theorem fromString_fields {type : RouteType} (known : type ≠ .unspecified) {rd : RouteDistinguisher}
    (rdRead : RouteDistinguisher.fromString rd.toString = some rd) (field rest : List Char) :
    fromString (integerToString type.toNat ++ '-' :: rd.toString ++ '-' :: field ++ '-' :: rest) =
      fieldsFromString { kNullPrefix with type := type, rd := rd }
        ((integerToString type.toNat ++ '-' :: rd.toString ++ ['-']) ++ field ++ '-' :: rest)
        ((integerToString type.toNat).length + 1 + rd.toString.length) := by
  have noR : '-' ∉ rd.toString :=
    RouteDistinguisher.not_mem_toString (by decide) (by decide) (by decide) rd
  have nested : integerToString type.toNat ++ '-' :: rd.toString ++ '-' :: field ++ '-' :: rest =
      integerToString type.toNat ++ '-' :: (rd.toString ++ '-' :: (field ++ '-' :: rest)) := by
    simp
  have flat : integerToString type.toNat ++ '-' :: (rd.toString ++ '-' :: (field ++ '-' :: rest)) =
      (integerToString type.toNat ++ '-' :: rd.toString ++ ['-']) ++ field ++ '-' :: rest := by
    simp
  rw [nested, fromString_head known noR rdRead, flat]

theorem length_head (type : RouteType) (rd : RouteDistinguisher) :
    (integerToString type.toNat ++ '-' :: rd.toString ++ ['-']).length =
      (integerToString type.toNat).length + 1 + rd.toString.length + 1 := by
  simp
  omega

theorem tag_read (tag : Word 4) : (stringToInteger 32 (integerToString tag.val)).1 = true := by
  rw [(tagOf_integerToString tag).1]

/-! ## Each type reads back -/

section RoundTrip

variable {pfx : EvpnPrefix} (rdRead : RouteDistinguisher.fromString pfx.rd.toString = some pfx.rd)
include rdRead

theorem toString_fromString_autoDiscovery (type : pfx.type = .autoDiscoveryRoute)
    (esiRead : EthernetSegmentId.fromString pfx.esi.toString true = (pfx.esi, false)) :
    pfx.toString.bind fromString = some (autoDiscovery pfx.rd pfx.esi pfx.tag) := by
  have noE : '-' ∉ pfx.esi.toString :=
    EthernetSegmentId.not_mem_toString (by decide) (by decide) (by decide) (by decide) pfx.esi
  have text : pfx.toString = some (integerToString RouteType.autoDiscoveryRoute.toNat ++ '-' ::
      pfx.rd.toString ++ '-' :: pfx.esi.toString ++ '-' :: integerToString pfx.tag.val) := by
    simp only [toString, type]
  rw [text, Option.bind_some, fromString_fields (by decide) rdRead,
    fieldsFromString_autoDiscovery (length_head _ _) noE rfl esiRead (tag_read pfx.tag),
    (tagOf_integerToString pfx.tag).2]
  rfl

theorem toString_fromString_macAdvertisement (type : pfx.type = .macAdvertisementRoute) :
    pfx.toString.bind fromString =
      some (macAdvertisement pfx.rd pfx.tag pfx.macAddr pfx.ipAddress) := by
  have noTag : '-' ∉ integerToString pfx.tag.val := not_mem_integerToString (by decide) _
  have noComma : ',' ∉ pfx.ipAddress.toString :=
    IpAddress.not_mem_toString (by decide) (by decide) (by decide) pfx.ipAddress
  -- the text before the last `,` is far shorter than `npos`
  have fits : (integerToString RouteType.macAdvertisementRoute.toNat ++ '-' :: pfx.rd.toString ++
      ['-']).length + (integerToString pfx.tag.val).length + pfx.macAddr.toString.length + 2 <
        2 ^ 64 := by
    have rd := RouteDistinguisher.length_toString_le pfx.rd
    have tag := RouteDistinguisher.length_integerToString_word pfx.tag (by decide)
    have typeLength : (integerToString RouteType.macAdvertisementRoute.toNat).length = 1 := rfl
    rw [length_head, MacAddress.length_toString, typeLength]
    omega
  have text : pfx.toString = some (integerToString RouteType.macAdvertisementRoute.toNat ++ '-' ::
      pfx.rd.toString ++ '-' :: integerToString pfx.tag.val ++ '-' ::
        (pfx.macAddr.toString ++ ',' :: pfx.ipAddress.toString)) := by
    simp only [toString, type, List.append_assoc, List.cons_append]
  rw [text, Option.bind_some, fromString_fields (by decide) rdRead,
    fieldsFromString_macAdvertisement (length_head _ _) noTag rfl noComma fits (tag_read pfx.tag)
      (MacAddress.fromString_toString _) (IpAddress.fromString_toString _),
    (tagOf_integerToString pfx.tag).2]
  rfl

/-- Inclusive multicast and segment routes read back with the family of the kind of their
address, specified or not. -/
theorem toString_fromString_inclusiveMulticast (type : pfx.type = .inclusiveMulticastRoute) :
    pfx.toString.bind fromString =
      some { inclusiveMulticast pfx.rd pfx.tag pfx.ipAddress with
        family := prefixFamily pfx.ipAddress, familyAgrees := prefixFamily_agrees _ } := by
  have noTag : '-' ∉ integerToString pfx.tag.val := not_mem_integerToString (by decide) _
  have text : pfx.toString = some (integerToString RouteType.inclusiveMulticastRoute.toNat ++ '-' ::
      pfx.rd.toString ++ '-' :: integerToString pfx.tag.val ++ '-' :: pfx.ipAddress.toString) := by
    simp only [toString, type]
  rw [text, Option.bind_some, fromString_fields (by decide) rdRead,
    fieldsFromString_inclusiveMulticast (length_head _ _) noTag rfl (tag_read pfx.tag)
      (IpAddress.fromString_toString _),
    (tagOf_integerToString pfx.tag).2]
  rfl

theorem toString_fromString_segment (type : pfx.type = .segmentRoute)
    (esiRead : EthernetSegmentId.fromString pfx.esi.toString true = (pfx.esi, false)) :
    pfx.toString.bind fromString =
      some { segment pfx.rd pfx.esi pfx.ipAddress with
        family := prefixFamily pfx.ipAddress, familyAgrees := prefixFamily_agrees _ } := by
  have noE : '-' ∉ pfx.esi.toString :=
    EthernetSegmentId.not_mem_toString (by decide) (by decide) (by decide) (by decide) pfx.esi
  have text : pfx.toString = some (integerToString RouteType.segmentRoute.toNat ++ '-' ::
      pfx.rd.toString ++ '-' :: pfx.esi.toString ++ '-' :: pfx.ipAddress.toString) := by
    simp only [toString, type]
  rw [text, Option.bind_some, fromString_fields (by decide) rdRead,
    fieldsFromString_segment (length_head _ _) noE rfl esiRead (IpAddress.fromString_toString _)]
  rfl

/-- An IP prefix route whose text is written reads back, its address masked to its length. -/
theorem toString_fromString_ipPrefix (type : pfx.type = .ipPrefixRoute)
    (clear : pfx.ipAddress.HostBitsZero pfx.ipPrefixlen.toNat) (printed : pfx.toString.isSome) :
    pfx.toString.bind fromString =
      some (ipPrefix pfx.rd pfx.tag pfx.ipAddress pfx.ipPrefixlen) := by
  have noTag : '-' ∉ integerToString pfx.tag.val := not_mem_integerToString (by decide) _
  have head : ∀ text, pfx.prefixText = some text → pfx.toString = some
      (integerToString RouteType.ipPrefixRoute.toNat ++ '-' :: pfx.rd.toString ++ '-' ::
        integerToString pfx.tag.val ++ '-' :: text) := by
    intro text written
    simp only [toString, type, written, Option.map_some]
  have agrees := pfx.familyAgrees
  cases address : pfx.ipAddress with
  | v4 addr =>
    rw [address] at clear agrees
    obtain ⟨le, dvd⟩ := clear
    -- a family other than `INET` casts the address to IPv6, which throws
    have inet : pfx.family = .inet := by
      by_contra other
      simp [toString, type, prefixText, other, address, IpAddress.toV6] at printed
    have written : pfx.prefixText = some (Ip4Prefix.toString ⟨addr, pfx.ipPrefixlen.toNat⟩) := by
      simp [prefixText, inet, address, IpAddress.toV4]
    rw [head _ written, Option.bind_some, fromString_fields (by decide) rdRead,
      fieldsFromString_ipPrefix_inet (length_head _ _) noTag rfl (tag_read pfx.tag) le,
      (tagOf_integerToString pfx.tag).2, getIp4SubnetAddress_of_dvd le dvd, UInt8.ofNat_toNat]
    rfl
  | v6 addr =>
    rw [address] at clear agrees
    obtain ⟨le, dvd⟩ := clear
    have notInet : pfx.family ≠ .inet := by
      intro inet
      simp [inet, Family.agrees] at agrees
    have written : pfx.prefixText = some (Inet6Prefix.toString ⟨addr, pfx.ipPrefixlen.toNat⟩) := by
      simp [prefixText, notInet, address, IpAddress.toV6]
    rw [head _ written, Option.bind_some, fromString_fields (by decide) rdRead,
      fieldsFromString_ipPrefix_inet6 (length_head _ _) noTag rfl (tag_read pfx.tag) le,
      (tagOf_integerToString pfx.tag).2, getIp6SubnetAddress_of_dvd le dvd, UInt8.ofNat_toNat]
    rfl

end RoundTrip

/-- The prefixes whose text reads back: a known type whose text `ToString` writes, a route
distinguisher that reads back and, where the text holds it, an ESI that reads back without an
error; an IP prefix route has its host bits clear. -/
structure TextRepresentable (pfx : EvpnPrefix) : Prop where
  known : pfx.type ≠ .unspecified
  printed : pfx.toString.isSome
  rd : RouteDistinguisher.fromString pfx.rd.toString = some pfx.rd
  esi : pfx.type = .autoDiscoveryRoute ∨ pfx.type = .segmentRoute →
    EthernetSegmentId.fromString pfx.esi.toString true = (pfx.esi, false)
  hostBits : pfx.type = .ipPrefixRoute → pfx.ipAddress.HostBitsZero pfx.ipPrefixlen.toNat

/-- The family `FromString` sets from the address it reads: a MAC route's as its constructor
sets it, `UNSPEC` for `0.0.0.0` and `::`; the other routes' from the kind of address alone. -/
def textFamily (type : RouteType) (ip : IpAddress) : Family :=
  match type with
  | .macAdvertisementRoute => familyOf ip
  | .inclusiveMulticastRoute | .segmentRoute | .ipPrefixRoute => prefixFamily ip
  | .autoDiscoveryRoute | .unspecified => .unspec

/-- `FromString` reads back the text `ToString` writes of a prefix whose fields read back: the
prefix compares equal, and its family is the one the parser gives its address. -/
theorem evpn_text_round_trip (pfx : EvpnPrefix) (representable : pfx.TextRepresentable) :
    ∃ str q, pfx.toString = some str ∧ fromString str = some q ∧ q.compareTo pfx = 0 ∧
      q.family = textFamily pfx.type pfx.ipAddress := by
  have read : ∃ q, pfx.toString.bind fromString = some q ∧ q.compareTo pfx = 0 ∧
      q.family = textFamily pfx.type pfx.ipAddress := by
    have rd := representable.rd
    cases type : pfx.type with
    | autoDiscoveryRoute =>
      refine ⟨_, toString_fromString_autoDiscovery rd type (representable.esi (.inl type)), ?_, ?_⟩
      · simp [compareTo, autoDiscovery, type]
      · rfl
    | macAdvertisementRoute =>
      refine ⟨_, toString_fromString_macAdvertisement rd type, ?_, ?_⟩
      · simp [compareTo, macAdvertisement, type]
      · rfl
    | inclusiveMulticastRoute =>
      refine ⟨_, toString_fromString_inclusiveMulticast rd type, ?_, ?_⟩
      · simp [compareTo, inclusiveMulticast, type]
      · rfl
    | segmentRoute =>
      refine ⟨_, toString_fromString_segment rd type (representable.esi (.inr type)), ?_, ?_⟩
      · simp [compareTo, segment, type]
      · rfl
    | ipPrefixRoute =>
      refine ⟨_, toString_fromString_ipPrefix rd type (representable.hostBits type)
        representable.printed, ?_, ?_⟩
      · simp [compareTo, ipPrefix, type]
      · rfl
    | unspecified => exact absurd type representable.known
  obtain ⟨str, printed⟩ := Option.isSome_iff_exists.mp representable.printed
  obtain ⟨q, parsed, same, family⟩ := read
  rw [printed, Option.bind_some] at parsed
  exact ⟨str, q, printed, parsed, same, family⟩

/-- An IPv4 prefix route of `10.1.2.0/24` under the route distinguisher `1.2.3.4:7` reads back. -/
theorem evpn_text_round_trip_inet :
    (ipPrefix ⟨⟨0x0001010203040007, by decide⟩⟩ ⟨5, by decide⟩ (.v4 ⟨0x0A010200, by decide⟩)
      24).TextRepresentable ∧
    ∃ str q, (ipPrefix ⟨⟨0x0001010203040007, by decide⟩⟩ ⟨5, by decide⟩
        (.v4 ⟨0x0A010200, by decide⟩) 24).toString = some str ∧ fromString str = some q ∧
      q.compareTo (ipPrefix ⟨⟨0x0001010203040007, by decide⟩⟩ ⟨5, by decide⟩
        (.v4 ⟨0x0A010200, by decide⟩) 24) = 0 ∧
      q.family = textFamily .ipPrefixRoute (.v4 ⟨0x0A010200, by decide⟩) := by
  have representable : (ipPrefix ⟨⟨0x0001010203040007, by decide⟩⟩ ⟨5, by decide⟩
      (.v4 ⟨0x0A010200, by decide⟩) 24).TextRepresentable :=
    ⟨by decide, by decide, by decide, by decide, fun _ => by decide⟩
  exact ⟨representable, evpn_text_round_trip _ representable⟩

/-- An inclusive multicast route of `0.0.0.0`, whose constructor leaves the family `UNSPEC`,
reads back as an `INET` route. -/
theorem evpn_text_family_differs :
    (inclusiveMulticast ⟨0⟩ ⟨0, by decide⟩ (.v4 0)).TextRepresentable ∧
    (inclusiveMulticast ⟨0⟩ ⟨0, by decide⟩ (.v4 0)).family = .unspec ∧
    ((inclusiveMulticast ⟨0⟩ ⟨0, by decide⟩ (.v4 0)).toString.bind fromString).map
      (·.family) = some .inet := by
  exact ⟨⟨by decide, by decide, by decide, by decide, by decide⟩, rfl, by decide⟩

/-! ## What `FromString` accepts -/

theorem ofType_ne_unspecified {type : Nat} (range : 1 ≤ type ∧ type ≤ 5) :
    RouteType.ofType type ≠ .unspecified := by
  obtain ⟨low, high⟩ := range
  interval_cases type <;> decide

theorem hostBits_of_inet {inetPrefix : Ip4Prefix} {str : List Char}
    (read : Ip4Prefix.fromString str = some inetPrefix) :
    (IpAddress.v4 inetPrefix.addr).HostBitsZero (UInt8.ofNat inetPrefix.prefixlen).toNat := by
  obtain ⟨le, clear⟩ := Ip4Prefix.fromString_masked read
  rw [UInt8.toNat_ofNat_of_lt' (lt_of_le_of_lt le (by decide))]
  exact ⟨le, clear⟩

theorem hostBits_of_inet6 {inet6Prefix : Inet6Prefix} {str : List Char}
    (read : Inet6Prefix.fromString str = some inet6Prefix) :
    (IpAddress.v6 inet6Prefix.addr).HostBitsZero (UInt8.ofNat inet6Prefix.prefixlen).toNat := by
  obtain ⟨le, clear⟩ := Inet6Prefix.fromString_masked read
  rw [UInt8.toNat_ofNat_of_lt' (lt_of_le_of_lt le (by decide))]
  exact ⟨le, clear⟩

/-- The switch keeps the type, and sets the family the parser derives from the address it reads
over the `UNSPEC` of `EvpnPrefix()`; an IP prefix route gets its host bits cleared. -/
theorem fieldsFromString_wellFormed {pfx : EvpnPrefix} (known : pfx.type ≠ .unspecified)
    (unspec : pfx.family = .unspec) {str : List Char} {pos2 : Nat} {q : EvpnPrefix}
    (read : fieldsFromString pfx str pos2 = some q) :
    q.type = pfx.type ∧ q.family = textFamily q.type q.ipAddress ∧
      (q.type = .ipPrefixRoute → q.ipAddress.HostBitsZero q.ipPrefixlen.toNat) := by
  cases type : pfx.type
  case unspecified => exact absurd type known
  case ipPrefixRoute =>
    simp only [fieldsFromString, type, bind, Option.bind_eq_some_iff] at read
    obtain ⟨pos3, -, -, -, parsed⟩ := read
    split at parsed
    case h_1 inetPrefix inet =>
      cases parsed
      exact ⟨rfl, rfl, fun _ => hostBits_of_inet inet⟩
    case h_2 =>
      obtain ⟨inet6Prefix, inet6, rfl⟩ := Option.map_eq_some_iff.mp parsed
      exact ⟨rfl, rfl, fun _ => hostBits_of_inet6 inet6⟩
  all_goals
    simp only [fieldsFromString, type, bind, Option.bind_eq_some_iff, pure,
      Option.some.injEq] at read
    obtain ⟨_, -, read⟩ := read
  case autoDiscoveryRoute =>
    obtain ⟨_, -, _, -, rfl⟩ := read
    exact ⟨rfl, unspec, by rintro ⟨⟩⟩
  case macAdvertisementRoute =>
    obtain ⟨_, -, _, -, _, -, rfl⟩ := read
    exact ⟨rfl, rfl, by rintro ⟨⟩⟩
  case inclusiveMulticastRoute =>
    obtain ⟨_, -, _, -, rfl⟩ := read
    exact ⟨rfl, rfl, by rintro ⟨⟩⟩
  case segmentRoute =>
    obtain ⟨_, -, _, -, rfl⟩ := read
    exact ⟨rfl, rfl, by rintro ⟨⟩⟩

/-- What `FromString` accepts is well formed: a route of one of the five types, with the family
the parser derives from its address, and for an IP prefix route the host bits past a length its
family allows cleared. -/
theorem evpn_fromString_well_formed {str : List Char} {q : EvpnPrefix}
    (read : fromString str = some q) :
    q.type ≠ .unspecified ∧ q.family = textFamily q.type q.ipAddress ∧
      (q.type = .ipPrefixRoute → q.ipAddress.HostBitsZero q.ipPrefixlen.toNat) := by
  simp only [fromString, bind, Option.bind_eq_some_iff] at read
  obtain ⟨pos1, -, _, -, u, range, pos2, -, rd, -, fields⟩ := read
  have known := ofType_ne_unspecified ((Option.guard_eq_some' u).mp range)
  obtain ⟨same, family, hostBits⟩ := fieldsFromString_wellFormed known rfl fields
  exact ⟨same ▸ known, family, hostBits⟩

theorem evpn_fromString_well_formed_inet :
    fromString "5-1.2.3.4:7-5-10.1.2.3/24".toList =
        some (ipPrefix ⟨⟨0x0001010203040007, by decide⟩⟩ ⟨5, by decide⟩
          (.v4 ⟨0x0A010200, by decide⟩) 24) ∧
      (ipPrefix ⟨⟨0x0001010203040007, by decide⟩⟩ ⟨5, by decide⟩
          (.v4 ⟨0x0A010200, by decide⟩) 24).ipAddress.HostBitsZero 24 := by
  have read : fromString "5-1.2.3.4:7-5-10.1.2.3/24".toList =
      some (ipPrefix ⟨⟨0x0001010203040007, by decide⟩⟩ ⟨5, by decide⟩
        (.v4 ⟨0x0A010200, by decide⟩) 24) := by decide
  exact ⟨read, (evpn_fromString_well_formed read).2.2 rfl⟩

end EvpnPrefix

end Contrail.Bgp.Evpn
