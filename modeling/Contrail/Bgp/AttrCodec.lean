import Contrail.Lib.Bytes
import Contrail.Bgp.AsPath

/-! The path attributes of an UPDATE as `BgpPathAttributeList` writes and reads
them. An attribute is a flags byte, a code byte, a length and the value; the
length takes two bytes when the flags carry `ExtendedLength`, else one. The
encoder writes the flags from `GetEncodeFlags`, which adds `ExtendedLength`
only when `EncodeLength()` reaches 256, and back-patches the length with
`put_value` into the size those flags give. In an AS path each segment carries
a one-byte count of its ASNs, written as a byte count and halved in place by
`SetLength`. The attributes with a variable-length value are modeled; the
codes of the others (the fixed-size ones, Aggregator, MP_REACH_NLRI,
MP_UNREACH_NLRI and the multicast edge attributes) decode to nothing here. -/
namespace Contrail.Bgp

open Bytes

/-- The attributes modeled, each a subclass of `BgpAttribute` with the fields
its sequence in `BgpPathAttribute` writes. -/
inductive BgpAttribute
  | asPathSpec (spec : AsPathSpec)
  | communitySpec (communities : List (Word 4))
  | clusterListSpec (clusterList : List (Word 4))
  | extCommunitySpec (communities : List (Word 8))
  | pmsiTunnelSpec (tunnelFlags tunnelType : Word 1) (label : Word 3) (identifier : List UInt8)
  | originVnPathSpec (originVns : List (Word 8))
  | bgpAttrUnknown (flags code : UInt8) (value : List UInt8)
  deriving DecidableEq, Repr

namespace BgpAttribute

def Optional : UInt8 := (1 : UInt8) <<< 7
def Transitive : UInt8 := (1 : UInt8) <<< 6
def ExtendedLength : UInt8 := (1 : UInt8) <<< 4
def FLAG_MASK : UInt8 := Optional ||| Transitive

def AsPath : UInt8 := 2
def Communities : UInt8 := 8
def ClusterList : UInt8 := 10
def ExtendedCommunities : UInt8 := 16
def PmsiTunnel : UInt8 := 22
def OriginVnPath : UInt8 := 243

/-- The codes of `BgpPathAttribute`'s choice that are not modeled. -/
def otherCodes : List UInt8 := [1, 3, 4, 5, 6, 7, 9, 14, 15, 241, 242]

/-- The codes `BgpPathAttribute` decodes as a known attribute. -/
def choiceCodes : List UInt8 :=
  [AsPath, Communities, ClusterList, ExtendedCommunities, PmsiTunnel, OriginVnPath] ++ otherCodes

def code : BgpAttribute → UInt8
  | asPathSpec _ => AsPath
  | communitySpec _ => Communities
  | clusterListSpec _ => ClusterList
  | extCommunitySpec _ => ExtendedCommunities
  | pmsiTunnelSpec .. => PmsiTunnel
  | originVnPathSpec _ => OriginVnPath
  | bgpAttrUnknown _ code _ => code

/-- The flags each constructor sets (`kFlags`); an unknown attribute keeps
the flags it was read with. -/
def flags : BgpAttribute → UInt8
  | asPathSpec _ => Transitive
  | communitySpec _ => Optional ||| Transitive
  | clusterListSpec _ => Optional
  | extCommunitySpec _ => Optional ||| Transitive
  | pmsiTunnelSpec .. => Optional ||| Transitive
  | originVnPathSpec _ => Optional ||| Transitive
  | bgpAttrUnknown flags _ _ => flags

/-- `AsPathSpec::EncodeLength`. -/
def asPathEncodeLength (spec : AsPathSpec) : Nat :=
  spec.pathSegments.foldl (fun sz segment => sz + 2 + segment.pathSegment.length * 2) 0

/-- `EncodeLength()`: the overrides of `AsPathSpec`, `CommunitySpec`,
`ExtCommunitySpec` and `OriginVnPathSpec`; `BgpAttribute::EncodeLength`,
which returns 0, for the others. -/
def encodeLength : BgpAttribute → Nat
  | asPathSpec spec => asPathEncodeLength spec
  | communitySpec communities => communities.length * 4
  | extCommunitySpec communities => communities.length * 8
  | originVnPathSpec originVns => originVns.length * 8
  | clusterListSpec _ | pmsiTunnelSpec .. | bgpAttrUnknown .. => 0

/-- `BgpAttribute::GetEncodeFlags`. -/
def getEncodeFlags (attr : BgpAttribute) : UInt8 :=
  if attr.encodeLength ≥ 1 <<< 8 then attr.flags ||| ExtendedLength else attr.flags

end BgpAttribute

open BgpAttribute

/-- The size of `BgpPathAttrLength` under a flags byte: `AttrLen` on the flags
read, `AttrSizeSet` on the encode flags. -/
def attrLenSize (flags : UInt8) : Nat :=
  if flags &&& ExtendedLength ≠ 0 then 2 else 1

/-- `BgpPathAttrAsPathSegmentLength` as the encoder leaves it:
`SequenceLengthWriteLen` puts the byte count of the ASNs into one byte, then
`SetLength` reads it back and writes half of it. -/
def segmentLengthField (count : Nat) : List UInt8 :=
  putBE 1 (valueBE (putBE 1 (count * 2)) / 2)

/-- One `AsPathSpec::PathSegment` in `BgpPathAttrAsPathSegmentList`. -/
def encodePathSegment (segment : PathSegment) : List UInt8 :=
  putBE 1 segment.pathSegmentType ++ segmentLengthField segment.pathSegment.length ++
    putWords 2 segment.pathSegment

/-- The segments of an AS path value: the length byte counts ASNs, which
`PathSegmentLength` doubles into a byte count. -/
def decodePathSegments (value : List UInt8) : Option (List PathSegment) :=
  tlvRun 2 (fun segmentType asns =>
    { pathSegmentType := segmentType.toNat, pathSegment := words 2 (by decide) asns }) value

/-- The value bytes each attribute's sequence writes after `BgpPathAttrLength`. -/
def encodeValue : BgpAttribute → List UInt8
  | .asPathSpec spec => spec.pathSegments.flatMap encodePathSegment
  | .communitySpec communities => putWords 4 communities
  | .clusterListSpec clusterList => putWords 4 clusterList
  | .extCommunitySpec communities => putWords 8 communities
  | .pmsiTunnelSpec tunnelFlags tunnelType label identifier =>
    putBE 1 tunnelFlags.val ++ putBE 1 tunnelType.val ++ putBE 3 label.val ++ identifier
  | .originVnPathSpec originVns => putWords 8 originVns
  | .bgpAttrUnknown _ _ value => value

/-- `BgpPathAttributeFlags` and `BgpPathAttribute` for one attribute: the
encode flags, the code, the length back-patched by `SequenceLengthWriteLen`
into the size the encode flags give, and the value. -/
def encodePathAttribute (attr : BgpAttribute) : List UInt8 :=
  attr.getEncodeFlags :: attr.code ::
    (putBE (attrLenSize attr.getEncodeFlags) (encodeValue attr).length ++ encodeValue attr)

def encodePathAttributes (attrs : List BgpAttribute) : List UInt8 :=
  attrs.flatMap encodePathAttribute

/-- The flags test of `BgpAttributeVerifier`. -/
def attributeVerifier (flags kFlags : UInt8) : Bool :=
  flags &&& FLAG_MASK == kFlags

/-- The value of one attribute as the choice of `BgpPathAttribute` reads it by
its code. The cluster list has no verifier; an unknown code is kept only when
the attribute is optional. -/
def decodeValue (flags code : UInt8) (value : List UInt8) : Option BgpAttribute :=
  if code = AsPath then
    (decodePathSegments value).bind fun segments =>
      if attributeVerifier flags BgpAttribute.Transitive then some (.asPathSpec ⟨segments⟩) else none
  else if code = Communities then
    if attributeVerifier flags (Optional ||| BgpAttribute.Transitive) then
      some (.communitySpec (words 4 (by decide) value))
    else none
  else if code = ClusterList then some (.clusterListSpec (words 4 (by decide) value))
  else if code = ExtendedCommunities then
    if attributeVerifier flags (Optional ||| BgpAttribute.Transitive) then
      some (.extCommunitySpec (words 8 (by decide) value))
    else none
  else if code = PmsiTunnel then
    if 5 ≤ value.length ∧ attributeVerifier flags (Optional ||| BgpAttribute.Transitive) then
      some (.pmsiTunnelSpec (takeWord 1 value) (takeWord 1 (value.drop 1))
        (takeWord 3 (value.drop 2)) (value.drop 5))
    else none
  else if code = OriginVnPath then
    if attributeVerifier flags (Optional ||| BgpAttribute.Transitive) then
      some (.originVnPathSpec (words 8 (by decide) value))
    else none
  else if code ∈ otherCodes then none
  else if flags &&& Optional ≠ 0 then some (.bgpAttrUnknown flags code value)
  else none

/-- `BgpPathAttributeList` read to its end: per attribute the flags, the code,
a length of the size the flags give and that many value bytes. -/
def decodePathAttributes : List UInt8 → Option (List BgpAttribute)
  | [] => some []
  | [_] => none
  | flags :: code :: rest =>
    if attrLenSize flags + valueBE (rest.take (attrLenSize flags)) ≤ rest.length then
      (decodeValue flags code ((rest.drop (attrLenSize flags)).take
          (valueBE (rest.take (attrLenSize flags))))).bind fun attr =>
        (decodePathAttributes ((rest.drop (attrLenSize flags)).drop
          (valueBE (rest.take (attrLenSize flags))))).map (attr :: ·)
    else none
termination_by bytes => bytes.length
decreasing_by
  simp only [List.length_drop, List.length_cons]
  omega

/-! ## AS path segments -/

/-- The length byte of a segment counts its ASNs modulo 128. -/
theorem segmentLengthField_eq (count : Nat) :
    segmentLengthField count = [UInt8.ofNat (count % 128)] := by
  have halved : (count * 2) % 256 ^ 1 / 2 = count % 128 := by omega
  rw [segmentLengthField, valueBE_putBE, halved, putBE_one]

theorem toNat_ofNat_mod_128 (count : Nat) : (UInt8.ofNat (count % 128)).toNat = count % 128 :=
  UInt8.toNat_ofNat_of_lt' (lt_of_lt_of_le (Nat.mod_lt _ (by decide)) (by decide))

/-- A segment reads back with only its first `n % 128` ASNs; the bytes of the
others are read as the segments that follow. -/
theorem decodePathSegments_encodePathSegment (segment : PathSegment) (rest : List UInt8)
    (typeFits : segment.pathSegmentType < 256) :
    decodePathSegments (encodePathSegment segment ++ rest) =
      (decodePathSegments (putWords 2 (segment.pathSegment.drop
          (segment.pathSegment.length % 128)) ++ rest)).map
        (⟨segment.pathSegmentType,
          segment.pathSegment.take (segment.pathSegment.length % 128)⟩ :: ·) := by
  have covered : (UInt8.ofNat (segment.pathSegment.length % 128)).toNat * 2 ≤
      (putWords 2 segment.pathSegment).length := by
    rw [toNat_ofNat_mod_128, length_putWords]
    omega
  have typeByte : (UInt8.ofNat segment.pathSegmentType).toNat = segment.pathSegmentType :=
    UInt8.toNat_ofNat_of_lt' typeFits
  simp only [decodePathSegments, encodePathSegment, segmentLengthField_eq, putBE_one,
    List.cons_append, List.nil_append]
  rw [tlvRun_cons_append_of_le 2 _ _ _ _ covered, toNat_ofNat_mod_128, take_putWords,
    drop_putWords, words_putWords, typeByte]

/-- Segments of fewer than 128 ASNs, of a one-byte type, read back. -/
theorem decodePathSegments_encode (segments : List PathSegment)
    (fits : ∀ segment ∈ segments, segment.pathSegmentType < 256 ∧ segment.pathSegment.length < 128) :
    decodePathSegments (segments.flatMap encodePathSegment) = some segments := by
  induction segments with
  | nil => simp [decodePathSegments, tlvRun]
  | cons segment segments ih =>
    obtain ⟨typeFits, short⟩ := fits segment List.mem_cons_self
    have whole : segment.pathSegment.length % 128 = segment.pathSegment.length :=
      Nat.mod_eq_of_lt short
    have emptyRest : putWords 2 [] = [] := rfl
    rw [List.flatMap_cons, decodePathSegments_encodePathSegment segment _ typeFits, whole,
      List.drop_length, List.take_length, emptyRest, List.nil_append,
      ih fun other inSegments => fits other (List.mem_cons_of_mem segment inSegments)]
    rfl

/-! ## Attribute values -/

/-- What an attribute needs to be read back: its value fits the length field
the encoder chose; an AS path's segments have a one-byte type and fewer than
128 ASNs; an unknown attribute is optional, with a code the choice does not
name. -/
def BgpAttribute.Decodable (attr : BgpAttribute) : Prop :=
  (encodeValue attr).length < 256 ^ attrLenSize attr.getEncodeFlags ∧
  match attr with
  | .asPathSpec spec => ∀ segment ∈ spec.pathSegments,
      segment.pathSegmentType < 256 ∧ segment.pathSegment.length < 128
  | .bgpAttrUnknown flags code _ => flags &&& Optional ≠ 0 ∧ code ∉ choiceCodes
  | _ => True

theorem getEncodeFlags_cases (attr : BgpAttribute) :
    attr.getEncodeFlags = attr.flags ∨ attr.getEncodeFlags = attr.flags ||| ExtendedLength := by
  unfold getEncodeFlags
  split
  · exact Or.inr rfl
  · exact Or.inl rfl

/-- The verifier accepts the encode flags of a kind whose `kFlags` lie in
`FLAG_MASK`, with or without `ExtendedLength`. -/
theorem attributeVerifier_getEncodeFlags (attr : BgpAttribute)
    (kFlags : attr.flags = BgpAttribute.Transitive ∨ attr.flags = Optional ||| BgpAttribute.Transitive) :
    attributeVerifier attr.getEncodeFlags attr.flags = true := by
  rcases getEncodeFlags_cases attr with encode | encode <;>
    rcases kFlags with kind | kind <;> rw [encode, kind] <;> decide

/-- Each modeled value reads back from its own bytes under the encode flags. -/
theorem decodeValue_encodeValue (attr : BgpAttribute) (decodable : attr.Decodable) :
    decodeValue attr.getEncodeFlags attr.code (encodeValue attr) = some attr := by
  obtain ⟨-, kind⟩ := decodable
  cases attr with
  | asPathSpec spec =>
    have verified := attributeVerifier_getEncodeFlags (.asPathSpec spec) (Or.inl rfl)
    simp only [decodeValue, code, encodeValue, if_true,
      decodePathSegments_encode spec.pathSegments kind, Option.bind_some]
    simp only [flags] at verified
    simp [verified]
  | communitySpec communities =>
    have verified := attributeVerifier_getEncodeFlags (.communitySpec communities) (Or.inr rfl)
    simp only [flags] at verified
    simp [decodeValue, code, encodeValue, AsPath, Communities, words_putWords, verified]
  | clusterListSpec clusterList =>
    simp [decodeValue, code, encodeValue, AsPath, Communities, ClusterList, words_putWords]
  | extCommunitySpec communities =>
    have verified := attributeVerifier_getEncodeFlags (.extCommunitySpec communities) (Or.inr rfl)
    simp only [flags] at verified
    simp [decodeValue, code, encodeValue, AsPath, Communities, ClusterList, ExtendedCommunities,
      words_putWords, verified]
  | pmsiTunnelSpec tunnelFlags tunnelType label identifier =>
    have verified := attributeVerifier_getEncodeFlags
      (.pmsiTunnelSpec tunnelFlags tunnelType label identifier) (Or.inr rfl)
    simp only [flags] at verified
    have fields : putBE 1 tunnelFlags.val ++ putBE 1 tunnelType.val ++ putBE 3 label.val ++
        identifier = putBE 1 tunnelFlags.val ++ (putBE 1 tunnelType.val ++
          (putBE 3 label.val ++ identifier)) := by simp only [List.append_assoc]
    have afterFlags : (putBE 1 tunnelFlags.val ++ (putBE 1 tunnelType.val ++
        (putBE 3 label.val ++ identifier))).drop 1 =
        putBE 1 tunnelType.val ++ (putBE 3 label.val ++ identifier) :=
      List.drop_left' (length_putBE _ _)
    have afterType : (putBE 1 tunnelFlags.val ++ (putBE 1 tunnelType.val ++
        (putBE 3 label.val ++ identifier))).drop 2 = putBE 3 label.val ++ identifier := by
      rw [show 2 = 1 + 1 from rfl, ← List.drop_drop, afterFlags, List.drop_left' (length_putBE _ _)]
    have afterLabel : (putBE 1 tunnelFlags.val ++ (putBE 1 tunnelType.val ++
        (putBE 3 label.val ++ identifier))).drop 5 = identifier := by
      rw [show 5 = 2 + 3 from rfl, ← List.drop_drop, afterType, List.drop_left' (length_putBE _ _)]
    simp only [decodeValue, code, encodeValue, fields, afterFlags, afterType, afterLabel,
      takeWord_putBE_append, verified]
    simp [AsPath, Communities, ClusterList, ExtendedCommunities, PmsiTunnel]
  | originVnPathSpec originVns =>
    have verified := attributeVerifier_getEncodeFlags (.originVnPathSpec originVns) (Or.inr rfl)
    simp only [flags] at verified
    simp [decodeValue, code, encodeValue, AsPath, Communities, ClusterList, ExtendedCommunities,
      PmsiTunnel, OriginVnPath, words_putWords, verified]
  | bgpAttrUnknown flags code value =>
    obtain ⟨optional, unnamed⟩ := kind
    have encodeFlags : (bgpAttrUnknown flags code value).getEncodeFlags = flags := by
      simp [getEncodeFlags, encodeLength, BgpAttribute.flags]
    simp only [choiceCodes, otherCodes, List.mem_append, List.mem_cons, List.not_mem_nil,
      or_false, not_or] at unnamed
    simp only [decodeValue, encodeFlags, BgpAttribute.code, encodeValue, otherCodes]
    simp [unnamed, optional]

/-! ## Attribute framing -/

/-- An attribute reads back with the length its length field holds, the value
length modulo the field's range; the bytes after that length are read as the
attributes that follow. -/
theorem decodePathAttributes_encodePathAttribute (attr : BgpAttribute) (rest : List UInt8) :
    decodePathAttributes (encodePathAttribute attr ++ rest) =
      (decodeValue attr.getEncodeFlags attr.code ((encodeValue attr).take
          ((encodeValue attr).length % 256 ^ attrLenSize attr.getEncodeFlags))).bind fun read =>
        (decodePathAttributes ((encodeValue attr).drop
          ((encodeValue attr).length % 256 ^ attrLenSize attr.getEncodeFlags) ++ rest)).map
          (read :: ·) := by
  have lengthRead : valueBE ((putBE (attrLenSize attr.getEncodeFlags) (encodeValue attr).length ++
      (encodeValue attr ++ rest)).take (attrLenSize attr.getEncodeFlags)) =
      (encodeValue attr).length % 256 ^ attrLenSize attr.getEncodeFlags := by
    rw [List.take_left' (length_putBE _ _), valueBE_putBE]
  have fieldLeft : (putBE (attrLenSize attr.getEncodeFlags) (encodeValue attr).length ++
      (encodeValue attr ++ rest)).drop (attrLenSize attr.getEncodeFlags) = encodeValue attr ++ rest :=
    List.drop_left' (length_putBE _ _)
  have shorter : (encodeValue attr).length % 256 ^ attrLenSize attr.getEncodeFlags ≤
      (encodeValue attr).length := Nat.mod_le _ _
  rw [encodePathAttribute, List.cons_append, List.cons_append, List.append_assoc,
    decodePathAttributes, lengthRead, fieldLeft, if_pos (by simp; omega),
    List.take_append_of_le_length shorter, List.drop_append_of_le_length shorter]

/-- Attributes that can be read back are read back, in order. -/
theorem decodePathAttributes_encode (attrs : List BgpAttribute)
    (decodable : ∀ attr ∈ attrs, attr.Decodable) :
    decodePathAttributes (encodePathAttributes attrs) = some attrs := by
  induction attrs with
  | nil => simp [encodePathAttributes, decodePathAttributes]
  | cons attr attrs ih =>
    have first := decodable attr List.mem_cons_self
    have whole : (encodeValue attr).length % 256 ^ attrLenSize attr.getEncodeFlags =
        (encodeValue attr).length := Nat.mod_eq_of_lt first.1
    have rest := ih fun other inAttrs => decodable other (List.mem_cons_of_mem attr inAttrs)
    rw [encodePathAttributes, List.flatMap_cons, decodePathAttributes_encodePathAttribute, whole,
      List.take_length, List.drop_length, List.nil_append, decodeValue_encodeValue attr first,
      Option.bind_some]
    rw [encodePathAttributes] at rest
    rw [rest]
    rfl

/-- Four kinds of attribute: an AS path of two segments, two communities, an
extended community and an optional unknown attribute. -/
def sampleAttributes : List BgpAttribute :=
  [.asPathSpec ⟨[⟨2, [100, 200]⟩, ⟨1, [300]⟩]⟩, .communitySpec [0xFDE80001, 0xFDE80002],
    .extCommunitySpec [0x0002FDE800000001], .bgpAttrUnknown 0xC0 99 [1, 2, 3]]

theorem decodePathAttributes_encode_four_kinds :
    (∀ attr ∈ sampleAttributes, attr.Decodable) ∧
      decodePathAttributes (encodePathAttributes sampleAttributes) = some sampleAttributes := by
  have decodable : ∀ attr ∈ sampleAttributes, attr.Decodable := by
    intro attr mem
    simp only [sampleAttributes, List.mem_cons, List.not_mem_nil, or_false] at mem
    rcases mem with rfl | rfl | rfl | rfl <;> exact ⟨by decide, by decide⟩
  exact ⟨decodable, decodePathAttributes_encode _ decodable⟩

/-! ## Values too long for their length fields -/

theorem asPathEncodeLength_eq (spec : AsPathSpec) :
    asPathEncodeLength spec = (spec.pathSegments.flatMap encodePathSegment).length := by
  have fold : ∀ (segments : List PathSegment) (start : Nat),
      segments.foldl (fun sz segment => sz + 2 + segment.pathSegment.length * 2) start =
        start + (segments.flatMap encodePathSegment).length := by
    intro segments
    induction segments with
    | nil => simp
    | cons segment segments ih =>
      intro start
      simp only [List.foldl_cons, ih, List.flatMap_cons, List.length_append, encodePathSegment,
        segmentLengthField_eq, length_putBE, length_putWords, List.length_singleton]
      omega
  simpa [asPathEncodeLength] using fold spec.pathSegments 0

/-- When a lone attribute reads back as one attribute, that one is what the
value decodes to from the bytes its length field covers. -/
theorem decodeValue_of_decode_single {attr read : BgpAttribute}
    (decoded : decodePathAttributes (encodePathAttributes [attr]) = some [read]) :
    decodeValue attr.getEncodeFlags attr.code ((encodeValue attr).take
      ((encodeValue attr).length % 256 ^ attrLenSize attr.getEncodeFlags)) = some read := by
  rw [encodePathAttributes, List.flatMap_cons, List.flatMap_nil,
    decodePathAttributes_encodePathAttribute] at decoded
  obtain ⟨first, firstRead, following⟩ := Option.bind_eq_some_iff.mp decoded
  obtain ⟨others, -, same⟩ := Option.map_eq_some_iff.mp following
  rw [firstRead, (List.cons_eq_cons.mp same).1]

theorem decodeValue_asPath {flags : UInt8} {value : List UInt8} {spec : AsPathSpec}
    (read : decodeValue flags AsPath value = some (.asPathSpec spec)) :
    decodePathSegments value = some spec.pathSegments := by
  simp only [decodeValue, if_true] at read
  obtain ⟨segments, segmentsRead, verified⟩ := Option.bind_eq_some_iff.mp read
  split at verified
  · cases verified
    exact segmentsRead
  · cases verified

theorem decodeValue_clusterList (flags : UInt8) (value : List UInt8) :
    decodeValue flags ClusterList value = some (.clusterListSpec (words 4 (by decide) value)) := by
  simp [decodeValue, AsPath, Communities, ClusterList]

/-- A segment of 128 to 255 ASNs: its AS path has the right attribute length,
but the segment's length byte holds `n % 128`. -/
theorem asPathSpec_long_segment_misread (segmentType : Nat) (asns : List (Word 2))
    (typeFits : segmentType < 256) (long : 128 ≤ asns.length) (fits : asns.length ≤ 255) :
    decodePathAttributes (encodePathAttributes [.asPathSpec ⟨[⟨segmentType, asns⟩]⟩]) ≠
      some [.asPathSpec ⟨[⟨segmentType, asns⟩]⟩] := by
  intro decoded
  have value : encodeValue (.asPathSpec ⟨[⟨segmentType, asns⟩]⟩) =
      encodePathSegment ⟨segmentType, asns⟩ ++ [] := by simp [encodeValue]
  have valueLength : (encodeValue (.asPathSpec ⟨[⟨segmentType, asns⟩]⟩)).length =
      2 + asns.length * 2 := by
    simp [value, encodePathSegment, segmentLengthField_eq]
    omega
  have encodeFlags : (BgpAttribute.asPathSpec ⟨[⟨segmentType, asns⟩]⟩).getEncodeFlags =
      BgpAttribute.Transitive ||| ExtendedLength := by
    have counted := asPathEncodeLength_eq ⟨[⟨segmentType, asns⟩]⟩
    rw [← encodeValue, valueLength] at counted
    simp only [getEncodeFlags, encodeLength, counted, BgpAttribute.flags]
    rw [if_pos (by simp; omega)]
  have twoBytes : attrLenSize (BgpAttribute.Transitive ||| ExtendedLength) = 2 := by decide
  have whole : (encodeValue (.asPathSpec ⟨[⟨segmentType, asns⟩]⟩)).length %
      256 ^ attrLenSize (BgpAttribute.asPathSpec ⟨[⟨segmentType, asns⟩]⟩).getEncodeFlags =
      (encodeValue (.asPathSpec ⟨[⟨segmentType, asns⟩]⟩)).length := by
    rw [encodeFlags, twoBytes, valueLength]
    exact Nat.mod_eq_of_lt (by omega)
  have read := decodeValue_of_decode_single decoded
  rw [whole, List.take_length] at read
  have segments := decodeValue_asPath read
  rw [value, decodePathSegments_encodePathSegment _ _ typeFits] at segments
  obtain ⟨others, -, same⟩ := Option.map_eq_some_iff.mp segments
  have truncated := congrArg (fun segment => segment.pathSegment.length)
    (List.cons_eq_cons.mp same).1
  simp only [List.length_take] at truncated
  omega

/-- The number of ids of a decoded cluster list. -/
def clusterListLength : Option BgpAttribute → Nat
  | some (.clusterListSpec ids) => ids.length
  | _ => 0

/-- A cluster list of 64 or more ids: `ClusterListSpec` reports no
`EncodeLength()`, so its length goes into one byte modulo 256. -/
theorem clusterListSpec_long_misread (clusterList : List (Word 4))
    (long : 64 ≤ clusterList.length) :
    decodePathAttributes (encodePathAttributes [.clusterListSpec clusterList]) ≠
      some [.clusterListSpec clusterList] := by
  intro decoded
  have oneByte : attrLenSize (BgpAttribute.clusterListSpec clusterList).getEncodeFlags = 1 := by
    simp [getEncodeFlags, encodeLength, BgpAttribute.flags]
    decide
  have covered : (encodeValue (.clusterListSpec clusterList)).length % 256 ^ 1 =
      clusterList.length % 64 * 4 := by
    simp only [encodeValue, length_putWords]
    omega
  have read := decodeValue_of_decode_single decoded
  rw [oneByte, covered, BgpAttribute.code, decodeValue_clusterList, encodeValue, take_putWords,
    words_putWords] at read
  have truncated := congrArg clusterListLength read
  simp only [clusterListLength, List.length_take] at truncated
  omega

/-! ## The length field -/

/-- The attribute length `encodePathAttribute` writes, as `BgpPathAttrLength`
reads it back. -/
def lengthField (attr : BgpAttribute) : Nat :=
  valueBE (putBE (attrLenSize attr.getEncodeFlags) (encodeValue attr).length)

/-- The length field holds the value's length exactly when the value fits the
size the encode flags chose. -/
theorem lengthField_eq_iff (attr : BgpAttribute) :
    lengthField attr = (encodeValue attr).length ↔
      (encodeValue attr).length < 256 ^ attrLenSize attr.getEncodeFlags := by
  rw [lengthField, valueBE_putBE]
  exact Nat.mod_eq_iff_lt (Nat.pos_iff_ne_zero.mp (Nat.pow_pos (by decide : 0 < 256)))

/-- `ClusterListSpec` and `PmsiTunnelSpec` report no `EncodeLength()`, so their
encode flags never carry `ExtendedLength` and a value of 256 bytes or more gets
its length modulo 256: a cluster list of 64 ids or more, a PMSI tunnel whose
identifier has 251 bytes or more. -/
theorem lengthField_ne_of_long_unreported :
    (∀ clusterList : List (Word 4), 64 ≤ clusterList.length →
      lengthField (.clusterListSpec clusterList) ≠
        (encodeValue (.clusterListSpec clusterList)).length) ∧
    (∀ (tunnelFlags tunnelType : Word 1) (label : Word 3) (identifier : List UInt8),
      251 ≤ identifier.length →
      lengthField (.pmsiTunnelSpec tunnelFlags tunnelType label identifier) ≠
        (encodeValue (.pmsiTunnelSpec tunnelFlags tunnelType label identifier)).length) := by
  constructor
  · intro clusterList long
    have oneByte : attrLenSize (BgpAttribute.clusterListSpec clusterList).getEncodeFlags = 1 := by
      simp [getEncodeFlags, encodeLength, BgpAttribute.flags]
      decide
    rw [Ne, lengthField_eq_iff, oneByte]
    simp only [encodeValue, length_putWords]
    omega
  · intro tunnelFlags tunnelType label identifier long
    have oneByte : attrLenSize
        (BgpAttribute.pmsiTunnelSpec tunnelFlags tunnelType label identifier).getEncodeFlags = 1 := by
      simp [getEncodeFlags, encodeLength, BgpAttribute.flags]
      decide
    rw [Ne, lengthField_eq_iff, oneByte]
    simp only [encodeValue, List.length_append, length_putBE]
    omega

/-- An AS path segment of 128 to 255 ASNs, and a cluster list of 64 or more
cluster ids, are written in a form the decoder does not read back as the
attribute that was written. -/
theorem encodePathAttributes_long_values_misread :
    (∀ (segmentType : Nat) (asns : List (Word 2)), segmentType < 256 → 128 ≤ asns.length →
      asns.length ≤ 255 →
      decodePathAttributes (encodePathAttributes [.asPathSpec ⟨[⟨segmentType, asns⟩]⟩]) ≠
        some [.asPathSpec ⟨[⟨segmentType, asns⟩]⟩]) ∧
    (∀ clusterList : List (Word 4), 64 ≤ clusterList.length →
      decodePathAttributes (encodePathAttributes [.clusterListSpec clusterList]) ≠
        some [.clusterListSpec clusterList]) :=
  ⟨asPathSpec_long_segment_misread, clusterListSpec_long_misread⟩

end Contrail.Bgp
