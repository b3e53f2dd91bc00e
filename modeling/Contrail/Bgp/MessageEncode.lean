import Contrail.Base.Proto
import Contrail.Bgp.Capability
import Contrail.Bgp.Evpn.Prefix
import Contrail.Bgp.AttrCodec
import Mathlib

/-! `BgpProto::Encode` of `bgp/bgp_proto.cc`: the grammar of the BGP message
header and of OPEN, NOTIFICATION, KEEPALIVE and UPDATE over the encoders of
`base/proto.h`. The path attributes are encoded by the elements
`BgpPathAttributeList` has for each of them, its flags and its choice of
attribute types, which are a parameter here: `attrElements`. -/
namespace Contrail.Bgp

open Contrail.Base Evpn

/-- `BgpProto::OpenMessage`. -/
structure OpenMessage where
  asNum : Nat
  holdtime : Int
  identifier : Nat
  optParams : List OptParam

/-- `BgpProto::Notification`. -/
structure Notification where
  error : Int
  subcode : Int
  data : List UInt8

/-- `BgpProto::Update`. -/
structure Update where
  withdrawnRoutes : List BgpProtoPrefix
  pathAttributes : List BgpAttribute
  nlri : List BgpProtoPrefix

/-- The `BgpMessage` types by their dynamic type. -/
inductive BgpMessage
  | openMessage (msg : OpenMessage)
  | notification (msg : Notification)
  | keepalive
  | update (msg : Update)

namespace BgpProto

def BgpMarker {α : Type} : Encoder α :=
  ProtoElement.Encode (fun _ => 16) (fun _ => List.replicate 16 0xff) []

/-- `BgpMsgLength`: two zero bytes, and `SetLength` to store the length of the
message when the message's frame is popped. -/
def BgpMsgLength {α : Type} : Encoder α :=
  ProtoElement.Encode (fun _ => 2) (fun _ => List.replicate 2 0) [fun length _ _ => length]

def BgpOpenVersion : Encoder OpenMessage :=
  ProtoElement.Encode (fun _ => 1) (fun _ => [0x4]) []

def BgpOpenAsNum : Encoder OpenMessage := ProtoElement.fixed 2 (fun msg => msg.asNum)

def BgpHoldTime : Encoder OpenMessage := ProtoElement.fixed 2 (·.holdtime)

def BgpIdentifier : Encoder OpenMessage := ProtoElement.fixed 4 (fun msg => msg.identifier)

def BgpOpenCapabilityCode : Encoder Capability := ProtoElement.fixed 1 (fun cap => cap.code)

/-- `BgpOpenCapabilityLength`: a zero byte, and the `SequenceLength` callback. -/
def BgpOpenCapabilityLength : Encoder Capability :=
  ProtoElement.Encode (fun _ => 1) (fun _ => [0]) [ProtoElement.SequenceLengthWriteLen]

def BgpOpenCapabilityValue : Encoder Capability := ProtoElement.varLength (·.capability)

def BgpOpenCapabilities : Encoder OptParam :=
  ProtoSequence.Encode 1 (ProtoSequence.ListEncoder (·.capabilities)
    [BgpOpenCapabilityCode, BgpOpenCapabilityLength, BgpOpenCapabilityValue])

/-- `BgpOpenOptParamChoice`: `OPEN_OPT_CAPABILITIES`, which applies when the
parameter has capabilities. -/
def BgpOpenOptParamChoice : Encoder OptParam :=
  ProtoChoice.Encode 1
    [⟨2, fun param => if param.capabilities.isEmpty then none else some (BgpOpenCapabilities param)⟩]

def BgpOpenOptParam : Encoder OpenMessage :=
  ProtoSequence.Encode 1 (ProtoSequence.ListEncoder (·.optParams) [BgpOpenOptParamChoice])

def BgpOpenMessage : Encoder OpenMessage :=
  ProtoSequence.Encode 0 (ProtoSequence.SingleEncoder
    [BgpOpenVersion, BgpOpenAsNum, BgpHoldTime, BgpIdentifier, BgpOpenOptParam])

def NotificationErrorCode : Encoder Notification := ProtoElement.fixed 1 (·.error)

def NotificationErrorSubcode : Encoder Notification := ProtoElement.fixed 1 (·.subcode)

def NotificationData : Encoder Notification := ProtoElement.varLength (·.data)

def BgpNotificationMessage : Encoder Notification :=
  ProtoSequence.Encode 0 (ProtoSequence.SingleEncoder
    [NotificationErrorCode, NotificationErrorSubcode, NotificationData])

def BgpKeepaliveMessage : Encoder Unit :=
  ProtoSequence.Encode 0 (ProtoSequence.SingleEncoder [])

/-- `BgpPrefixLen`: its `Setter` overrides its `SequenceLength`, so no callback. -/
def BgpPrefixLen : Encoder BgpProtoPrefix := ProtoElement.fixed 1 (fun p => p.prefixlen)

def BgpPrefixAddress : Encoder BgpProtoPrefix := ProtoElement.varLength (·.bytes)

def BgpUpdateWithdrawnRoutes : Encoder Update :=
  ProtoSequence.Encode 2 (ProtoSequence.ListEncoder (·.withdrawnRoutes) [BgpPrefixLen, BgpPrefixAddress])

/-- `BgpPathAttributeList` with `attrElements`, the elements of each attribute. -/
def BgpPathAttributeList (attrElements : List (Encoder BgpAttribute)) : Encoder Update :=
  ProtoSequence.Encode 2 (ProtoSequence.ListEncoder (·.pathAttributes) attrElements)

def BgpUpdateNlri : Encoder Update :=
  ProtoSequence.Encode 0 (ProtoSequence.ListEncoder (·.nlri) [BgpPrefixLen, BgpPrefixAddress])

def BgpUpdateMessage (attrElements : List (Encoder BgpAttribute)) : Encoder Update :=
  ProtoSequence.Encode 0 (ProtoSequence.SingleEncoder
    [BgpUpdateWithdrawnRoutes, BgpPathAttributeList attrElements, BgpUpdateNlri])

/-- `BgpMsgType`: the message type, chosen by the dynamic type of the message. -/
def BgpMsgType (attrElements : List (Encoder BgpAttribute)) : Encoder BgpMessage :=
  ProtoChoice.Encode 1
    [⟨1, fun | .openMessage msg => some (BgpOpenMessage msg) | _ => none⟩,
     ⟨3, fun | .notification msg => some (BgpNotificationMessage msg) | _ => none⟩,
     ⟨4, fun | .keepalive => some (BgpKeepaliveMessage ()) | _ => none⟩,
     ⟨2, fun | .update msg => some (BgpUpdateMessage attrElements msg) | _ => none⟩]

def BgpProtocol (attrElements : List (Encoder BgpAttribute)) : Encoder BgpMessage :=
  ProtoSequence.Encode 0 (ProtoSequence.SingleEncoder [BgpMarker, BgpMsgLength, BgpMsgType attrElements])

/-- `BgpProto::Encode` into a buffer of `size` bytes: the result, and the bytes
stored, by position. -/
def Encode (attrElements : List (Encoder BgpAttribute)) (msg : BgpMessage) (size : Nat) :
    Int × List (Int × UInt8) :=
  let (result, ctx) := (BgpProtocol attrElements msg 0 size).run ⟨[], []⟩
  (result, ctx.writes)

/-- The run of an UPDATE with no withdrawn routes, attributes or NLRI in a
buffer of 19 to 22 bytes: the marker, the length and type fields, the two
length fields of `BgpUpdateWithdrawnRoutes` and `BgpPathAttributeList`, then
the message length 23 stored by `SetLength`. -/
theorem Encode_empty_update (attrElements : List (Encoder BgpAttribute)) (size : Nat)
    (fits : 19 ≤ size) (short : size < 23) :
    Encode attrElements (.update ⟨[], [], []⟩) size =
      (23, storeAt 0 (List.replicate 16 0xff) ++ storeAt 16 [0, 0, 2, 0, 0, 0, 0] ++ storeAt 16 [0, 23]) := by
  interval_cases size <;> rfl

/-- An UPDATE with no withdrawn routes, attributes or NLRI needs 23 bytes. In a
buffer of 19 to 22 bytes its header fits, so `BgpMsgType` does not fail, and
`BgpUpdateWithdrawnRoutes` and `BgpPathAttributeList` lower the `size_t` left
below zero for their length fields: the encoder answers 23 and stores bytes
past the buffer. -/
theorem encode_empty_update_overruns (attrElements : List (Encoder BgpAttribute)) (size : Nat)
    (fits : 19 ≤ size) (short : size < 23) :
    size < (Encode attrElements (.update ⟨[], [], []⟩) size).1 ∧
      ∃ written ∈ (Encode attrElements (.update ⟨[], [], []⟩) size).2, size ≤ written.1 := by
  rw [Encode_empty_update attrElements size fits short]
  refine ⟨by simp only; omega, (22, 0), by decide, by simp only; omega⟩

theorem encode_empty_update_overruns_nineteen :
    19 ≤ 19 ∧ 19 < 23 ∧
      19 < (Encode [] (.update ⟨[], [], []⟩) 19).1 ∧
      ∃ written ∈ (Encode [] (.update ⟨[], [], []⟩) 19).2, 19 ≤ written.1 :=
  ⟨by decide, by decide, encode_empty_update_overruns [] 19 (by decide) (by decide)⟩

end BgpProto

end Contrail.Bgp
