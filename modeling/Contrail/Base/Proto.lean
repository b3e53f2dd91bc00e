import Contrail.Lib.Bytes

/-! The encoders of `base/proto.h` over `EncodeContext` of `base/proto.cc`.

An encoder stores a message into the buffer at `data`, a position counted from
the start of the caller's buffer, with `size` bytes left there by its own count,
a `size_t`. The buffer is the log of the bytes stored into it. `data` is never
`NULL` here, so the branches that only measure a message are left out, and so
is `SaveOffset`, which stores nothing. An encoder's result is an `int`: the
bytes it took, or `-1`. -/
namespace Contrail.Base

/-- A conversion to `size_t`. -/
def toSize (value : Int) : Nat := (value % 2 ^ 64).toNat

/-- A conversion of a `size_t` to `int`. -/
def toInt (size : Nat) : Int := Int.bmod size (2 ^ 32)

/-- `size -= delta` on a `size_t`. -/
def sizeSub (size : Nat) (delta : Int) : Nat := toSize (size - delta)

/-- A callback of `EncodeContext::AddCallback`: when its frame is popped it
stores `width` bytes at `data`, the value it computes from the frame's length
then, the frame's offset when it was added, and `width`. -/
structure EncodeCallback where
  data : Int
  offset : Int
  width : Nat
  value : Int → Int → Nat → Int

structure EncodeFrame where
  offset : Int
  callbacks : List EncodeCallback

structure EncodeContext where
  /-- The frames, the top one first. -/
  stack : List EncodeFrame
  /-- Every byte stored into the buffer, with its position, in the order stored. -/
  writes : List (Int × UInt8)

/-- The positions and bytes of `bytes` stored from `data` on. -/
def storeAt (data : Int) : List UInt8 → List (Int × UInt8)
  | [] => []
  | byte :: rest => (data, byte) :: storeAt (data + 1) rest

namespace EncodeContext

def store (ctx : EncodeContext) (data : Int) (bytes : List UInt8) : EncodeContext :=
  { ctx with writes := ctx.writes ++ storeAt data bytes }

/-- `put_value` of `base/parse_object.h`: `width` bytes of the value as a
`uint64_t`, the most significant first. -/
def putValue (ctx : EncodeContext) (data : Int) (width : Nat) (value : Int) : EncodeContext :=
  ctx.store data (Bytes.putBE width (toSize value))

def Push (ctx : EncodeContext) : EncodeContext :=
  { ctx with stack := ⟨0, []⟩ :: ctx.stack }

/-- `Pop`: the callbacks of the top frame in the order they were added, all
reading its length, then its offset added to the frame below. -/
def Pop (ctx : EncodeContext) (callback : Bool) : EncodeContext :=
  match ctx.stack with
  | [] => ctx
  | frame :: rest =>
    let ctx := if callback then
        frame.callbacks.foldl (fun ctx cb =>
          ctx.putValue cb.data cb.width (cb.value frame.offset cb.offset cb.width)) ctx
      else ctx
    { ctx with stack :=
        match rest with
        | [] => []
        | top :: below => { top with offset := top.offset + frame.offset } :: below }

def advance (ctx : EncodeContext) (delta : Int) : EncodeContext :=
  match ctx.stack with
  | [] => ctx
  | top :: rest => { ctx with stack := { top with offset := top.offset + delta } :: rest }

def AddCallback (ctx : EncodeContext) (value : Int → Int → Nat → Int) (data : Int)
    (width : Nat) : EncodeContext :=
  match ctx.stack with
  | [] => ctx
  | top :: rest =>
    { ctx with stack := { top with callbacks := top.callbacks ++ [⟨data, top.offset, width, value⟩] } :: rest }

end EncodeContext

/-- An encoder of messages of type `α`: the message, `data` and `size`. -/
abbrev Encoder (α : Type) := α → Int → Nat → StateM EncodeContext Int

namespace ProtoElement

/-- `ProtoElement::Encode` of an element of `elementSize msg` bytes that its
`Writer` fills with `write msg`, after adding `callbacks`: the
`SequenceLength` callback of an element without a `Setter`, then its
`EncodingCallback`. -/
def Encode {α : Type} (elementSize : α → Nat) (write : α → List UInt8)
    (callbacks : List (Int → Int → Nat → Int)) : Encoder α := fun msg data size => do
  let elementSize := elementSize msg
  if size < elementSize then return -1
  for cb in callbacks do
    modify (·.AddCallback cb data elementSize)
  modify (·.store data (write msg))
  modify (·.advance elementSize)
  return elementSize

/-- `SequenceLengthWriteLen` of an element: what the frame took after it. -/
def SequenceLengthWriteLen (length offset : Int) (elementSize : Nat) : Int :=
  length - offset - elementSize

/-- An element of `kSize` bytes whose `Setter` gives the value `ApplyGetter` stores. -/
def fixed {α : Type} (kSize : Nat) (get : α → Int) : Encoder α :=
  Encode (fun _ => kSize) (fun msg => Bytes.putBE kSize (toSize (get msg))) []

/-- An element of size `-1`: `VariableLengthWriter` copies the bytes of its `Setter`. -/
def varLength {α : Type} (get : α → List UInt8) : Encoder α :=
  Encode (fun msg => (get msg).length) get []

end ProtoElement

namespace ProtoSequence

/-- `SequenceEncoder`: the elements in order, each at the data past the ones
before, skipped once one has failed. -/
def SequenceEncoder {α : Type} (elements : List (Encoder α)) (msg : α) :
    Int → Nat → Int → StateM EncodeContext Int :=
  go elements
where
  go : List (Encoder α) → Int → Nat → Int → StateM EncodeContext Int
  | [], _, _, result => pure result
  | element :: rest, data, size, result =>
    if result < 0 then pure result
    else do
      let res ← element msg data size
      go rest (data + res) (sizeSub size res) (if res < 0 then res else result + res)

def SingleEncoder {α : Type} (elements : List (Encoder α)) : Encoder α :=
  fun msg data size => SequenceEncoder elements msg data size 0

/-- `ListEncoder`: each child in a frame of its own, popped with its callbacks
once the child is encoded; a failed child ends the list. -/
def ListEncoder {α β : Type} (children : α → List β) (elements : List (Encoder β)) : Encoder α :=
  fun msg data size => go (children msg) data size 0
where
  go : List β → Int → Nat → Int → StateM EncodeContext Int
  | [], _, _, result => pure result
  | child :: rest, data, size, result => do
    modify EncodeContext.Push
    let subres ← SequenceEncoder elements child data size 0
    if subres < 0 then return subres
    modify (·.Pop true)
    go rest (data + subres) (sizeSub size subres) (result + subres)

/-- `SequenceLengthWriteLen` of a sequence: its length after the length field. -/
def SequenceLengthWriteLen (kSize : Nat) (length _ : Int) (_ : Nat) : Int :=
  length - kSize

/-- `ProtoSequence::Encode`: a frame for the sequence, its length field of
`kSize` bytes written by a callback when the frame is popped, then `encoder`
past it. `size` is lowered by `kSize` with no check that the field fits. -/
def Encode {α : Type} (kSize : Nat) (encoder : Encoder α) : Encoder α := fun msg data size => do
  modify EncodeContext.Push
  let (data, size) ← if kSize > 0 then do
      modify (·.AddCallback (SequenceLengthWriteLen kSize) data kSize)
      modify (·.advance kSize)
      pure (data + kSize, sizeSub size kSize)
    else pure (data, size)
  let result ← encoder msg data size
  if result ≥ 0 then
    modify (·.Pop true)
    return result + kSize
  else return result

end ProtoSequence

/-- One alternative of a `ProtoChoice`: its value, and the encoder of the
message when the alternative applies to it, by its `ContextType` or its
`ContextMatch`. -/
structure ProtoAlternative (α : Type) where
  opt : Int
  encode : α → Option (Int → Nat → StateM EncodeContext Int)

namespace ProtoChoice

/-- `EncoderTrue`: the value in a field of `kSize` bytes, then the alternative.
`size` is the choice's `int`. -/
def EncoderTrue (kSize : Nat) (opt : Int) (encode : Int → Nat → StateM EncodeContext Int)
    (data size : Int) : StateM EncodeContext Int :=
  if kSize ≠ 0 then
    if size < kSize then pure (-1)
    else do
      modify (·.putValue data kSize opt)
      modify (·.advance kSize)
      let result ← encode (data + kSize) (toSize (size - kSize))
      return if result ≥ 0 then result + kSize else result
  else do
    let result ← encode data (toSize size)
    return if result ≥ 0 then result + kSize else result

/-- `ProtoChoice::Encode`: the first alternative that applies and takes bytes or
fails decides; the others give 0. -/
def Encode {α : Type} (kSize : Nat) (alternatives : List (ProtoAlternative α)) : Encoder α :=
  fun msg data size => go alternatives msg data (toInt size)
where
  go : List (ProtoAlternative α) → α → Int → Int → StateM EncodeContext Int
  | [], _, _, _ => pure 0
  | alternative :: rest, msg, data, size =>
    match alternative.encode msg with
    | none => go rest msg data size
    | some encode => do
      let result ← EncoderTrue kSize alternative.opt encode data size
      if result = 0 then go rest msg data size else return result

end ProtoChoice

end Contrail.Base
