import Contrail.Lib.WordBits

/-! `BitSet` of `base/bitset.h` and `base/bitset.cc`: a vector of 64-bit blocks,
block `i` holding positions `64 * i` to `64 * i + 63`, which the operations
keep free of zero blocks at the end. Positions are `size_t`, here natural
numbers, with `npos` the largest `size_t`. The bit scans `find_first_set64`,
`find_last_set32` and `find_last_set64` and the population count
`num_bits_set` are the source's own; `ffs` is the C library's. A string is its
list of characters. `BuildComplement` and `BuildIntersection` write `*this`
from two operands and are functions of the operands here. -/
namespace Contrail.Base

open WordBits

/-- `static_cast<size_t>(-1)`. -/
def npos : Nat := 2 ^ 64 - 1

/-- `ffs` of the C library on an `int`: the position, counted from 1, of the
least significant set bit, or 0. -/
def ffs (value : BitVec 32) : Nat :=
  match BitScan.lowestSet? value with
  | some i => i + 1
  | none => 0

/-- `find_first_set64`: `ffs` on the low `int`, then on the high one. -/
def findFirstSet64 (value : BitVec 64) : Nat :=
  let lower := value.setWidth 32
  if ffs lower > 0 then ffs lower
  else
    let upper := (value >>> 32).setWidth 32
    if ffs upper > 0 then 32 + ffs upper else 0

def findFirstClear64 (value : BitVec 64) : Nat :=
  findFirstSet64 (~~~value)

/-- One of the five steps of `find_last_set32`: when the bits of `mask` are
clear, shift the value left by `shift` and lower `bit` by as much. -/
def lastSetStep (mask : BitVec 32) (shift : Nat) (state : BitVec 32 × Nat) : BitVec 32 × Nat :=
  if state.1 &&& mask = 0 then (state.1 <<< shift, state.2 - shift) else state

def findLastSet32 (value : BitVec 32) : Nat :=
  if value = 0 then 0
  else
    ((value, 32) |> lastSetStep 0xFFFF0000#32 16 |> lastSetStep 0xFF000000#32 8
      |> lastSetStep 0xF0000000#32 4 |> lastSetStep 0xC0000000#32 2
      |> lastSetStep 0x80000000#32 1).2

/-- `find_last_set64`: `find_last_set32` on the high half, then on the low one. -/
def findLastSet64 (value : BitVec 64) : Nat :=
  let upper := (value >>> 32).setWidth 32
  if findLastSet32 upper > 0 then 32 + findLastSet32 upper
  else
    let lower := value.setWidth 32
    if findLastSet32 lower > 0 then findLastSet32 lower else 0

/-- `num_bits_set`: clear the lowest set bit until the value is 0. -/
def numBitsSet (value : BitVec 64) : Nat :=
  if zero : value = 0 then 0 else numBitsSet (value &&& (value - 1#64)) + 1
termination_by value.toNat
decreasing_by
  rw [BitVec.toNat_and]
  calc value.toNat &&& (value - 1#64).toNat ≤ (value - 1#64).toNat := Nat.and_le_right
    _ < value.toNat := by
      rw [BitScan.toNat_sub_one zero]
      have : value.toNat ≠ 0 := fun none => zero (BitVec.eq_of_toNat_eq (by simpa using none))
      omega

def blockIndex (pos : Nat) : Nat := pos / 64

def blockOffset (pos : Nat) : Nat := pos % 64

def bitPosition (idx offset : Nat) : Nat := idx * 64 + offset

structure BitSet where
  blocks : List (BitVec 64)
  deriving DecidableEq, Repr

namespace BitSet

/-- Set the bit at `pos`, growing the vector if needed. -/
def set (b : BitSet) (pos : Nat) : BitSet :=
  let idx := blockIndex pos
  let blocks := if idx ≥ b.blocks.length then resize b.blocks (idx + 1) else b.blocks
  ⟨blocks.modify idx (· ||| 1#64 <<< blockOffset pos)⟩

/-- The loop of `compact` from block `idx` down to block 1, then block 0. -/
def compactFrom (blocks : List (BitVec 64)) : Nat → List (BitVec 64)
  | 0 => if blocks.getD 0 0 ≠ 0 then resize blocks 1 else []
  | idx + 1 =>
    if blocks.getD (idx + 1) 0 ≠ 0 then resize blocks (idx + 2) else compactFrom blocks idx

/-- Shrink the vector past its trailing zero blocks. -/
def compact (b : BitSet) : BitSet :=
  if b.blocks.length = 0 then b else ⟨compactFrom b.blocks (b.blocks.length - 1)⟩

/-- Reset the bit at `pos`, shrinking the vector if possible. -/
def reset (b : BitSet) (pos : Nat) : BitSet :=
  let idx := blockIndex pos
  if idx < b.blocks.length then
    compact ⟨b.blocks.modify idx (· &&& ~~~(1#64 <<< blockOffset pos))⟩
  else b

def test (b : BitSet) (pos : Nat) : Bool :=
  let idx := blockIndex pos
  if idx < b.blocks.length then (b.blocks.getD idx 0 &&& 1#64 <<< blockOffset pos) != 0
  else false

def clear (_ : BitSet) : BitSet := ⟨[]⟩

def empty (b : BitSet) : Bool := b.blocks.length == 0

def size (b : BitSet) : Nat := b.blocks.length * 64

def count (b : BitSet) : Nat :=
  b.blocks.foldl (fun count block => count + numBitsSet block) 0

/-- The loop over the blocks from `idx` on of `find_first`, `find_next`,
`find_first_clear` and `find_next_clear`: the position of the bit `scan` finds
in the first block where it finds one. -/
def scanBlocks (scan : BitVec 64 → Nat) : List (BitVec 64) → Nat → Option Nat
  | [], _ => none
  | block :: rest, idx =>
    if scan block > 0 then some (bitPosition idx (scan block - 1))
    else scanBlocks scan rest (idx + 1)

def findFirst (b : BitSet) : Nat :=
  (scanBlocks findFirstSet64 b.blocks 0).getD npos

/-- `find_next` and `find_next_clear`: `beyond` when the block of `pos` is past
the vector, else `scan` on that block with the bits up to `pos` masked by
`masked`, then on the following blocks, and `notFound` when neither finds a bit. -/
def findNextWith (scan : BitVec 64 → Nat) (masked : BitVec 64 → BitVec 64 → BitVec 64)
    (beyond notFound : Nat) (b : BitSet) (pos : Nat) : Nat :=
  let idx := blockIndex pos
  if idx ≥ b.blocks.length then beyond
  else
    -- a mask of the bits from 0 through the offset, skipped when it would be all of them
    let inBlock :=
      if blockOffset pos < 63 then
        let bit := scan (masked (b.blocks.getD idx 0) ((1#64 <<< (blockOffset pos + 1)) - 1#64))
        if bit > 0 then some (bitPosition idx (bit - 1)) else none
      else none
    (inBlock <|> scanBlocks scan (b.blocks.drop (idx + 1)) (idx + 1)).getD notFound

def findNext (b : BitSet) (pos : Nat) : Nat :=
  findNextWith findFirstSet64 (fun block mask => block &&& ~~~mask) npos npos b pos

/-- `find_last`: only the last block, which is never zero, is looked at. -/
def findLast (b : BitSet) : Nat :=
  match b.blocks.getLast? with
  | none => npos
  | some block =>
    let bit := findLastSet64 block
    if bit > 0 then bitPosition (b.blocks.length - 1) (bit - 1) else npos

def findFirstClear (b : BitSet) : Nat :=
  (scanBlocks findFirstClear64 b.blocks 0).getD b.size

/-- `find_next_clear`: past the vector it returns the `size_t` sum `pos + 1`,
which wraps to 0 at `npos`. -/
def findNextClear (b : BitSet) (pos : Nat) : Nat :=
  findNextWith findFirstClear64 (fun block mask => block ||| mask) ((pos + 1) % 2 ^ 64) b.size b pos

def intersects (b rhs : BitSet) : Bool :=
  (List.zipWith (· &&& ·) b.blocks rhs.blocks).any (· != 0)

/-- `operator==`: the vectors compared block by block. -/
def beq (b rhs : BitSet) : Bool :=
  b.blocks.length == rhs.blocks.length && (List.zipWith (· == ·) b.blocks rhs.blocks).all id

/-- `operator|`: the common blocks or-ed, then the blocks of the longer operand. -/
def or (b rhs : BitSet) : BitSet :=
  let minsize := min b.blocks.length rhs.blocks.length
  ⟨List.zipWith (· ||| ·) b.blocks rhs.blocks ++ b.blocks.drop minsize ++ rhs.blocks.drop minsize⟩

/-- `operator&=`: the common blocks and-ed, the others zeroed, then `compact`. -/
def andAssign (b rhs : BitSet) : BitSet :=
  let minsize := min b.blocks.length rhs.blocks.length
  compact ⟨List.zipWith (· &&& ·) b.blocks rhs.blocks ++
    List.replicate (b.blocks.length - minsize) 0⟩

/-- `operator|=`: grow to the longer vector, then or in the blocks of `rhs`. -/
def orAssign (b rhs : BitSet) : BitSet :=
  let blocks := if b.blocks.length < rhs.blocks.length then resize b.blocks rhs.blocks.length
    else b.blocks
  ⟨List.zipWith (· ||| ·) blocks rhs.blocks ++ blocks.drop rhs.blocks.length⟩

def Set (b rhs : BitSet) : BitSet := b.orAssign rhs

/-- The blocks of `lhs & ~rhs` before `compact`, as `Reset` and
`BuildComplement` write them: the common blocks, then the rest of `lhs`. -/
def andNotBlocks (lhs rhs : List (BitVec 64)) : List (BitVec 64) :=
  List.zipWith (fun x y => x &&& ~~~y) lhs rhs ++ lhs.drop (min lhs.length rhs.length)

def Reset (b rhs : BitSet) : BitSet := compact ⟨andNotBlocks b.blocks rhs.blocks⟩

def BuildComplement (lhs rhs : BitSet) : BitSet := compact ⟨andNotBlocks lhs.blocks rhs.blocks⟩

/-- Block `idx` of `BuildIntersection`: a nonzero intersection is stored, the
vector first sized to `idx + 1` if it is still empty. -/
def intersectStep (lhs rhs : List (BitVec 64)) (blocks : List (BitVec 64)) (idx : Nat) :
    List (BitVec 64) :=
  let meet := lhs.getD idx 0 &&& rhs.getD idx 0
  if meet ≠ 0 then
    (if blocks.length = 0 then resize blocks (idx + 1) else blocks).set idx meet
  else blocks

/-- The loop of `BuildIntersection` from block `idx` down to block 1. -/
def intersectDown (lhs rhs : List (BitVec 64)) (blocks : List (BitVec 64)) :
    Nat → List (BitVec 64)
  | 0 => blocks
  | idx + 1 => intersectDown lhs rhs (intersectStep lhs rhs blocks (idx + 1)) idx

def BuildIntersection (lhs rhs : BitSet) : BitSet :=
  let minsize := min lhs.blocks.length rhs.blocks.length
  if minsize = 0 then ⟨[]⟩
  else ⟨intersectStep lhs.blocks rhs.blocks (intersectDown lhs.blocks rhs.blocks [] (minsize - 1)) 0⟩

/-- `operator&`. -/
def and (b rhs : BitSet) : BitSet := BuildIntersection b rhs

/-- `Contains`: no block of `rhs` has a bit outside `*this`. -/
def Contains (b rhs : BitSet) : Bool :=
  if b.blocks.length < rhs.blocks.length then false
  else (List.zipWith (fun r x => r &&& ~~~x) rhs.blocks b.blocks).all (· == 0)

/-- The loop of `FromString` from `str_idx` down to 1. -/
def fromStringDown (str : List Char) (b : BitSet) : Nat → BitSet
  | 0 => b
  | idx + 1 => fromStringDown str (if str.getD (idx + 1) '0' = '1' then b.set (idx + 1) else b) idx

def FromString (str : List Char) : BitSet :=
  if str.length = 0 then ⟨[]⟩
  else
    let b := fromStringDown str ⟨[]⟩ (str.length - 1)
    if str.getD 0 '0' = '1' then b.set 0 else b

def none (b : BitSet) : Bool := b.blocks.length == 0

def any (b : BitSet) : Bool := b.blocks.length != 0

end BitSet

end Contrail.Base
