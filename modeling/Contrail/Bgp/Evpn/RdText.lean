import Mathlib
import Contrail.Bgp.Evpn.FieldText

/-! `RouteDistinguisher::ToString` and `FromString` of `net/rd.cc`. `ToString` writes one of four
formats, chosen by the type in the first two bytes. `FromString` reads two of them: the text
before the last `:` is an IPv4 address for a type-1 RD, or else a number below 65535 for a
type-0 one. A type-2 RD therefore never reads back. The number is read with `strtol`, which
takes blanks and a sign, so some texts it accepts are read as RDs whose own text it refuses. -/
namespace Contrail.Bgp.Evpn

open Bytes CText InetText Contrail.Base

namespace RouteDistinguisher

/-- `RDType`. -/
def Type2ByteASBased : Nat := 0
def TypeIpAddressBased : Nat := 1
def Type4ByteASBased : Nat := 2

/-- `Type()`: `get_value(data_, 2)`. -/
def type (rd : RouteDistinguisher) : Nat := (fieldValue rd.getData 0 2).val

/-- `ToString`: `%u:%u` for a type-0 or type-2 RD, the address and `:%u` for a type-1 RD, and
the type and the six bytes `%02x` for any other. -/
def toString (rd : RouteDistinguisher) : List Char :=
  let data := rd.getData
  let rdType := (fieldValue data 0 2).val
  if rdType = Type2ByteASBased then
    integerToString (fieldValue data 2 2).val ++ ':' :: integerToString (fieldValue data 4 4).val
  else if rdType = TypeIpAddressBased then
    Ip4Address.toString (fieldValue data 2 4) ++ ':' :: integerToString (fieldValue data 6 2).val
  else if rdType = Type4ByteASBased then
    integerToString (fieldValue data 2 4).val ++ ':' :: integerToString (fieldValue data 6 2).val
  else
    integerToString rdType ++ (data.drop 2).flatMap fun byte => ':' :: hex2 byte.toNat

/-- The text before the last `:`. An IPv4 address begins a type-1 RD; otherwise `strtol` must
read all of it, into `int32_t asn`, a value below 65535 that begins a type-0 RD. The bytes
begun, `asn` (`-1` for an address) and the offset of the assigned number. -/
def administrator (first : List Char) : Option (List UInt8 × Int × Nat) :=
  match Ip4Address.fromString first with
  | some addr => some (putBE 2 1 ++ putBE 4 addr.val, -1, 6)
  | none =>
    let asn := (strtol first).1.bmod (2 ^ 32)
    if 65535 ≤ asn ∨ (strtol first).2 ≠ [] then none
    else some (putBE 2 0 ++ putBE 2 (asn % 2 ^ 64).toNat, asn, 4)

/-- The text after the last `:`, read by `strtol` into `uint64_t value` and checked against
`asn` and the room left after `offset`. -/
def assigned (front : List UInt8) (asn : Int) (offset : Nat) (second : List Char) :
    Option RouteDistinguisher :=
  let value := ((strtol second).1 % 2 ^ 64).toNat
  if (strtol second).2 ≠ [] then none
  else if asn = 0 ∧ value ≠ 0 then none
  else if offset = 4 ∧ 0xFFFFFFFF < value then none
  else if offset = 6 ∧ 0xFFFF < value then none
  else some (ofBytes (front ++ putBE (8 - offset) value))

/-- `FromString(str, errorp)`; `none` when it sets `*errorp` and returns `kZeroRd`. -/
def fromString (str : List Char) : Option RouteDistinguisher :=
  match rfind str ':' with
  | none => none
  | some pos =>
    match administrator (str.take pos) with
    | none => none
    | some (front, asn, offset) => assigned front asn offset (str.drop (pos + 1))

/-! ### The data as a number -/

theorem ext_val {rd rd' : RouteDistinguisher} (same : rd.data.val = rd'.data.val) : rd = rd' := by
  cases rd
  cases rd'
  exact congrArg mk (Fin.ext same)

theorem val_ofBytes {bytes : List UInt8} (length : bytes.length = 8) :
    (ofBytes bytes).data.val = valueBE bytes :=
  takeWord_val_of_length length

theorem fieldValue_getData (rd : RouteDistinguisher) {offset size : Nat}
    (inside : offset + size ≤ 8) : (fieldValue rd.getData offset size).val =
      rd.data.val / 256 ^ (8 - offset - size) % 256 ^ size :=
  fieldValue_putBE inside _

/-- The type of the bytes an RD is built from is their first two. -/
theorem type_ofBytes (rdType : Nat) {rest : List UInt8} (length : rest.length = 6) :
    (ofBytes (putBE 2 rdType ++ rest)).type = rdType % 65536 := by
  have low := valueBE_lt rest
  rw [type, fieldValue_getData _ (by decide), val_ofBytes (by simp [length]), valueBE_append,
    valueBE_putBE, length]
  simp only [length] at low
  omega

/-! ### What `FromString` reads -/

theorem administrator_eq_some {first : List Char} {front : List UInt8} {asn : Int} {offset : Nat}
    (read : administrator first = some (front, asn, offset)) :
    (∃ addr, front = putBE 2 1 ++ putBE 4 addr ∧ offset = 6) ∨
      (∃ number, front = putBE 2 0 ++ putBE 2 number ∧ offset = 4) := by
  unfold administrator at read
  split at read
  · cases read
    exact .inl ⟨_, rfl, rfl⟩
  · dsimp only at read
    split_ifs at read
    cases read
    exact .inr ⟨_, rfl, rfl⟩

theorem assigned_eq_some {front : List UInt8} {asn : Int} {offset : Nat} {second : List Char}
    {rd : RouteDistinguisher} (read : assigned front asn offset second = some rd) :
    ∃ value, rd = ofBytes (front ++ putBE (8 - offset) value) := by
  unfold assigned at read
  dsimp only at read
  split_ifs at read
  cases read
  exact ⟨_, rfl⟩

/-- `FromString` builds type-0 and type-1 RDs only. -/
theorem type_of_fromString {str : List Char} {rd : RouteDistinguisher}
    (read : fromString str = some rd) : rd.type = Type2ByteASBased ∨ rd.type = TypeIpAddressBased := by
  unfold fromString at read
  split at read
  · cases read
  · split at read
    · cases read
    · rename_i begun
      obtain ⟨value, rfl⟩ := assigned_eq_some read
      rcases administrator_eq_some begun with ⟨addr, rfl, rfl⟩ | ⟨number, rfl, rfl⟩
      · right
        rw [List.append_assoc, type_ofBytes _ (by simp)]
        rfl
      · left
        rw [List.append_assoc, type_ofBytes _ (by simp)]
        rfl

/-- The text `ToString` writes ends in `:` and the digits of the assigned number, so
`FromString` splits it at that `:`. -/
theorem fromString_append_number (first : List Char) (n : Nat) :
    fromString (first ++ ':' :: integerToString n) =
      match administrator first with
      | none => none
      | some (front, asn, offset) => assigned front asn offset (integerToString n) := by
  have colon : ':' ∉ integerToString n := not_mem_integerToString (by decide) n
  rw [fromString, rfind_append_cons colon]
  dsimp only
  rw [List.take_left' rfl]
  simp

theorem administrator_address (addr : Word 4) :
    administrator (Ip4Address.toString addr) = some (putBE 2 1 ++ putBE 4 addr.val, -1, 6) := by
  simp [administrator, Ip4Address.fromString_toString]

/-- `strtol` reads a number that fits `int32_t` back, and the bound 65535 decides. -/
theorem administrator_number {n : Nat} (small : n < 2 ^ 31) :
    administrator (integerToString n) =
      if 65535 ≤ n then none else some (putBE 2 0 ++ putBE 2 n, (n : Int), 4) := by
  have noDots : (integerToString n).count '.' = 0 :=
    List.count_eq_zero.mpr (not_mem_integerToString (by decide) n)
  have notQuad : Ip4Address.fromString (integerToString n) = none :=
    Ip4Address.fromString_of_count_dot_lt (by rw [noDots]; decide)
  have long : (n : Int) ≤ LONG_MAX := by
    simp only [LONG_MAX]
    omega
  have read := strtol_toDigits long stops_nil
  have asn := atoi_toDigits small stops_nil
  rw [List.append_nil] at read asn
  rw [atoi, read] at asn
  rw [administrator, notQuad]
  dsimp only
  rw [integerToString, read]
  dsimp only
  have kept : ((n : Int) % 2 ^ 64).toNat = n := by omega
  rw [asn, kept]
  by_cases big : 65535 ≤ n
  · simp [big]
  · simp [big]

/-- The assigned number `ToString` writes is read back and checked. -/
theorem assigned_number (front : List UInt8) (asn : Int) (offset : Nat) {value : Nat}
    (small : value < 2 ^ 32) : assigned front asn offset (integerToString value) =
      if asn = 0 ∧ value ≠ 0 ∨ offset = 4 ∧ 0xFFFFFFFF < value ∨ offset = 6 ∧ 0xFFFF < value then
        none
      else some (ofBytes (front ++ putBE (8 - offset) value)) := by
  have long : (value : Int) ≤ LONG_MAX := by
    simp only [LONG_MAX]
    omega
  have read := strtol_toDigits long stops_nil
  rw [List.append_nil] at read
  have kept : ((value : Int) % 2 ^ 64).toNat = value := by omega
  simp only [assigned, integerToString, read, kept, ne_eq, not_true_eq_false, if_false]
  split_ifs <;> first | rfl | omega

/-! ### Reading back what `ToString` writes -/

section Layouts

variable (rd : RouteDistinguisher)

/-- A type-0 RD is its type, a two-byte number and a four-byte one. -/
theorem ofBytes_type0_fields (zero : rd.type = Type2ByteASBased) :
    ofBytes (putBE 2 0 ++ putBE 2 (fieldValue rd.getData 2 2).val ++
      putBE 4 (fieldValue rd.getData 4 4).val) = rd := by
  have bound := rd.data.isLt
  have leading : rd.data.val / 256 ^ 6 % 256 ^ 2 = 0 := by
    have typed := zero
    rw [type, fieldValue_getData _ (by decide)] at typed
    exact typed
  apply ext_val
  rw [val_ofBytes (by simp), valueBE_append, valueBE_append, valueBE_putBE, valueBE_putBE,
    valueBE_putBE, fieldValue_getData _ (by decide), fieldValue_getData _ (by decide)]
  simp only [length_putBE] at bound leading ⊢
  omega

/-- A type-1 RD is its type, a four-byte address and a two-byte number. -/
theorem ofBytes_type1_fields (one : rd.type = TypeIpAddressBased) :
    ofBytes (putBE 2 1 ++ putBE 4 (fieldValue rd.getData 2 4).val ++
      putBE 2 (fieldValue rd.getData 6 2).val) = rd := by
  have bound := rd.data.isLt
  have leading : rd.data.val / 256 ^ 6 % 256 ^ 2 = 1 := by
    have typed := one
    rw [type, fieldValue_getData _ (by decide)] at typed
    exact typed
  apply ext_val
  rw [val_ofBytes (by simp), valueBE_append, valueBE_append, valueBE_putBE, valueBE_putBE,
    valueBE_putBE, fieldValue_getData _ (by decide), fieldValue_getData _ (by decide)]
  simp only [length_putBE] at bound leading ⊢
  omega

theorem toString_of_type0 (zero : rd.type = Type2ByteASBased) :
    rd.toString = integerToString (fieldValue rd.getData 2 2).val ++ ':' ::
      integerToString (fieldValue rd.getData 4 4).val := by
  have leading : (fieldValue rd.getData 0 2).val = Type2ByteASBased := zero
  simp only [toString, leading, if_true]

theorem toString_of_type1 (one : rd.type = TypeIpAddressBased) :
    rd.toString = Ip4Address.toString (fieldValue rd.getData 2 4) ++ ':' ::
      integerToString (fieldValue rd.getData 6 2).val := by
  have leading : (fieldValue rd.getData 0 2).val = TypeIpAddressBased := one
  simp [toString, leading, Type2ByteASBased, TypeIpAddressBased]

/-- A type-0 RD reads back unless its number is 65535, or it is 0 with a non-zero assigned
number: `FromString` refuses both. -/
theorem fromString_toString_of_type0 (zero : rd.type = Type2ByteASBased) :
    fromString rd.toString = some rd ↔ (fieldValue rd.getData 2 2).val < 65535 ∧
      ((fieldValue rd.getData 2 2).val = 0 → (fieldValue rd.getData 4 4).val = 0) := by
  have asnSmall := (fieldValue rd.getData 2 2).isLt
  have valueSmall := (fieldValue rd.getData 4 4).isLt
  rw [toString_of_type0 rd zero, fromString_append_number,
    administrator_number (by simp at asnSmall; omega)]
  by_cases big : 65535 ≤ (fieldValue rd.getData 2 2).val
  · simp only [big, if_true]
    simp only [reduceCtorEq, false_iff, not_and]
    omega
  · simp only [big, if_false]
    rw [assigned_number _ _ _ (by simp at valueSmall; omega)]
    have built := ofBytes_type0_fields rd zero
    by_cases refused : (fieldValue rd.getData 2 2).val = 0 ∧ (fieldValue rd.getData 4 4).val ≠ 0
    · rw [if_pos (.inl (by exact_mod_cast refused))]
      simp only [reduceCtorEq, false_iff, not_and]
      omega
    · rw [if_neg (by simp at valueSmall ⊢; omega), built]
      simp only [true_iff]
      omega

/-- A type-1 RD always reads back. -/
theorem fromString_toString_of_type1 (one : rd.type = TypeIpAddressBased) :
    fromString rd.toString = some rd := by
  have valueSmall := (fieldValue rd.getData 6 2).isLt
  rw [toString_of_type1 rd one, fromString_append_number, administrator_address]
  dsimp only
  rw [assigned_number _ _ _ (by simp at valueSmall; omega),
    if_neg (by simp at valueSmall ⊢; omega)]
  exact congrArg some (ofBytes_type1_fields rd one)

/-- No type-2 RD reads back. -/
theorem fromString_ne_of_type2 (two : rd.type = Type4ByteASBased) (str : List Char) :
    fromString str ≠ some rd := fun read => by
  rcases type_of_fromString read with same | same <;>
    simp [same, Type2ByteASBased, TypeIpAddressBased, Type4ByteASBased] at two

end Layouts

/-! ### The characters of the text -/

/-- The bytes past the type, each as `:` and two hexadecimal digits. -/
theorem not_mem_hexBytes {ch : Char} (colon : ch ≠ ':') (digit : ∀ d < 16, Nat.digitChar d ≠ ch)
    (data : List UInt8) : ch ∉ data.flatMap fun byte => ':' :: hex2 byte.toNat := by
  simp only [List.mem_flatMap, List.mem_cons, hex2, List.not_mem_nil, not_exists, not_and]
  intro byte _ mem
  have small := byte.toNat_lt
  rcases mem with same | same | same | never
  · exact colon same
  · exact digit _ (by omega) same.symm
  · exact digit _ (by omega) same.symm
  · exact never

/-- The text holds digits, dots and colons only. -/
theorem not_mem_toString {ch : Char} (colon : ch ≠ ':') (dot : ch ≠ '.')
    (digit : ∀ d < 16, Nat.digitChar d ≠ ch) (rd : RouteDistinguisher) : ch ∉ rd.toString := by
  have number (n : Nat) : ch ∉ integerToString n :=
    not_mem_integerToString (fun d small => digit d (by omega)) n
  have address (addr : Word 4) : ch ∉ Ip4Address.toString addr :=
    not_mem_inetNtop4 dot fun d small => digit d (by omega)
  unfold toString
  dsimp only
  split_ifs <;>
    simp [number, address, not_mem_hexBytes colon digit, colon]

theorem length_integerToString_word {size : Nat} (word : Word size) (le : size ≤ 4) :
    (integerToString word.val).length ≤ 10 := by
  have fits : word.val < 256 ^ 4 :=
    lt_of_lt_of_le word.isLt (Nat.pow_le_pow_right (by decide) le)
  exact length_integerToString_le (by decide) (lt_trans fits (by decide))

theorem length_toString_le (rd : RouteDistinguisher) : rd.toString.length ≤ 28 := by
  have words (offset size : Nat) (le : size ≤ 4) :=
    length_integerToString_word (fieldValue rd.getData offset size) le
  have address (addr : Word 4) : (Ip4Address.toString addr).length ≤ 15 :=
    length_inetNtop4_le (fieldBytes_lt _ _)
  have bytes : ((rd.getData.drop 2).flatMap fun byte => ':' :: hex2 byte.toNat).length = 18 := by
    simp [List.length_flatMap, hex2, getData]
  have type := words 0 2 (by decide)
  have first := words 2 2 (by decide)
  have second := words 4 4 (by decide)
  have third := words 2 4 (by decide)
  have fourth := words 6 2 (by decide)
  have addr := address (fieldValue rd.getData 2 4)
  unfold toString
  dsimp only
  split_ifs <;> simp only [List.length_append, List.length_cons, bytes] <;> omega

/-- Which RDs of the three types read back from their text. -/
theorem fromString_toString_iff {rd : RouteDistinguisher} (known : rd.type ≤ Type4ByteASBased) :
    fromString rd.toString = some rd ↔ rd.type = TypeIpAddressBased ∨
      rd.type = Type2ByteASBased ∧ (fieldValue rd.getData 2 2).val < 65535 ∧
        ((fieldValue rd.getData 2 2).val = 0 → (fieldValue rd.getData 4 4).val = 0) := by
  have cases : rd.type = Type2ByteASBased ∨ rd.type = TypeIpAddressBased ∨
      rd.type = Type4ByteASBased := by
    simp only [Type2ByteASBased, TypeIpAddressBased, Type4ByteASBased] at known ⊢
    omega
  rcases cases with zero | one | two
  · rw [fromString_toString_of_type0 rd zero]
    simp [zero, Type2ByteASBased, TypeIpAddressBased]
  · simp [fromString_toString_of_type1 rd one, one]
  · simp [fromString_ne_of_type2 rd two, two, Type2ByteASBased, TypeIpAddressBased,
      Type4ByteASBased]

/-- The RD text codec: of the RDs of types 0, 1 and 2 exactly the type-1 ones and the type-0 ones
whose number is below 65535, and not 0 beside a non-zero assigned number, read back from their
text; and `-1:0`, which `strtol` reads as the number `-1`, is accepted as a type-0 RD whose text
`65535:0` is refused. -/
theorem rd_text_codec_diverges :
    (∀ rd : RouteDistinguisher, rd.type ≤ Type4ByteASBased →
      (fromString rd.toString = some rd ↔ rd.type = TypeIpAddressBased ∨
        rd.type = Type2ByteASBased ∧ (fieldValue rd.getData 2 2).val < 65535 ∧
          ((fieldValue rd.getData 2 2).val = 0 → (fieldValue rd.getData 4 4).val = 0))) ∧
    fromString "-1:0".toList = some ⟨⟨0xFFFF00000000, by decide⟩⟩ ∧
    RouteDistinguisher.toString ⟨⟨0xFFFF00000000, by decide⟩⟩ = "65535:0".toList ∧
    fromString "65535:0".toList = none :=
  ⟨fun _ known => fromString_toString_iff known, by decide, by decide, by decide⟩

end RouteDistinguisher

end Contrail.Bgp.Evpn
