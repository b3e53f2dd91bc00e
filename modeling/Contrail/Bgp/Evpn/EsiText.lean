import Mathlib
import Contrail.Bgp.Evpn.FieldText

/-! `EthernetSegmentId::ToString` and `FromString` of `net/esi.cc`. `ToString` names the zero and
the maximal ESI, writes an AS-based or IP-based ESI as its number or address and its
discriminator, and any other as its ten bytes; the reserved last byte of the first two kinds is
not written. `FromString` chooses the format by the number of colons and dots. In the AS-based
and IP-based formats a field that does not read returns `kMaxEsi` only when the caller passes
`errorp`: without it the ESI is built from what the field parsers left. -/
namespace Contrail.Bgp.Evpn

open Bytes CText InetText Contrail.Base

namespace EthernetSegmentId

/-- The values of `EsiType` that `ToString` and `FromString` tell apart. -/
def IP_BASED : Nat := 4
def AS_BASED : Nat := 5

/-- `kMaxEsi`: ten bytes `0xFF`. -/
def kMaxEsi : EthernetSegmentId := ofBytes (List.replicate kSize 0xFF)

/-- `Type()`: `data_[0]`. -/
def type (esi : EthernetSegmentId) : Nat := (fieldValue esi.getData 0 1).val

/-- `ToString`. -/
def toString (esi : EthernetSegmentId) : List Char :=
  if esi = kZeroEsi then "zero_esi".toList
  else if esi = kMaxEsi then "max_esi".toList
  else
    let data := esi.getData
    if (fieldValue data 0 1).val = AS_BASED then
      integerToString (fieldValue data 1 4).val ++ ':' :: integerToString (fieldValue data 5 4).val
    else if (fieldValue data 0 1).val = IP_BASED then
      Ip4Address.toString (fieldValue data 1 4) ++ ':' :: integerToString (fieldValue data 5 4).val
    else hexFields (data.map UInt8.toNat)

/-- `data[0]` and `data[1..4]` of the AS-based or IP-based format, and whether the field read:
with no dots a number, with three an address. -/
def firstField (asnOrIp : List Char) : List UInt8 × Bool :=
  if asnOrIp.count '.' = 0 then
    (putBE 1 AS_BASED ++ putBE 4 (stringToInteger 32 asnOrIp).2, (stringToInteger 32 asnOrIp).1)
  else
    match Ip4Address.fromString asnOrIp with
    | some addr => (putBE 1 IP_BASED ++ putBE 4 addr.val, true)
    | none => (putBE 1 IP_BASED ++ putBE 4 0, false)

/-- The AS-based and IP-based formats: the number or address before the `:` and the
discriminator after it. The ESI and whether `*errorp` is set; with no `errorp` a field that does
not read keeps what `stringToInteger` or `from_string` left, `0.0.0.0` for an address. -/
def fromNumbers (asnOrIp discStr : List Char) (errorp : Bool) : EthernetSegmentId × Bool :=
  let numDots := asnOrIp.count '.'
  if numDots ≠ 0 ∧ numDots ≠ 3 then (kMaxEsi, errorp)
  else if !(firstField asnOrIp).2 && errorp then (kMaxEsi, true)
  else if !(stringToInteger 32 discStr).1 && errorp then (kMaxEsi, true)
  else (ofBytes ((firstField asnOrIp).1 ++ putBE 4 (stringToInteger 32 discStr).2 ++ [0]), false)

/-- `FromString(str, errorp)`: the ESI and whether `*errorp` is set, where `errorp` says whether
the caller passed one. -/
def fromString (str : List Char) (errorp : Bool) : EthernetSegmentId × Bool :=
  if str = "zero_esi".toList then (kZeroEsi, false)
  else if str = "max_esi".toList then (kMaxEsi, false)
  else
    let numColons := str.count ':'
    if numColons ≠ 1 ∧ numColons ≠ 9 then (kMaxEsi, errorp)
    else if numColons = 1 then
      -- the colon is there, as the `assert` says
      match find str ':' with
      | some pos => fromNumbers (str.take pos) (str.drop (pos + 1)) errorp
      | none => (kMaxEsi, errorp)
    else
      match scanHexBytes 9 str with
      | some bytes => (ofBytes (bytes.map UInt8.ofNat), false)
      | none => (kMaxEsi, errorp)

/-! ### The branches of `FromString` -/

section Branches

variable {str : List Char} (errorp : Bool)

theorem fromString_of_colons (zero : str ≠ "zero_esi".toList) (max : str ≠ "max_esi".toList)
    (bad : str.count ':' ≠ 1 ∧ str.count ':' ≠ 9) : fromString str errorp = (kMaxEsi, errorp) := by
  rw [fromString, if_neg zero, if_neg max]
  exact if_pos bad

theorem fromString_of_one_colon (zero : str ≠ "zero_esi".toList) (max : str ≠ "max_esi".toList)
    (one : str.count ':' = 1) : fromString str errorp =
      fromNumbers (str.take (str.idxOf ':')) (str.drop (str.idxOf ':' + 1)) errorp := by
  have present : ':' ∈ str := List.count_pos_iff.mp (by omega)
  have notBad : ¬(str.count ':' ≠ 1 ∧ str.count ':' ≠ 9) := fun bad => bad.1 one
  rw [fromString, if_neg zero, if_neg max]
  dsimp only
  rw [if_neg notBad, if_pos one, find, if_pos present]

theorem fromString_of_nine_colons (zero : str ≠ "zero_esi".toList) (max : str ≠ "max_esi".toList)
    (nine : str.count ':' = 9) : fromString str errorp =
      ((scanHexBytes 9 str).map fun bytes => (ofBytes (bytes.map UInt8.ofNat), false)).getD
        (kMaxEsi, errorp) := by
  have notBad : ¬(str.count ':' ≠ 1 ∧ str.count ':' ≠ 9) := fun bad => bad.2 nine
  rw [fromString, if_neg zero, if_neg max]
  dsimp only
  rw [if_neg notBad, if_neg (by omega)]
  cases scanHexBytes 9 str <;> rfl

end Branches

/-! ### Errors -/

/-- Every branch that sets `*errorp` returns `kMaxEsi`. -/
theorem fromNumbers_error {asnOrIp discStr : List Char} {errorp : Bool}
    (set : (fromNumbers asnOrIp discStr errorp).2 = true) :
    (fromNumbers asnOrIp discStr errorp).1 = kMaxEsi := by
  unfold fromNumbers at set ⊢
  dsimp only at set ⊢
  split_ifs at set ⊢ <;> rfl

theorem fromString_error {str : List Char} {errorp : Bool}
    (set : (fromString str errorp).2 = true) : (fromString str errorp).1 = kMaxEsi := by
  by_cases zero : str = "zero_esi".toList
  · simp [fromString, zero] at set
  by_cases max : str = "max_esi".toList
  · simp [fromString, max]
  by_cases bad : str.count ':' ≠ 1 ∧ str.count ':' ≠ 9
  · rw [fromString_of_colons errorp zero max bad]
  by_cases one : str.count ':' = 1
  · rw [fromString_of_one_colon errorp zero max one] at set ⊢
    exact fromNumbers_error set
  · rw [fromString_of_nine_colons errorp zero max (by omega)] at set ⊢
    cases scanned : scanHexBytes 9 str <;> simp [scanned] at set ⊢

/-- Without `errorp` the AS-based and IP-based formats give what they give with it, wherever
they read without an error. -/
theorem fromNumbers_agree {asnOrIp discStr : List Char}
    (accepted : (fromNumbers asnOrIp discStr true).2 = false) :
    (fromNumbers asnOrIp discStr false).1 = (fromNumbers asnOrIp discStr true).1 := by
  unfold fromNumbers at accepted ⊢
  simp only [Bool.and_true, Bool.and_false, Bool.false_eq_true, if_false] at accepted ⊢
  split_ifs at accepted ⊢
  rfl

theorem fromString_agree {str : List Char} (accepted : (fromString str true).2 = false) :
    (fromString str false).1 = (fromString str true).1 := by
  by_cases zero : str = "zero_esi".toList
  · simp [fromString, zero]
  by_cases max : str = "max_esi".toList
  · simp [fromString, max]
  by_cases bad : str.count ':' ≠ 1 ∧ str.count ':' ≠ 9
  · simp [fromString_of_colons _ zero max bad] at accepted
  by_cases one : str.count ':' = 1
  · rw [fromString_of_one_colon _ zero max one] at accepted ⊢
    rw [fromString_of_one_colon _ zero max one]
    exact fromNumbers_agree accepted
  · have nine : str.count ':' = 9 := by omega
    rw [fromString_of_nine_colons _ zero max nine] at accepted ⊢
    rw [fromString_of_nine_colons _ zero max nine]
    cases scanned : scanHexBytes 9 str <;> simp [scanned] at accepted ⊢

/-! ### The data as a number -/

theorem ext_val {esi esi' : EthernetSegmentId} (same : esi.data.val = esi'.data.val) :
    esi = esi' := by
  cases esi
  cases esi'
  exact congrArg mk (Fin.ext same)

theorem val_ofBytes {bytes : List UInt8} (length : bytes.length = 10) :
    (ofBytes bytes).data.val = valueBE bytes :=
  takeWord_val_of_length length

theorem fieldValue_getData (esi : EthernetSegmentId) {offset size : Nat}
    (inside : offset + size ≤ 10) : (fieldValue esi.getData offset size).val =
      esi.data.val / 256 ^ (10 - offset - size) % 256 ^ size :=
  fieldValue_putBE inside _

/-- An ESI is its type, two four-byte numbers and its reserved byte, when that is zero. -/
theorem ofBytes_fields (esi : EthernetSegmentId) (reserved : (fieldValue esi.getData 9 1).val = 0) :
    ofBytes (putBE 1 esi.type ++ putBE 4 (fieldValue esi.getData 1 4).val ++
      putBE 4 (fieldValue esi.getData 5 4).val ++ [0]) = esi := by
  have bound := esi.data.isLt
  rw [fieldValue_getData _ (by decide)] at reserved
  apply ext_val
  rw [show ([0] : List UInt8) = putBE 1 0 from rfl, val_ofBytes (by simp), valueBE_append,
    valueBE_append, valueBE_append, valueBE_putBE, valueBE_putBE, valueBE_putBE, valueBE_putBE,
    type, fieldValue_getData _ (by decide), fieldValue_getData _ (by decide),
    fieldValue_getData _ (by decide)]
  simp only [length_putBE] at bound reserved ⊢
  omega

/-- The reserved byte of an ESI that `fromNumbers` builds is zero. -/
theorem reserved_ofBytes (front : List UInt8) (length : front.length = 9) :
    (fieldValue (ofBytes (front ++ [0])).getData 9 1).val = 0 := by
  rw [fieldValue_getData _ (by decide), val_ofBytes (by simp [length]), valueBE_append]
  simp [valueBE]

theorem type_kZeroEsi : kZeroEsi.type = 0 := by decide

theorem type_kMaxEsi : kMaxEsi.type = 255 := by decide

/-! ### Reading back what `ToString` writes -/

/-- Text without a `_` is neither name. -/
theorem ne_names {str : List Char} (plain : '_' ∉ str) :
    str ≠ "zero_esi".toList ∧ str ≠ "max_esi".toList :=
  ⟨fun same => plain (same ▸ by decide), fun same => plain (same ▸ by decide)⟩

/-- One `:` before the digits of a number: the AS-based or IP-based format. -/
theorem fromString_numbers {first : List Char} (noColon : ':' ∉ first) (plain : '_' ∉ first)
    (disc : Nat) (errorp : Bool) :
    fromString (first ++ ':' :: integerToString disc) errorp =
      fromNumbers first (integerToString disc) errorp := by
  have digitsColon : ':' ∉ integerToString disc := not_mem_integerToString (by decide) disc
  have digitsPlain : '_' ∉ integerToString disc := not_mem_integerToString (by decide) disc
  have textPlain : '_' ∉ first ++ ':' :: integerToString disc := by simp [plain, digitsPlain]
  have one : (first ++ ':' :: integerToString disc).count ':' = 1 := by
    simp [List.count_append, List.count_eq_zero.mpr noColon, List.count_eq_zero.mpr digitsColon]
  have position : (first ++ ':' :: integerToString disc).idxOf ':' = first.length := by
    simp [List.idxOf_append, noColon]
  obtain ⟨notZero, notMax⟩ := ne_names textPlain
  rw [fromString_of_one_colon errorp notZero notMax one, position, List.take_left' rfl]
  simp

theorem fromNumbers_number {asn disc : Nat} (small : asn < 2 ^ 32) (small' : disc < 2 ^ 32)
    (errorp : Bool) : fromNumbers (integerToString asn) (integerToString disc) errorp =
      (ofBytes (putBE 1 AS_BASED ++ putBE 4 asn ++ putBE 4 disc ++ [0]), false) := by
  have noDots : (integerToString asn).count '.' = 0 :=
    List.count_eq_zero.mpr (not_mem_integerToString (by decide) asn)
  simp [fromNumbers, firstField, noDots, stringToInteger_integerToString (by decide) small,
    stringToInteger_integerToString (by decide) small']

theorem fromNumbers_address (addr : Word 4) {disc : Nat} (small : disc < 2 ^ 32) (errorp : Bool) :
    fromNumbers (Ip4Address.toString addr) (integerToString disc) errorp =
      (ofBytes (putBE 1 IP_BASED ++ putBE 4 addr.val ++ putBE 4 disc ++ [0]), false) := by
  have dots : (Ip4Address.toString addr).count '.' = 3 := count_dot_inetNtop4 _
  simp [fromNumbers, firstField, dots, Ip4Address.fromString_toString,
    stringToInteger_integerToString (by decide) small]

/-- Ten bytes `%02x`: the raw format. -/
theorem fromString_hexFields {bytes : List Nat} (small : ∀ b ∈ bytes, b < 256)
    (length : bytes.length = 10) (errorp : Bool) :
    fromString (hexFields bytes) errorp = (ofBytes (bytes.map UInt8.ofNat), false) := by
  obtain ⟨notZero, notMax⟩ := ne_names (not_mem_hexFields small (by decide) (by decide))
  have nine : (hexFields bytes).count ':' = 9 := by rw [count_colon_hexFields small, length]
  rw [fromString_of_nine_colons errorp notZero notMax nine,
    scanHexBytes_hexFields small (by rw [length])]
  rfl

section Kinds

variable {esi : EthernetSegmentId}

theorem ne_kZeroEsi_of_type (typed : esi.type ≠ 0) : esi ≠ kZeroEsi :=
  fun same => typed (same ▸ type_kZeroEsi)

theorem ne_kMaxEsi_of_type (typed : esi.type ≠ 255) : esi ≠ kMaxEsi :=
  fun same => typed (same ▸ type_kMaxEsi)

theorem toString_of_as (as : esi.type = AS_BASED) :
    esi.toString = integerToString (fieldValue esi.getData 1 4).val ++ ':' ::
      integerToString (fieldValue esi.getData 5 4).val := by
  have typed : (fieldValue esi.getData 0 1).val = AS_BASED := as
  rw [toString, if_neg (ne_kZeroEsi_of_type (by simp [as, AS_BASED])),
    if_neg (ne_kMaxEsi_of_type (by simp [as, AS_BASED]))]
  simp only [typed, if_true]

theorem toString_of_ip (ip : esi.type = IP_BASED) :
    esi.toString = Ip4Address.toString (fieldValue esi.getData 1 4) ++ ':' ::
      integerToString (fieldValue esi.getData 5 4).val := by
  have typed : (fieldValue esi.getData 0 1).val = IP_BASED := ip
  rw [toString, if_neg (ne_kZeroEsi_of_type (by simp [ip, IP_BASED])),
    if_neg (ne_kMaxEsi_of_type (by simp [ip, IP_BASED]))]
  simp [typed, IP_BASED, AS_BASED]

theorem toString_of_raw (notZero : esi ≠ kZeroEsi) (notMax : esi ≠ kMaxEsi)
    (other : esi.type ≠ AS_BASED ∧ esi.type ≠ IP_BASED) :
    esi.toString = hexFields (fieldBytes kSize esi.data.val) := by
  have notAs : (fieldValue esi.getData 0 1).val ≠ AS_BASED := other.1
  have notIp : (fieldValue esi.getData 0 1).val ≠ IP_BASED := other.2
  rw [toString, if_neg notZero, if_neg notMax]
  simp only [notAs, notIp, if_false]
  rfl

end Kinds

/-- The text holds the two names, digits, dots and colons only. -/
theorem not_mem_toString {ch : Char} (colon : ch ≠ ':') (dot : ch ≠ '.')
    (digit : ∀ d < 16, Nat.digitChar d ≠ ch) (named : ch ∉ "zero_esi".toList ∧ ch ∉ "max_esi".toList)
    (esi : EthernetSegmentId) : ch ∉ esi.toString := by
  have number (n : Nat) : ch ∉ integerToString n :=
    not_mem_integerToString (fun d small => digit d (by omega)) n
  have address (addr : Word 4) : ch ∉ Ip4Address.toString addr :=
    not_mem_inetNtop4 dot fun d small => digit d (by omega)
  have bytes : ch ∉ hexFields (esi.getData.map UInt8.toNat) :=
    not_mem_hexFields (by simpa using fun byte _ => byte.toNat_lt) colon digit
  unfold toString
  dsimp only
  split_ifs
  · exact named.1
  · exact named.2
  all_goals simp [number, address, bytes, colon]

/-- Which ESIs read back from their text: all but the AS-based and IP-based ones whose reserved
byte, which the text leaves out, is not zero. -/
theorem fromString_toString_iff (esi : EthernetSegmentId) (errorp : Bool) :
    fromString esi.toString errorp = (esi, false) ↔
      (esi.type = AS_BASED ∨ esi.type = IP_BASED → (fieldValue esi.getData 9 1).val = 0) := by
  by_cases zero : esi = kZeroEsi
  · subst zero
    rw [toString, if_pos rfl, fromString, if_pos rfl]
    simp [type_kZeroEsi, AS_BASED, IP_BASED]
  by_cases max : esi = kMaxEsi
  · subst max
    rw [toString, if_neg (by decide), if_pos rfl, fromString, if_neg (by decide), if_pos rfl]
    simp [type_kMaxEsi, AS_BASED, IP_BASED]
  by_cases as : esi.type = AS_BASED
  · have asnSmall := (fieldValue esi.getData 1 4).isLt
    have discSmall := (fieldValue esi.getData 5 4).isLt
    rw [toString_of_as as, fromString_numbers (not_mem_integerToString (by decide) _)
      (not_mem_integerToString (by decide) _), fromNumbers_number (by simp at asnSmall; omega)
      (by simp at discSmall; omega)]
    have front := reserved_ofBytes (putBE 1 AS_BASED ++ putBE 4 (fieldValue esi.getData 1 4).val ++
      putBE 4 (fieldValue esi.getData 5 4).val) (by simp)
    constructor
    · intro read _
      rw [← (Prod.mk.inj read).1]
      exact front
    · intro reserved
      rw [← as, ofBytes_fields esi (reserved (.inl as))]
  by_cases ip : esi.type = IP_BASED
  · have discSmall := (fieldValue esi.getData 5 4).isLt
    have noColon : ':' ∉ Ip4Address.toString (fieldValue esi.getData 1 4) :=
      not_mem_inetNtop4 (by decide) (by decide)
    have plain : '_' ∉ Ip4Address.toString (fieldValue esi.getData 1 4) :=
      not_mem_inetNtop4 (by decide) (by decide)
    rw [toString_of_ip ip, fromString_numbers noColon plain,
      fromNumbers_address _ (by simp at discSmall; omega)]
    have front := reserved_ofBytes (putBE 1 IP_BASED ++ putBE 4 (fieldValue esi.getData 1 4).val ++
      putBE 4 (fieldValue esi.getData 5 4).val) (by simp)
    constructor
    · intro read _
      rw [← (Prod.mk.inj read).1]
      exact front
    · intro reserved
      rw [← ip, ofBytes_fields esi (reserved (.inr ip))]
  · have bytes : (fieldBytes kSize esi.data.val).map UInt8.ofNat = esi.getData ++ [] := by
      rw [map_ofNat_fieldBytes, List.append_nil]
      rfl
    rw [toString_of_raw zero max ⟨as, ip⟩, fromString_hexFields (fieldBytes_lt _ _) (by simp),
      bytes, ofBytes_getData_append]
    simp [as, ip]

/-- The ESI text codec: every text `FromString` reports an error for gives `kMaxEsi`; without
`errorp` the result is the same wherever no error is reported; and exactly the ESIs that are not
AS-based or IP-based with a non-zero reserved byte read back from their text. Yet `abc:1`, whose
number does not read, gives `kMaxEsi` and an error with `errorp` and an AS-based ESI without it;
and ten raw bytes of an AS-based ESI with a reserved byte are accepted, and the text of what they
give reads as another ESI. -/
theorem esi_text_codec_diverges :
    (∀ (str : List Char) (errorp : Bool),
      (fromString str errorp).2 = true → (fromString str errorp).1 = kMaxEsi) ∧
    (∀ str : List Char,
      (fromString str true).2 = false → (fromString str false).1 = (fromString str true).1) ∧
    (∀ (esi : EthernetSegmentId) (errorp : Bool), fromString esi.toString errorp = (esi, false) ↔
      (esi.type = AS_BASED ∨ esi.type = IP_BASED → (fieldValue esi.getData 9 1).val = 0)) ∧
    (fromString "abc:1".toList true = (kMaxEsi, true) ∧
      (fromString "abc:1".toList false).1 ≠ kMaxEsi) ∧
    ((fromString "05:00:00:00:01:00:00:00:02:07".toList true).2 = false ∧
      (fromString (fromString "05:00:00:00:01:00:00:00:02:07".toList true).1.toString true).1 ≠
        (fromString "05:00:00:00:01:00:00:00:02:07".toList true).1) :=
  ⟨fun _ _ set => fromString_error set, fun _ accepted => fromString_agree accepted,
    fromString_toString_iff, ⟨by decide, by decide⟩, ⟨by decide, by decide⟩⟩

end EthernetSegmentId

end Contrail.Bgp.Evpn
