import Mathlib
import Contrail.Base.StringUtil
import Contrail.Bgp.Evpn.PrefixLayout
import Contrail.Lib.InetText

/-! The text forms of the fields of an EVPN route: the `boost::asio` IP addresses, whose
`to_string` and `from_string` are `inet_ntop` and `inet_pton`; `RouteDistinguisher::ToString` and
`FromString` of `net/rd.cc`; `EthernetSegmentId::ToString` and `FromString` of `net/esi.cc`; and
`MacAddress::ToString` and `FromString` of `net/mac_address.cc`. A parser that sets `*errorp`
and returns a default value is `none`, except the ESI parser, whose result depends on whether
`errorp` is null. -/
namespace Contrail.Bgp.Evpn

open Bytes CText InetText Contrail.Base

/-! ## Bytes -/

/-- The bytes of a field as numbers. -/
def fieldBytes (width value : Nat) : List Nat := (putBE width value).map UInt8.toNat

theorem fieldBytes_lt (width value : Nat) : ∀ b ∈ fieldBytes width value, b < 256 := by
  intro b mem
  obtain ⟨byte, -, rfl⟩ := List.mem_map.mp mem
  exact byte.toNat_lt

@[simp]
theorem length_fieldBytes (width value : Nat) : (fieldBytes width value).length = width := by
  simp [fieldBytes]

theorem map_ofNat_fieldBytes (width value : Nat) :
    (fieldBytes width value).map UInt8.ofNat = putBE width value := by
  simp [fieldBytes, Function.comp_def]

/-- `get_value(data + offset, size)`. -/
def fieldValue (bytes : List UInt8) (offset size : Nat) : Word size :=
  takeWord size (bytes.drop offset)

theorem fieldValue_putBE {width offset size : Nat} (inside : offset + size ≤ width) (value : Nat) :
    (fieldValue (putBE width value) offset size).val =
      value / 256 ^ (width - offset - size) % 256 ^ size :=
  takeWord_drop_putBE inside value

/-! ## IP addresses -/

namespace Ip4Address

/-- `address_v4::to_bytes`. -/
def toBytes (addr : Word 4) : List Nat := fieldBytes 4 addr.val

/-- `address_v4(bytes)`. -/
def ofBytes (bytes : List Nat) : Word 4 := takeWord 4 (bytes.map UInt8.ofNat)

/-- `to_string`: `inet_ntop`. -/
def toString (addr : Word 4) : List Char := inetNtop4 (toBytes addr)

/-- `from_string(str, ec)`: `inet_pton`; `none` when it sets `ec`. -/
def fromString (str : List Char) : Option (Word 4) := (inetPton4 str).map ofBytes

theorem ofBytes_toBytes (addr : Word 4) : ofBytes (toBytes addr) = addr := by
  rw [ofBytes, toBytes, map_ofNat_fieldBytes, ← List.append_nil (putBE 4 addr.val),
    takeWord_putBE_append]

/-- Text with fewer than three dots is no dotted quad. -/
theorem fromString_of_count_dot_lt {str : List Char} (few : str.count '.' < 3) :
    fromString str = none := by
  cases read : inetPton4 str with
  | none => simp [fromString, read]
  | some bytes => exact absurd (three_le_count_dot read) (by omega)

theorem fromString_toString (addr : Word 4) : fromString (toString addr) = some addr := by
  have small : ∀ b ∈ toBytes addr, b < 256 := fieldBytes_lt 4 addr.val
  rw [fromString, toString, inetPton4_inetNtop4 (by simp [toBytes]) small]
  simp [ofBytes_toBytes]

end Ip4Address

namespace Ip6Address

/-- `address_v6::to_bytes`. -/
def toBytes (addr : Word 16) : List Nat := fieldBytes 16 addr.val

/-- `address_v6(bytes)`. -/
def ofBytes (bytes : List Nat) : Word 16 := takeWord 16 (bytes.map UInt8.ofNat)

/-- `to_string` of an address with no scope id: `inet_ntop`. -/
def toString (addr : Word 16) : List Char := inetNtop6 (toBytes addr)

/-- `from_string(str, ec)`: `inet_pton` on the text before a `%`, of at most 63 characters
then. The scope id after the `%` is not kept, the addresses here having none. -/
def fromString (str : List Char) : Option (Word 16) :=
  if '%' ∈ str ∧ 63 < (str.takeWhile (· != '%')).length then none
  else (inetPton6 (str.takeWhile (· != '%'))).map ofBytes

theorem ofBytes_toBytes (addr : Word 16) : ofBytes (toBytes addr) = addr := by
  rw [ofBytes, toBytes, map_ofNat_fieldBytes, ← List.append_nil (putBE 16 addr.val),
    takeWord_putBE_append]

/-- Without a scope id the text is read whole. -/
theorem fromString_of_not_mem {str : List Char} (unscoped : '%' ∉ str) :
    fromString str = (inetPton6 str).map ofBytes := by
  have whole : str.takeWhile (· != '%') = str :=
    List.takeWhile_eq_self_iff.mpr fun c mem => by
      have other : c ≠ '%' := fun same => unscoped (same ▸ mem)
      simpa using other
  rw [fromString, if_neg fun withScope => unscoped withScope.1, whole]

theorem fromString_toString (addr : Word 16) : fromString (toString addr) = some addr := by
  have small : ∀ b ∈ toBytes addr, b < 256 := fieldBytes_lt 16 addr.val
  rw [toString, fromString_of_not_mem (not_mem_inetNtop6 (by decide) (by decide) (by decide)),
    inetPton6_inetNtop6 (by simp [toBytes]) small]
  simp [ofBytes_toBytes]

/-- The text of an IPv4 address is no IPv6 address. -/
theorem fromString_ip4 (addr : Word 4) : fromString (Ip4Address.toString addr) = none := by
  have small : ∀ b ∈ Ip4Address.toBytes addr, b < 256 := fieldBytes_lt 4 addr.val
  rw [Ip4Address.toString, fromString_of_not_mem (not_mem_inetNtop4 (by decide) (by decide)),
    inetPton6_inetNtop4 (by simp [Ip4Address.toBytes]) small, Option.map_none]

end Ip6Address

namespace IpAddress

/-- `address::to_string`. -/
def toString : IpAddress → List Char
  | .v4 addr => Ip4Address.toString addr
  | .v6 addr => Ip6Address.toString addr

/-- `address::from_string(str, ec)`: an IPv6 address, else an IPv4 one; `none` when neither
reads, and `ec` is set. -/
def fromString (str : List Char) : Option IpAddress :=
  match Ip6Address.fromString str with
  | some addr => some (.v6 addr)
  | none => (Ip4Address.fromString str).map .v4

theorem fromString_toString (ip : IpAddress) : fromString (toString ip) = some ip := by
  cases ip with
  | v4 addr => simp [fromString, toString, Ip6Address.fromString_ip4, Ip4Address.fromString_toString]
  | v6 addr => simp [fromString, toString, Ip6Address.fromString_toString]

/-- The text of an address holds digits, dots and colons only. -/
theorem not_mem_toString {ch : Char} (colon : ch ≠ ':') (dot : ch ≠ '.')
    (digit : ∀ d < 16, Nat.digitChar d ≠ ch) (ip : IpAddress) : ch ∉ toString ip := by
  cases ip with
  | v4 addr => exact not_mem_inetNtop4 dot fun d small => digit d (by omega)
  | v6 addr => exact not_mem_inetNtop6 colon dot digit

end IpAddress

/-! ## Bytes in hexadecimal -/

/-- `sscanf(str, "%2hhx:...:%2hhx%c", ...)` with `count + 1` conversions, as `MacAddress::FromString`
and the raw branch of `EthernetSegmentId::FromString` check it: the bytes when it returns
`count + 1` and `str` holds no `x` and no `X`. -/
def scanHexBytes (count : Nat) (str : List Char) : Option (List Nat) :=
  match scanHexFields count str with
  | (bytes, extra) =>
    if bytes.length + (if extra then 1 else 0) ≠ count + 1 ∨ 'x' ∈ str ∨ 'X' ∈ str then none
    else some bytes

theorem scanHexBytes_hexFields {bytes : List Nat} (small : ∀ b ∈ bytes, b < 256) {count : Nat}
    (length : bytes.length = count + 1) : scanHexBytes count (hexFields bytes) = some bytes := by
  have lower : 'x' ∉ hexFields bytes := not_mem_hexFields small (by decide) (by decide)
  have upper : 'X' ∉ hexFields bytes := not_mem_hexFields small (by decide) (by decide)
  simp [scanHexBytes, scanHexFields_hexFields small length, length, lower, upper]

namespace MacAddress

/-- `MacAddress::ToString`: each byte as two digits of `hexchars`, separated by `:`. -/
def toString (mac : MacAddress) : List Char := hexFields (fieldBytes size mac.addr.val)

/-- `MacAddress::FromString`; `none` when it sets `*errorp`. -/
def fromString (str : List Char) : Option MacAddress :=
  (scanHexBytes 5 str).map fun bytes => ofBytes (bytes.map UInt8.ofNat)

theorem length_toString (mac : MacAddress) : (toString mac).length = 17 := by
  rw [toString, length_hexFields, length_fieldBytes]
  rfl

theorem fromString_toString (mac : MacAddress) : fromString (toString mac) = some mac := by
  have bytes : (fieldBytes size mac.addr.val).map UInt8.ofNat = mac.getData ++ [] := by
    rw [map_ofNat_fieldBytes, List.append_nil]
    rfl
  rw [fromString, toString, scanHexBytes_hexFields (fieldBytes_lt _ _) (by simp),
    Option.map_some, bytes, ofBytes_getData_append]

end MacAddress

end Contrail.Bgp.Evpn
