import Mathlib
import Contrail.Bgp.Evpn.FieldText
import Contrail.Lib.Radix

/-! `Ip4Prefix` and `Inet6Prefix` as text. `ToString` of `bgp/inet/inet_route.cc` and
`bgp/inet6/inet6_route.cc` writes the address and `/` and the length; `FromString` is
`Ip4SubnetParse` and `Inet6SubnetParse` of `net/address.cc`: the text before the first `/` is read
as an address, an IPv4 one completed to four numbers, the text after it by `atoi`, and the address
is masked to the length by `GetIp4SubnetAddress` or `GetIp6SubnetAddress`. Both masks clear
exactly the bits past the length, the IPv6 one through the words `inet_pton` gives back and a
table of masks of their first bits. -/
namespace Contrail.Bgp.Evpn

open Bytes CText InetText Contrail.Base

/-! ## Parsing -/

/-- The loop of `CountDots` from `pos`, for at most `fuel` more turns. -/
def countDotsLoop (str : List Char) : Nat → Nat → Nat
  | 0, _ => 0
  | fuel + 1, pos =>
    if pos < str.length then
      match findFrom str '.' pos with
      | none => 0
      | some next => countDotsLoop str fuel (next + 1) + 1
    else 0

/-- `CountDots`: the dots one `find('.', pos)` after another meets. Each turn moves past a
character, so the length of the text bounds the turns. -/
def countDots (str : List Char) : Nat := countDotsLoop str str.length 0

/-- `while (dots < 3) { addrstr.append(".0"); dots++; }`, which runs `3 - dots` times. -/
def padDots (addrstr : List Char) (dots : Nat) : List Char :=
  (List.range (3 - dots)).foldl (fun text _ => text ++ ['.', '0']) addrstr

/-- `Ip4PrefixParse`: the address before the first `/`, completed to four numbers, and `atoi` of
the text after it, which must lie in `[0, 32]`. -/
def ip4PrefixParse (str : List Char) : Option (Word 4 × Nat) :=
  match find str '/' with
  | none => none
  | some pos =>
    let plen := atoi (str.drop (pos + 1))
    if plen < 0 ∨ 32 < plen then none
    else
      let addrstr := str.take pos
      (Ip4Address.fromString (padDots addrstr (countDots addrstr))).map fun addr => (addr, plen.toNat)

/-- `Inet6PrefixParse`: the address before the first `/` and `atoi` of the text after it, which
must lie in `[0, 128]`. -/
def inet6PrefixParse (str : List Char) : Option (Word 16 × Nat) :=
  match find str '/' with
  | none => none
  | some pos =>
    let plen := atoi (str.drop (pos + 1))
    if plen < 0 ∨ 128 < plen then none
    else (Ip6Address.fromString (str.take pos)).map fun addr => (addr, plen.toNat)

/-! ## Masks -/

/-- `GetIp4SubnetAddress(prefix, plen)`; its callers pass a length of at most 32. -/
def getIp4SubnetAddress (addr : Word 4) (plen : Nat) : Word 4 :=
  if plen = 0 then 0
  else ⟨addr.val &&& (0xFFFFFFFF <<< (32 - plen) % 2 ^ 32),
    lt_of_le_of_lt Nat.and_le_left addr.isLt⟩

/-- The masks of the `switch` of `GetIp6SubnetAddress`, by `plen % 16`: the first bits of a word. -/
def remainMasks : List Nat :=
  [0, 0x8000, 0xc000, 0xe000, 0xf000, 0xf800, 0xfc00, 0xfe00,
    0xff00, 0xff80, 0xffc0, 0xffe0, 0xfff0, 0xfff8, 0xfffc, 0xfffe]

/-- `GetIp6SubnetAddress(prefix, plen)`: the words `inet_pton` reads back from the text of the
address, the word at `plen / 16` masked and those after it cleared. Its callers pass a length of
at most 128. -/
def getIp6SubnetAddress (addr : Word 16) (plen : Nat) : Word 16 :=
  if plen = 0 then 0
  else if plen = 128 then addr
  else
    let words := groups ((inetPton6 (Ip6Address.toString addr)).getD [])
    let index := plen / 16
    Ip6Address.ofBytes (wordBytes (words.take index ++
      (words.getD index 0 &&& remainMasks.getD (plen % 16) 0) :: List.replicate (7 - index) 0))

/-- `Ip4SubnetParse`. -/
def ip4SubnetParse (str : List Char) : Option (Word 4 × Nat) :=
  (ip4PrefixParse str).map fun (addr, plen) => (getIp4SubnetAddress addr plen, plen)

/-- `Inet6SubnetParse`. -/
def inet6SubnetParse (str : List Char) : Option (Word 16 × Nat) :=
  (inet6PrefixParse str).map fun (addr, plen) => (getIp6SubnetAddress addr plen, plen)

/-! ## Counting and completing the dots -/

theorem countDotsLoop_eq (str : List Char) :
    ∀ (fuel pos : Nat), str.length - pos ≤ fuel → countDotsLoop str fuel pos = (str.drop pos).count '.'
  | 0, pos, bound => by
    simp [countDotsLoop, List.drop_eq_nil_of_le (show str.length ≤ pos by omega)]
  | fuel + 1, pos, bound => by
    rw [countDotsLoop]
    split
    case isTrue inside =>
      cases found : findFrom str '.' pos with
      | none => rw [count_drop_of_findFrom_none found]
      | some next =>
        have after := le_of_findFrom found
        dsimp only
        rw [countDotsLoop_eq str fuel (next + 1) (by omega), count_drop_of_findFrom found]
    case isFalse outside =>
      simp [List.drop_eq_nil_of_le (show str.length ≤ pos by omega)]

/-- The loop of `CountDots` counts every dot. -/
theorem countDots_eq (str : List Char) : countDots str = str.count '.' := by
  rw [countDots, countDotsLoop_eq str _ 0 (by omega), List.drop_zero]

theorem padDots_of_three (addrstr : List Char) : padDots addrstr 3 = addrstr := rfl

/-- Completing an address only appends to it. -/
theorem padDots_eq_append (addrstr : List Char) (dots : Nat) :
    ∃ rest, padDots addrstr dots = addrstr ++ rest := by
  have appends : ∀ (turns : List Nat) (text : List Char),
      ∃ rest, turns.foldl (fun text _ => text ++ ['.', '0']) text = text ++ rest := by
    intro turns
    induction turns with
    | nil => exact fun text => ⟨[], by simp⟩
    | cons turn turns ih =>
      intro text
      obtain ⟨rest, more⟩ := ih (text ++ ['.', '0'])
      exact ⟨['.', '0'] ++ rest, by simp [more]⟩
  exact appends _ addrstr

/-! ## The masks clear the host bits -/

theorem getIp4SubnetAddress_val (addr : Word 4) {plen : Nat} (le : plen ≤ 32) :
    (getIp4SubnetAddress addr plen).val = addr.val / 2 ^ (32 - plen) * 2 ^ (32 - plen) := by
  have fits : addr.val < 2 ^ 32 := addr.isLt
  unfold getIp4SubnetAddress
  split
  case isTrue zero =>
    subst zero
    simp
  case isFalse positive =>
    have mask : 0xFFFFFFFF <<< (32 - plen) % 2 ^ 32 = 2 ^ 32 - 2 ^ (32 - plen) := by
      have below : 2 ^ (32 - plen) < 2 ^ 32 := Nat.pow_lt_pow_right (by decide) (by omega)
      have above := Nat.two_pow_pos (32 - plen)
      rw [Nat.shiftLeft_eq]
      generalize 2 ^ (32 - plen) = p at below above ⊢
      norm_num at below ⊢
      rw [show 4294967295 * p = (4294967296 - p) + 4294967296 * (p - 1) by omega,
        Nat.add_mul_mod_self_left, Nat.mod_eq_of_lt (by omega)]
    simp only [mask]
    exact Radix.and_two_pow_sub_two_pow fits (by omega)

theorem remainMasks_getD : ∀ r : Fin 16, remainMasks.getD r 0 = 2 ^ 16 - 2 ^ (16 - r.val) := by
  decide

/-- The bytes of words below `2 ^ 16` hold their value in base `2 ^ 16`. -/
theorem valueBE_map_wordBytes {words : List Nat} (small : ∀ w ∈ words, w < 65536) :
    valueBE ((wordBytes words).map UInt8.ofNat) = Radix.value 65536 words := by
  induction words using List.reverseRecOn with
  | nil => rfl
  | append_singleton words w ih =>
    have last := small w (by simp)
    rw [wordBytes_append, List.map_append, Radix.value_append_singleton,
      ← ih fun x mem => small x (List.mem_append_left _ mem)]
    simp only [wordBytes, List.flatMap_cons, List.flatMap_nil, List.append_nil, List.map_cons,
      List.map_nil]
    rw [show [UInt8.ofNat (w / 256 % 256), UInt8.ofNat (w % 256)] =
      [UInt8.ofNat (w / 256 % 256)] ++ [UInt8.ofNat (w % 256)] from rfl, ← List.append_assoc,
      valueBE_append_singleton, valueBE_append_singleton, UInt8.toNat_ofNat', UInt8.toNat_ofNat']
    omega

theorem val_ip6OfBytes {bytes : List Nat} (length : bytes.length = 16) :
    (Ip6Address.ofBytes bytes).val = valueBE (bytes.map UInt8.ofNat) :=
  takeWord_val_of_length (by simp [length])

/-- The words of an address, in base `2 ^ 16`, are its value. -/
theorem value_groups_toBytes (addr : Word 16) :
    Radix.value 65536 (groups (Ip6Address.toBytes addr)) = addr.val := by
  have small := fieldBytes_lt 16 addr.val
  have words := wordBytes_groups _ small (by simp)
  rw [Ip6Address.toBytes, ← valueBE_map_wordBytes (groups_lt _ small), words,
    map_ofNat_fieldBytes, valueBE_putBE, Nat.mod_eq_of_lt addr.isLt]

theorem getIp6SubnetAddress_val (addr : Word 16) {plen : Nat} (le : plen ≤ 128) :
    (getIp6SubnetAddress addr plen).val = addr.val / 2 ^ (128 - plen) * 2 ^ (128 - plen) := by
  have fits : addr.val < 2 ^ 128 := addr.isLt
  unfold getIp6SubnetAddress
  split
  case isTrue zero =>
    subst zero
    simp
  split
  case isTrue full =>
    subst full
    simp
  rename_i positive short
  -- `inet_pton` gives back the words of the address
  have small := fieldBytes_lt 16 addr.val
  have read : (inetPton6 (Ip6Address.toString addr)).getD [] = Ip6Address.toBytes addr := by
    rw [Ip6Address.toString, Ip6Address.toBytes, inetPton6_inetNtop6 (by simp) small,
      Option.getD_some]
  simp only [read]
  set words := groups (Ip6Address.toBytes addr) with wordsDef
  have wordsSmall : ∀ w ∈ words, w < 65536 := groups_lt _ small
  have wordsLength : words.length = 8 := by simp [words, length_groups, Ip6Address.toBytes]
  -- the word at `plen / 16` splits the address into a front, itself and a back
  set index := plen / 16 with indexDef
  set rest := 7 - index with restDef
  have inside : index < 8 := by omega
  have split := List.take_append_drop index words
  rw [List.drop_eq_getElem_cons (by omega)] at split
  have indexLt : index < words.length := by omega
  set w := words[index] with wDef
  have wSmall : w < 2 ^ 16 := wordsSmall w (List.getElem_mem _)
  have backLength : (words.drop (index + 1)).length = rest := by simp [wordsLength]; omega
  have backSmall : Radix.value 65536 (words.drop (index + 1)) < 2 ^ (16 * rest) := by
    have bound : Radix.value 65536 (words.drop (index + 1)) < 65536 ^ _ :=
      Radix.value_lt fun x mem => wordsSmall x (List.mem_of_mem_drop mem)
    rwa [backLength, show (65536 : Nat) = 2 ^ 16 from rfl, ← Nat.pow_mul] at bound
  have layout : addr.val = (Radix.value 65536 (words.take index) * 2 ^ 16 + w) * 2 ^ (16 * rest) +
      Radix.value 65536 (words.drop (index + 1)) := by
    conv_lhs => rw [← value_groups_toBytes addr, ← wordsDef, ← split]
    rw [Radix.value_append_cons, backLength, Nat.pow_mul, show (2 : Nat) ^ 16 = 65536 by norm_num]
  -- the table's mask keeps the first `plen % 16` bits of that word
  have mask : w &&& remainMasks.getD (plen % 16) 0 =
      w / 2 ^ (16 - plen % 16) * 2 ^ (16 - plen % 16) := by
    rw [remainMasks_getD ⟨plen % 16, Nat.mod_lt _ (by decide)⟩]
    exact Radix.and_two_pow_sub_two_pow wSmall (by omega)
  have getD : words.getD index 0 = w := List.getD_eq_getElem _ _ (by omega)
  have maskedSmall : ∀ x ∈ words.take index ++ (w / 2 ^ (16 - plen % 16) * 2 ^ (16 - plen % 16)) ::
      List.replicate rest 0, x < 65536 := by
    intro x mem
    simp only [List.mem_append, List.mem_cons, List.mem_replicate] at mem
    rcases mem with front | masked | ⟨-, zero⟩
    · exact wordsSmall x (List.mem_of_mem_take front)
    · have := Nat.div_mul_le_self w (2 ^ (16 - plen % 16))
      omega
    · omega
  rw [getD, mask, val_ip6OfBytes (by simp [length_wordBytes]; omega),
    valueBE_map_wordBytes maskedSmall, Radix.value_append_cons, Radix.value_replicate_zero,
    List.length_replicate, Nat.add_zero, show 128 - plen = 16 * rest + (16 - plen % 16) by omega,
    layout, Radix.clear_low_bits backSmall (by omega), show (65536 : Nat) = 2 ^ 16 from rfl,
    ← Nat.pow_mul]

/-- A mask keeps an address whose bits past the length are clear. -/
theorem getIp4SubnetAddress_of_dvd {addr : Word 4} {plen : Nat} (le : plen ≤ 32)
    (clear : 2 ^ (32 - plen) ∣ addr.val) : getIp4SubnetAddress addr plen = addr :=
  Fin.ext ((getIp4SubnetAddress_val addr le).trans (Nat.div_mul_cancel clear))

theorem getIp6SubnetAddress_of_dvd {addr : Word 16} {plen : Nat} (le : plen ≤ 128)
    (clear : 2 ^ (128 - plen) ∣ addr.val) : getIp6SubnetAddress addr plen = addr :=
  Fin.ext ((getIp6SubnetAddress_val addr le).trans (Nat.div_mul_cancel clear))

/-! ## The prefixes -/

/-- `Ip4Prefix`: an address and a length. -/
structure Ip4Prefix where
  addr : Word 4
  prefixlen : Nat
  deriving DecidableEq, Repr

/-- `Inet6Prefix`: an address and a length. -/
structure Inet6Prefix where
  addr : Word 16
  prefixlen : Nat
  deriving DecidableEq, Repr

namespace Ip4Prefix

/-- `ToString`: the address and `/%d` of the length, which `snprintf` into four bytes cuts to
three characters. -/
def toString (pfx : Ip4Prefix) : List Char :=
  Ip4Address.toString pfx.addr ++ ('/' :: integerToString pfx.prefixlen).take 3

/-- `FromString(str, errorp)`; `none` when it sets `*errorp`. -/
def fromString (str : List Char) : Option Ip4Prefix :=
  (ip4SubnetParse str).map fun (addr, plen) => ⟨addr, plen⟩

/-- `snprintf` cuts only a length of three digits. -/
theorem toString_eq {pfx : Ip4Prefix} (fits : pfx.prefixlen < 100) :
    toString pfx = Ip4Address.toString pfx.addr ++ '/' :: integerToString pfx.prefixlen := by
  have short : (integerToString pfx.prefixlen).length ≤ 2 :=
    (Nat.length_toDigits_le_iff (by decide) (by decide)).mpr (by simpa using fits)
  rw [toString, List.take_of_length_le (by simp; omega)]

/-- The text of a prefix reads back as the prefix with its host bits cleared. -/
theorem fromString_toString {pfx : Ip4Prefix} (fits : pfx.prefixlen ≤ 32) :
    fromString (toString pfx) = some ⟨getIp4SubnetAddress pfx.addr pfx.prefixlen, pfx.prefixlen⟩ := by
  have slash : '/' ∉ Ip4Address.toString pfx.addr := not_mem_inetNtop4 (by decide) (by decide)
  have plen : atoi (integerToString pfx.prefixlen) = pfx.prefixlen := by
    have read := atoi_toDigits (show pfx.prefixlen < 2 ^ 31 by omega) stops_nil
    rwa [List.append_nil] at read
  have dots : countDots (Ip4Address.toString pfx.addr) = 3 := by
    rw [countDots_eq, Ip4Address.toString, count_dot_inetNtop4]
  rw [toString_eq (by omega), fromString, ip4SubnetParse, ip4PrefixParse, find_append_cons slash]
  simp [plen, dots, padDots_of_three, Ip4Address.fromString_toString, fits]

end Ip4Prefix

namespace Inet6Prefix

/-- `ToString`: the address, `/` and the length. -/
def toString (pfx : Inet6Prefix) : List Char :=
  Ip6Address.toString pfx.addr ++ '/' :: integerToString pfx.prefixlen

/-- `FromString(str, errorp)`; `none` when it sets `*errorp`. -/
def fromString (str : List Char) : Option Inet6Prefix :=
  (inet6SubnetParse str).map fun (addr, plen) => ⟨addr, plen⟩

/-- The text of a prefix reads back as the prefix with its host bits cleared. -/
theorem fromString_toString {pfx : Inet6Prefix} (fits : pfx.prefixlen ≤ 128) :
    fromString (toString pfx) = some ⟨getIp6SubnetAddress pfx.addr pfx.prefixlen, pfx.prefixlen⟩ := by
  have slash : '/' ∉ Ip6Address.toString pfx.addr := not_mem_inetNtop6 (by decide) (by decide) (by decide)
  have plen : atoi (integerToString pfx.prefixlen) = pfx.prefixlen := by
    have read := atoi_toDigits (show pfx.prefixlen < 2 ^ 31 by omega) stops_nil
    rwa [List.append_nil] at read
  rw [toString, fromString, inet6SubnetParse, inet6PrefixParse, find_append_cons slash]
  simp [plen, Ip6Address.fromString_toString, fits]

end Inet6Prefix

/-- What `Ip4Prefix::FromString` accepts has a length of at most 32 and its host bits clear. -/
theorem Ip4Prefix.fromString_masked {str : List Char} {pfx : Ip4Prefix}
    (read : Ip4Prefix.fromString str = some pfx) :
    pfx.prefixlen ≤ 32 ∧ 2 ^ (32 - pfx.prefixlen) ∣ pfx.addr.val := by
  simp only [Ip4Prefix.fromString, ip4SubnetParse, ip4PrefixParse, Option.map_eq_some_iff] at read
  obtain ⟨⟨addr, plen⟩, ⟨⟨parsedAddr, parsedPlen⟩, parsed, masked⟩, rfl⟩ := read
  cases masked
  split at parsed
  case h_1 => cases parsed
  case h_2 pos _ =>
    split_ifs at parsed with range
    simp only [Option.map_eq_some_iff, Prod.mk.injEq] at parsed
    obtain ⟨_, -, -, rfl⟩ := parsed
    have le : (atoi (str.drop (pos + 1))).toNat ≤ 32 := by omega
    exact ⟨le, getIp4SubnetAddress_val parsedAddr le ▸ Nat.dvd_mul_left _ _⟩

/-- What `Inet6Prefix::FromString` accepts has a length of at most 128 and its host bits clear. -/
theorem Inet6Prefix.fromString_masked {str : List Char} {pfx : Inet6Prefix}
    (read : Inet6Prefix.fromString str = some pfx) :
    pfx.prefixlen ≤ 128 ∧ 2 ^ (128 - pfx.prefixlen) ∣ pfx.addr.val := by
  simp only [Inet6Prefix.fromString, inet6SubnetParse, inet6PrefixParse, Option.map_eq_some_iff] at read
  obtain ⟨⟨addr, plen⟩, ⟨⟨parsedAddr, parsedPlen⟩, parsed, masked⟩, rfl⟩ := read
  cases masked
  split at parsed
  case h_1 => cases parsed
  case h_2 pos _ =>
    split_ifs at parsed with range
    simp only [Option.map_eq_some_iff, Prod.mk.injEq] at parsed
    obtain ⟨_, -, -, rfl⟩ := parsed
    have le : (atoi (str.drop (pos + 1))).toNat ≤ 128 := by omega
    exact ⟨le, getIp6SubnetAddress_val parsedAddr le ▸ Nat.dvd_mul_left _ _⟩

/-- No IPv6 prefix reads as an IPv4 one: its address holds a `:`, which completing it with
`.0` keeps. -/
theorem Ip4Prefix.fromString_inet6 (pfx : Inet6Prefix) :
    Ip4Prefix.fromString (Inet6Prefix.toString pfx) = none := by
  have slash : '/' ∉ Ip6Address.toString pfx.addr := not_mem_inetNtop6 (by decide) (by decide) (by decide)
  have colon : ':' ∈ Ip6Address.toString pfx.addr := colon_mem_inetNtop6 (by simp [Ip6Address.toBytes])
  have unread : ∀ dots, Ip4Address.fromString (padDots (Ip6Address.toString pfx.addr) dots) = none := by
    intro dots
    obtain ⟨rest, padded⟩ := padDots_eq_append (Ip6Address.toString pfx.addr) dots
    rw [Ip4Address.fromString, padded, inetPton4_of_colon_mem (List.mem_append_left rest colon),
      Option.map_none]
  rw [Inet6Prefix.toString, Ip4Prefix.fromString, ip4SubnetParse, ip4PrefixParse, find_append_cons slash]
  simp [unread]

/-- The IPv4 prefix text codec: the text of a prefix of a valid length reads back with exactly the
bits past the length cleared. -/
theorem ip4Prefix_text_clears_host_bits (pfx : Ip4Prefix) (fits : pfx.prefixlen ≤ 32) :
    ∃ addr : Word 4, Ip4Prefix.fromString pfx.toString = some ⟨addr, pfx.prefixlen⟩ ∧
      addr.val = pfx.addr.val / 2 ^ (32 - pfx.prefixlen) * 2 ^ (32 - pfx.prefixlen) :=
  ⟨_, Ip4Prefix.fromString_toString fits, getIp4SubnetAddress_val pfx.addr fits⟩

theorem ip4Prefix_text_clears_host_bits_24 :
    ∃ addr : Word 4, Ip4Prefix.fromString (Ip4Prefix.toString ⟨0x0A010203, 24⟩) = some ⟨addr, 24⟩ ∧
      addr.val = 0x0A010203 / 2 ^ (32 - 24) * 2 ^ (32 - 24) :=
  ip4Prefix_text_clears_host_bits ⟨0x0A010203, 24⟩ (by decide)

/-- The IPv6 prefix text codec: the words `inet_pton` reads back and the table of masks clear
exactly the bits past the length. -/
theorem inet6Prefix_text_clears_host_bits (pfx : Inet6Prefix) (fits : pfx.prefixlen ≤ 128) :
    ∃ addr : Word 16, Inet6Prefix.fromString pfx.toString = some ⟨addr, pfx.prefixlen⟩ ∧
      addr.val = pfx.addr.val / 2 ^ (128 - pfx.prefixlen) * 2 ^ (128 - pfx.prefixlen) :=
  ⟨_, Inet6Prefix.fromString_toString fits, getIp6SubnetAddress_val pfx.addr fits⟩

theorem inet6Prefix_text_clears_host_bits_20 :
    ∃ addr : Word 16, Inet6Prefix.fromString (Inet6Prefix.toString ⟨0x20010db8000000000000000000000001, 20⟩) =
        some ⟨addr, 20⟩ ∧
      addr.val = 0x20010db8000000000000000000000001 / 2 ^ (128 - 20) * 2 ^ (128 - 20) :=
  inet6Prefix_text_clears_host_bits ⟨0x20010db8000000000000000000000001, 20⟩ (by decide)

end Contrail.Bgp.Evpn
