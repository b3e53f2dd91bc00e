import Mathlib

/-! The text functions of the C and C++ libraries in the "C" locale, on a string as its list of
characters: `isspace`; `strtoul`, `strtol` and `atoi` in base 10, with the text they leave at
`endptr`; the `%2hhx` conversion of `scanf`; the digits `printf` writes for `%u` and `%02x`;
and `std::string::find` and `rfind` of a character. Each reader reads back what the writer
wrote, whatever text follows that does not continue the number. -/
namespace CText

/-! ## Digits -/

/-- `isspace`. -/
def isSpace (c : Char) : Bool :=
  c == ' ' || c == '\t' || c == '\n' || c == '\x0B' || c == '\x0C' || c == '\r'

/-- The value of a hexadecimal digit of either case. -/
def hexDigitValue? (c : Char) : Option Nat :=
  if c.isDigit then some (c.toNat - 48)
  else if 'a' ≤ c ∧ c ≤ 'f' then some (c.toNat - 87)
  else if 'A' ≤ c ∧ c ≤ 'F' then some (c.toNat - 55)
  else none

/-- The value of digits in `base`, the most significant first. -/
def digitsValue (base : Nat) (value : Char → Nat) (digits : List Char) : Nat :=
  digits.foldl (fun acc c => base * acc + value c) 0

def decimalValue (digits : List Char) : Nat := digitsValue 10 (fun c => c.toNat - 48) digits

def hexValue (digits : List Char) : Nat := digitsValue 16 (fun c => (hexDigitValue? c).getD 0) digits

@[simp]
theorem digitsValue_append_singleton (base : Nat) (value : Char → Nat) (digits : List Char)
    (c : Char) : digitsValue base value (digits ++ [c]) = base * digitsValue base value digits + value c := by
  simp [digitsValue, List.foldl_append]

/-- The digits `printf` writes in base `base` read back as the number, in any reading that
takes each digit to its value. -/
theorem digitsValue_toDigits {base : Nat} {value : Char → Nat} (base_gt : 1 < base)
    (reads : ∀ d < base, value (Nat.digitChar d) = d) (n : Nat) :
    digitsValue base value (Nat.toDigits base n) = n := by
  induction n using Nat.strong_induction_on with
  | _ n ih =>
    rw [Nat.toDigits_eq_if base_gt]
    split
    case isTrue small => simp [digitsValue, reads n small]
    case isFalse large =>
      rw [digitsValue_append_singleton, ih (n / base) (Nat.div_lt_self (by omega) base_gt),
        reads _ (Nat.mod_lt _ (by omega))]
      exact Nat.div_add_mod n base

/-- Each character `printf` writes in base `base` is the digit of a value below it. -/
theorem mem_toDigits {base n : Nat} {c : Char} (base_gt : 1 < base) (mem : c ∈ Nat.toDigits base n) :
    ∃ d < base, c = Nat.digitChar d := by
  induction n using Nat.strong_induction_on with
  | _ n ih =>
    rw [Nat.toDigits_eq_if base_gt] at mem
    split at mem
    case isTrue small => exact ⟨n, small, List.mem_singleton.mp mem⟩
    case isFalse large =>
      rcases List.mem_append.mp mem with front | last
      · exact ih (n / base) (Nat.div_lt_self (by omega) base_gt) front
      · exact ⟨n % base, Nat.mod_lt _ (by omega), List.mem_singleton.mp last⟩

/-- What the readers below need of a hexadecimal digit `printf` writes. -/
theorem digitChar_facts : ∀ d : Fin 16,
    isSpace (Nat.digitChar d) = false ∧ Nat.digitChar d ≠ '-' ∧ Nat.digitChar d ≠ '+' ∧
      Nat.digitChar d ≠ ':' ∧ Nat.digitChar d ≠ '.' ∧
      hexDigitValue? (Nat.digitChar d) = some d.val := by
  decide

theorem toNat_digitChar {d : Nat} (digit : d < 10) : (Nat.digitChar d).toNat - 48 = d :=
  Nat.toNat_digitChar_sub_48_of_lt_ten digit

@[simp]
theorem decimalValue_toDigits (n : Nat) : decimalValue (Nat.toDigits 10 n) = n :=
  digitsValue_toDigits (by decide) (fun _ digit => toNat_digitChar digit) n

@[simp]
theorem hexValue_toDigits (n : Nat) : hexValue (Nat.toDigits 16 n) = n :=
  digitsValue_toDigits (by decide)
    (fun d digit => by rw [((digitChar_facts ⟨d, digit⟩).2.2.2.2.2)]; rfl) n

/-- A character that is no digit below `base` is not among the digits `printf` writes. -/
theorem not_mem_toDigits {base n : Nat} {ch : Char} (base_gt : 1 < base)
    (other : ∀ d < base, Nat.digitChar d ≠ ch) : ch ∉ Nat.toDigits base n := fun mem => by
  obtain ⟨d, small, same⟩ := mem_toDigits base_gt mem
  exact other d small same.symm

theorem isDigit_of_mem_toDigits {n : Nat} {c : Char} (mem : c ∈ Nat.toDigits 10 n) :
    c.isDigit = true :=
  Nat.isDigit_of_mem_toDigits (by decide) (by decide) mem

/-- A decimal digit is not a blank, a sign or a separator, and reads as a hexadecimal digit. -/
theorem decimal_digit_facts {n : Nat} {c : Char} (mem : c ∈ Nat.toDigits 10 n) :
    isSpace c = false ∧ c ≠ '-' ∧ c ≠ '+' ∧ c ≠ ':' ∧ c ≠ '.' ∧
      (hexDigitValue? c).isSome := by
  obtain ⟨d, small, rfl⟩ := mem_toDigits (by decide) mem
  obtain ⟨space, minus, plus, colon, dot, hex⟩ := digitChar_facts ⟨d, by omega⟩
  exact ⟨space, minus, plus, colon, dot, by simp [hex]⟩

/-! ## Reading a decimal number -/

/-- The sign `strtoul`, `strtol` and `scanf` accept: `some true` for `-`, `some false` for `+`. -/
def takeSign : List Char → Option Bool × List Char
  | c :: rest => if c = '-' then (some true, rest) else if c = '+' then (some false, rest)
      else (none, c :: rest)
  | [] => (none, [])

/-- What `strtoul` and `strtol` read in base 10: blanks, a sign and at least one digit. The sign
read, the value of the digits and the text after them; `none` when no digit follows. -/
def scanDecimal (s : List Char) : Option (Option Bool × Nat × List Char) :=
  match takeSign (s.dropWhile isSpace) with
  | (sign, unsigned) =>
    if unsigned.takeWhile Char.isDigit = [] then none
    else some (sign, decimalValue (unsigned.takeWhile Char.isDigit),
      unsigned.dropWhile Char.isDigit)

/-- `ULONG_MAX` of a 64-bit `unsigned long`. -/
def ULONG_MAX : Nat := 2 ^ 64 - 1

def LONG_MAX : Int := 2 ^ 63 - 1

def LONG_MIN : Int := -2 ^ 63

/-- `strtoul(s, &endptr, 10)`: the value and the text at `endptr`, which is `s` itself when no
number is read. A value past `ULONG_MAX` gives `ULONG_MAX`; a negative one is negated in
`unsigned long`. -/
def strtoul (s : List Char) : Nat × List Char :=
  match scanDecimal s with
  | none => (0, s)
  | some (sign, value, rest) =>
    if ULONG_MAX < value then (ULONG_MAX, rest)
    else if sign = some true then ((2 ^ 64 - value) % 2 ^ 64, rest)
    else (value, rest)

/-- `strtol(s, &endptr, 10)`: the value, clamped to `[LONG_MIN, LONG_MAX]`, and the text at
`endptr`. -/
def strtol (s : List Char) : Int × List Char :=
  match scanDecimal s with
  | none => (0, s)
  | some (sign, value, rest) =>
    if sign = some true then (max (-(value : Int)) LONG_MIN, rest)
    else (min (value : Int) LONG_MAX, rest)

/-- `atoi`: `(int) strtol(s, NULL, 10)`, kept modulo `2^32` in the range of `int`. -/
def atoi (s : List Char) : Int := (strtol s).1.bmod (2 ^ 32)

/-- Text that does not continue a number: it is empty or starts with a non-digit. -/
def Stops (rest : List Char) : Prop := ∀ c ∈ rest.head?, c.isDigit = false

theorem stops_nil : Stops [] := by
  simp [Stops]

theorem takeSign_of_ne {c : Char} {rest : List Char} (minus : c ≠ '-') (plus : c ≠ '+') :
    takeSign (c :: rest) = (none, c :: rest) := by
  simp [takeSign, minus, plus]

theorem toDigits_eq_cons (base n : Nat) :
    ∃ c cs, Nat.toDigits base n = c :: cs :=
  List.exists_cons_of_ne_nil Nat.toDigits_ne_nil

theorem takeWhile_toDigits_append (n : Nat) {rest : List Char} (stops : Stops rest) :
    (Nat.toDigits 10 n ++ rest).takeWhile Char.isDigit = Nat.toDigits 10 n := by
  rw [List.takeWhile_append_of_pos fun _ mem => isDigit_of_mem_toDigits mem]
  cases rest with
  | nil => simp
  | cons c rest => simp [List.takeWhile_cons_of_neg (by simpa [Stops] using stops)]

theorem dropWhile_toDigits_append (n : Nat) {rest : List Char} (stops : Stops rest) :
    (Nat.toDigits 10 n ++ rest).dropWhile Char.isDigit = rest := by
  rw [List.dropWhile_append_of_pos fun _ mem => isDigit_of_mem_toDigits mem]
  cases rest with
  | nil => simp
  | cons c rest => simp [List.dropWhile_cons_of_neg (by simpa [Stops] using stops)]

/-- The digits of `n`, and after them a non-digit or nothing, scan as `n` with no sign. -/
theorem scanDecimal_toDigits (n : Nat) {rest : List Char} (stops : Stops rest) :
    scanDecimal (Nat.toDigits 10 n ++ rest) = some (none, n, rest) := by
  obtain ⟨c, cs, digits⟩ := toDigits_eq_cons 10 n
  obtain ⟨space, minus, plus, -⟩ := decimal_digit_facts (n := n) (c := c) (by simp [digits])
  have unblank : (Nat.toDigits 10 n ++ rest).dropWhile isSpace = Nat.toDigits 10 n ++ rest := by
    rw [digits, List.cons_append, List.dropWhile_cons_of_neg (by simp [space])]
  have unsigned : takeSign (Nat.toDigits 10 n ++ rest) = (none, Nat.toDigits 10 n ++ rest) := by
    rw [digits, List.cons_append]
    exact takeSign_of_ne minus plus
  simp only [scanDecimal, unblank, unsigned, takeWhile_toDigits_append n stops,
    dropWhile_toDigits_append n stops, Nat.toDigits_ne_nil, if_false, decimalValue_toDigits]

theorem strtoul_toDigits {n : Nat} (fits : n ≤ ULONG_MAX) {rest : List Char} (stops : Stops rest) :
    strtoul (Nat.toDigits 10 n ++ rest) = (n, rest) := by
  simp [strtoul, scanDecimal_toDigits n stops, not_lt.mpr fits]

theorem strtol_toDigits {n : Nat} (fits : (n : Int) ≤ LONG_MAX) {rest : List Char}
    (stops : Stops rest) : strtol (Nat.toDigits 10 n ++ rest) = ((n : Int), rest) := by
  simp [strtol, scanDecimal_toDigits n stops, fits]

theorem atoi_toDigits {n : Nat} (fits : n < 2 ^ 31) {rest : List Char} (stops : Stops rest) :
    atoi (Nat.toDigits 10 n ++ rest) = n := by
  have long : (n : Int) ≤ LONG_MAX := by
    simp only [LONG_MAX]
    omega
  rw [atoi, strtol_toDigits long stops, Int.bmod_def]
  dsimp only
  split <;> omega

/-! ## Hexadecimal bytes -/

/-- `%02x` of a byte: its two hexadecimal digits. -/
def hex2 (byte : Nat) : List Char := [Nat.digitChar (byte / 16), Nat.digitChar (byte % 16)]

/-- The `%2hhx` conversion of `scanf`: blanks skipped, then at most two characters, a sign and
hexadecimal digits, of which at least one; the value, negated after a `-`, kept modulo 256 as an
`unsigned char`. `none` is a matching failure. A `0x` prefix is not read: every caller rejects
a string that holds an `x` or an `X`. -/
def scanHexByte (s : List Char) : Option (Nat × List Char) :=
  match takeSign (s.dropWhile isSpace) with
  | (sign, unsigned) =>
    -- a sign takes one of the two characters of the field width
    let digits := (unsigned.take (if sign.isSome then 1 else 2)).takeWhile
      fun c => (hexDigitValue? c).isSome
    if digits = [] then none
    else
      let value := hexValue digits
      some ((if sign = some true then 256 - value % 256 else value) % 256,
        unsigned.drop digits.length)

/-- `sscanf(s, "%2hhx:%2hhx:...:%2hhx%c", ...)` with `count + 1` conversions `%2hhx`: the bytes
it assigns, in order, and whether the closing `%c` finds a character. It returns the number of
bytes, plus one for the `%c`; a string that ends before the first conversion gives `EOF`, which
the callers treat as a short count. -/
def scanHexFields : Nat → List Char → List Nat × Bool
  | count, s =>
    match scanHexByte s with
    | none => ([], false)
    | some (byte, rest) =>
      match count, rest with
      | 0, rest => ([byte], !rest.isEmpty)
      | count + 1, ':' :: rest =>
        match scanHexFields count rest with
        | (bytes, extra) => (byte :: bytes, extra)
      | _ + 1, _ => ([byte], false)

/-- The text `%02x:%02x:...:%02x` of bytes. -/
def hexFields (bytes : List Nat) : List Char := [':'].intercalate (bytes.map hex2)

theorem hex2_digits {byte : Nat} (small : byte < 256) :
    byte / 16 < 16 ∧ byte % 16 < 16 :=
  ⟨by omega, Nat.mod_lt _ (by decide)⟩

@[simp]
theorem hexFields_singleton (byte : Nat) : hexFields [byte] = hex2 byte := by
  simp [hexFields]

theorem hexFields_cons_cons (byte next : Nat) (more : List Nat) :
    hexFields (byte :: next :: more) = hex2 byte ++ ':' :: hexFields (next :: more) := by
  simp [hexFields, List.intercalate_cons_cons]

theorem length_hexFields (bytes : List Nat) : (hexFields bytes).length = 3 * bytes.length - 1 := by
  induction bytes with
  | nil => rfl
  | cons byte more ih =>
    cases more with
    | nil => rfl
    | cons next more =>
      rw [hexFields_cons_cons, List.length_append, List.length_cons, ih]
      simp [hex2]
      omega

/-- The text of bytes holds hexadecimal digits and the `:` between them. -/
theorem mem_hexFields {bytes : List Nat} (small : ∀ byte ∈ bytes, byte < 256) {c : Char}
    (mem : c ∈ hexFields bytes) : c = ':' ∨ ∃ d < 16, c = Nat.digitChar d := by
  induction bytes with
  | nil => simp [hexFields] at mem
  | cons byte more ih =>
    have digits : c ∈ hex2 byte → ∃ d < 16, c = Nat.digitChar d := fun inHex => by
      obtain ⟨high, low⟩ := hex2_digits (small byte (by simp))
      rcases List.mem_pair.mp inHex with rfl | rfl
      · exact ⟨_, high, rfl⟩
      · exact ⟨_, low, rfl⟩
    cases more with
    | nil => exact .inr (digits (by simpa using mem))
    | cons next more =>
      rw [hexFields_cons_cons] at mem
      rcases List.mem_append.mp mem with inHex | rest
      · exact .inr (digits inHex)
      · rcases List.mem_cons.mp rest with colon | later
        · exact .inl colon
        · exact ih (fun b inMore => small b (List.mem_cons_of_mem _ inMore)) later

theorem not_mem_hexFields {bytes : List Nat} (small : ∀ byte ∈ bytes, byte < 256) {ch : Char}
    (colon : ch ≠ ':') (digit : ∀ d < 16, Nat.digitChar d ≠ ch) : ch ∉ hexFields bytes :=
  fun mem => by
    rcases mem_hexFields small mem with same | ⟨d, small, same⟩
    · exact colon same
    · exact digit d small same.symm

/-- The text of `n + 1` bytes holds `n` colons. -/
theorem count_colon_hexFields {bytes : List Nat} (small : ∀ byte ∈ bytes, byte < 256) :
    (hexFields bytes).count ':' = bytes.length - 1 := by
  induction bytes with
  | nil => simp [hexFields]
  | cons byte more ih =>
    obtain ⟨high, low⟩ := hex2_digits (small byte (by simp))
    have noColon : (hex2 byte).count ':' = 0 := by
      obtain ⟨-, -, -, highColon, -⟩ := digitChar_facts ⟨byte / 16, high⟩
      obtain ⟨-, -, -, lowColon, -⟩ := digitChar_facts ⟨byte % 16, low⟩
      simp [hex2, highColon, lowColon]
    cases more with
    | nil => simp [noColon]
    | cons next more =>
      rw [hexFields_cons_cons, List.count_append, List.count_cons_self,
        ih (fun b inMore => small b (List.mem_cons_of_mem _ inMore)), noColon]
      simp

theorem scanHexByte_hex2 {byte : Nat} (small : byte < 256) (rest : List Char) :
    scanHexByte (hex2 byte ++ rest) = some (byte, rest) := by
  obtain ⟨high, low⟩ := hex2_digits small
  obtain ⟨space, minus, plus, -, -, highValue⟩ := digitChar_facts ⟨byte / 16, high⟩
  obtain ⟨-, -, -, -, -, lowValue⟩ := digitChar_facts ⟨byte % 16, low⟩
  have unblank : (hex2 byte ++ rest).dropWhile isSpace = hex2 byte ++ rest := by
    simp [hex2, space]
  have unsigned : takeSign (hex2 byte ++ rest) = (none, hex2 byte ++ rest) := by
    simp only [hex2, List.cons_append]
    exact takeSign_of_ne minus plus
  have digits : ((hex2 byte ++ rest).take 2).takeWhile (fun c => (hexDigitValue? c).isSome) =
      hex2 byte := by
    simp [hex2, highValue, lowValue]
  have value : hexValue (hex2 byte) = byte := by
    simp only [hex2, hexValue, digitsValue, List.foldl, highValue, lowValue, Option.getD_some]
    omega
  simp only [scanHexByte, unblank, unsigned, Option.isSome_none, Bool.false_eq_true, if_false,
    digits, value]
  simp [hex2, Nat.mod_eq_of_lt small]

/-- Bytes written `%02x` and separated by `:` scan back with as many conversions, and the
closing `%c` finds nothing. -/
theorem scanHexFields_hexFields {bytes : List Nat} (small : ∀ byte ∈ bytes, byte < 256)
    {count : Nat} (length : bytes.length = count + 1) :
    scanHexFields count (hexFields bytes) = (bytes, false) := by
  induction count generalizing bytes with
  | zero =>
    obtain ⟨byte, rfl⟩ := List.length_eq_one_iff.mp length
    have read := scanHexByte_hex2 (small byte (by simp)) []
    rw [List.append_nil] at read
    simp [hexFields, scanHexFields, read]
  | succ count ih =>
    obtain ⟨byte, rest, rfl⟩ := List.exists_cons_of_length_eq_add_one length
    obtain ⟨next, more, rfl⟩ := List.exists_cons_of_length_eq_add_one (by simpa using length)
    have tail := ih (fun b mem => small b (List.mem_cons_of_mem _ mem)) (by simpa using length)
    rw [hexFields_cons_cons, scanHexFields, scanHexByte_hex2 (small byte (by simp))]
    simp only [tail]

/-! ## `std::string` searches -/

/-- `find(c)`: the index of the first `c`, `none` for `npos`. -/
def find (s : List Char) (c : Char) : Option Nat := if c ∈ s then some (s.idxOf c) else none

/-- `find(c, pos)`. -/
def findFrom (s : List Char) (c : Char) (pos : Nat) : Option Nat :=
  (find (s.drop pos) c).map (· + pos)

/-- `rfind(c)`: the index of the last `c`. -/
def rfind (s : List Char) (c : Char) : Option Nat :=
  (find s.reverse c).map fun i => s.length - 1 - i

/-- `std::string::npos`. -/
def npos : Nat := 2 ^ 64 - 1

/-- `substr(pos, len)`; `substr(pos)` is `s.drop pos`. -/
def substr (s : List Char) (pos len : Nat) : List Char := (s.drop pos).take len

theorem find_append_cons {front rest : List Char} {c : Char} (absent : c ∉ front) :
    find (front ++ c :: rest) c = some front.length := by
  simp [find, List.idxOf_append, absent]

theorem findFrom_append (front rest : List Char) (c : Char) :
    findFrom (front ++ rest) c front.length = (find rest c).map (· + front.length) := by
  simp [findFrom]

/-- `find(c, pos)` from the start of a field that holds no `c` stops right after the field. -/
theorem findFrom_field {field : List Char} {c : Char} (absent : c ∉ field) (front rest : List Char) :
    findFrom (front ++ field ++ c :: rest) c front.length = some (front.length + field.length) := by
  rw [List.append_assoc, findFrom_append, find_append_cons absent, Option.map_some, Nat.add_comm]

theorem substr_field (front field rest : List Char) :
    substr (front ++ field ++ rest) front.length field.length = field := by
  simp [substr]

/-- A field that starts at `pos + 1` and ends at a `c`: `find(c, pos + 1)`, the field as
`substr(pos + 1, next - pos - 1)` cuts it, and the text after the `c`. -/
theorem cut_field {front field : List Char} {c : Char} (absent : c ∉ field) (rest : List Char)
    {pos : Nat} (start : front.length = pos + 1) :
    findFrom (front ++ field ++ c :: rest) c (pos + 1) = some (pos + 1 + field.length) ∧
      substr (front ++ field ++ c :: rest) (pos + 1) (pos + 1 + field.length - pos - 1) = field ∧
      (front ++ field ++ c :: rest).drop (pos + 1 + field.length + 1) = rest := by
  have length : pos + 1 + field.length - pos - 1 = field.length := by omega
  refine ⟨start ▸ findFrom_field absent front rest, ?_, ?_⟩
  · rw [length, ← start, substr_field]
  · rw [← start, List.append_assoc, Nat.add_assoc, ← List.drop_drop, List.drop_left,
      ← List.drop_drop, List.drop_left]
    rfl

theorem not_mem_take_idxOf (s : List Char) (c : Char) : c ∉ s.take (s.idxOf c) := by
  induction s with
  | nil => simp
  | cons x rest ih =>
    by_cases same : x = c
    · simp [same]
    · simp [same, Ne.symm same, ih]

/-- The text from `pos` holds the `c` that `find(c, pos)` meets and those after it. -/
theorem count_drop_of_findFrom {s : List Char} {c : Char} {pos next : Nat}
    (found : findFrom s c pos = some next) :
    (s.drop pos).count c = (s.drop (next + 1)).count c + 1 := by
  simp only [findFrom, find, Option.map_eq_some_iff] at found
  obtain ⟨i, present, rfl⟩ := found
  split at present
  case isFalse => cases present
  case isTrue inside =>
    cases present
    have bound := List.idxOf_lt_length_of_mem inside
    have split := List.take_append_drop ((s.drop pos).idxOf c) (s.drop pos)
    rw [List.drop_eq_getElem_cons bound, List.getElem_idxOf bound, List.drop_drop] at split
    have shifted : pos + ((s.drop pos).idxOf c + 1) = (s.drop pos).idxOf c + pos + 1 := by omega
    conv_lhs => rw [← split]
    rw [List.count_append, List.count_eq_zero.mpr (not_mem_take_idxOf _ c), List.count_cons_self,
      Nat.zero_add, shifted]

theorem count_drop_of_findFrom_none {s : List Char} {c : Char} {pos : Nat}
    (found : findFrom s c pos = none) : (s.drop pos).count c = 0 := by
  simp only [findFrom, find, Option.map_eq_none_iff] at found
  split at found
  case isTrue => cases found
  case isFalse absent => exact List.count_eq_zero.mpr absent

theorem le_of_findFrom {s : List Char} {c : Char} {pos next : Nat}
    (found : findFrom s c pos = some next) : pos ≤ next := by
  simp only [findFrom, Option.map_eq_some_iff] at found
  obtain ⟨i, -, rfl⟩ := found
  omega

theorem rfind_append_cons {front back : List Char} {c : Char} (absent : c ∉ back) :
    rfind (front ++ c :: back) c = some front.length := by
  have reversed : (front ++ c :: back).reverse = back.reverse ++ c :: front.reverse := by simp
  rw [rfind, reversed, find_append_cons (by simpa using absent)]
  simp only [Option.map_some, List.length_append, List.length_cons, List.length_reverse]
  congr 1
  omega

end CText
