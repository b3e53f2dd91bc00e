import Mathlib

/-! Big-endian fields of a byte string. A read of `size` bytes at `offset`
either lies inside the string or reports the first index outside it; a write
of a value into `size` bytes keeps its low `size` bytes. Reads of a string
built by appending fields, and reads that run off its end, are what the
decoders above need, as is the fold of a reader over a list of items. A
zeroed buffer written field by field at consecutive offsets is the
concatenation of the fields, and a field read back in part and zero-filled
keeps its high bytes. -/
namespace Bytes

universe u

/-- The big-endian value of a list of bytes. -/
def valueBE (bytes : List UInt8) : Nat :=
  bytes.foldl (fun acc byte => acc * 256 + byte.toNat) 0

/-- Read `size` bytes at `offset`, big-endian; the error is the first index
read that lies outside `bytes`. -/
def readBE (bytes : List UInt8) (offset size : Nat) : Except Nat Nat :=
  if offset + size ≤ bytes.length then .ok (valueBE ((bytes.drop offset).take size))
  else .error (max offset bytes.length)

/-- Write the low `size` bytes of `value`, big-endian. -/
def putBE : Nat → Nat → List UInt8
  | 0, _ => []
  | size + 1, value => putBE size (value / 256) ++ [UInt8.ofNat value]

@[simp] theorem valueBE_nil : valueBE [] = 0 := rfl

@[simp] theorem valueBE_append_singleton (bytes : List UInt8) (byte : UInt8) :
    valueBE (bytes ++ [byte]) = valueBE bytes * 256 + byte.toNat := by
  simp [valueBE, List.foldl_append]

theorem valueBE_lt (bytes : List UInt8) : valueBE bytes < 256 ^ bytes.length := by
  induction bytes using List.reverseRecOn with
  | nil => simp
  | append_singleton bytes byte ih =>
    have low : byte.toNat < 256 := byte.toNat_lt
    rw [valueBE_append_singleton, List.length_append, List.length_singleton, Nat.pow_succ]
    omega

@[simp] theorem length_putBE (size value : Nat) : (putBE size value).length = size := by
  induction size generalizing value with
  | zero => rfl
  | succ size ih => simp [putBE, ih]

/-- A write keeps the value modulo the field's range. -/
@[simp] theorem valueBE_putBE (size value : Nat) :
    valueBE (putBE size value) = value % 256 ^ size := by
  induction size generalizing value with
  | zero => simp [putBE, Nat.mod_one]
  | succ size ih =>
    have byte : (UInt8.ofNat value).toNat = value % 256 := UInt8.toNat_ofNat'
    rw [putBE, valueBE_append_singleton, ih, byte, Nat.pow_succ', Nat.mod_mul]
    omega

@[simp] theorem putBE_one (value : Nat) : putBE 1 value = [UInt8.ofNat value] := rfl

theorem valueBE_putBE_of_lt {size value : Nat} (fits : value < 256 ^ size) :
    valueBE (putBE size value) = value := by
  rw [valueBE_putBE, Nat.mod_eq_of_lt fits]

theorem readBE_ok_iff {bytes : List UInt8} {offset size : Nat} :
    (∃ value, readBE bytes offset size = .ok value) ↔ offset + size ≤ bytes.length := by
  unfold readBE
  split_ifs with inside
  · exact ⟨fun _ => inside, fun _ => ⟨_, rfl⟩⟩
  · simp [inside]

/-- The loop `while (offset < size) { read(offset); offset += width; }`,
collecting what each pass reads. -/
def records {ε α : Type u} (size width : Nat) (positive : 0 < width)
    (read : Nat → Except ε α) (offset : Nat) : Except ε (List α) :=
  if offset < size then do
    let record ← read offset
    let rest ← records size width positive read (offset + width)
    pure (record :: rest)
  else pure []
termination_by size - offset

/-- A computation followed by another succeeds iff the first does and the
second does on its result. -/
theorem bind_ok_iff {α β ε : Type u} {x : Except ε α} {f : α → Except ε β} :
    (∃ result, (x >>= f) = .ok result) ↔ ∃ first, x = .ok first ∧ ∃ result, f first = .ok result := by
  cases x with
  | error e =>
    simp only [reduceCtorEq, false_and, exists_false, iff_false]
    rintro ⟨result, ok⟩
    cases ok
  | ok first =>
    simp only [Except.ok.injEq, exists_eq_left']
    rfl

theorem map_ok_iff {α β ε : Type u} {x : Except ε α} {f : α → β} :
    (∃ result, (f <$> x) = .ok result) ↔ ∃ value, x = .ok value := by
  cases x with
  | error e =>
    simp only [reduceCtorEq, exists_false, iff_false]
    rintro ⟨result, ok⟩
    cases ok
  | ok value => exact ⟨fun _ => ⟨value, rfl⟩, fun _ => ⟨f value, rfl⟩⟩

/-- A fold of a reader over a list succeeds iff it succeeds on every item,
when whether it succeeds on an item does not depend on the accumulator. -/
theorem foldlM_ok_iff {α β ε : Type*} {f : β → α → Except ε β} {P : α → Prop}
    (step : ∀ acc item, (∃ next, f acc item = .ok next) ↔ P item) :
    ∀ (items : List α) (init : β),
      (∃ result, items.foldlM f init = .ok result) ↔ ∀ item ∈ items, P item
  | [], init => by
    simp only [List.foldlM, List.not_mem_nil, false_implies, implies_true, iff_true]
    exact ⟨init, rfl⟩
  | item :: items, init => by
    rw [List.foldlM_cons, List.forall_mem_cons]
    cases first : f init item with
    | error e =>
      have bad : ¬P item := fun good => by
        obtain ⟨next, ok⟩ := (step init item).mpr good
        rw [first] at ok
        cases ok
      simp only [bad, false_and, iff_false]
      rintro ⟨result, ok⟩
      cases ok
    | ok next =>
      have good : P item := (step init item).mp ⟨next, first⟩
      simp only [good, true_and]
      exact foldlM_ok_iff step items next

/-- A loop of reads of `width` bytes that each stay inside `size` bytes
succeeds iff the bytes left are a whole number of records. -/
theorem records_ok_iff {ε α : Type u} {size width : Nat} {positive : 0 < width}
    {read : Nat → Except ε α}
    (inside : ∀ offset, (∃ record, read offset = .ok record) ↔ offset + width ≤ size)
    {offset : Nat} (start : offset ≤ size) :
    (∃ rs, records size width positive read offset = .ok rs) ↔ (size - offset) % width = 0 := by
  fun_induction records size width positive read offset with
  | case1 offset before ih =>
    simp only [bind_ok_iff]
    by_cases room : offset + width ≤ size
    · obtain ⟨record, recordOk⟩ := (inside offset).mpr room
      have rest : (size - (offset + width)) % width = (size - offset) % width := by
        rw [← Nat.sub_add_cancel (show width ≤ size - offset by omega), Nat.add_mod_right]
        congr 1
        omega
      rw [← rest, ← ih room]
      constructor
      · rintro ⟨_, _, rs, rsOk, _⟩
        exact ⟨rs, rsOk⟩
      · rintro ⟨rs, rsOk⟩
        exact ⟨record, recordOk, rs, rsOk, _, rfl⟩
    · have leftover : ¬(size - offset) % width = 0 := by
        rw [Nat.mod_eq_of_lt (by omega)]
        omega
      simp only [leftover, iff_false]
      rintro ⟨record, recordOk, _⟩
      exact room ((inside offset).mp ⟨record, recordOk⟩)
  | case2 offset atEnd =>
    have done : size - offset = 0 := by omega
    simp only [done, Nat.zero_mod, iff_true]
    exact ⟨[], rfl⟩

/-! ## Words and tag-length-value runs -/

/-- An unsigned integer of `width` bytes. -/
abbrev Word (width : Nat) : Type := Fin (256 ^ width)

/-- Four-byte words (IPv4 addresses, tags, communities) are the commonest literals of the model:
a closed instance for their modulus makes each literal refer to one constant. -/
instance Word4.neZero : NeZero (256 ^ 4) := ⟨by decide⟩

/-- The same for two-byte AS numbers, six-byte MAC addresses and eight-byte route
distinguishers and extended communities. -/
instance Word2.neZero : NeZero (256 ^ 2) := ⟨by decide⟩

instance Word6.neZero : NeZero (256 ^ 6) := ⟨by decide⟩

instance Word8.neZero : NeZero (256 ^ 8) := ⟨by decide⟩

/-- A vector of words, each written big-endian in `width` bytes. -/
def putWords (width : Nat) (values : List (Word width)) : List UInt8 :=
  values.flatMap fun value => putBE width value.val

theorem valueBE_take_lt (width : Nat) (bytes : List UInt8) :
    valueBE (bytes.take width) < 256 ^ width :=
  lt_of_lt_of_le (valueBE_lt _) (Nat.pow_le_pow_right (by decide) (List.length_take_le _ _))

/-- The word in the first `width` bytes, or in fewer when fewer remain. -/
def takeWord (width : Nat) (bytes : List UInt8) : Word width :=
  ⟨valueBE (bytes.take width), valueBE_take_lt width bytes⟩

/-- A vector of words read `width` bytes at a time while bytes remain. -/
def words (width : Nat) (positive : 0 < width) (bytes : List UInt8) : List (Word width) :=
  if bytes = [] then []
  else takeWord width bytes :: words width positive (bytes.drop width)
termination_by bytes.length
decreasing_by
  have nonempty : bytes.length ≠ 0 := by simpa using ‹¬bytes = []›
  simp only [List.length_drop]
  omega

@[simp] theorem length_putWords (width : Nat) (values : List (Word width)) :
    (putWords width values).length = values.length * width := by
  induction values with
  | nil => simp [putWords]
  | cons value values ih =>
    simp only [putWords, List.flatMap_cons, List.length_append, length_putBE] at ih ⊢
    rw [ih, List.length_cons, Nat.succ_mul]
    omega

theorem takeWord_putBE_append (width : Nat) (value : Word width) (rest : List UInt8) :
    takeWord width (putBE width value.val ++ rest) = value := by
  apply Fin.ext
  simp only [takeWord, List.take_left' (length_putBE _ _)]
  exact valueBE_putBE_of_lt value.isLt

/-- The first `count` words of a vector are its first `count * width` bytes. -/
theorem take_putWords (width count : Nat) (values : List (Word width)) :
    (putWords width values).take (count * width) = putWords width (values.take count) := by
  induction values generalizing count with
  | nil => simp [putWords]
  | cons value values ih =>
    cases count with
    | zero => simp [putWords]
    | succ count =>
      have written : (putWords width (value :: values)) =
          putBE width value.val ++ putWords width values := rfl
      rw [written, List.take_succ_cons, Nat.succ_mul, Nat.add_comm, List.take_append,
        List.take_of_length_le (by simp), length_putBE, Nat.add_sub_cancel_left, ih]
      rfl

/-- The words after the first `count` are the bytes after `count * width`. -/
theorem drop_putWords (width count : Nat) (values : List (Word width)) :
    (putWords width values).drop (count * width) = putWords width (values.drop count) := by
  induction values generalizing count with
  | nil => simp [putWords]
  | cons value values ih =>
    cases count with
    | zero => simp
    | succ count =>
      have written : (putWords width (value :: values)) =
          putBE width value.val ++ putWords width values := rfl
      rw [written, List.drop_succ_cons, Nat.succ_mul, Nat.add_comm, List.drop_append,
        List.drop_eq_nil_of_le (by simp), length_putBE, Nat.add_sub_cancel_left, ih,
        List.nil_append]

/-- Words read back what was written, one word per `width` bytes. -/
theorem words_putWords (width : Nat) (positive : 0 < width) (values : List (Word width)) :
    words width positive (putWords width values) = values := by
  induction values with
  | nil => simp [putWords, words]
  | cons value values ih =>
    have written : (putWords width (value :: values)) =
        putBE width value.val ++ putWords width values := rfl
    have nonempty : putBE width value.val ++ putWords width values ≠ [] := by
      intro empty
      have := congrArg List.length empty
      simp at this
      omega
    rw [written, words, if_neg nonempty, List.drop_left' (length_putBE _ _), ih,
      takeWord_putBE_append]

/-- A run of items, each a tag byte, a length byte and `length * unit` value
bytes, read until the bytes end. -/
def tlvRun {α : Type u} (unit : Nat) (item : UInt8 → List UInt8 → α) :
    List UInt8 → Option (List α)
  | [] => some []
  | [_] => none
  | tag :: length :: rest =>
    if length.toNat * unit ≤ rest.length then
      (tlvRun unit item (rest.drop (length.toNat * unit))).map
        (item tag (rest.take (length.toNat * unit)) :: ·)
    else none
termination_by bytes => bytes.length

/-- An item whose length byte covers a prefix of the bytes that follow takes
that prefix; the run goes on after it. -/
theorem tlvRun_cons_append_of_le {α : Type u} (unit : Nat) (item : UInt8 → List UInt8 → α)
    (tag length : UInt8) {value : List UInt8} (rest : List UInt8)
    (covered : length.toNat * unit ≤ value.length) :
    tlvRun unit item (tag :: length :: (value ++ rest)) =
      (tlvRun unit item (value.drop (length.toNat * unit) ++ rest)).map
        (item tag (value.take (length.toNat * unit)) :: ·) := by
  rw [tlvRun, if_pos (by simp; omega), List.drop_append_of_le_length covered,
    List.take_append_of_le_length covered]

/-! ## Fields written in place and read back in part -/

theorem takeWord_putBE_append_val (width value : Nat) (rest : List UInt8) :
    (takeWord width (putBE width value ++ rest)).val = value % 256 ^ width := by
  simp only [takeWord, List.take_left' (length_putBE _ _), valueBE_putBE]

/-- A write of `high + low` bytes is the high bytes followed by the low ones. -/
theorem putBE_add (high low value : Nat) :
    putBE (high + low) value = putBE high (value / 256 ^ low) ++ putBE low value := by
  induction low generalizing value with
  | zero => simp [putBE]
  | succ low ih =>
    rw [← Nat.add_assoc, putBE, ih, putBE, List.append_assoc, Nat.div_div_eq_div_mul,
      Nat.pow_succ, Nat.mul_comm]

@[simp] theorem valueBE_append_replicate_zero (bytes : List UInt8) (count : Nat) :
    valueBE (bytes ++ List.replicate count 0) = valueBE bytes * 256 ^ count := by
  induction count with
  | zero => simp
  | succ count ih =>
    rw [List.replicate_succ', ← List.append_assoc, valueBE_append_singleton, ih, Nat.pow_succ]
    simp [Nat.mul_assoc]

/-- The first `kept` bytes of a written field, copied into `width` zeroed
bytes, hold the value with its low `width - kept` bytes cleared. -/
theorem takeWord_take_putBE (width kept value : Nat) (le : kept ≤ width) :
    (takeWord width ((putBE width value).take kept ++ List.replicate width 0)).val =
      value % 256 ^ width / 256 ^ (width - kept) * 256 ^ (width - kept) := by
  have split : width = kept + (width - kept) := by omega
  have high : (putBE width value).take kept = putBE kept (value / 256 ^ (width - kept)) := by
    rw [split, putBE_add, List.take_left' (length_putBE _ _), ← split]
  have filled : List.replicate width (0 : UInt8) =
      List.replicate (width - kept) 0 ++ List.replicate kept 0 := by
    rw [List.replicate_append_replicate, Nat.sub_add_cancel le]
  rw [high, filled, ← List.append_assoc, takeWord]
  simp only
  rw [List.take_left' (by simp; omega), valueBE_append_replicate_zero, valueBE_putBE]
  have range : 256 ^ width = 256 ^ (width - kept) * 256 ^ kept := by
    rw [← Nat.pow_add, Nat.sub_add_cancel le]
  rw [range, Nat.mod_mul_right_div_self]

theorem takeWord_take_putBE_of_dvd {width kept value : Nat} (le : kept ≤ width)
    (fits : value < 256 ^ width) (cleared : 256 ^ (width - kept) ∣ value) :
    (takeWord width ((putBE width value).take kept ++ List.replicate width 0)).val = value := by
  rw [takeWord_take_putBE _ _ _ le, Nat.mod_eq_of_lt fits, Nat.div_mul_cancel cleared]

/-- A value whose low `8 * width - bits` bits are clear is clear in every byte
past the `(bits + 7) / 8` bytes that hold its first `bits` bits. -/
theorem pow_bytes_dvd_of_pow_bits_dvd {width bits value : Nat} (le : bits ≤ 8 * width)
    (cleared : 2 ^ (8 * width - bits) ∣ value) :
    256 ^ (width - (bits + 7) / 8) ∣ value := by
  have bytes : (256 : Nat) ^ (width - (bits + 7) / 8) = 2 ^ (8 * (width - (bits + 7) / 8)) := by
    rw [Nat.pow_mul]
  rw [bytes]
  exact Nat.dvd_trans (Nat.pow_dvd_pow 2 (by omega)) cleared

/-- `copy(bytes.begin(), bytes.end(), buffer.begin() + offset)` on a buffer
long enough to hold them. -/
def overwrite (buffer : List UInt8) (offset : Nat) (bytes : List UInt8) : List UInt8 :=
  buffer.take offset ++ bytes ++ buffer.drop (offset + bytes.length)

/-- A buffer filled from the front and zero behind: a write a `gap` past the
filled part leaves the gap zero and appends the bytes to what is filled. -/
theorem overwrite_append_replicate_gap (front bytes : List UInt8) (gap count : Nat)
    {offset : Nat} (here : offset = front.length + gap) (room : gap ≤ count) :
    overwrite (front ++ List.replicate count 0) offset bytes =
      (front ++ List.replicate gap 0 ++ bytes) ++
        List.replicate (count - gap - bytes.length) 0 := by
  subst here
  simp only [overwrite, List.take_append, List.take_of_length_le (Nat.le_add_right _ _),
    Nat.add_sub_cancel_left, List.take_replicate, Nat.min_eq_left room, Nat.add_assoc,
    List.drop_append, List.drop_eq_nil_of_le (Nat.le_add_right _ _), List.drop_replicate,
    List.nil_append, Nat.sub_sub, List.append_assoc]

theorem overwrite_append_replicate (front bytes : List UInt8) (count : Nat) {offset : Nat}
    (here : offset = front.length) :
    overwrite (front ++ List.replicate count 0) offset bytes =
      (front ++ bytes) ++ List.replicate (count - bytes.length) 0 := by
  simpa using overwrite_append_replicate_gap front bytes 0 count (by simpa using here)
    (Nat.zero_le _)

theorem overwrite_replicate (bytes : List UInt8) (count : Nat) :
    overwrite (List.replicate count 0) 0 bytes = bytes ++ List.replicate (count - bytes.length) 0 := by
  simpa using overwrite_append_replicate [] bytes count rfl

/-- The byte at an index is the head of what follows it. -/
theorem getD_eq_headD_drop (bytes : List UInt8) (index : Nat) (fallback : UInt8) :
    bytes.getD index fallback = (bytes.drop index).headD fallback := by
  simp [List.getD_eq_getElem?_getD, List.headD_eq_head?_getD, List.head?_drop]

/-- Three bytes shifted into place and or-ed together are their big-endian value. -/
theorem or_shiftLeft_bytes (b0 b1 b2 : UInt8) :
    (b0.toNat <<< 16 ||| b1.toNat <<< 8 ||| b2.toNat) = valueBE [b0, b1, b2] := by
  have split : b0.toNat <<< 16 = (b0.toNat <<< 8) <<< 8 := by rw [← Nat.shiftLeft_add]
  rw [split, ← Nat.shiftLeft_or_distrib,
    ← Nat.shiftLeft_add_eq_or_of_lt (b1.toNat_lt : b1.toNat < 2 ^ 8),
    ← Nat.shiftLeft_add_eq_or_of_lt (b2.toNat_lt : b2.toNat < 2 ^ 8)]
  simp [valueBE, Nat.shiftLeft_eq]

theorem getD_or_shiftLeft (bytes : List UInt8) {offset : Nat} (inside : offset + 3 ≤ bytes.length) :
    ((bytes.getD offset 0).toNat <<< 16 ||| (bytes.getD (offset + 1) 0).toNat <<< 8 |||
      (bytes.getD (offset + 2) 0).toNat) = valueBE ((bytes.drop offset).take 3) := by
  have shifted (i : Nat) : bytes.getD (offset + i) 0 = (bytes.drop offset).getD i 0 := by
    simp only [List.getD_eq_getElem?_getD, List.getElem?_drop]
  obtain ⟨b0, b1, b2, rest, split⟩ :
      ∃ b0 b1 b2 rest, bytes.drop offset = b0 :: b1 :: b2 :: rest := by
    match dropped : bytes.drop offset with
    | b0 :: b1 :: b2 :: rest => exact ⟨b0, b1, b2, rest, rfl⟩
    | [] | [_] | [_, _] =>
      have := congrArg List.length dropped
      simp only [List.length_drop, List.length_nil, List.length_cons] at this
      omega
  rw [← Nat.add_zero offset, shifted 0, shifted 1, shifted 2, Nat.add_zero, split]
  simp [or_shiftLeft_bytes]

/-! ## Fields of a fixed-size buffer -/

theorem valueBE_append (front back : List UInt8) :
    valueBE (front ++ back) = valueBE front * 256 ^ back.length + valueBE back := by
  induction back using List.reverseRecOn with
  | nil => simp
  | append_singleton back byte ih =>
    rw [← List.append_assoc, valueBE_append_singleton, ih, valueBE_append_singleton,
      List.length_append, List.length_singleton, Nat.pow_succ]
    ring

theorem takeWord_val_of_length {width : Nat} {bytes : List UInt8} (length : bytes.length = width) :
    (takeWord width bytes).val = valueBE bytes := by
  simp [takeWord, List.take_of_length_le, length]

/-- The `size` bytes at `offset` of a written field: the value with the bytes after them
shifted out, kept in `size` bytes. -/
theorem takeWord_drop_putBE {width offset size : Nat} (inside : offset + size ≤ width)
    (value : Nat) : (takeWord size ((putBE width value).drop offset)).val =
      value / 256 ^ (width - offset - size) % 256 ^ size := by
  have front : putBE width value =
      putBE offset (value / 256 ^ (width - offset)) ++ putBE (width - offset) value := by
    rw [← putBE_add, Nat.add_sub_cancel' (by omega)]
  have field : putBE (width - offset) value =
      putBE size (value / 256 ^ (width - offset - size)) ++ putBE (width - offset - size) value := by
    rw [← putBE_add, Nat.add_sub_cancel' (by omega)]
  rw [front, List.drop_left' (length_putBE _ _), field, takeWord_putBE_append_val]

end Bytes
