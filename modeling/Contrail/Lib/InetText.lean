import Mathlib
import Contrail.Lib.CText

/-! `inet_pton` and `inet_ntop` of the GNU C library for `AF_INET` and `AF_INET6`, on an address
as the list of its bytes. `inet_ntop` writes an IPv4 address as a dotted quad, and an IPv6 one
as eight groups of hexadecimal digits with the first longest run of at least two zero groups
written `::`, and with a dotted quad for the last four bytes of an IPv4-compatible or
IPv4-mapped address; `inet_pton` reads each of these back. -/
namespace InetText

open CText

/-! ## IPv4 -/

/-- The state of the loop of `inet_pton4`: the bytes before `tp`, `*tp`, `saw_digit` and
`octets`. -/
structure Pton4 where
  done : List Nat
  cur : Nat
  sawDigit : Bool
  octets : Nat
  deriving DecidableEq, Repr

/-- One character of `inet_pton4`; `none` is `return 0`. -/
def pton4Step (st : Pton4) (ch : Char) : Option Pton4 :=
  if ch.isDigit then
    let new := st.cur * 10 + (ch.toNat - 48)
    -- a digit after a leading zero is refused
    if st.sawDigit && st.cur == 0 then none
    else if 255 < new then none
    else if st.sawDigit then some { st with cur := new }
    else if 4 < st.octets + 1 then none
    else some { st with cur := new, sawDigit := true, octets := st.octets + 1 }
  else if ch = '.' && st.sawDigit then
    if st.octets = 4 then none
    else some { st with done := st.done ++ [st.cur], cur := 0, sawDigit := false }
  else none

/-- `inet_pton4`: the four bytes of a dotted quad whose numbers have at most three digits and
no leading zero. -/
def inetPton4 (src : List Char) : Option (List Nat) :=
  match src.foldlM pton4Step ⟨[], 0, false, 0⟩ with
  | none => none
  | some st => if st.octets < 4 then none else some (st.done ++ [st.cur])

/-- `inet_ntop4`: `sprintf(tmp, "%u.%u.%u.%u", src[0], src[1], src[2], src[3])`. -/
def inetNtop4 (src : List Nat) : List Char :=
  Nat.toDigits 10 (src.getD 0 0) ++ '.' :: Nat.toDigits 10 (src.getD 1 0) ++ '.' ::
    Nat.toDigits 10 (src.getD 2 0) ++ '.' :: Nat.toDigits 10 (src.getD 3 0)

/-- The digits of a byte, read from the start of a number, leave it in `*tp`. -/
theorem foldlM_pton4Step_toDigits {byte : Nat} (small : byte < 256) (done : List Nat)
    {octets : Nat} (room : octets < 4) :
    (Nat.toDigits 10 byte).foldlM pton4Step ⟨done, 0, false, octets⟩ =
      some ⟨done, byte, true, octets + 1⟩ := by
  induction byte using Nat.strong_induction_on with
  | _ byte ih =>
    rw [Nat.toDigits_eq_if (by decide)]
    split
    case isTrue single =>
      have digit : (Nat.digitChar byte).isDigit = true := by simp [single]
      simp [pton4Step, digit, toNat_digitChar single, show ¬255 < byte by omega,
        show ¬4 < octets + 1 by omega]
    case isFalse several =>
      have last : byte % 10 < 10 := Nat.mod_lt _ (by decide)
      have digit : (Nat.digitChar (byte % 10)).isDigit = true := by simp [last]
      have leading : byte / 10 ≠ 0 := by omega
      have value : byte / 10 * 10 + byte % 10 = byte := by omega
      rw [List.foldlM_append, ih (byte / 10) (by omega) (by omega)]
      simp [pton4Step, digit, leading, toNat_digitChar last, value, show ¬255 < byte by omega]

/-- A number of the quad followed by its dot moves `tp` to the next byte. -/
theorem foldlM_pton4Step_octet {byte : Nat} (small : byte < 256) (done : List Nat)
    {octets : Nat} (room : octets < 3) (rest : List Char) :
    (Nat.toDigits 10 byte ++ '.' :: rest).foldlM pton4Step ⟨done, 0, false, octets⟩ =
      rest.foldlM pton4Step ⟨done ++ [byte], 0, false, octets + 1⟩ := by
  rw [List.foldlM_append, foldlM_pton4Step_toDigits small done (by omega)]
  simp [pton4Step, show octets + 1 ≠ 4 by omega]

/-- `inet_pton4` reads back the dotted quad `inet_ntop4` writes. -/
theorem inetPton4_inetNtop4 {src : List Nat} (length : src.length = 4)
    (small : ∀ byte ∈ src, byte < 256) : inetPton4 (inetNtop4 src) = some src := by
  obtain ⟨a, b, c, d, rfl⟩ : ∃ a b c d, src = [a, b, c, d] := by
    match src, length with
    | [a, b, c, d], _ => exact ⟨a, b, c, d, rfl⟩
  simp only [List.mem_cons, List.not_mem_nil, or_false, forall_eq_or_imp, forall_eq] at small
  obtain ⟨ha, hb, hc, hd⟩ := small
  have run : (inetNtop4 [a, b, c, d]).foldlM pton4Step ⟨[], 0, false, 0⟩ =
      some ⟨[a, b, c], d, true, 4⟩ := by
    simp only [inetNtop4, List.getD_cons_zero, List.getD_cons_succ, List.append_assoc,
      List.cons_append]
    rw [foldlM_pton4Step_octet ha [] (show 0 < 3 by decide),
      foldlM_pton4Step_octet hb _ (show 0 + 1 < 3 by decide),
      foldlM_pton4Step_octet hc _ (show 0 + 1 + 1 < 3 by decide),
      foldlM_pton4Step_toDigits hd _ (show 0 + 1 + 1 + 1 < 4 by decide)]
    rfl
  simp [inetPton4, run]

theorem foldlM_pton4Step_of_mem {c : Char} (refused : ∀ st, pton4Step st c = none) :
    ∀ {src : List Char} (st : Pton4), c ∈ src → src.foldlM pton4Step st = none
  | x :: rest, st, mem => by
    rw [List.foldlM_cons]
    rcases List.mem_cons.mp mem with rfl | later
    · simp [refused]
    · cases step : pton4Step st x with
      | none => rfl
      | some next => simpa [step] using foldlM_pton4Step_of_mem refused next later

/-- A string with a `:` is no dotted quad. -/
theorem inetPton4_of_colon_mem {src : List Char} (colon : ':' ∈ src) : inetPton4 src = none := by
  have refused : ∀ st, pton4Step st ':' = none := fun st => by simp [pton4Step]
  simp [inetPton4, foldlM_pton4Step_of_mem refused _ colon]

/-- The numbers `inet_pton4` has started, and one more while it waits for a digit. -/
def Pton4.pending (st : Pton4) : Nat := st.octets + if st.sawDigit then 0 else 1

/-- Only a digit after a dot starts a number. -/
theorem pton4Step_pending {st next : Pton4} {ch : Char} (step : pton4Step st ch = some next) :
    next.pending ≤ st.pending + if ch == '.' then 1 else 0 := by
  unfold pton4Step at step
  split at step
  case isTrue digit =>
    dsimp only at step
    split_ifs at step <;> cases step <;> simp [Pton4.pending, *]
  case isFalse notDigit =>
    split_ifs at step with dot
    cases step
    simp only [Bool.and_eq_true, decide_eq_true_eq] at dot
    obtain ⟨rfl, saw⟩ := dot
    simp [Pton4.pending, saw]

theorem foldlM_pton4Step_pending :
    ∀ {src : List Char} {st last : Pton4}, src.foldlM pton4Step st = some last →
      last.pending ≤ st.pending + src.count '.'
  | [], st, last, run => by
    cases run
    simp
  | ch :: rest, st, last, run => by
    rw [List.foldlM_cons] at run
    cases step : pton4Step st ch with
    | none => simp [step] at run
    | some next =>
      rw [step, Option.bind_eq_bind, Option.bind_some] at run
      have first := pton4Step_pending step
      have later := foldlM_pton4Step_pending run
      rw [List.count_cons]
      omega

/-- A dotted quad has at least three dots. -/
theorem three_le_count_dot {src : List Char} {bytes : List Nat} (read : inetPton4 src = some bytes) :
    3 ≤ src.count '.' := by
  unfold inetPton4 at read
  split at read
  · cases read
  · rename_i last run
    split at read
    · cases read
    · have bound := foldlM_pton4Step_pending run
      simp only [Pton4.pending] at bound
      split at bound <;> simp at bound <;> omega

/-- The characters of a dotted quad: decimal digits and dots. -/
theorem mem_inetNtop4 {quad : List Nat} {c : Char} (mem : c ∈ inetNtop4 quad) :
    c = '.' ∨ ∃ d < 10, c = Nat.digitChar d := by
  have digit : ∀ n, c ∈ Nat.toDigits 10 n → c = '.' ∨ ∃ d < 10, c = Nat.digitChar d :=
    fun _ inDigits => .inr (mem_toDigits (by decide) inDigits)
  simp only [inetNtop4, List.mem_append, List.mem_cons] at mem
  rcases mem with ((inA | dot | inB) | dot | inC) | dot | inD
  all_goals first | exact .inl ‹_› | exact digit _ ‹_›

theorem not_mem_inetNtop4 {quad : List Nat} {ch : Char} (dot : ch ≠ '.')
    (digit : ∀ d < 10, Nat.digitChar d ≠ ch) : ch ∉ inetNtop4 quad := fun mem => by
  rcases mem_inetNtop4 mem with same | ⟨d, small, same⟩
  · exact dot same
  · exact digit d small same.symm

theorem count_dot_inetNtop4 (quad : List Nat) : (inetNtop4 quad).count '.' = 3 := by
  have none (n : Nat) : (Nat.toDigits 10 n).count '.' = 0 :=
    List.count_eq_zero.mpr (not_mem_toDigits (by decide) (by decide))
  simp [inetNtop4, List.count_append, none]

theorem length_inetNtop4_le {quad : List Nat} (small : ∀ b ∈ quad, b < 256) :
    (inetNtop4 quad).length ≤ 15 := by
  have digits (i : Nat) : (Nat.toDigits 10 (quad.getD i 0)).length ≤ 3 := by
    apply (Nat.length_toDigits_le_iff (by decide) (by decide)).mpr
    rw [List.getD_eq_getElem?_getD]
    cases found : quad[i]? with
    | none => simp
    | some b => simpa using lt_trans (small b (List.mem_of_getElem? found)) (by decide)
  have a := digits 0
  have b := digits 1
  have c := digits 2
  have d := digits 3
  simp only [inetNtop4, List.length_append, List.length_cons]
  omega

/-! ## IPv6 -/

/-- The state of the loop of `inet_pton6`: the bytes written before `tp`, `colonp` as an index
into them, the text from `curtok` on, `xdigits_seen` and `val`. -/
structure Pton6 where
  tp : List Nat
  colonp : Option Nat
  curtok : List Char
  xdigitsSeen : Nat
  val : Nat
  deriving DecidableEq, Repr

/-- The loop of `inet_pton6` over the text left; `none` is `return 0`. It stops at the end of the
text, or at a dotted quad, which `inet_pton4` reads from `curtok` to the end. -/
def pton6Loop : Pton6 → List Char → Option Pton6
  | st, [] => some st
  | st, ch :: src =>
    match hexDigitValue? ch with
    | some digit =>
      if st.xdigitsSeen = 4 then none
      -- `val <<= 4; val |= digit`
      else if 0xffff < 16 * st.val + digit then none
      else pton6Loop { st with val := 16 * st.val + digit, xdigitsSeen := st.xdigitsSeen + 1 } src
    | none =>
      if ch = ':' then
        if st.xdigitsSeen = 0 then
          if st.colonp.isSome then none
          else pton6Loop { st with curtok := src, colonp := some st.tp.length } src
        else if src = [] then none
        else if 16 < st.tp.length + 2 then none
        else
          let tp := st.tp ++ [st.val / 256 % 256, st.val % 256]
          pton6Loop { st with curtok := src, tp := tp, xdigitsSeen := 0, val := 0 } src
      else if ch = '.' ∧ st.tp.length + 4 ≤ 16 then
        match inetPton4 st.curtok with
        | some quad => some { st with tp := st.tp ++ quad, xdigitsSeen := 0 }
        | none => none
      else none

/-- Where the loop of `inet_pton6` starts: a leading `:` must start `::`, whose second `:` the
loop reads. -/
def pton6Start (src : List Char) : Option (List Char) :=
  match src with
  | [] => none
  | ':' :: rest => if rest.head? = some ':' then some rest else none
  | _ => some src

/-- What `inet_pton6` does after its loop: the last group written, and `::` expanded to the zero
bytes the groups leave, which may not be none. -/
def pton6Finish (st : Pton6) : Option (List Nat) :=
  let tp : Option (List Nat) :=
    if 0 < st.xdigitsSeen then
      if 16 < st.tp.length + 2 then none else some (st.tp ++ [st.val / 256 % 256, st.val % 256])
    else some st.tp
  match tp, st.colonp with
  | none, _ => none
  | some tp, some colonp =>
    if tp.length = 16 then none
    else some (tp.take colonp ++ List.replicate (16 - tp.length) 0 ++ tp.drop colonp)
  | some tp, none => if tp.length = 16 then some tp else none

/-- `inet_pton6`: the sixteen bytes of an address written in groups of at most four hexadecimal
digits separated by `:`, at most one `::` standing for a run of zero groups, and possibly a
dotted quad for the last four bytes. -/
def inetPton6 (src : List Char) : Option (List Nat) :=
  ((pton6Start src).bind fun src => pton6Loop ⟨[], none, src, 0, 0⟩ src).bind pton6Finish

/-- `words[i / 2] = (src[i] << 8) | src[i + 1]`. -/
def groups : List Nat → List Nat
  | high :: low :: rest => (high * 256 + low) :: groups rest
  | _ => []

/-- A run of zero words: its first index and its length. -/
structure Run where
  base : Nat
  len : Nat
  deriving DecidableEq, Repr

/-- `if (best.base == -1 || cur.len > best.len) best = cur`. -/
def Run.keep (best : Option Run) (cur : Run) : Option Run :=
  match best with
  | some b => if b.len < cur.len then some cur else some b
  | none => some cur

/-- One word of the search for the longest run of zero words: `best` and `cur`. -/
def runStep (words : List Nat) (runs : Option Run × Option Run) (i : Nat) :
    Option Run × Option Run :=
  if words.getD i 0 = 0 then
    match runs.2 with
    | some cur => (runs.1, some ⟨cur.base, cur.len + 1⟩)
    | none => (runs.1, some ⟨i, 1⟩)
  else
    match runs.2 with
    | some cur => (Run.keep runs.1 cur, none)
    | none => (runs.1, none)

/-- The search over the eight words, the run still open at the end closed: `best`. -/
def longestRun (words : List Nat) : Option Run :=
  let runs := (List.range 8).foldl (runStep words) (none, none)
  match runs.2 with
  | some cur => Run.keep runs.1 cur
  | none => runs.1

/-- The run `inet_ntop6` writes as `::`: the first longest run of zero words, when it has at
least two. -/
def bestRun (words : List Nat) : Option Run :=
  match longestRun words with
  | some b => if b.len < 2 then none else some b
  | none => none

/-- Whether word `i` lies in the run. -/
def Run.holds (best : Option Run) (i : Nat) : Bool :=
  match best with
  | some b => b.base ≤ i && i < b.base + b.len
  | none => false

/-- An IPv4-compatible or IPv4-mapped address: the run is its first six words, or its first
five followed by `ffff`. -/
def encapsulated (words : List Nat) (best : Option Run) : Bool :=
  match best with
  | some b => b.base = 0 && (b.len = 6 || (b.len = 5 && words.getD 5 0 = 0xffff))
  | none => false

/-- The loop of `inet_ntop6` over the words from index `i` on. -/
def ntop6Loop (src words : List Nat) (best : Option Run) : List Nat → List Char
  | [] => []
  | i :: rest =>
    if Run.holds best i then
      (if best.map (·.base) = some i then [':'] else []) ++ ntop6Loop src words best rest
    else
      (if i ≠ 0 then [':'] else []) ++
        if i = 6 ∧ encapsulated words best then inetNtop4 (src.drop 12)
        else Nat.toDigits 16 (words.getD i 0) ++ ntop6Loop src words best rest

/-- `inet_ntop6`: the loop over the eight words, and a `:` after a run that ends the address. -/
def inetNtop6 (src : List Nat) : List Char :=
  ntop6Loop src (groups src) (bestRun (groups src)) (List.range 8) ++
    if (bestRun (groups src)).any fun b => b.base + b.len = 8 then [':'] else []

/-- The characters `inet_ntop6` writes: hexadecimal digits, `:`, and the dots of a quad. -/
theorem mem_ntop6Loop {src words : List Nat} {best : Option Run} {c : Char} :
    ∀ {indices : List Nat}, c ∈ ntop6Loop src words best indices →
      c = ':' ∨ c = '.' ∨ ∃ d < 16, c = Nat.digitChar d
  | [], mem => by simp [ntop6Loop] at mem
  | i :: rest, mem => by
    rw [ntop6Loop] at mem
    split at mem
    · rcases List.mem_append.mp mem with sep | later
      · split at sep <;> simp_all
      · exact mem_ntop6Loop later
    · rcases List.mem_append.mp mem with sep | written
      · split at sep <;> simp_all
      · split at written
        · rcases mem_inetNtop4 written with dot | ⟨d, small, same⟩
          · exact .inr (.inl dot)
          · exact .inr (.inr ⟨d, by omega, same⟩)
        · rcases List.mem_append.mp written with digits | later
          · exact .inr (.inr (mem_toDigits (by decide) digits))
          · exact mem_ntop6Loop later

theorem not_mem_inetNtop6 {src : List Nat} {ch : Char} (colon : ch ≠ ':') (dot : ch ≠ '.')
    (digit : ∀ d < 16, Nat.digitChar d ≠ ch) : ch ∉ inetNtop6 src := fun mem => by
  rw [inetNtop6] at mem
  rcases List.mem_append.mp mem with loop | trailing
  · rcases mem_ntop6Loop loop with same | same | ⟨d, small, same⟩
    · exact colon same
    · exact dot same
    · exact digit d small same.symm
  · split at trailing <;> simp_all

/-! ### Reading the groups back -/

/-- The value `val` accumulates over hexadecimal digits. -/
def accumulate (val : Nat) (digits : List Char) : Nat :=
  digits.foldl (fun acc c => 16 * acc + (hexDigitValue? c).getD 0) val

theorem hex_of_mem_toDigits {base n : Nat} {c : Char} (base_gt : 1 < base) (base_le : base ≤ 16)
    (mem : c ∈ Nat.toDigits base n) : ∃ d < 16, c = Nat.digitChar d := by
  obtain ⟨d, small, rfl⟩ := mem_toDigits base_gt mem
  exact ⟨d, by omega, rfl⟩

theorem hexDigitValue?_digitChar {d : Nat} (small : d < 16) :
    hexDigitValue? (Nat.digitChar d) = some d :=
  (digitChar_facts ⟨d, small⟩).2.2.2.2.2

/-- Hexadecimal digits, at most four to a group, accumulate in `val`. -/
theorem pton6Loop_digits {digits : List Char} (hex : ∀ c ∈ digits, ∃ d < 16, c = Nat.digitChar d)
    (tp : List Nat) (colonp : Option Nat) (curtok rest : List Char) (seen val : Nat)
    (fits : seen + digits.length ≤ 4) (bound : val < 16 ^ seen) :
    pton6Loop ⟨tp, colonp, curtok, seen, val⟩ (digits ++ rest) =
      pton6Loop ⟨tp, colonp, curtok, seen + digits.length, accumulate val digits⟩ rest := by
  induction digits generalizing seen val with
  | nil => simp [accumulate]
  | cons c digits ih =>
    obtain ⟨d, small, rfl⟩ := hex c (by simp)
    have room : seen ≤ 3 := by simp at fits; omega
    have below : val < 16 ^ 3 := lt_of_lt_of_le bound (Nat.pow_le_pow_right (by decide) room)
    have next : 16 * val + d < 16 ^ (seen + 1) := by rw [Nat.pow_succ]; omega
    have step := ih (fun c mem => hex c (List.mem_cons_of_mem _ mem)) (seen + 1) (16 * val + d)
      (by simp at fits; omega) next
    simp only [List.cons_append, pton6Loop, hexDigitValue?_digitChar small,
      show seen ≠ 4 by omega, show ¬0xffff < 16 * val + d by omega, if_false]
    rw [step]
    simp [accumulate, hexDigitValue?_digitChar small, Nat.add_assoc, Nat.add_comm 1]


theorem accumulate_toDigits (word : Nat) : accumulate 0 (Nat.toDigits 16 word) = word :=
  hexValue_toDigits word

theorem length_toDigits_hex {word : Nat} (small : word < 65536) :
    (Nat.toDigits 16 word).length ≤ 4 :=
  (Nat.length_toDigits_le_iff (by decide) (by decide)).mpr (by simpa using small)

theorem hex_toDigits (base word : Nat) (base_gt : 1 < base) (base_le : base ≤ 16) :
    ∀ c ∈ Nat.toDigits base word, ∃ d < 16, c = Nat.digitChar d :=
  fun _ mem => hex_of_mem_toDigits base_gt base_le mem

theorem separators_not_hex : hexDigitValue? ':' = none ∧ hexDigitValue? '.' = none := by
  decide

/-- The last group ends the text with its value in `val`. -/
theorem pton6Loop_lastGroup {word : Nat} (small : word < 65536) (tp : List Nat)
    (colonp : Option Nat) (curtok : List Char) :
    pton6Loop ⟨tp, colonp, curtok, 0, 0⟩ (Nat.toDigits 16 word) =
      some ⟨tp, colonp, curtok, (Nat.toDigits 16 word).length, word⟩ := by
  have digits := pton6Loop_digits (hex_toDigits 16 word (by decide) le_rfl) tp colonp curtok [] 0 0
    (by simpa using length_toDigits_hex small) (by decide)
  rw [List.append_nil] at digits
  rw [digits, accumulate_toDigits, Nat.zero_add]
  rfl

/-- A group and the `:` after it write the group's two bytes. -/
theorem pton6Loop_group {word : Nat} (small : word < 65536) (tp : List Nat) (colonp : Option Nat)
    (curtok : List Char) (room : tp.length + 2 ≤ 16) {rest : List Char} (more : rest ≠ []) :
    pton6Loop ⟨tp, colonp, curtok, 0, 0⟩ (Nat.toDigits 16 word ++ ':' :: rest) =
      pton6Loop ⟨tp ++ [word / 256 % 256, word % 256], colonp, rest, 0, 0⟩ rest := by
  rw [pton6Loop_digits (hex_toDigits 16 word (by decide) le_rfl) tp colonp curtok _ 0 0
    (by simpa using length_toDigits_hex small) (by decide), accumulate_toDigits]
  have seen : (Nat.toDigits 16 word).length ≠ 0 := Nat.length_toDigits_pos.ne'
  simp [pton6Loop, separators_not_hex.1, seen, more, show ¬16 < tp.length + 2 by omega]

/-- The second `:` of `::` marks where the zero bytes go. -/
theorem pton6Loop_doubleColon (tp : List Nat) (curtok rest : List Char) :
    pton6Loop ⟨tp, none, curtok, 0, 0⟩ (':' :: rest) =
      pton6Loop ⟨tp, some tp.length, rest, 0, 0⟩ rest := by
  simp [pton6Loop, separators_not_hex.1]

/-- At the first dot of a quad, `inet_pton4` reads the quad from `curtok` and the loop ends. -/
theorem pton6Loop_quad {quad : List Nat} (length : quad.length = 4) (small : ∀ b ∈ quad, b < 256)
    (tp : List Nat) (colonp : Option Nat) (room : tp.length + 4 ≤ 16) :
    ∃ val, pton6Loop ⟨tp, colonp, inetNtop4 quad, 0, 0⟩ (inetNtop4 quad) =
      some ⟨tp ++ quad, colonp, inetNtop4 quad, 0, val⟩ := by
  obtain ⟨rest, text⟩ : ∃ rest, inetNtop4 quad = Nat.toDigits 10 (quad.getD 0 0) ++ '.' :: rest :=
    ⟨Nat.toDigits 10 (quad.getD 1 0) ++ '.' :: Nat.toDigits 10 (quad.getD 2 0) ++ '.' ::
      Nat.toDigits 10 (quad.getD 3 0), by simp only [inetNtop4, List.append_assoc, List.cons_append]⟩
  have read := inetPton4_inetNtop4 length small
  have first : quad.getD 0 0 < 256 := by
    obtain ⟨a, more, rfl⟩ := List.exists_cons_of_length_eq_add_one length
    exact small a (by simp)
  have digits : (Nat.toDigits 10 (quad.getD 0 0)).length ≤ 3 :=
    (Nat.length_toDigits_le_iff (by decide) (by decide)).mpr (lt_of_lt_of_le first (by decide))
  rw [text] at read ⊢
  rw [pton6Loop_digits (hex_toDigits 10 _ (by decide) (by decide)) tp colonp _ _ 0 0
    (by omega) (by decide)]
  refine ⟨accumulate 0 (Nat.toDigits 10 (quad.getD 0 0)), ?_⟩
  simp only [pton6Loop, separators_not_hex.2, read]
  simp [room]

/-- The groups of words, separated by `:`. -/
def joinGroups (words : List Nat) : List Char := [':'].intercalate (words.map (Nat.toDigits 16))

/-- The two bytes of each word. -/
def wordBytes (words : List Nat) : List Nat := words.flatMap fun w => [w / 256 % 256, w % 256]

@[simp]
theorem wordBytes_append (front back : List Nat) :
    wordBytes (front ++ back) = wordBytes front ++ wordBytes back := by
  simp [wordBytes]

@[simp]
theorem length_wordBytes (words : List Nat) : (wordBytes words).length = 2 * words.length := by
  induction words with
  | nil => rfl
  | cons w words ih =>
    have split : wordBytes (w :: words) = [w / 256 % 256, w % 256] ++ wordBytes words := rfl
    rw [split, List.length_append, ih, List.length_cons]
    simp only [List.length_cons, List.length_nil]
    omega

theorem joinGroups_cons_cons (w w' : Nat) (words : List Nat) :
    joinGroups (w :: w' :: words) = Nat.toDigits 16 w ++ ':' :: joinGroups (w' :: words) := by
  simp [joinGroups]

theorem joinGroups_append_singleton {front : List Nat} (nonempty : front ≠ []) (last : Nat) :
    joinGroups (front ++ [last]) = joinGroups front ++ ':' :: Nat.toDigits 16 last := by
  induction front with
  | nil => exact absurd rfl nonempty
  | cons w front ih =>
    cases front with
    | nil => simp [joinGroups]
    | cons w' front =>
      rw [List.cons_append, List.cons_append, joinGroups_cons_cons, ← List.cons_append,
        ih (List.cons_ne_nil _ _), joinGroups_cons_cons]
      simp

/-- Groups followed by a `:` and more text write their bytes. -/
theorem pton6Loop_groups {words : List Nat} (nonempty : words ≠ [])
    (small : ∀ w ∈ words, w < 65536) (tp : List Nat) (colonp : Option Nat) (curtok : List Char)
    (room : tp.length + 2 * words.length ≤ 16) {rest : List Char} (more : rest ≠ []) :
    pton6Loop ⟨tp, colonp, curtok, 0, 0⟩ (joinGroups words ++ ':' :: rest) =
      pton6Loop ⟨tp ++ wordBytes words, colonp, rest, 0, 0⟩ rest := by
  induction words generalizing tp curtok with
  | nil => exact absurd rfl nonempty
  | cons w words ih =>
    have first : w < 65536 := small w (by simp)
    cases words with
    | nil =>
      simp only [joinGroups, List.map_cons, List.map_nil, List.intercalate_singleton]
      rw [pton6Loop_group first tp colonp curtok (by simp at room; omega) more]
      simp [wordBytes]
    | cons w' words =>
      rw [joinGroups_cons_cons, List.append_assoc, List.cons_append,
        pton6Loop_group first tp colonp curtok (by simp at room; omega) (by simp),
        ih (List.cons_ne_nil _ _) (fun v mem => small v (List.mem_cons_of_mem _ mem)) _ _
          (by simp at room ⊢; omega)]
      simp [wordBytes]

/-- The groups that end the text write the bytes of all but the last, which waits in `val`. -/
theorem pton6Loop_groups_end (front : List Nat) {last : Nat}
    (small : ∀ w ∈ front ++ [last], w < 65536) (tp : List Nat) (colonp : Option Nat)
    (curtok : List Char) (room : tp.length + 2 * front.length ≤ 16) :
    ∃ curtok', pton6Loop ⟨tp, colonp, curtok, 0, 0⟩ (joinGroups (front ++ [last])) =
      some ⟨tp ++ wordBytes front, colonp, curtok', (Nat.toDigits 16 last).length, last⟩ := by
  have final : last < 65536 := small last (by simp)
  by_cases empty : front = []
  · subst empty
    exact ⟨curtok, by simp [joinGroups, pton6Loop_lastGroup final, wordBytes]⟩
  · rw [joinGroups_append_singleton empty,
      pton6Loop_groups empty (fun w mem => small w (by simp [mem])) tp colonp curtok room
        (by simp)]
    exact ⟨_, pton6Loop_lastGroup final _ _ _⟩

/-! ### The run written `::` -/

/-- A run of zero words. -/
def ZeroRun (words : List Nat) (run : Run) : Prop :=
  ∀ j, run.base ≤ j → j < run.base + run.len → words.getD j 0 = 0

/-- What the search has found by index `i`: `best` is a run of zeros before `i`, and `cur` the
run of zeros that ends at `i`. -/
def RunsBefore (words : List Nat) (i : Nat) (runs : Option Run × Option Run) : Prop :=
  (∀ b ∈ runs.1, b.base + b.len ≤ i ∧ ZeroRun words b) ∧
    (∀ c ∈ runs.2, c.base + c.len = i ∧ ZeroRun words c)

theorem keep_zeroRun {words : List Nat} {i : Nat} {best : Option Run} {cur : Run}
    (found : ∀ b ∈ best, b.base + b.len ≤ i ∧ ZeroRun words b)
    (ending : cur.base + cur.len = i ∧ ZeroRun words cur) :
    ∀ b ∈ Run.keep best cur, b.base + b.len ≤ i ∧ ZeroRun words b := by
  intro b mem
  cases best with
  | none =>
    cases mem
    exact ⟨ending.1.le, ending.2⟩
  | some old =>
    simp only [Run.keep] at mem
    split at mem
    · cases mem
      exact ⟨ending.1.le, ending.2⟩
    · simp only [Option.mem_def, Option.some.injEq] at mem
      subst mem
      exact found _ rfl

theorem runStep_before {words : List Nat} {i : Nat} {runs : Option Run × Option Run}
    (before : RunsBefore words i runs) : RunsBefore words (i + 1) (runStep words runs i) := by
  obtain ⟨found, ending⟩ := before
  unfold runStep
  split
  case isTrue zero =>
    -- a zero word extends the current run, or starts one
    refine ⟨fun b mem => ?_, fun c mem => ?_⟩
    · split at mem <;> exact ⟨(found b mem).1.trans (Nat.le_succ i), (found b mem).2⟩
    · split at mem
      case h_1 cur current =>
        cases mem
        obtain ⟨ends, zeros⟩ := ending cur (by simp [current])
        refine ⟨by dsimp only; omega, fun j low high => ?_⟩
        dsimp only at low high
        by_cases last : j = i
        · subst last
          exact zero
        · exact zeros j low (by omega)
      case h_2 =>
        cases mem
        refine ⟨rfl, fun j low high => ?_⟩
        have : j = i := by dsimp only at low high; omega
        subst this
        exact zero
  case isFalse =>
    -- a non-zero word closes the current run
    refine ⟨fun b mem => ?_, fun c mem => ?_⟩
    · split at mem
      case h_1 cur current =>
        obtain ⟨bound, zeros⟩ := keep_zeroRun found (ending cur (by simp [current])) b mem
        exact ⟨bound.trans (Nat.le_succ i), zeros⟩
      case h_2 => exact ⟨(found b mem).1.trans (Nat.le_succ i), (found b mem).2⟩
    · split at mem <;> cases mem

theorem runs_before (words : List Nat) (n : Nat) :
    RunsBefore words n ((List.range n).foldl (runStep words) (none, none)) := by
  induction n with
  | zero => simp [RunsBefore]
  | succ n ih =>
    rw [List.range_succ, List.foldl_append, List.foldl_cons, List.foldl_nil]
    exact runStep_before ih

theorem longestRun_spec (words : List Nat) :
    ∀ b ∈ longestRun words, b.base + b.len ≤ 8 ∧ ZeroRun words b := by
  obtain ⟨found, ending⟩ := runs_before words 8
  unfold longestRun
  intro b
  dsimp only
  split
  case h_1 cur current => exact keep_zeroRun found (ending cur (by simp [current])) b
  case h_2 => exact found b

/-- The run written `::` is a run of at least two zero words within the eight. -/
theorem bestRun_spec {words : List Nat} {run : Run} (best : bestRun words = some run) :
    2 ≤ run.len ∧ run.base + run.len ≤ 8 ∧ ZeroRun words run := by
  unfold bestRun at best
  cases found : longestRun words with
  | none => simp [found] at best
  | some b =>
    rw [found] at best
    simp only at best
    split at best
    · cases best
    · cases best
      obtain ⟨bound, zeros⟩ := longestRun_spec words run (by simp [found])
      exact ⟨by omega, bound, zeros⟩

/-! ### Words and bytes -/

theorem wordBytes_groups : ∀ (src : List Nat), (∀ b ∈ src, b < 256) → src.length % 2 = 0 →
    wordBytes (groups src) = src
  | [], _, _ => rfl
  | [_], _, odd => by simp at odd
  | high :: low :: rest, small, even => by
    have h : high < 256 := small high (by simp)
    have l : low < 256 := small low (by simp)
    have split : wordBytes (groups (high :: low :: rest)) =
        [(high * 256 + low) / 256 % 256, (high * 256 + low) % 256] ++ wordBytes (groups rest) := rfl
    rw [split, wordBytes_groups rest (fun b mem => small b (by simp [mem]))
      (by simp at even; omega)]
    have upper : (high * 256 + low) / 256 % 256 = high := by omega
    have lower : (high * 256 + low) % 256 = low := by omega
    rw [upper, lower]
    rfl

theorem groups_lt : ∀ (src : List Nat), (∀ b ∈ src, b < 256) → ∀ w ∈ groups src, w < 65536
  | [], _ => by simp [groups]
  | [_], _ => by simp [groups]
  | high :: low :: rest, small => by
    have h : high < 256 := small high (by simp)
    have l : low < 256 := small low (by simp)
    intro w mem
    simp only [groups, List.mem_cons] at mem
    rcases mem with rfl | later
    · omega
    · exact groups_lt rest (fun b mem => small b (by simp [mem])) w later

theorem length_groups : ∀ (src : List Nat), (groups src).length = src.length / 2
  | [] => rfl
  | [_] => by simp [groups]
  | _ :: _ :: rest => by
    simp only [groups, List.length_cons, length_groups rest]
    omega

/-! ### The texts `inet_pton6` reads -/

/-- The group still in `val` at the end is written. -/
theorem pton6Finish_pending (tp : List Nat) (colonp : Option Nat) (curtok : List Char)
    {seen val : Nat} (pending : 0 < seen) (room : tp.length + 2 ≤ 16) :
    pton6Finish ⟨tp, colonp, curtok, seen, val⟩ =
      pton6Finish ⟨tp ++ [val / 256 % 256, val % 256], colonp, curtok, 0, val⟩ := by
  simp [pton6Finish, pending, show ¬16 < tp.length + 2 by omega]

/-- Without `::` the groups must fill the sixteen bytes. -/
theorem pton6Finish_none {tp : List Nat} (curtok : List Char) (val : Nat) (full : tp.length = 16) :
    pton6Finish ⟨tp, none, curtok, 0, val⟩ = some tp := by
  simp [pton6Finish, full]

/-- `::` stands for the zero bytes the groups before and after it leave. -/
theorem pton6Finish_some (front back : List Nat) (curtok : List Char) (val : Nat)
    (short : front.length + back.length < 16) :
    pton6Finish ⟨front ++ back, some front.length, curtok, 0, val⟩ =
      some (front ++ List.replicate (16 - front.length - back.length) 0 ++ back) := by
  have notFull : ¬(front ++ back).length = 16 := by simp; omega
  simp only [pton6Finish, Nat.lt_irrefl, if_false]
  rw [if_neg notFull, List.take_left, List.drop_left, List.length_append, Nat.sub_sub]


theorem pton6Start_of_ne {c : Char} (notColon : c ≠ ':') (rest : List Char) :
    pton6Start (c :: rest) = some (c :: rest) := by
  unfold pton6Start
  split
  · rename_i same
    cases same
  · rename_i _ same
    exact absurd (List.cons.inj same).1 notColon
  · rfl

theorem pton6Start_doubleColon (rest : List Char) :
    pton6Start (':' :: ':' :: rest) = some (':' :: rest) :=
  rfl

theorem joinGroups_head (w : Nat) (words : List Nat) :
    ∃ c rest, joinGroups (w :: words) = c :: rest ∧ c ≠ ':' := by
  obtain ⟨c, digits, first⟩ := toDigits_eq_cons 16 w
  have notColon : c ≠ ':' := by
    obtain ⟨d, small, rfl⟩ := hex_toDigits 16 w (by decide) le_rfl c (by simp [first])
    exact (digitChar_facts ⟨d, small⟩).2.2.2.1
  cases words with
  | nil => exact ⟨c, digits, by simp [joinGroups, first], notColon⟩
  | cons w' words => exact ⟨c, _, by rw [joinGroups_cons_cons, first, List.cons_append], notColon⟩

theorem pton6Start_joinGroups (w : Nat) (words : List Nat) (rest : List Char) :
    pton6Start (joinGroups (w :: words) ++ rest) = some (joinGroups (w :: words) ++ rest) := by
  obtain ⟨c, more, text, notColon⟩ := joinGroups_head w words
  rw [text, List.cons_append, pton6Start_of_ne notColon]

/-- Eight groups read back as their sixteen bytes. -/
theorem inetPton6_joinGroups {words : List Nat} (length : words.length = 8)
    (small : ∀ w ∈ words, w < 65536) : inetPton6 (joinGroups words) = some (wordBytes words) := by
  obtain ⟨front, last, rfl⟩ : ∃ front last, words = front ++ [last] :=
    ⟨words.dropLast, words.getLast (by rintro rfl; simp at length),
      (List.dropLast_append_getLast _).symm⟩
  have sizes : front.length = 7 := by simpa using length
  obtain ⟨w, more, rfl⟩ := List.exists_cons_of_length_eq_add_one sizes
  obtain ⟨c, rest, text, notColon⟩ := joinGroups_head w (more ++ [last])
  obtain ⟨curtok, run⟩ := pton6Loop_groups_end (w :: more) small [] none (c :: rest)
    (by simp [sizes])
  rw [List.cons_append, text] at run
  have seen : 0 < (Nat.toDigits 16 last).length := Nat.length_toDigits_pos
  rw [List.cons_append, text, inetPton6, pton6Start_of_ne notColon, Option.bind_some, run,
    Option.bind_some, pton6Finish_pending _ _ _ seen (by simp [sizes]),
    pton6Finish_none _ _ (by simp [sizes])]
  simp [wordBytes]

/-- After `::` the groups that end the text go after the zero bytes. -/
theorem pton6Loop_after_doubleColon (tp : List Nat) {back : List Nat}
    (small : ∀ w ∈ back, w < 65536) (short : tp.length + 2 * back.length < 16) :
    (pton6Loop ⟨tp, some tp.length, joinGroups back, 0, 0⟩ (joinGroups back)).bind pton6Finish =
      some (tp ++ List.replicate (16 - tp.length - 2 * back.length) 0 ++ wordBytes back) := by
  cases back using List.reverseRecOn with
  | nil =>
    have finish := pton6Finish_some tp [] [] 0 (by simpa using short)
    simpa [joinGroups, pton6Loop, wordBytes] using finish
  | append_singleton front last =>
    obtain ⟨curtok, run⟩ := pton6Loop_groups_end front small tp (some tp.length) (joinGroups _)
      (by simp at short; omega)
    have seen : 0 < (Nat.toDigits 16 last).length := Nat.length_toDigits_pos
    rw [run, Option.bind_some, pton6Finish_pending _ _ _ seen (by simp at short ⊢; omega),
      List.append_assoc, pton6Finish_some _ _ _ _ (by simp at short ⊢; omega)]
    simp [wordBytes, Nat.sub_sub, Nat.mul_add]
    omega

/-- Groups, `::` and groups read back with the zero bytes `::` stands for. -/
theorem inetPton6_compressed {front back : List Nat} (small : ∀ w ∈ front ++ back, w < 65536)
    (short : front.length + back.length < 8) :
    inetPton6 (joinGroups front ++ ':' :: ':' :: joinGroups back) =
      some (wordBytes front ++ List.replicate (16 - 2 * front.length - 2 * back.length) 0 ++
        wordBytes back) := by
  have backSmall : ∀ w ∈ back, w < 65536 := fun w mem => small w (by simp [mem])
  cases front with
  | nil =>
    have after := pton6Loop_after_doubleColon [] backSmall (by simp; omega)
    simp only [joinGroups, List.map_nil, List.intercalate_nil, List.nil_append] at after ⊢
    rw [inetPton6, pton6Start_doubleColon, Option.bind_some, pton6Loop_doubleColon]
    simpa [wordBytes] using after
  | cons w front =>
    have after := pton6Loop_after_doubleColon (wordBytes (w :: front)) backSmall
      (by simp at short ⊢; omega)
    have groups := pton6Loop_groups (List.cons_ne_nil w front)
      (fun v mem => small v (List.mem_append_left _ mem)) [] none
      (joinGroups (w :: front) ++ ':' :: ':' :: joinGroups back) (by simp at short ⊢; omega)
      (show ':' :: joinGroups back ≠ [] by simp)
    rw [inetPton6, pton6Start_joinGroups, Option.bind_some, groups, List.nil_append,
      pton6Loop_doubleColon]
    simpa [Nat.sub_sub] using after

theorem inetNtop4_ne_nil (quad : List Nat) : inetNtop4 quad ≠ [] := by
  simp [inetNtop4]

/-- An IPv4-compatible address reads back with twelve zero bytes before the quad. -/
theorem inetPton6_compatible {quad : List Nat} (length : quad.length = 4)
    (small : ∀ b ∈ quad, b < 256) :
    inetPton6 (':' :: ':' :: inetNtop4 quad) = some (List.replicate 12 0 ++ quad) := by
  obtain ⟨val, run⟩ := pton6Loop_quad length small [] (some 0) (by decide)
  rw [inetPton6, pton6Start_doubleColon, Option.bind_some, pton6Loop_doubleColon]
  simp only [List.length_nil, List.nil_append] at run ⊢
  rw [run, Option.bind_some]
  simpa [length] using pton6Finish_some [] quad (inetNtop4 quad) val (by simp [length])

/-- An IPv4-mapped address reads back with ten zero bytes and `ffff` before the quad. -/
theorem inetPton6_mapped {quad : List Nat} (length : quad.length = 4)
    (small : ∀ b ∈ quad, b < 256) :
    inetPton6 (':' :: ':' :: (Nat.toDigits 16 0xffff ++ ':' :: inetNtop4 quad)) =
      some (List.replicate 10 0 ++ [255, 255] ++ quad) := by
  obtain ⟨val, run⟩ := pton6Loop_quad length small [255, 255] (some 0) (by decide)
  rw [inetPton6, pton6Start_doubleColon, Option.bind_some, pton6Loop_doubleColon,
    List.length_nil, pton6Loop_group (by decide) [] (some 0) _ (by decide) (inetNtop4_ne_nil quad)]
  simp only [List.nil_append, show 0xffff / 256 % 256 = 255 from rfl] at run ⊢
  rw [run, Option.bind_some]
  have finish := pton6Finish_some [] ([255, 255] ++ quad) (inetNtop4 quad) val (by simp [length])
  simpa [length] using finish

/-- A dotted quad alone is no IPv6 address. -/
theorem inetPton6_inetNtop4 {quad : List Nat} (length : quad.length = 4)
    (small : ∀ b ∈ quad, b < 256) : inetPton6 (inetNtop4 quad) = none := by
  obtain ⟨c, digits, first⟩ := toDigits_eq_cons 10 (quad.getD 0 0)
  have notColon : c ≠ ':' :=
    (decimal_digit_facts (show c ∈ Nat.toDigits 10 (quad.getD 0 0) by
      rw [first]; exact List.mem_cons_self)).2.2.2.1
  obtain ⟨rest, text⟩ : ∃ rest, inetNtop4 quad = c :: rest :=
    ⟨_, by rw [inetNtop4, first]; rfl⟩
  obtain ⟨val, run⟩ := pton6Loop_quad length small [] none (by decide)
  rw [inetPton6, text, pton6Start_of_ne notColon, Option.bind_some, ← text, run, Option.bind_some]
  simp [pton6Finish, length]

/-! ### The texts `inet_ntop6` writes -/

/-- Groups each after a `:`. -/
def colonGroups (words : List Nat) : List Char := words.flatMap fun w => ':' :: Nat.toDigits 16 w

theorem joinGroups_cons (w : Nat) (words : List Nat) :
    joinGroups (w :: words) = Nat.toDigits 16 w ++ colonGroups words := by
  induction words generalizing w with
  | nil => simp [joinGroups, colonGroups]
  | cons w' words ih =>
    rw [joinGroups_cons_cons, ih]
    simp [colonGroups]

/-- The groups after the run, and the `:` that ends an address ending in the run. -/
theorem colonGroups_trailing (words : List Nat) :
    colonGroups words ++ (if words = [] then [':'] else []) = ':' :: joinGroups words := by
  cases words with
  | nil => simp [colonGroups, joinGroups]
  | cons w words => simp [colonGroups, joinGroups_cons]

theorem map_getD_range' (words : List Nat) :
    ∀ (k n : Nat), k + n ≤ words.length →
      (List.range' k n).map (words.getD · 0) = (words.drop k).take n
  | _, 0, _ => by simp
  | k, n + 1, fits => by
    rw [List.range'_succ, List.map_cons, map_getD_range' words (k + 1) n (by omega),
      List.drop_eq_getElem_cons (show k < words.length by omega), List.take_succ_cons,
      List.getD_eq_getElem _ _ (by omega)]

theorem range'_zero_append (b n : Nat) :
    List.range' 0 b ++ List.range' b n = List.range' 0 (b + n) := by
  simpa using List.range'_append_1 (s := 0) (m := b) (n := n)

section Writing

variable {src words : List Nat} {best : Option Run}

/-- Words outside the run, past the first, are written each after a `:`. -/
theorem ntop6Loop_outside (plain : encapsulated words best = false) :
    ∀ (indices more : List Nat), (∀ i ∈ indices, Run.holds best i = false ∧ i ≠ 0) →
      ntop6Loop src words best (indices ++ more) =
        colonGroups (indices.map (words.getD · 0)) ++ ntop6Loop src words best more
  | [], _, _ => by simp [colonGroups]
  | i :: indices, more, outside => by
    obtain ⟨free, positive⟩ := outside i (by simp)
    rw [List.cons_append, ntop6Loop, if_neg (by simp [free]),
      ntop6Loop_outside plain indices more (fun j mem => outside j (by simp [mem]))]
    simp [positive, plain, colonGroups]

/-- The words of the run after its first are not written. -/
theorem ntop6Loop_inside {run : Run} :
    ∀ (indices more : List Nat), (∀ i ∈ indices, Run.holds (some run) i = true ∧ i ≠ run.base) →
      ntop6Loop src words (some run) (indices ++ more) = ntop6Loop src words (some run) more
  | [], _, _ => rfl
  | i :: indices, more, inside => by
    obtain ⟨held, later⟩ := inside i (by simp)
    rw [List.cons_append, ntop6Loop, if_pos held,
      ntop6Loop_inside indices more (fun j mem => inside j (by simp [mem]))]
    simp [later.symm]

/-- The first word of the run is written as one `:`, the second of `::`. -/
theorem ntop6Loop_run {run : Run} (nonempty : 0 < run.len) (more : List Nat) :
    ntop6Loop src words (some run) (List.range' run.base run.len ++ more) =
      ':' :: ntop6Loop src words (some run) more := by
  obtain ⟨base, len⟩ := run
  cases len with
  | zero => simp at nonempty
  | succ len =>
    rw [List.range'_succ, List.cons_append, ntop6Loop, if_pos (by simp [Run.holds]),
      ntop6Loop_inside _ more (fun i mem => by simp [Run.holds] at mem ⊢; omega)]
    simp

/-- The words before the run are written separated by `:`. -/
theorem ntop6Loop_front (plain : encapsulated words best = false) (n : Nat)
    (before : ∀ i < n, Run.holds best i = false) (more : List Nat) :
    ntop6Loop src words best (List.range' 0 n ++ more) =
      joinGroups ((List.range' 0 n).map (words.getD · 0)) ++ ntop6Loop src words best more := by
  cases n with
  | zero => simp [joinGroups]
  | succ n =>
    rw [List.range'_succ, List.cons_append, ntop6Loop, if_neg (by simp [before 0 (by omega)]),
      Nat.zero_add, ntop6Loop_outside plain _ more (fun i mem => by
        simp at mem
        exact ⟨before i (by omega), by omega⟩)]
    simp [plain, joinGroups_cons]

end Writing

/-- Without a run of zero words the eight groups are written separated by `:`. -/
theorem inetNtop6_plain {src : List Nat} (length : src.length = 16)
    (best : bestRun (groups src) = none) : inetNtop6 src = joinGroups (groups src) := by
  have words : (groups src).length = 8 := by simp [length_groups, length]
  have front := @ntop6Loop_front src _ _ (show encapsulated (groups src) none = false from rfl) 8
    (fun _ _ => rfl) []
  rw [inetNtop6, best, List.range_eq_range', ← List.append_nil (List.range' 0 8), front,
    map_getD_range' _ 0 8 (by omega)]
  simp only [ntop6Loop, List.drop_zero, List.append_nil, Option.any_none, Bool.false_eq_true,
    if_false, List.take_of_length_le (Nat.le_of_eq words)]

/-- A run of zero words, other than in an encapsulated IPv4 address, is written `::`. -/
theorem inetNtop6_compressed {src : List Nat} (length : src.length = 16) {run : Run}
    (best : bestRun (groups src) = some run) (plain : encapsulated (groups src) (some run) = false) :
    inetNtop6 src = joinGroups ((groups src).take run.base) ++ ':' :: ':' ::
      joinGroups ((groups src).drop (run.base + run.len)) := by
  have words : (groups src).length = 8 := by simp [length_groups, length]
  obtain ⟨two, bound, -⟩ := bestRun_spec best
  have indices : List.range 8 = List.range' 0 run.base ++ (List.range' run.base run.len ++
      List.range' (run.base + run.len) (8 - run.base - run.len)) := by
    rw [List.range'_append_1, range'_zero_append, List.range_eq_range']
    congr 1
    omega
  have post := @ntop6Loop_outside src _ _ plain
    (List.range' (run.base + run.len) (8 - run.base - run.len)) []
    (fun i mem => by simp [Run.holds] at mem ⊢; omega)
  rw [inetNtop6, best, indices,
    ntop6Loop_front plain run.base (fun i small => by simp [Run.holds]; omega),
    ntop6Loop_run (by omega), ← List.append_nil (List.range' (run.base + run.len) _), post,
    map_getD_range' _ 0 _ (by omega), map_getD_range' _ _ _ (by omega)]
  have postLength : ((groups src).drop (run.base + run.len)).length = 8 - run.base - run.len := by
    simp [words]
    omega
  have ends : run.base + run.len = 8 ↔ (groups src).drop (run.base + run.len) = [] := by
    rw [← List.length_eq_zero_iff, postLength]
    omega
  rw [List.take_of_length_le (Nat.le_of_eq postLength), List.drop_zero]
  simp only [ntop6Loop, List.append_nil, Option.any_some, decide_eq_true_eq, List.append_assoc,
    List.cons_append, ends]
  rw [colonGroups_trailing]

/-- An IPv4-compatible address is written `::` and its quad. -/
theorem inetNtop6_compatible {src : List Nat} {run : Run} (best : bestRun (groups src) = some run)
    (start : run.base = 0) (six : run.len = 6) :
    inetNtop6 src = ':' :: ':' :: inetNtop4 (src.drop 12) := by
  obtain ⟨base, len⟩ := run
  simp only at start six
  subst start six
  rw [inetNtop6, best, show List.range 8 = [0, 1, 2, 3, 4, 5, 6, 7] from rfl]
  simp [ntop6Loop, Run.holds, encapsulated]

/-- An IPv4-mapped address is written `::ffff:` and its quad. -/
theorem inetNtop6_mapped {src : List Nat} {run : Run} (best : bestRun (groups src) = some run)
    (start : run.base = 0) (five : run.len = 5) (mapped : (groups src).getD 5 0 = 0xffff) :
    inetNtop6 src = ':' :: ':' :: (Nat.toDigits 16 0xffff ++ ':' :: inetNtop4 (src.drop 12)) := by
  obtain ⟨base, len⟩ := run
  simp only at start five
  subst start five
  rw [inetNtop6, best, show List.range 8 = [0, 1, 2, 3, 4, 5, 6, 7] from rfl]
  rw [List.getD_eq_getElem?_getD] at mapped
  simp [ntop6Loop, Run.holds, encapsulated, mapped]

/-- Every text `inet_ntop6` writes has a `:`, so none is a dotted quad. -/
theorem colon_mem_inetNtop6 {src : List Nat} (length : src.length = 16) : ':' ∈ inetNtop6 src := by
  have words : (groups src).length = 8 := by simp [length_groups, length]
  cases best : bestRun (groups src) with
  | none =>
    obtain ⟨w, w', rest, split⟩ : ∃ w w' rest, groups src = w :: w' :: rest := by
      match groups src, words with
      | w :: w' :: rest, _ => exact ⟨w, w', rest, rfl⟩
    rw [inetNtop6_plain length best, split, joinGroups_cons_cons]
    simp
  | some run =>
    cases plain : encapsulated (groups src) (some run) with
    | false =>
      rw [inetNtop6_compressed length best plain]
      simp
    | true =>
      simp only [encapsulated, Bool.and_eq_true, decide_eq_true_eq, Bool.or_eq_true] at plain
      obtain ⟨start, six | ⟨five, mapped⟩⟩ := plain
      · rw [inetNtop6_compatible best start six]
        simp
      · rw [inetNtop6_mapped best start five mapped]
        simp

/-! ### The round trip -/

/-- The words of a run of zeros are zero. -/
theorem split_zeroRun {words : List Nat} {run : Run} (zeros : ZeroRun words run)
    (inside : run.base + run.len ≤ words.length) :
    words = words.take run.base ++ List.replicate run.len 0 ++ words.drop (run.base + run.len) := by
  have middle : (words.drop run.base).take run.len = List.replicate run.len 0 := by
    rw [List.eq_replicate_iff]
    refine ⟨by simp; omega, fun x mem => ?_⟩
    obtain ⟨j, small, rfl⟩ := List.getElem_of_mem mem
    simp only [List.length_take, List.length_drop] at small
    have zero := zeros (run.base + j) (by omega) (by omega)
    rw [List.getD_eq_getElem _ _ (by omega)] at zero
    simpa using zero
  rw [← middle, List.append_assoc, ← List.drop_drop, List.take_append_drop, List.take_append_drop]

theorem wordBytes_replicate_zero (n : Nat) : wordBytes (List.replicate n 0) = List.replicate (2 * n) 0 := by
  induction n with
  | zero => rfl
  | succ n ih =>
    rw [List.replicate_succ,
      show wordBytes (0 :: List.replicate n 0) = [0, 0] ++ wordBytes (List.replicate n 0) from rfl,
      ih, Nat.mul_succ]
    rfl

/-- `inet_pton6` reads back the text `inet_ntop6` writes. -/
theorem inetPton6_inetNtop6 {src : List Nat} (length : src.length = 16)
    (small : ∀ b ∈ src, b < 256) : inetPton6 (inetNtop6 src) = some src := by
  have words : (groups src).length = 8 := by simp [length_groups, length]
  have wordsSmall := groups_lt src small
  have bytes : wordBytes (groups src) = src := wordBytes_groups src small (by simp [length])
  cases best : bestRun (groups src) with
  | none => rw [inetNtop6_plain length best, inetPton6_joinGroups words wordsSmall, bytes]
  | some run =>
    obtain ⟨two, inside, zeros⟩ := bestRun_spec best
    have split := split_zeroRun zeros (by omega)
    cases plain : encapsulated (groups src) (some run) with
    | false =>
      have pieces : ∀ w ∈ (groups src).take run.base ++ (groups src).drop (run.base + run.len),
          w < 65536 := by
        intro w mem
        rcases List.mem_append.mp mem with front | back
        · exact wordsSmall w (List.mem_of_mem_take front)
        · exact wordsSmall w (List.mem_of_mem_drop back)
      have sizes : 16 - 2 * ((groups src).take run.base).length -
          2 * ((groups src).drop (run.base + run.len)).length = 2 * run.len := by
        simp [words]
        omega
      rw [inetNtop6_compressed length best plain, inetPton6_compressed pieces (by simp; omega),
        sizes, ← wordBytes_replicate_zero, ← wordBytes_append, ← wordBytes_append, ← split, bytes]
    | true =>
      simp only [encapsulated, Bool.and_eq_true, decide_eq_true_eq, Bool.or_eq_true] at plain
      have quadLength : (src.drop 12).length = 4 := by simp [length]
      have quadSmall : ∀ b ∈ src.drop 12, b < 256 := fun b mem => small b (List.mem_of_mem_drop mem)
      obtain ⟨start, six | ⟨five, mapped⟩⟩ := plain
      · -- the first six words are zero
        have front : src.take 12 = List.replicate 12 0 := by
          rw [← bytes, split, start, six, List.take_zero, List.nil_append, wordBytes_append,
            wordBytes_replicate_zero, List.take_left' (by simp)]
        rw [inetNtop6_compatible best start six, inetPton6_compatible quadLength quadSmall, ← front,
          List.take_append_drop]
      · -- the first five words are zero and the sixth is `ffff`
        have sixth : (groups src).drop 5 = 0xffff :: (groups src).drop 6 := by
          rw [List.drop_eq_getElem_cons (show 5 < (groups src).length by omega),
            ← List.getD_eq_getElem _ 0, mapped]
        have front : src.take 12 = List.replicate 10 0 ++ [255, 255] := by
          rw [← bytes, split, start, five, Nat.zero_add, sixth, List.take_zero, List.nil_append,
            wordBytes_append, wordBytes_replicate_zero,
            show wordBytes (0xffff :: (groups src).drop 6) = [255, 255] ++ wordBytes ((groups src).drop 6)
              from rfl, ← List.append_assoc, List.take_left' (by simp)]
        rw [inetNtop6_mapped best start five mapped, inetPton6_mapped quadLength quadSmall, ← front,
          List.take_append_drop]

end InetText
