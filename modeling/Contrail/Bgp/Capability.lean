import Contrail.Lib.Bytes

/-! The capabilities of an OPEN message and the readers that run on them once
the OPEN is accepted. `BgpOpenCapability` takes a code, a one-byte length and
that many value bytes, whatever the code; `BgpPeer::SetCapabilities` joins the
capabilities of all optional parameters, and `ValidateCapabilities`,
`GR::Decode` and `LLGR::Decode` read fixed-size fields of each value with
`get_value`. A read that would fetch a byte outside the value fails with the
index of the first such byte. -/
namespace Contrail.Bgp

open Bytes

/-- `get_value(data + offset, size)` on a capability value. -/
def getValue (data : List UInt8) (offset size : Nat) : Except Nat Nat :=
  readBE data offset size

/-- `Capability::MpExtension`. -/
def MpExtension : Nat := 1

/-- `Capability::GracefulRestart`. -/
def GracefulRestart : Nat := 64

/-- `Capability::LongLivedGracefulRestart`. -/
def LongLivedGracefulRestart : Nat := 71

/-- `BgpProto::OpenMessage::Capability`. -/
structure Capability where
  code : Nat
  capability : List UInt8
  deriving DecidableEq, Repr

/-- `BgpProto::OpenMessage::OptParam`. -/
structure OptParam where
  capabilities : List Capability
  deriving DecidableEq, Repr

/-- The capabilities of one optional parameter as `BgpOpenCapabilities` parses
them: a code byte, a length byte and that many value bytes, until the
parameter's bytes end. -/
def parseCapabilities (bytes : List UInt8) : Option (List Capability) :=
  tlvRun 1 (fun code value => { code := code.toNat, capability := value }) bytes

/-- `BgpPeer::SetCapabilities`: the capabilities of all optional parameters. -/
def setCapabilities (optParams : List OptParam) : List Capability :=
  optParams.flatMap (·.capabilities)

/-- `Capability::GR::Family`. -/
structure GRFamily where
  afi : Nat
  safi : Nat
  flags : Nat
  deriving DecidableEq, Repr

/-- `Capability::GR`. -/
structure GR where
  flags : Nat
  time : Nat
  families : List GRFamily
  deriving DecidableEq, Repr

/-- `GR::RestartTimeMask`. -/
def RestartTimeMask : Nat := 0x0FFF

/-- One pass of the family loop of `GR::Decode`. -/
def grFamily (data : List UInt8) (offset : Nat) : Except Nat GRFamily := do
  let afi ← getValue data offset 2
  let safi ← getValue data (offset + 2) 1
  let flags ← getValue data (offset + 3) 1
  pure { afi, safi, flags }

/-- The family loop of `GR::Decode`: four bytes a pass while `offset < size`. -/
def grFamilies (data : List UInt8) (offset : Nat) : Except Nat (List GRFamily) :=
  records data.length 4 (Nat.succ_pos 3) (grFamily data) offset

/-- `GR::Decode` of one GracefulRestart capability; `set_flags` keeps the bits
of the first two bytes outside `RestartTimeMask`, `set_time` those inside. -/
def grDecodeCapability (data : List UInt8) : Except Nat GR := do
  let bytes ← getValue data 0 2
  let families ← grFamilies data 2
  pure { flags := bytes &&& (0xFFFF ^^^ RestartTimeMask), time := bytes &&& RestartTimeMask,
         families }

/-- `GR::Decode`: the last GracefulRestart capability counts; `none` when there
is none. -/
def grDecode (capabilities : List Capability) : Except Nat (Option GR) :=
  capabilities.foldlM (fun params cap =>
    if cap.code ≠ GracefulRestart then pure params
    else some <$> grDecodeCapability cap.capability) none

/-- `Capability::LLGR::Family`. -/
structure LLGRFamily where
  afi : Nat
  safi : Nat
  flags : Nat
  time : Nat
  deriving DecidableEq, Repr

/-- `Capability::LLGR`. -/
structure LLGR where
  time : Nat
  families : List LLGRFamily
  deriving DecidableEq, Repr

/-- One pass of the family loop of `LLGR::Decode`. -/
def llgrFamily (data : List UInt8) (offset : Nat) : Except Nat LLGRFamily := do
  let afi ← getValue data offset 2
  let safi ← getValue data (offset + 2) 1
  let flags ← getValue data (offset + 3) 1
  let time ← getValue data (offset + 4) 3
  pure { afi, safi, flags, time }

/-- The family loop of `LLGR::Decode`: seven bytes a pass while `offset < size`. -/
def llgrFamilies (data : List UInt8) (offset : Nat) : Except Nat (List LLGRFamily) :=
  records data.length 7 (by decide) (llgrFamily data) offset

/-- `LLGR::Decode` of one LongLivedGracefulRestart capability; its time is the
largest family time. -/
def llgrDecodeCapability (data : List UInt8) : Except Nat LLGR := do
  let families ← llgrFamilies data 0
  pure { time := families.foldl (fun maxTime family =>
           if family.time > maxTime then family.time else maxTime) 0,
         families }

/-- `LLGR::Decode`: the last LongLivedGracefulRestart capability counts. -/
def llgrDecode (capabilities : List Capability) : Except Nat (Option LLGR) :=
  capabilities.foldlM (fun params cap =>
    if cap.code ≠ LongLivedGracefulRestart then pure params
    else some <$> llgrDecodeCapability cap.capability) none

/-- The test of one capability in `ValidateCapabilities`: an MpExtension
capability names an (afi, safi) that `lookupFamily` finds configured. -/
def mpExtensionCheck (lookupFamily : Nat → Nat → Bool) (ok : Bool) (cap : Capability) :
    Except Nat Bool :=
  if cap.code = MpExtension then do
    let afi ← getValue cap.capability 0 2
    let safi ← getValue cap.capability 3 1
    pure (ok || lookupFamily afi safi)
  else pure ok

/-- `OpenMessage::ValidateCapabilities`: `MpExtension` when no MpExtension
capability names a configured family, else 0. -/
def validateCapabilities (lookupFamily : Nat → Nat → Bool) (optParams : List OptParam) :
    Except Nat Nat := do
  let mpExtensionOk ← optParams.foldlM (fun ok param =>
    param.capabilities.foldlM (mpExtensionCheck lookupFamily) ok) false
  pure (if mpExtensionOk then 0 else MpExtension)

/-! ## Which values the readers stay inside -/

/-- The value lengths for which a reader of the capability's code stays inside
the value. -/
def Capability.WellSized (cap : Capability) : Prop :=
  (cap.code = MpExtension → 4 ≤ cap.capability.length) ∧
  (cap.code = GracefulRestart → 2 ≤ cap.capability.length ∧ (cap.capability.length - 2) % 4 = 0) ∧
  (cap.code = LongLivedGracefulRestart → cap.capability.length % 7 = 0)

instance (cap : Capability) : Decidable cap.WellSized :=
  inferInstanceAs (Decidable (_ ∧ _ ∧ _))

theorem getValue_ok_iff {data : List UInt8} {offset size : Nat} :
    (∃ value, getValue data offset size = .ok value) ↔ offset + size ≤ data.length :=
  readBE_ok_iff

theorem grFamily_ok_iff {data : List UInt8} {offset : Nat} :
    (∃ family, grFamily data offset = .ok family) ↔ offset + 4 ≤ data.length := by
  simp only [grFamily, bind_ok_iff]
  constructor
  · rintro ⟨_, _, _, _, flags, last, _⟩
    have := getValue_ok_iff.mp ⟨flags, last⟩
    omega
  · intro inside
    obtain ⟨afi, afiOk⟩ := getValue_ok_iff.mpr (show offset + 2 ≤ data.length by omega)
    obtain ⟨safi, safiOk⟩ := getValue_ok_iff.mpr (show offset + 2 + 1 ≤ data.length by omega)
    obtain ⟨flags, flagsOk⟩ := getValue_ok_iff.mpr (show offset + 3 + 1 ≤ data.length by omega)
    exact ⟨afi, afiOk, safi, safiOk, flags, flagsOk, _, rfl⟩

theorem grFamilies_ok_iff {data : List UInt8} {offset : Nat} (start : offset ≤ data.length) :
    (∃ families, grFamilies data offset = .ok families) ↔ (data.length - offset) % 4 = 0 :=
  records_ok_iff (fun _ => grFamily_ok_iff) start

theorem grDecodeCapability_ok_iff {data : List UInt8} :
    (∃ gr, grDecodeCapability data = .ok gr) ↔
      2 ≤ data.length ∧ (data.length - 2) % 4 = 0 := by
  simp only [grDecodeCapability, bind_ok_iff]
  constructor
  · rintro ⟨bytes, bytesOk, families, familiesOk, _⟩
    have header : 0 + 2 ≤ data.length := getValue_ok_iff.mp ⟨bytes, bytesOk⟩
    exact ⟨by omega, (grFamilies_ok_iff (by omega)).mp ⟨families, familiesOk⟩⟩
  · rintro ⟨header, whole⟩
    obtain ⟨bytes, bytesOk⟩ := getValue_ok_iff.mpr (show 0 + 2 ≤ data.length by omega)
    obtain ⟨families, familiesOk⟩ := (grFamilies_ok_iff header).mpr whole
    exact ⟨bytes, bytesOk, families, familiesOk, _, rfl⟩

theorem llgrFamily_ok_iff {data : List UInt8} {offset : Nat} :
    (∃ family, llgrFamily data offset = .ok family) ↔ offset + 7 ≤ data.length := by
  simp only [llgrFamily, bind_ok_iff]
  constructor
  · rintro ⟨_, _, _, _, _, _, time, last, _⟩
    have := getValue_ok_iff.mp ⟨time, last⟩
    omega
  · intro inside
    obtain ⟨afi, afiOk⟩ := getValue_ok_iff.mpr (show offset + 2 ≤ data.length by omega)
    obtain ⟨safi, safiOk⟩ := getValue_ok_iff.mpr (show offset + 2 + 1 ≤ data.length by omega)
    obtain ⟨flags, flagsOk⟩ := getValue_ok_iff.mpr (show offset + 3 + 1 ≤ data.length by omega)
    obtain ⟨time, timeOk⟩ := getValue_ok_iff.mpr (show offset + 4 + 3 ≤ data.length by omega)
    exact ⟨afi, afiOk, safi, safiOk, flags, flagsOk, time, timeOk, _, rfl⟩

theorem llgrFamilies_ok_iff {data : List UInt8} {offset : Nat} (start : offset ≤ data.length) :
    (∃ families, llgrFamilies data offset = .ok families) ↔ (data.length - offset) % 7 = 0 :=
  records_ok_iff (fun _ => llgrFamily_ok_iff) start

theorem llgrDecodeCapability_ok_iff {data : List UInt8} :
    (∃ llgr, llgrDecodeCapability data = .ok llgr) ↔ data.length % 7 = 0 := by
  have whole : (∃ families, llgrFamilies data 0 = .ok families) ↔ data.length % 7 = 0 := by
    simpa using llgrFamilies_ok_iff (Nat.zero_le data.length)
  simp only [llgrDecodeCapability, bind_ok_iff, ← whole]
  constructor
  · rintro ⟨families, familiesOk, _⟩
    exact ⟨families, familiesOk⟩
  · rintro ⟨families, familiesOk⟩
    exact ⟨families, familiesOk, _, rfl⟩

theorem grDecode_ok_iff {capabilities : List Capability} :
    (∃ params, grDecode capabilities = .ok params) ↔
      ∀ cap ∈ capabilities, cap.code = GracefulRestart →
        2 ≤ cap.capability.length ∧ (cap.capability.length - 2) % 4 = 0 := by
  apply foldlM_ok_iff
  intro params cap
  by_cases gr : cap.code = GracefulRestart
  · simp only [gr, ne_eq, not_true_eq_false, if_false, true_implies, map_ok_iff]
    exact grDecodeCapability_ok_iff
  · simp only [gr, ne_eq, not_false_eq_true, if_true, false_implies, iff_true]
    exact ⟨params, rfl⟩

theorem llgrDecode_ok_iff {capabilities : List Capability} :
    (∃ params, llgrDecode capabilities = .ok params) ↔
      ∀ cap ∈ capabilities, cap.code = LongLivedGracefulRestart →
        cap.capability.length % 7 = 0 := by
  apply foldlM_ok_iff
  intro params cap
  by_cases llgr : cap.code = LongLivedGracefulRestart
  · simp only [llgr, ne_eq, not_true_eq_false, if_false, true_implies, map_ok_iff]
    exact llgrDecodeCapability_ok_iff
  · simp only [llgr, ne_eq, not_false_eq_true, if_true, false_implies, iff_true]
    exact ⟨params, rfl⟩

theorem mpExtensionCheck_ok_iff {lookupFamily : Nat → Nat → Bool} {ok : Bool} {cap : Capability} :
    (∃ next, mpExtensionCheck lookupFamily ok cap = .ok next) ↔
      (cap.code = MpExtension → 4 ≤ cap.capability.length) := by
  unfold mpExtensionCheck
  split_ifs with mp
  · simp only [bind_ok_iff, imp_iff_right mp]
    constructor
    · rintro ⟨_, _, safi, safiOk, _⟩
      exact getValue_ok_iff.mp ⟨safi, safiOk⟩
    · intro inside
      obtain ⟨afi, afiOk⟩ := getValue_ok_iff.mpr (show 0 + 2 ≤ cap.capability.length by omega)
      obtain ⟨safi, safiOk⟩ := getValue_ok_iff.mpr (show 3 + 1 ≤ cap.capability.length by omega)
      exact ⟨afi, afiOk, safi, safiOk, _, rfl⟩
  · simp only [mp, false_implies, iff_true]
    exact ⟨ok, rfl⟩

theorem validateCapabilities_ok_iff {lookupFamily : Nat → Nat → Bool}
    {optParams : List OptParam} :
    (∃ result, validateCapabilities lookupFamily optParams = .ok result) ↔
      ∀ cap ∈ setCapabilities optParams, cap.code = MpExtension → 4 ≤ cap.capability.length := by
  have eachParam : ∀ (ok : Bool) (param : OptParam),
      (∃ next, param.capabilities.foldlM (mpExtensionCheck lookupFamily) ok = .ok next) ↔
        ∀ cap ∈ param.capabilities, cap.code = MpExtension → 4 ≤ cap.capability.length :=
    fun ok param => @foldlM_ok_iff Capability Bool Nat (mpExtensionCheck lookupFamily) _
      (fun _ _ => mpExtensionCheck_ok_iff) param.capabilities ok
  have allParams := foldlM_ok_iff eachParam optParams false
  simp only [validateCapabilities, bind_ok_iff, setCapabilities, List.mem_flatMap]
  constructor
  · rintro ⟨mpExtensionOk, foldOk, _⟩ cap ⟨param, inParam, inCaps⟩
    exact allParams.mp ⟨mpExtensionOk, foldOk⟩ param inParam cap inCaps
  · intro all
    obtain ⟨mpExtensionOk, foldOk⟩ := allParams.mpr fun param inParam cap inCaps =>
      all cap ⟨param, inParam, inCaps⟩
    exact ⟨mpExtensionOk, foldOk, _, rfl⟩

/-- The readers that follow an accepted OPEN stay inside every capability
value exactly when each value has the length its code's reader expects. -/
theorem capabilityReaders_ok_iff {lookupFamily : Nat → Nat → Bool}
    {optParams : List OptParam} :
    ((∃ result, validateCapabilities lookupFamily optParams = .ok result) ∧
      (∃ gr, grDecode (setCapabilities optParams) = .ok gr) ∧
      (∃ llgr, llgrDecode (setCapabilities optParams) = .ok llgr)) ↔
    ∀ cap ∈ setCapabilities optParams, cap.WellSized := by
  rw [validateCapabilities_ok_iff, grDecode_ok_iff, llgrDecode_ok_iff]
  simp only [Capability.WellSized, imp_and, forall_and]

/-! ## A value shorter than its reader -/

/-- A GracefulRestart capability of one value byte is accepted, and
`GR::Decode` then reads the byte after it. -/
theorem gracefulRestart_short_value_read_outside :
    parseCapabilities [64, 1, 0] = some [{ code := GracefulRestart, capability := [0] }] ∧
      grDecode (setCapabilities [{ capabilities := [{ code := GracefulRestart, capability := [0] }] }]) =
        .error 1 := by
  constructor
  · simp [parseCapabilities, tlvRun, GracefulRestart]
  · decide

end Contrail.Bgp
