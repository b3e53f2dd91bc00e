import Mathlib
import Contrail.Lib.Bytes
import Contrail.Lib.CanonicalList
import Contrail.Lib.ThreeWay

/-! `Community` and `ExtCommunity` of `bgp/community.cc`, the `CommunityDB` and `ExtCommunityDB`
operations that build them, and the `UpdateCommunity` action of
`bgp/routing-policy/routing_policy_action.cc` that calls three of them. Each operation copies the
source community, or starts from an empty one, changes the copy and interns it with `Locate`,
which returns a community comparing equal to the copy; the model returns the copy. A `uint32_t`
community is a 4-byte word, and an `ExtCommunityValue`, a `boost::array<uint8_t, 8>`, is the
big-endian value of its bytes, which orders the values as the arrays compare, byte by byte. -/
namespace Contrail.Bgp

open Bytes ThreeWay

structure Community where
  communities : List (Word 4)
  deriving DecidableEq, Repr

namespace Community

/-- `Community(CommunityDB *, const CommunitySpec)`. -/
def ofSpec (communities : List (Word 4)) : Community := ⟨sortUnique communities⟩

/-- `Community(CommunityDB *)`. -/
def empty : Community := ⟨[]⟩

def CompareTo (c rhs : Community) : Int := keyCompare c.communities rhs.communities

def ContainsValue (c : Community) (value : Word 4) : Bool := c.communities.contains value

/-- `Append(uint32_t)`: a value already there is left out, another pushed back and sorted. -/
def AppendValue (c : Community) (value : Word 4) : Community :=
  if c.ContainsValue value then c else ⟨(c.communities ++ [value]).mergeSort (· ≤ ·)⟩

/-- `Append(const std::vector<uint32_t> &)`. -/
def Append (c : Community) (values : List (Word 4)) : Community :=
  ⟨sortUnique (c.communities ++ values)⟩

/-- `Set`: the values as they are given. -/
def Set (_ : Community) (values : List (Word 4)) : Community := ⟨values⟩

/-- `Remove(const std::vector<uint32_t> &)`: `erase(remove(...))` of each value in turn. -/
def Remove (c : Community) (values : List (Word 4)) : Community :=
  ⟨values.foldl (fun communities value => communities.filter (· != value)) c.communities⟩

end Community

namespace CommunityDB

/-- The copy of `src`, or a new empty community, that an operation changes. -/
def clone (src : Option Community) : Community := src.getD .empty

/-- `AppendAndLocate(src, uint32_t)`. -/
def AppendValueAndLocate (src : Option Community) (value : Word 4) : Community :=
  (clone src).AppendValue value

def AppendAndLocate (src : Option Community) (values : List (Word 4)) : Community :=
  (clone src).Append values

def SetAndLocate (src : Option Community) (values : List (Word 4)) : Community :=
  (clone src).Set values

def RemoveAndLocate (src : Option Community) (values : List (Word 4)) : Community :=
  (clone src).Remove values

/-- `RemoveAndLocate(src, uint32_t)`. -/
def RemoveValueAndLocate (src : Option Community) (value : Word 4) : Community :=
  RemoveAndLocate src [value]

end CommunityDB

inductive UpdateCommunityOp where
  | ADD
  | REMOVE
  | SET
  deriving DecidableEq, Repr

structure UpdateCommunity where
  communities : List (Word 4)
  op : UpdateCommunityOp
  deriving DecidableEq, Repr

namespace UpdateCommunity

/-- The constructor, on the values `CommunityFromString` gave: a zero, a string it could not
read, is left out, the rest sorted without repeats. -/
def make (values : List (Word 4)) (op : UpdateCommunityOp) : UpdateCommunity :=
  ⟨sortUnique (values.filter (· != 0)), op⟩

/-- `operator()` on the community of an attribute, `none` for a null pointer. -/
def apply (u : UpdateCommunity) (comm : Option Community) : Option Community :=
  match u.op with
  | .SET => some (CommunityDB.SetAndLocate comm u.communities)
  | .ADD => some (CommunityDB.AppendAndLocate comm u.communities)
  | .REMOVE => comm.map fun c => CommunityDB.RemoveAndLocate (some c) u.communities

end UpdateCommunity

/-- The communities the program builds: from a spec, and by the `CommunityDB` operations on a
null source or one it built, `SetAndLocate` with the values of an `UpdateCommunity`. -/
inductive Community.Produced : Community → Prop
  | ofSpec (communities : List (Word 4)) : Produced (ofSpec communities)
  | appendValue {src : Option Community} (value : Word 4) (built : ∀ c ∈ src, Produced c) :
      Produced (CommunityDB.AppendValueAndLocate src value)
  | append {src : Option Community} (values : List (Word 4)) (built : ∀ c ∈ src, Produced c) :
      Produced (CommunityDB.AppendAndLocate src values)
  | remove {src : Option Community} (values : List (Word 4)) (built : ∀ c ∈ src, Produced c) :
      Produced (CommunityDB.RemoveAndLocate src values)
  | removeValue {src : Option Community} (value : Word 4) (built : ∀ c ∈ src, Produced c) :
      Produced (CommunityDB.RemoveValueAndLocate src value)
  | update {src : Option Community} {c : Community} (values : List (Word 4)) (op : UpdateCommunityOp)
      (built : ∀ c ∈ src, Produced c) (applied : (UpdateCommunity.make values op).apply src = some c) :
      Produced c

/-! ## Community lists -/

namespace Community

variable {c : Community}

/-- The loop of `Remove` keeps what none of the values equals. -/
theorem Remove_communities (c : Community) (values : List (Word 4)) :
    (c.Remove values).communities = c.communities.filter fun x => !values.contains x := by
  unfold Remove
  -- each pass filters the list the pass before left: generalize it
  generalize c.communities = communities
  induction values generalizing communities with
  | nil => simp
  | cons value values ih =>
    rw [List.foldl_cons, ih, List.filter_filter]
    congr 1
    funext x
    rw [List.contains_cons, Bool.not_or, Bool.and_comm, bne]

theorem AppendValue_canonical (canonical : Canonical c.communities) (value : Word 4) :
    Canonical (c.AppendValue value).communities := by
  unfold AppendValue
  split
  case isTrue => exact canonical
  case isFalse absent =>
    have fresh : value ∉ c.communities := by simpa [ContainsValue] using absent
    exact canonical_mergeSort (canonical.nodup.append (List.nodup_singleton value)
      (List.disjoint_singleton.mpr fresh))

theorem Append_canonical (c : Community) (values : List (Word 4)) :
    Canonical (c.Append values).communities :=
  canonical_sortUnique _

theorem Remove_canonical (canonical : Canonical c.communities) (values : List (Word 4)) :
    Canonical (c.Remove values).communities := by
  rw [Remove_communities]
  exact canonical.filter _

@[simp]
theorem toFinset_AppendValue (c : Community) (value : Word 4) :
    (c.AppendValue value).communities.toFinset = insert value c.communities.toFinset := by
  unfold AppendValue
  split
  case isTrue present =>
    have member : value ∈ c.communities := by simpa [ContainsValue] using present
    exact (Finset.insert_eq_of_mem (List.mem_toFinset.mpr member)).symm
  case isFalse =>
    ext x
    simp [or_comm]

@[simp]
theorem toFinset_Append (c : Community) (values : List (Word 4)) :
    (c.Append values).communities.toFinset = c.communities.toFinset ∪ values.toFinset := by
  simp [Append]

@[simp]
theorem toFinset_Remove (c : Community) (values : List (Word 4)) :
    (c.Remove values).communities.toFinset = c.communities.toFinset \ values.toFinset := by
  ext x
  simp [Remove_communities]

theorem CompareTo_eq_zero_iff (c rhs : Community) :
    c.CompareTo rhs = 0 ↔ c.communities = rhs.communities :=
  keyCompare_eq_zero_iff

end Community

theorem CommunityDB.clone_canonical {src : Option Community}
    (built : ∀ c ∈ src, Canonical c.communities) : Canonical (CommunityDB.clone src).communities := by
  cases src with
  | none => exact List.Pairwise.nil
  | some c => exact built c rfl

/-- What an `UpdateCommunity` action does to the set of communities of an attribute, `none`
when it has none. -/
def UpdateCommunityOp.onSets (op : UpdateCommunityOp) (values : Finset (Word 4))
    (comm : Option (Finset (Word 4))) : Option (Finset (Word 4)) :=
  match op with
  | .SET => some values
  | .ADD => some (comm.getD ∅ ∪ values)
  | .REMOVE => comm.map (· \ values)

namespace UpdateCommunity

theorem apply_canonical (u : UpdateCommunity) {src : Option Community} {c : Community}
    (built : ∀ c ∈ src, Canonical c.communities) (canonical : Canonical u.communities)
    (applied : u.apply src = some c) : Canonical c.communities := by
  unfold apply at applied
  split at applied
  · cases applied
    exact canonical
  · cases applied
    exact Community.Append_canonical _ _
  · obtain ⟨kept, member, rfl⟩ := Option.map_eq_some_iff.mp applied
    exact Community.Remove_canonical (built kept member) _

/-- The action does to the set of communities what its operation says, with the values
`CommunityFromString` read. -/
theorem apply_toFinset (values : List (Word 4)) (op : UpdateCommunityOp) (src : Option Community) :
    ((make values op).apply src).map (·.communities.toFinset) =
      op.onSets (values.filter (· != 0)).toFinset (src.map (·.communities.toFinset)) := by
  cases op <;> cases src <;> simp [make, apply, UpdateCommunityOp.onSets, CommunityDB.AppendAndLocate,
    CommunityDB.SetAndLocate, CommunityDB.RemoveAndLocate, CommunityDB.clone, Community.Set,
    Community.empty]

end UpdateCommunity

/-- Every community the program builds is sorted without repeats. -/
theorem Community.Produced.canonical {c : Community} (produced : c.Produced) :
    Canonical c.communities := by
  induction produced with
  | ofSpec communities => exact canonical_sortUnique communities
  | appendValue value _ built => exact Community.AppendValue_canonical (CommunityDB.clone_canonical built) value
  | append values _ _ => exact Community.Append_canonical _ values
  | remove values _ built => exact Community.Remove_canonical (CommunityDB.clone_canonical built) values
  | removeValue value _ built => exact Community.Remove_canonical (CommunityDB.clone_canonical built) [value]
  | update values op _ applied built =>
    exact UpdateCommunity.apply_canonical _ built (canonical_sortUnique _) applied

/-- Two communities the program built compare equal exactly when they hold the same values. -/
theorem Community.Produced.CompareTo_eq_zero_iff {c rhs : Community} (produced : c.Produced)
    (produced' : rhs.Produced) :
    c.CompareTo rhs = 0 ↔ c.communities.toFinset = rhs.communities.toFinset := by
  rw [Community.CompareTo_eq_zero_iff]
  exact ⟨fun same => by rw [same], produced.canonical.eq_of_toFinset_eq produced'.canonical⟩

/-! ## Extended communities -/

/-- `ExtCommunityValue`. -/
abbrev ExtCommunityValue := Word 8

/-- `val[i]`. -/
def ExtCommunityValue.byte (val : ExtCommunityValue) (i : Nat) : Nat := val.val / 256 ^ (7 - i) % 256

/-- The `is_<type>` tests: the type byte `val[0]` is one of `types` and the sub-type byte
`val[1]` is `subType`. -/
def typeIs (types : List Nat) (subType : Nat) (val : ExtCommunityValue) : Bool :=
  types.contains (val.byte 0) && val.byte 1 == subType

-- the types `TwoOctetAS = 0x00`, `IPv4Address = 0x01`, `FourOctetAS = 0x02`, `Opaque = 0x03`
-- and `Experimental = 0x80` of `extended-community/types.h`

def isOriginVn : ExtCommunityValue → Bool := typeIs [0x80] 0x71

def isRouteTarget : ExtCommunityValue → Bool := typeIs [0x00, 0x02, 0x01] 0x02

def isSecurityGroup : ExtCommunityValue → Bool := typeIs [0x80] 0x04

def isSiteOfOrigin : ExtCommunityValue → Bool := typeIs [0x00, 0x02, 0x01] 0x03

def isSourceAs : ExtCommunityValue → Bool := typeIs [0x00, 0x02] 0x09

def isVrfRouteImport : ExtCommunityValue → Bool := typeIs [0x01] 0x0B

def isTunnelEncap : ExtCommunityValue → Bool := typeIs [0x03] 0x0C

def isLoadBalance : ExtCommunityValue → Bool := typeIs [0x03] 0xAA

def isTag : ExtCommunityValue → Bool := typeIs [0x80] 0x84

structure ExtCommunity where
  communities : List ExtCommunityValue
  deriving DecidableEq, Repr

namespace ExtCommunity

/-- `ExtCommunity(ExtCommunityDB *, const ExtCommunitySpec)`: `put_value` of each `uint64_t`
gives its eight bytes, then sorted without repeats. -/
def ofSpec (communities : List ExtCommunityValue) : ExtCommunity := ⟨sortUnique communities⟩

/-- `ExtCommunity(ExtCommunityDB *)`. -/
def empty : ExtCommunity := ⟨[]⟩

/-- The loop of `CompareTo` over two lists of one length. -/
def compareValues : List ExtCommunityValue → List ExtCommunityValue → Int
  | x :: xs, y :: ys => if x < y then -1 else if x > y then 1 else compareValues xs ys
  | _, _ => 0

/-- `CompareTo`: the sizes, then the values in turn. -/
def CompareTo (c rhs : ExtCommunity) : Int :=
  andThen (keyCompare c.communities.length rhs.communities.length)
    (compareValues c.communities rhs.communities)

/-- `Append(const ExtCommunityList &)`. -/
def Append (c : ExtCommunity) (list : List ExtCommunityValue) : ExtCommunity :=
  ⟨sortUnique (c.communities ++ list)⟩

/-- `Append(const ExtCommunityValue &)`. -/
def AppendValue (c : ExtCommunity) (value : ExtCommunityValue) : ExtCommunity :=
  ⟨sortUnique (c.communities ++ [value])⟩

/-- The `Remove<Type>` loops: each value of the type is erased, the rest stay in order. -/
def removeIf (p : ExtCommunityValue → Bool) (c : ExtCommunity) : ExtCommunity :=
  ⟨c.communities.filter fun value => !p value⟩

def RemoveRTarget : ExtCommunity → ExtCommunity := removeIf isRouteTarget

def RemoveSGID : ExtCommunity → ExtCommunity := removeIf isSecurityGroup

def RemoveTag : ExtCommunity → ExtCommunity := removeIf isTag

def RemoveSiteOfOrigin : ExtCommunity → ExtCommunity := removeIf isSiteOfOrigin

def RemoveSourceAS : ExtCommunity → ExtCommunity := removeIf isSourceAs

def RemoveVrfRouteImport : ExtCommunity → ExtCommunity := removeIf isVrfRouteImport

def RemoveOriginVn : ExtCommunity → ExtCommunity := removeIf isOriginVn

def RemoveTunnelEncapsulation : ExtCommunity → ExtCommunity := removeIf isTunnelEncap

def RemoveLoadBalance : ExtCommunity → ExtCommunity := removeIf isLoadBalance

end ExtCommunity

namespace ExtCommunityDB

open ExtCommunity

/-- The copy of `src`, or a new empty extended community, that an operation changes. -/
def clone (src : Option ExtCommunity) : ExtCommunity := src.getD .empty

def AppendAndLocate (src : Option ExtCommunity) (list : List ExtCommunityValue) : ExtCommunity :=
  (clone src).Append list

/-- `AppendAndLocate(src, const ExtCommunityValue &)`: the one-value list appended. -/
def AppendValueAndLocate (src : Option ExtCommunity) (value : ExtCommunityValue) : ExtCommunity :=
  AppendAndLocate src [value]

/-- The `Replace<Type>AndLocate` operations with a list: the values of a type removed, then the
list appended. -/
def replaceListAndLocate (remove : ExtCommunity → ExtCommunity) (src : Option ExtCommunity)
    (list : List ExtCommunityValue) : ExtCommunity :=
  (remove (clone src)).Append list

/-- The `Replace<Type>AndLocate` operations with one value. -/
def replaceValueAndLocate (remove : ExtCommunity → ExtCommunity) (src : Option ExtCommunity)
    (value : ExtCommunityValue) : ExtCommunity :=
  (remove (clone src)).AppendValue value

/-- The `Remove<Type>AndLocate` operations. -/
def removeAndLocate (remove : ExtCommunity → ExtCommunity) (src : Option ExtCommunity) :
    ExtCommunity :=
  remove (clone src)

def ReplaceRTargetAndLocate := replaceListAndLocate RemoveRTarget

def ReplaceSGIDListAndLocate := replaceListAndLocate RemoveSGID

def ReplaceTagListAndLocate := replaceListAndLocate RemoveTag

def ReplaceTunnelEncapsulationAndLocate := replaceListAndLocate RemoveTunnelEncapsulation

def ReplaceSiteOfOriginAndLocate := replaceValueAndLocate RemoveSiteOfOrigin

def ReplaceSourceASAndLocate := replaceValueAndLocate RemoveSourceAS

def ReplaceVrfRouteImportAndLocate := replaceValueAndLocate RemoveVrfRouteImport

def ReplaceOriginVnAndLocate := replaceValueAndLocate RemoveOriginVn

def ReplaceLoadBalanceAndLocate := replaceValueAndLocate RemoveLoadBalance

def RemoveSiteOfOriginAndLocate := removeAndLocate RemoveSiteOfOrigin

def RemoveSourceASAndLocate := removeAndLocate RemoveSourceAS

def RemoveVrfRouteImportAndLocate := removeAndLocate RemoveVrfRouteImport

def RemoveOriginVnAndLocate := removeAndLocate RemoveOriginVn

end ExtCommunityDB

/-- The extended communities the program builds: from a spec, and by the `ExtCommunityDB`
operations on a null source or one it built; the type removed is any test. -/
inductive ExtCommunity.Produced : ExtCommunity → Prop
  | ofSpec (communities : List ExtCommunityValue) : Produced (ofSpec communities)
  | append {src : Option ExtCommunity} (list : List ExtCommunityValue) (built : ∀ c ∈ src, Produced c) :
      Produced (ExtCommunityDB.AppendAndLocate src list)
  | appendValue {src : Option ExtCommunity} (value : ExtCommunityValue)
      (built : ∀ c ∈ src, Produced c) : Produced (ExtCommunityDB.AppendValueAndLocate src value)
  | replaceList {src : Option ExtCommunity} (p : ExtCommunityValue → Bool) (list : List ExtCommunityValue)
      (built : ∀ c ∈ src, Produced c) :
      Produced (ExtCommunityDB.replaceListAndLocate (removeIf p) src list)
  | replaceValue {src : Option ExtCommunity} (p : ExtCommunityValue → Bool) (value : ExtCommunityValue)
      (built : ∀ c ∈ src, Produced c) :
      Produced (ExtCommunityDB.replaceValueAndLocate (removeIf p) src value)
  | remove {src : Option ExtCommunity} (p : ExtCommunityValue → Bool) (built : ∀ c ∈ src, Produced c) :
      Produced (ExtCommunityDB.removeAndLocate (removeIf p) src)

namespace ExtCommunity

variable {c : ExtCommunity}

theorem compareValues_eq_zero_iff :
    ∀ (l l' : List ExtCommunityValue), l.length = l'.length → (compareValues l l' = 0 ↔ l = l')
  | [], [], _ => by simp [compareValues]
  | [], _ :: _, sizes => absurd sizes (by simp)
  | _ :: _, [], sizes => absurd sizes (by simp)
  | x :: xs, y :: ys, sizes => by
    have rest := compareValues_eq_zero_iff xs ys (by simpa using sizes)
    unfold compareValues
    split_ifs with lt gt
    · simp [lt.ne]
    · simp [gt.ne']
    · have same : x = y := le_antisymm (not_lt.mp gt) (not_lt.mp lt)
      simp [same, rest]

theorem CompareTo_eq_zero_iff (c rhs : ExtCommunity) :
    c.CompareTo rhs = 0 ↔ c.communities = rhs.communities := by
  unfold CompareTo andThen
  split_ifs with sizes
  · exact compareValues_eq_zero_iff _ _ (keyCompare_eq_zero_iff.mp sizes)
  · -- the sizes differ, so the lists do
    refine ⟨fun zero => absurd zero sizes, fun same => ?_⟩
    rw [same, keyCompare_self] at sizes
    exact absurd rfl sizes

theorem removeIf_canonical (canonical : Canonical c.communities) (p : ExtCommunityValue → Bool) :
    Canonical (removeIf p c).communities :=
  canonical.filter _

@[simp]
theorem toFinset_Append (c : ExtCommunity) (list : List ExtCommunityValue) :
    (c.Append list).communities.toFinset = c.communities.toFinset ∪ list.toFinset := by
  simp [Append]

@[simp]
theorem toFinset_AppendValue (c : ExtCommunity) (value : ExtCommunityValue) :
    (c.AppendValue value).communities.toFinset = insert value c.communities.toFinset := by
  ext x
  simp [AppendValue]

@[simp]
theorem toFinset_removeIf (c : ExtCommunity) (p : ExtCommunityValue → Bool) :
    (removeIf p c).communities.toFinset = c.communities.toFinset.filter fun value => p value = false := by
  ext x
  simp [removeIf]

end ExtCommunity

namespace ExtCommunityDB

open ExtCommunity

theorem clone_canonical {src : Option ExtCommunity} (built : ∀ c ∈ src, Canonical c.communities) :
    Canonical (clone src).communities := by
  cases src with
  | none => exact List.Pairwise.nil
  | some c => exact built c rfl

@[simp]
theorem toFinset_AppendAndLocate (src : Option ExtCommunity) (list : List ExtCommunityValue) :
    (AppendAndLocate src list).communities.toFinset = (clone src).communities.toFinset ∪ list.toFinset :=
  toFinset_Append _ _

theorem toFinset_replaceListAndLocate (p : ExtCommunityValue → Bool) (src : Option ExtCommunity)
    (list : List ExtCommunityValue) :
    (replaceListAndLocate (removeIf p) src list).communities.toFinset =
      (clone src).communities.toFinset.filter (fun value => p value = false) ∪ list.toFinset := by
  simp [replaceListAndLocate]

theorem toFinset_replaceValueAndLocate (p : ExtCommunityValue → Bool) (src : Option ExtCommunity)
    (value : ExtCommunityValue) :
    (replaceValueAndLocate (removeIf p) src value).communities.toFinset =
      insert value ((clone src).communities.toFinset.filter fun value => p value = false) := by
  simp [replaceValueAndLocate]

theorem toFinset_removeAndLocate (p : ExtCommunityValue → Bool) (src : Option ExtCommunity) :
    (removeAndLocate (removeIf p) src).communities.toFinset =
      (clone src).communities.toFinset.filter fun value => p value = false := by
  simp [removeAndLocate]

end ExtCommunityDB

/-- Every extended community the program builds is sorted without repeats. -/
theorem ExtCommunity.Produced.canonical {c : ExtCommunity} (produced : c.Produced) :
    Canonical c.communities := by
  induction produced with
  | ofSpec communities => exact canonical_sortUnique communities
  | append list _ _ => exact canonical_sortUnique _
  | appendValue value _ _ => exact canonical_sortUnique _
  | replaceList p list _ _ => exact canonical_sortUnique _
  | replaceValue p value _ _ => exact canonical_sortUnique _
  | remove p _ built => exact ExtCommunity.removeIf_canonical (ExtCommunityDB.clone_canonical built) p

theorem ExtCommunity.Produced.CompareTo_eq_zero_iff {c rhs : ExtCommunity} (produced : c.Produced)
    (produced' : rhs.Produced) :
    c.CompareTo rhs = 0 ↔ c.communities.toFinset = rhs.communities.toFinset := by
  rw [ExtCommunity.CompareTo_eq_zero_iff]
  exact ⟨fun same => by rw [same], produced.canonical.eq_of_toFinset_eq produced'.canonical⟩

/-- Community and extended-community lists stay sorted without repeats under every operation,
each holds the values its operation says, and so two of them compare equal, as `Locate` asks,
exactly when they hold the same values. -/
theorem community_lists_canonical :
    (∀ c : Community, c.Produced → Canonical c.communities) ∧
    (∀ c rhs : Community, c.Produced → rhs.Produced →
      (c.CompareTo rhs = 0 ↔ c.communities.toFinset = rhs.communities.toFinset)) ∧
    (∀ (src : Option Community) (value : Word 4),
      (CommunityDB.AppendValueAndLocate src value).communities.toFinset =
        insert value (CommunityDB.clone src).communities.toFinset) ∧
    (∀ (src : Option Community) (values : List (Word 4)),
      (CommunityDB.AppendAndLocate src values).communities.toFinset =
        (CommunityDB.clone src).communities.toFinset ∪ values.toFinset) ∧
    (∀ (src : Option Community) (values : List (Word 4)),
      (CommunityDB.RemoveAndLocate src values).communities.toFinset =
        (CommunityDB.clone src).communities.toFinset \ values.toFinset) ∧
    (∀ (values : List (Word 4)) (op : UpdateCommunityOp) (src : Option Community),
      ((UpdateCommunity.make values op).apply src).map (·.communities.toFinset) =
        op.onSets (values.filter (· != 0)).toFinset (src.map (·.communities.toFinset))) ∧
    (∀ c : ExtCommunity, c.Produced → Canonical c.communities) ∧
    (∀ c rhs : ExtCommunity, c.Produced → rhs.Produced →
      (c.CompareTo rhs = 0 ↔ c.communities.toFinset = rhs.communities.toFinset)) ∧
    (∀ (src : Option ExtCommunity) (list : List ExtCommunityValue),
      (ExtCommunityDB.AppendAndLocate src list).communities.toFinset =
        (ExtCommunityDB.clone src).communities.toFinset ∪ list.toFinset) ∧
    (∀ (src : Option ExtCommunity) (export_list : List ExtCommunityValue),
      (ExtCommunityDB.ReplaceRTargetAndLocate src export_list).communities.toFinset =
        (ExtCommunityDB.clone src).communities.toFinset.filter (fun value => isRouteTarget value = false) ∪
          export_list.toFinset) ∧
    (∀ (p : ExtCommunityValue → Bool) (src : Option ExtCommunity) (list : List ExtCommunityValue),
      (ExtCommunityDB.replaceListAndLocate (ExtCommunity.removeIf p) src list).communities.toFinset =
        (ExtCommunityDB.clone src).communities.toFinset.filter (fun value => p value = false) ∪
          list.toFinset) ∧
    (∀ (p : ExtCommunityValue → Bool) (src : Option ExtCommunity) (value : ExtCommunityValue),
      (ExtCommunityDB.replaceValueAndLocate (ExtCommunity.removeIf p) src value).communities.toFinset =
        insert value ((ExtCommunityDB.clone src).communities.toFinset.filter fun value => p value = false)) ∧
    (∀ (p : ExtCommunityValue → Bool) (src : Option ExtCommunity),
      (ExtCommunityDB.removeAndLocate (ExtCommunity.removeIf p) src).communities.toFinset =
        (ExtCommunityDB.clone src).communities.toFinset.filter fun value => p value = false) := by
  refine ⟨fun _ produced => produced.canonical,
    fun _ _ produced produced' => produced.CompareTo_eq_zero_iff produced',
    fun src value => Community.toFinset_AppendValue _ value,
    fun src values => Community.toFinset_Append _ values,
    fun src values => Community.toFinset_Remove _ values,
    UpdateCommunity.apply_toFinset,
    fun _ produced => produced.canonical,
    fun _ _ produced produced' => produced.CompareTo_eq_zero_iff produced',
    ExtCommunityDB.toFinset_AppendAndLocate,
    fun src export_list => ExtCommunityDB.toFinset_replaceListAndLocate isRouteTarget src export_list,
    ExtCommunityDB.toFinset_replaceListAndLocate,
    ExtCommunityDB.toFinset_replaceValueAndLocate,
    ExtCommunityDB.toFinset_removeAndLocate⟩

/-- The comparisons of a list that gained a value against one parsed with it, for both kinds. -/
theorem community_lists_canonical_produced :
    let c := CommunityDB.AppendValueAndLocate (some (Community.ofSpec [5, 1])) 3
    let rhs := Community.ofSpec [1, 3, 5]
    let ext := ExtCommunityDB.AppendAndLocate (some (ExtCommunity.ofSpec [7, 2])) [2, 9]
    let extRhs := ExtCommunity.ofSpec [9, 7, 2]
    c.Produced ∧ rhs.Produced ∧ Canonical c.communities ∧
    (c.CompareTo rhs = 0 ↔ c.communities.toFinset = rhs.communities.toFinset) ∧
    ext.Produced ∧ extRhs.Produced ∧ Canonical ext.communities ∧
    (ext.CompareTo extRhs = 0 ↔ ext.communities.toFinset = extRhs.communities.toFinset) := by
  intro c rhs ext extRhs
  have produced : c.Produced := .appendValue 3 fun _ parsed => Option.some.inj parsed ▸ .ofSpec _
  have produced' : rhs.Produced := .ofSpec _
  have extProduced : ext.Produced := .append [2, 9] fun _ parsed => Option.some.inj parsed ▸ .ofSpec _
  have extProduced' : extRhs.Produced := .ofSpec _
  obtain ⟨canonical, compare, -, -, -, -, extCanonical, extCompare, -, -, -, -, -⟩ :=
    community_lists_canonical
  exact ⟨produced, produced', canonical c produced, compare c rhs produced produced', extProduced,
    extProduced', extCanonical ext extProduced, extCompare ext extRhs extProduced extProduced'⟩

end Contrail.Bgp
