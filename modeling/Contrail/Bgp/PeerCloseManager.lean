import Contrail.Lib.Runs
import Mathlib

/-! The graceful-restart close manager of a peer, `bgp/peer_close_manager.cc`:
its states, the membership sub-state, the pending request counter and the
FIFO event queue. The answers of the peer are arbitrary, one record for the
handling of each event; the peer asks `IsReady` twice when a timer callback
leads to `ProcessClosure`, so the record has one answer for each. The
environment keeps two counts: the starts of the stale timer whose callback
may still be enqueued, and the table requests whose completion callback is
not yet enqueued. A failed `assert` is `Fault.assertion`; the calls nest at
most a few deep and run with a bound on the depth, reported as `Fault.depth`. -/
namespace Contrail.Bgp

namespace PeerClose

inductive State
  | none
  | stale
  | grTimer
  | llgrStale
  | llgrTimer
  | sweep
  | delete
  deriving DecidableEq, Repr

/-- The value of the enumerator in `PeerCloseManager::State`. -/
def State.toNat : State → Nat
  | .none => 0
  | .stale => 1
  | .grTimer => 2
  | .llgrStale => 3
  | .llgrTimer => 4
  | .sweep => 5
  | .delete => 6

inductive MembershipState
  | none
  | inUse
  | inWait
  deriving DecidableEq, Repr

/-- An `Address::Family`, by its enumerator. -/
abbrev Family := Nat

/-- `Address::UNSPEC`: an EoR for it ends the wait for every family. -/
def Family.unspec : Family := 0

inductive Event
  | close (graceful : Bool)
  | eorReceived (family : Family)
  | membershipRequest
  | membershipRequestCompleteCallback
  | timerCallback
  deriving DecidableEq, Repr

/-- What the peer answers while one event is handled. -/
structure Answers where
  isReady : Bool
  isReadyAtClosure : Bool
  isCloseGraceful : Bool
  isCloseLongLivedGraceful : Bool
  canUseMembershipManager : Bool
  registeredRibs : Nat
  gracefulRestartFamilies : Finset Family

inductive Fault
  | assertion
  | depth
  deriving DecidableEq, Repr

end PeerClose

open PeerClose

structure PeerCloseManager where
  state : State
  closeAgain : Bool
  graceful : Bool
  membershipState : MembershipState
  families : Finset Family
  membershipReqPending : Int
  eventQueue : List Event
  timerStarts : Nat
  requests : Nat

namespace PeerCloseManager

@[simps]
def init : PeerCloseManager :=
  { state := .none, closeAgain := false, graceful := true, membershipState := .none, families := ∅,
    membershipReqPending := 0, eventQueue := [], timerStarts := 0, requests := 0 }

variable (m : PeerCloseManager)

/-- `MOVE_TO_STATE` asserts a change of state. -/
def moveToState (state : State) : Except Fault PeerCloseManager :=
  if m.state = state then .error .assertion else .ok { m with state }

def enqueueEvent (event : Event) : PeerCloseManager :=
  { m with eventQueue := m.eventQueue ++ [event] }

/-- `StartRestartTimer`: the callback of this start may come at any later
point, whatever cancellation follows. -/
def startRestartTimer : PeerCloseManager := { m with timerStarts := m.timerStarts + 1 }

/-- `AssertMembershipState`. -/
def assertMembershipState : Bool := m.membershipState ≠ .inUse

/-- `AssertMembershipManagerInUse`: `LLGR_STALE` stands alone in the
disjunction, as its enumerator. -/
def assertMembershipManagerInUse : Bool :=
  decide (m.state = .stale ∨ State.llgrStale.toNat ≠ 0 ∨ m.state = .sweep ∨ m.state = .delete) ||
    decide (m.membershipState = .inUse) || decide (m.membershipReqPending > 0)

/-- `MembershipRequest()`: wait while the membership manager is in use by
the peer, otherwise queue the request. -/
def membershipRequest (a : Answers) : Except Fault PeerCloseManager :=
  if !m.assertMembershipState then .error .assertion
  else if !a.canUseMembershipManager then .ok { m with membershipState := .inWait }
  else .ok ({ m with membershipState := .inUse }.enqueueEvent .membershipRequest)

def processEORMarkerReceived (family : Family) : PeerCloseManager :=
  if (m.state = .grTimer ∨ m.state = .llgrTimer) ∧ m.families ≠ ∅ then
    let families := if family = Family.unspec then ∅ else m.families.erase family
    -- The timer restarts with no delay once every EoR is in.
    if families = ∅ then { m with families }.startRestartTimer else { m with families }
  else m

mutual

/-- `CloseInternal`. -/
def closeInternal (a : Answers) : Nat → PeerCloseManager → Except Fault PeerCloseManager
  | 0, _ => .error .depth
  | fuel + 1, m =>
    if m.closeAgain then .ok m
    else match m.state with
      | .none => processClosure a fuel m
      | .grTimer | .llgrTimer => closeComplete a fuel { m with closeAgain := true }
      | .stale | .llgrStale | .sweep | .delete => .ok { m with closeAgain := true }

/-- `CloseComplete`: nested closures start afresh. -/
def closeComplete (a : Answers) : Nat → PeerCloseManager → Except Fault PeerCloseManager
  | 0, _ => .error .depth
  | fuel + 1, m => do
    let m ← m.moveToState .none
    let m := { m with families := ∅ }
    if m.closeAgain then closeInternal a fuel { m with closeAgain := false } else .ok m

/-- `ProcessClosure`; `CustomClose` on deletion is the peer's. -/
def processClosure (a : Answers) : Nat → PeerCloseManager → Except Fault PeerCloseManager
  | 0, _ => .error .depth
  | fuel + 1, m =>
    match m.state with
    | .none =>
      if !m.graceful || !a.isCloseGraceful then do
        let m ← m.moveToState .delete
        m.membershipRequest a
      else do
        let m ← m.moveToState .stale
        staleNotify a fuel m
    | .grTimer => do
      let m ← m.moveToState
        (if a.isReadyAtClosure then .sweep else if a.isCloseLongLivedGraceful then .llgrStale else .delete)
      m.membershipRequest a
    | .llgrTimer => do
      let m ← m.moveToState (if a.isReadyAtClosure then .sweep else .delete)
      m.membershipRequest a
    | .stale | .llgrStale | .sweep | .delete => .error .assertion

/-- `StaleNotify`: the membership request is made at once. -/
def staleNotify (a : Answers) : Nat → PeerCloseManager → Except Fault PeerCloseManager
  | 0, _ => .error .depth
  | fuel + 1, m => if !m.assertMembershipState then .error .assertion else membershipRequestEvent a fuel m

/-- `MembershipRequest(Event *)`: one request for each registered table, or
at once the callback of a request when there is none. -/
def membershipRequestEvent (a : Answers) : Nat → PeerCloseManager → Except Fault PeerCloseManager
  | 0, _ => .error .depth
  | fuel + 1, m =>
    let m := { m with membershipState := .inUse }
    if m.membershipReqPending ≠ (0 : Int) then .error .assertion
    else if a.registeredRibs = 0 then do
      let done ← membershipRequestCallback a fuel { m with membershipReqPending := m.membershipReqPending + 1 }
      if done.1 then .ok done.2 else .error .assertion
    else
      .ok { m with membershipReqPending := m.membershipReqPending + a.registeredRibs,
                   requests := m.requests + a.registeredRibs }

/-- `MembershipRequestCallback(Event *)`: true once the last request of the
batch completed. -/
def membershipRequestCallback (a : Answers) : Nat → PeerCloseManager → Except Fault (Bool × PeerCloseManager)
  | 0, _ => .error .depth
  | fuel + 1, m =>
    if !m.assertMembershipManagerInUse then .error .assertion
    else
      let m := { m with membershipReqPending := m.membershipReqPending - 1 }
      if m.membershipReqPending ≠ 0 then .ok (false, m)
      else if m.state = .delete then do
        let m ← m.moveToState .none
        .ok (true, { m with closeAgain := false, graceful := true, membershipState := .none })
      else if m.closeAgain then do
        let m ← closeComplete a fuel { m with membershipState := .none }
        .ok (true, m)
      else if m.state = .stale then do
        let m ← m.moveToState .grTimer
        .ok (true, { m.startRestartTimer with families := a.gracefulRestartFamilies, membershipState := .none })
      else if m.state = .llgrStale then do
        let m ← m.moveToState .llgrTimer
        .ok (true, { m.startRestartTimer with membershipState := .none })
      else do
        let m ← triggerSweepStateActions a fuel m
        .ok (true, m)

/-- `TriggerSweepStateActions`. -/
def triggerSweepStateActions (a : Answers) : Nat → PeerCloseManager → Except Fault PeerCloseManager
  | 0, _ => .error .depth
  | fuel + 1, m =>
    if m.state ≠ .sweep then .error .assertion
    else closeComplete a fuel { m with membershipState := .none }

end

/-- `RestartTimerCallback(Event *)`: a ready peer gets the EoRs it still
misses simulated, each queued as a received EoR. -/
def restartTimerCallback (a : Answers) (fuel : Nat) : Except Fault PeerCloseManager :=
  if m.state ≠ .grTimer ∧ m.state ≠ .llgrTimer then .ok m
  else if a.isReady ∧ m.families ≠ ∅ then
    -- each simulated EoR goes through the peer's ReceiveEndOfRIB, in the set's order
    .ok { m with eventQueue := m.eventQueue ++ (m.families.sort (· ≤ ·)).map .eorReceived }
  else processClosure a fuel m

/-- The bound on the depth of the nested calls: a callback that ends a nested
close runs `CloseComplete`, `CloseInternal`, `ProcessClosure`, `StaleNotify`,
`MembershipRequest` and a second callback inside it. -/
def callDepth : Nat := 10

/-- `EventCallback`. -/
def eventCallback (a : Answers) (event : Event) : Except Fault PeerCloseManager :=
  match event with
  | .close graceful => closeInternal a callDepth { m with graceful := m.graceful && graceful }
  | .eorReceived family => .ok (m.processEORMarkerReceived family)
  | .membershipRequest => membershipRequestEvent a callDepth m
  | .membershipRequestCompleteCallback => (membershipRequestCallback a callDepth m).map Prod.snd
  | .timerCallback => m.restartTimerCallback a callDepth

end PeerCloseManager

/-- What happens around the close manager: `Close` and EoR receptions queue
events, a started stale timer and an issued table request each produce their
callback once, the peer resumes a waiting membership request, and the queue's
task handles the first event. -/
inductive CloseAction
  | close (graceful : Bool)
  | eorReceived (family : Family)
  | timerFires
  | requestCompletes
  | resume (a : Answers)
  | process (a : Answers)

namespace PeerCloseManager

def apply (m : PeerCloseManager) : CloseAction → Except Fault PeerCloseManager
  | .close graceful => .ok (m.enqueueEvent (.close graceful))
  | .eorReceived family => .ok (m.enqueueEvent (.eorReceived family))
  | .timerFires =>
    if m.timerStarts = 0 then .ok m
    else .ok ({ m with timerStarts := m.timerStarts - 1 }.enqueueEvent .timerCallback)
  | .requestCompletes =>
    if m.requests = 0 then .ok m
    else .ok ({ m with requests := m.requests - 1 }.enqueueEvent .membershipRequestCompleteCallback)
  | .resume a => if m.membershipState = .inWait then m.membershipRequest a else .ok m
  | .process a =>
    match m.eventQueue with
    | [] => .ok m
    | event :: rest => { m with eventQueue := rest }.eventCallback a event

inductive Reachable : PeerCloseManager → Prop
  | init : Reachable init
  | step {m m' : PeerCloseManager} (action : CloseAction) : Reachable m → m.apply action = .ok m' → Reachable m'

/-- The actions one after another, up to the first fault. -/
def runActions (m : PeerCloseManager) (actions : List CloseAction) : Except Fault PeerCloseManager :=
  Runs.runAll apply m actions

theorem Reachable.runActions {actions : List CloseAction} {m m' : PeerCloseManager} (reach : m.Reachable)
    (ran : m.runActions actions = .ok m') : m'.Reachable :=
  Runs.runAll_induction (fun _ action _ reach stepped => .step action reach stepped) reach ran

end PeerCloseManager

end Contrail.Bgp
