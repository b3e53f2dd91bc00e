import Contrail.Bgp.StateMachine

/-! Which sessions the state machine and the peer hold, and what an event of a
session that is neither does. Two runs of a peer with connect retries: in the
first, an OPEN whose capabilities abort a graceful restart leaves Connect
holding the session at the peer, and the close of that session fails the
assertion of `Connect::react(EvTcpClose)`. In the second, a session that has
been let go still delivers what it read before its deletion is processed:
its UPDATE reaches `ProcessUpdate` in ESTABLISHED on another session, or, in
OpenConfirm, tears down the new session with a NOTIFICATION sent on it. -/
namespace Contrail.Bgp

open Fsm

namespace StateMachine

/-- A peer with connect retries, a hold time of 90 and local identifier 1. -/
def peerConfig : Config := ⟨false, 90, 1⟩

/-- The peer accepts the remote capabilities and can create sessions. -/
def capable : Answers := ⟨true, true, false, false, false⟩

/-- The remote capabilities abort an ongoing graceful restart. -/
def incapable : Answers := { capable with setCapabilities := false }

/-- Start, a connect retry, a passive session 1 and its OPEN, handled when
the capabilities fail. -/
def connectOpenActions : List FsmAction :=
  [.start, .process capable, .fireConnectTimer, .process capable, .passiveOpen, .process capable,
    .receive 1 (.open 2 90), .process incapable]

theorem connect_keeps_peer_session_after_capability_failure :
    ∃ m : StateMachine, m.Reachable peerConfig ∧ m.state = .connect ∧ m.peerSession = some 1 ∧
      m.runActions peerConfig [.tcpClose 1, .process capable, .process capable] = .error .assertion := by
  obtain ⟨m, reachable, holds⟩ := @Reachable.of_runActions peerConfig (init peerConfig) connectOpenActions
    (fun m => m.state = .connect && m.peerSession = some 1 &&
      m.runActions peerConfig [.tcpClose 1, .process capable, .process capable] = .error .assertion)
    (.init) (by decide)
  simp only [Bool.and_eq_true, decide_eq_true_eq] at holds
  exact ⟨m, reachable, holds.1.1, holds.1.2, holds.2⟩

/-- A run to a state with a property, whose next action succeeds into a state
related to it. -/
theorem Reachable.of_runActions_next {start : StateMachine} {actions : List FsmAction} {action : FsmAction}
    {q : StateMachine → Bool} {next : StateMachine → StateMachine → Bool} (reachable : start.Reachable peerConfig)
    (ran : (start.runActions peerConfig actions).toOption.map
      (fun m => q m && (m.apply peerConfig action).toOption.map (next m) = some true) = some true) :
    ∃ m, m.Reachable peerConfig ∧ q m = true ∧ ∃ m', m.apply peerConfig action = .ok m' ∧ next m m' = true := by
  obtain ⟨m, reachable, holds⟩ := Reachable.of_runActions peerConfig reachable ran
  simp only [Bool.and_eq_true, decide_eq_true_eq] at holds
  obtain ⟨holds, stepped⟩ := holds
  cases applied : m.apply peerConfig action with
  | error fault => simp [applied, Except.toOption] at stepped
  | ok m' =>
    simp only [applied, Except.toOption, Option.map_some, Option.some.injEq] at stepped
    exact ⟨m, reachable, holds, m', applied, stepped⟩

/-- Session 0 reaches ESTABLISHED and is stopped; the peer is brought up
again, the remote opens session 1, and session 0 delivers an UPDATE it read
before its deletion is processed. -/
def reconnectActions : List FsmAction :=
  [.start, .process capable, .passiveOpen, .process capable, .receive 0 (.open 2 90), .process capable,
    .receive 0 .keepalive, .process capable, .stop 0, .process capable, .adminUp false, .passiveOpen,
    .receive 1 (.open 2 90)]

theorem stale_session_update_is_processed :
    (∃ m : StateMachine, m.Reachable peerConfig ∧ m.state = .established ∧ m.peerSession = some 1 ∧
      m.holds 0 = false ∧ 0 ∈ m.deleted ∧ m.workQueue = [.bgpUpdate 0 7] ∧
      ∃ m', m.apply peerConfig (.process capable) = .ok m' ∧
        m'.effects = m.effects ++ [.processUpdate 0 7]) ∧
    (∃ m : StateMachine, m.Reachable peerConfig ∧ m.state = .openConfirm ∧ m.peerSession = some 1 ∧
      m.holds 0 = false ∧ 0 ∈ m.deleted ∧ m.workQueue = [.bgpUpdate 0 7] ∧
      ∃ m', m.apply peerConfig (.process capable) = .ok m' ∧ m'.state = .idle ∧
        .sendNotification 1 fsmErr 0 ∈ m'.effects) := by
  constructor
  · obtain ⟨m, reachable, holds, m', stepped, processed⟩ := @Reachable.of_runActions_next (init peerConfig)
      (reconnectActions ++ [.receive 1 .keepalive, .receive 0 (.update 7), .process capable, .process capable,
        .process capable, .process capable, .process capable]) (.process capable)
      (fun m => m.state = .established && m.peerSession = some 1 && m.holds 0 = false && 0 ∈ m.deleted &&
        m.workQueue = [.bgpUpdate 0 7])
      (fun m m' => m'.effects = m.effects ++ [.processUpdate 0 7]) .init (by decide)
    simp only [Bool.and_eq_true, decide_eq_true_eq] at holds processed
    obtain ⟨⟨⟨⟨established, peer⟩, stale⟩, deleted⟩, queue⟩ := holds
    exact ⟨m, reachable, established, peer, stale, deleted, queue, m', stepped, processed⟩
  · obtain ⟨m, reachable, holds, m', stepped, closed⟩ := @Reachable.of_runActions_next (init peerConfig)
      (reconnectActions ++ [.receive 0 (.update 7), .process capable, .process capable, .process capable,
        .process capable]) (.process capable)
      (fun m => m.state = .openConfirm && m.peerSession = some 1 && m.holds 0 = false && 0 ∈ m.deleted &&
        m.workQueue = [.bgpUpdate 0 7])
      (fun _ m' => m'.state = .idle && .sendNotification 1 fsmErr 0 ∈ m'.effects) .init (by decide)
    simp only [Bool.and_eq_true, decide_eq_true_eq] at holds closed
    obtain ⟨⟨⟨⟨confirming, peer⟩, stale⟩, deleted⟩, queue⟩ := holds
    exact ⟨m, reachable, confirming, peer, stale, deleted, queue, m', stepped, closed⟩

end StateMachine

end Contrail.Bgp
