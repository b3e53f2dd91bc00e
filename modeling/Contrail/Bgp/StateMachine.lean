import Mathlib

/-! The BGP peer state machine of `bgp/state_machine.cc`: its six states with
the entry and exit actions of their boost.statechart classes, the custom and
transition reactions of each, the `validate` filters of the events, and the
work queue that feeds them. A session is known by a number; the peer's answers
while an event is handled (`SetCapabilities`, `CreateSession`, ...) are
arbitrary. What the state machine makes the peer and the sessions do is kept
as a list of effects. A timer's handler runs in the state machine's task, so
the `Fired` state of a timer is never observed by a reaction. -/
namespace Contrail.Bgp

namespace Fsm

abbrev Session := Nat

inductive State
  | idle
  | active
  | connect
  | openSent
  | openConfirm
  | established
  deriving DecidableEq, Repr

inductive TimerState
  | init
  | running
  | cancelled
  deriving DecidableEq, Repr

/-- A message a session has received, as `OnMessage` and `OnMessageError`
turn it into an event. -/
inductive Message
  | open (identifier holdTime : Nat)
  | openError (subcode : Nat)
  | keepalive
  | notification (error subcode : Nat)
  | update (update : Nat)
  | updateError (subcode : Nat)
  | headerError (subcode : Nat)
  deriving DecidableEq, Repr

inductive Event
  | start
  | stop (subcode : Nat)
  | idleHoldTimerExpired
  | connectTimerExpired
  | openTimerExpired
  | holdTimerExpired
  | tcpConnected (session : Session)
  | tcpConnectFail (session : Session)
  | tcpPassiveOpen (session : Session)
  | tcpClose (session : Session)
  | tcpDeleteSession (session : Session)
  | bgpHeaderError (session : Session) (subcode : Nat)
  | bgpOpen (session : Session) (identifier holdTime : Nat)
  | bgpOpenError (session : Session) (subcode : Nat)
  | bgpKeepalive (session : Session)
  | bgpNotification (session : Session) (error subcode : Nat)
  | bgpUpdate (session : Session) (update : Nat)
  | bgpUpdateError (session : Session) (subcode : Nat)
  deriving DecidableEq, Repr

/-- What the state machine makes the peer, its sessions and the session
manager do. -/
inductive Effect
  | sendOpen (session : Session)
  | sendKeepalive
  | sendNotification (session : Session) (code subcode : Nat)
  | processUpdate (session : Session) (update : Nat)
  | peerClose (graceful : Bool)
  | deleteSession (session : Session)
  deriving DecidableEq, Repr

/-- The configuration of the peer. -/
structure Config where
  isPassive : Bool
  configuredHoldTime : Nat
  localIdentifier : Nat

/-- What the peer answers while one event is handled. -/
structure Answers where
  setCapabilities : Bool
  createSession : Bool
  isCloseGraceful : Bool
  isRouterTypeBGPaaS : Bool
  attemptGRHelperMode : Bool

/-- A failed `assert`, or a session dereferenced while null. -/
inductive Fault
  | assertion
  | nullSession
  deriving DecidableEq, Repr

/-- `BgpProto::Notification::Code`. -/
def msgHdrErr : Nat := 1
def openMsgErr : Nat := 2
def updateMsgErr : Nat := 3
def holdTimerExp : Nat := 4
def fsmErr : Nat := 5
def cease : Nat := 6

/-- `BgpProto::Notification::CeaseSubCode`. -/
def unknown : Nat := 0
def connectionRejected : Nat := 5
def connectionCollision : Nat := 7

def kOpenSentHoldTime : Nat := 240
def kIdleHoldTime : Nat := 5000

end Fsm

open Fsm

/-- The state machine with the peer's session and the sessions as the TCP
layer sees them: whose observer is the state machine, which are established
or closed, and which the session manager has deleted. -/
structure StateMachine where
  state : State
  activeSession : Option Session
  passiveSession : Option Session
  peerSession : Option Session
  connectTimer : TimerState
  openTimer : TimerState
  holdTimer : TimerState
  idleHoldTimer : TimerState
  holdTime : Nat
  idleHoldTime : Nat
  workQueue : List Event
  effects : List Effect
  nextSession : Session
  observed : List Session
  established : List Session
  closed : List Session
  deleted : List Session
  deriving DecidableEq

namespace StateMachine

variable (config : Config) (answers : Answers) (m : StateMachine)

def enqueue (event : Event) : StateMachine := { m with workQueue := m.workQueue ++ [event] }

def emit (effect : Effect) : StateMachine := { m with effects := m.effects ++ [effect] }

/-- `DeleteSession`: the observer goes first, then the session is closed and
its deletion queued behind the events already in the queue. -/
def deleteSession : Option Session → StateMachine
  | none => m
  | some session =>
    { m with observed := m.observed.erase session, closed := m.closed ++ [session],
             established := m.established.erase session }.enqueue (.tcpDeleteSession session)

def setActiveSession (session : Option Session) : StateMachine :=
  { m.deleteSession m.activeSession with activeSession := session }

def setPassiveSession (session : Option Session) : StateMachine :=
  { m.deleteSession m.passiveSession with passiveSession := session }

/-- `AssignSession`: the session moves from the state machine to the peer. -/
def assignSession (active : Bool) : StateMachine :=
  if active then { m with peerSession := m.activeSession, activeSession := none }
  else { m with peerSession := m.passiveSession, passiveSession := none }

def startHoldTimer : StateMachine :=
  if m.holdTime = 0 then m else { m with holdTimer := .running }

def startIdleHoldTimer : StateMachine :=
  if m.idleHoldTime = 0 then m else { m with idleHoldTimer := .running }

def sendOpen : Option Session → Except Fault StateMachine
  | none => .error .nullSession
  | some session => .ok (m.emit (.sendOpen session))

/-- `StateMachine::SendNotification`: with no session given, the passive
session is preferred, then the active one; code 0 sends nothing. -/
def sendNotification (session : Option Session) (code subcode : Nat) : StateMachine :=
  match session.or (m.passiveSession.or m.activeSession) with
  | some session => if code ≠ 0 then m.emit (.sendNotification session code subcode) else m
  | none => m

/-- `PeerClose`: the peer closes and the next start waits the idle hold time. -/
def peerClose : StateMachine :=
  { m.emit (.peerClose answers.attemptGRHelperMode) with
    idleHoldTime := if m.idleHoldTime ≠ 0 then m.idleHoldTime else kIdleHoldTime,
    holdTime := config.configuredHoldTime }

def onIdle (code : Nat) : StateMachine :=
  (m.sendNotification m.peerSession code 0).peerClose config answers

def onIdleCease (subcode : Nat) : StateMachine :=
  (m.sendNotification m.peerSession cease subcode).peerClose config answers

def onIdleError (code : Nat) (session : Session) (subcode : Nat) : StateMachine :=
  (m.sendNotification (some session) code subcode).peerClose config answers

def onIdleNotification : StateMachine := m.peerClose config answers

/-- `StartSession`: an active session when the peer can create one. -/
def startSession : StateMachine :=
  if answers.createSession then
    let session := m.nextSession
    { m.setActiveSession (some session) with
      nextSession := m.nextSession + 1, observed := m.observed ++ [session] }
  else m

/-- The constructor of Idle: every session is let go. -/
def enterIdle : StateMachine :=
  let session := m.peerSession
  let m := ({ m with peerSession := none }.setActiveSession none).setPassiveSession none
  { m.deleteSession session with openTimer := .cancelled, idleHoldTimer := .cancelled, state := .idle }

/-- The constructor of a state. -/
def enter : State → StateMachine
  | .idle => m.enterIdle
  | .active =>
    let m := if !config.isPassive && m.passiveSession.isNone then { m with connectTimer := .running } else m
    { m with state := .active }
  | .connect => { { m with connectTimer := .running }.startSession answers with state := .connect }
  | .openSent => { { m with holdTime := kOpenSentHoldTime }.startHoldTimer with state := .openSent }
  | .openConfirm =>
    -- `SendKeepalive` bails out when the peer has no session
    let m := if m.peerSession.isSome then m.emit .sendKeepalive else m
    { { m with openTimer := .cancelled }.startHoldTimer with state := .openConfirm }
  | .established => { m.startHoldTimer with state := .established }

/-- The destructor of a state. -/
def exit : State → StateMachine
  | .idle => { m with idleHoldTimer := .cancelled }
  | .active | .connect => { m with connectTimer := .cancelled }
  | .openSent | .openConfirm | .established => { m with holdTimer := .cancelled }

/-- A transition: the current state is left, the transition's action runs,
and the target state is entered. -/
def transit (target : State) (action : StateMachine → StateMachine) : StateMachine :=
  (action (m.exit m.state)).enter config answers target

def holds (session : Session) : Bool :=
  m.peerSession = some session || m.activeSession = some session || m.passiveSession = some session

/-- The `validate` filters; events without one always pass. -/
def validate : Event → Bool
  | .idleHoldTimerExpired => m.idleHoldTimer ≠ .cancelled
  | .connectTimerExpired =>
    if m.connectTimer = .cancelled then false
    else if m.state = .active then m.passiveSession.isNone
    else if m.state = .connect then
      match m.activeSession with
      | none => true
      | some session => session ∉ m.established
    else false
  | .openTimerExpired => m.openTimer ≠ .cancelled && m.passiveSession.isSome
  | .holdTimerExpired => m.holdTimer ≠ .cancelled && (m.state = .openSent || m.peerSession.isSome)
  | .tcpConnected session | .tcpConnectFail session => m.activeSession = some session
  | .tcpClose session | .bgpOpen session _ _ | .bgpNotification session _ _ => m.holds session
  | .bgpKeepalive session => session ∉ m.closed
  | _ => true

/-- `ProcessNotificationEvent`: false for a notification on a session other
than the peer's; otherwise the session it came on is dropped. -/
def processNotificationEvent (session : Session) : Option StateMachine :=
  if m.peerSession.isSome && m.peerSession ≠ some session then none
  else if m.activeSession = some session then some (m.setActiveSession none)
  else some (m.setPassiveSession none)

/-- The reactions every state shares: `EvStop` ceases, and the errors of the
received messages go to Idle with a notification. -/
def reactError (code : Nat) (session : Session) (subcode : Nat) : StateMachine :=
  m.transit config answers .idle (onIdleError config answers · code session subcode)

/-- After the OPEN of the session kept: OpenConfirm follows unless the
capabilities force a non-graceful close. -/
def confirmOpen : Except Fault StateMachine :=
  if !answers.setCapabilities then .ok m else .ok (m.transit config answers .openConfirm id)

/-- An OPEN on the passive session in Active or Connect: the session goes to
the peer and an OPEN is sent back on it. -/
def acceptPassiveOpen (holdTime : Nat) (session : Session) : Except Fault StateMachine := do
  let m := { m with holdTime := min holdTime config.configuredHoldTime }.assignSession false
  let m ← m.sendOpen (some session)
  m.confirmOpen config answers

/-- `OpenSent::react(EvBgpOpen)`: a connection collision keeps the passive
session when the remote identifier is greater, the active one otherwise; the
OPEN must have come on the session kept. -/
def openSentOpen (session identifier holdTime : Nat) : Except Fault StateMachine := do
  let confirm (m : StateMachine) := { m with holdTime := min holdTime config.configuredHoldTime }.confirmOpen
    config answers
  match m.passiveSession, m.activeSession with
  | some passive, some active =>
    if identifier > config.localIdentifier then do
      let m := (m.emit (.sendNotification active cease connectionCollision)).setActiveSession none
      let m ← if m.openTimer = .running then ({ m with openTimer := .cancelled }).sendOpen (some passive)
        else .ok m
      if session ≠ passive then .ok m else confirm (m.assignSession false)
    else
      let m := { (m.emit (.sendNotification passive cease connectionCollision)).setPassiveSession none with
        openTimer := .cancelled }
      if session ≠ active then .ok m else confirm (m.assignSession true)
  | some passive, none => if session ≠ passive then .ok m else confirm (m.assignSession false)
  | none, some active => if session ≠ active then .ok m else confirm (m.assignSession true)
  | none, none => confirm m

def reactIdle : Event → Except Fault StateMachine
  | .stop subcode => .ok (m.transit config answers .idle (onIdleCease config answers · subcode))
  | .start =>
    if m.idleHoldTime ≠ 0 then .ok m.startIdleHoldTimer else .ok (m.transit config answers .active id)
  | .idleHoldTimerExpired => .ok (m.transit config answers .active id)
  | .tcpPassiveOpen session => .ok (m.deleteSession (some session))
  | _ => .ok m

def reactActive : Event → Except Fault StateMachine
  | .stop subcode => .ok (m.transit config answers .idle (onIdleCease config answers · subcode))
  | .connectTimerExpired => .ok (if config.isPassive then m else m.transit config answers .connect id)
  | .openTimerExpired =>
    match m.passiveSession with
    | some session => do
      let m ← m.sendOpen (some session)
      .ok (m.transit config answers .openSent id)
    | none => .ok m
  | .tcpPassiveOpen session =>
    .ok { m.setPassiveSession (some session) with connectTimer := .cancelled, openTimer := .running }
  | .tcpClose session =>
    if m.passiveSession = some session then
      .ok { m.setPassiveSession none with openTimer := .cancelled, connectTimer := .running }
    else .ok m
  | .bgpOpen session _ holdTime =>
    match m.passiveSession with
    | none => .ok m
    | some passive => if passive ≠ session then .ok m else m.acceptPassiveOpen config answers holdTime session
  | .bgpNotification _ _ _ => .ok (m.transit config answers .idle (onIdleNotification config answers))
  | .bgpKeepalive _ | .bgpUpdate _ _ => .ok (m.transit config answers .idle (onIdle config answers · fsmErr))
  | .bgpHeaderError session subcode => .ok (m.reactError config answers msgHdrErr session subcode)
  | .bgpOpenError session subcode => .ok (m.reactError config answers openMsgErr session subcode)
  | .bgpUpdateError session subcode => .ok (m.reactError config answers updateMsgErr session subcode)
  | _ => .ok m

def reactConnect : Event → Except Fault StateMachine
  | .stop subcode => .ok (m.transit config answers .idle (onIdleCease config answers · subcode))
  | .connectTimerExpired => .ok ((m.setActiveSession none).transit config answers .active id)
  | .openTimerExpired => do
    let m ← m.sendOpen m.passiveSession
    .ok ((m.setActiveSession none).transit config answers .openSent id)
  | .tcpConnected _ => do
    let m ← m.sendOpen m.activeSession
    .ok (m.transit config answers .openSent id)
  | .tcpConnectFail _ => .ok ((m.setActiveSession none).transit config answers .active id)
  | .tcpPassiveOpen session => .ok { m.setPassiveSession (some session) with openTimer := .running }
  | .tcpClose session =>
    if m.passiveSession = some session then .ok { m.setPassiveSession none with openTimer := .cancelled }
    else if m.activeSession ≠ some session then .error .assertion
    else .ok ((m.setActiveSession none).transit config answers .active id)
  | .bgpOpen session _ holdTime =>
    match m.passiveSession with
    | none => .ok m
    | some passive =>
      if passive ≠ session then .ok m
      else (m.setActiveSession none).acceptPassiveOpen config answers holdTime session
  | .bgpNotification _ _ _ => .ok (m.transit config answers .idle (onIdleNotification config answers))
  | .bgpKeepalive _ | .bgpUpdate _ _ => .ok (m.transit config answers .idle (onIdle config answers · fsmErr))
  | .bgpHeaderError session subcode => .ok (m.reactError config answers msgHdrErr session subcode)
  | .bgpOpenError session subcode => .ok (m.reactError config answers openMsgErr session subcode)
  | .bgpUpdateError session subcode => .ok (m.reactError config answers updateMsgErr session subcode)
  | _ => .ok m

def reactOpenSent : Event → Except Fault StateMachine
  | .stop subcode => .ok (m.transit config answers .idle (onIdleCease config answers · subcode))
  | .openTimerExpired => m.sendOpen m.passiveSession
  | .holdTimerExpired => .ok (m.transit config answers .idle (onIdle config answers · holdTimerExp))
  | .tcpPassiveOpen session =>
    let m := { m.setPassiveSession (some session) with openTimer := .running }
    .ok (if m.activeSession.isNone then m.transit config answers .active id else m)
  | .tcpClose session =>
    if m.activeSession = some session then
      let m := m.setActiveSession none
      .ok (if m.passiveSession.isNone || m.openTimer = .running then m.transit config answers .active id else m)
    else
      let m := { m.setPassiveSession none with openTimer := .cancelled }
      .ok (if m.activeSession.isNone then m.transit config answers .active id else m)
  | .bgpOpen session identifier holdTime => m.openSentOpen config answers session identifier holdTime
  | .bgpNotification session _ _ =>
    match m.processNotificationEvent session with
    | none => .ok m
    | some m =>
      if m.activeSession.isSome then .ok { m with openTimer := .cancelled }
      else if m.passiveSession.isSome then
        .ok (if m.openTimer = .running then m.transit config answers .active id else m)
      else .ok (m.transit config answers .idle (onIdle config answers · 0))
  | .bgpKeepalive _ | .bgpUpdate _ _ => .ok (m.transit config answers .idle (onIdle config answers · fsmErr))
  | .bgpHeaderError session subcode => .ok (m.reactError config answers msgHdrErr session subcode)
  | .bgpOpenError session subcode => .ok (m.reactError config answers openMsgErr session subcode)
  | .bgpUpdateError session subcode => .ok (m.reactError config answers updateMsgErr session subcode)
  | _ => .ok m

def reactOpenConfirm : Event → Except Fault StateMachine
  | .stop subcode => .ok (m.transit config answers .idle (onIdleCease config answers · subcode))
  | .openTimerExpired | .bgpOpen _ _ _ | .bgpUpdate _ _ =>
    .ok (m.transit config answers .idle (onIdle config answers · fsmErr))
  | .holdTimerExpired => .ok (m.transit config answers .idle (onIdle config answers · holdTimerExp))
  | .bgpKeepalive _ => .ok (m.transit config answers .established id)
  | .tcpPassiveOpen session =>
    .ok ((m.emit (.sendNotification session cease connectionRejected)).deleteSession (some session))
  | .tcpClose _ => .ok (m.transit config answers .idle (onIdle config answers · 0))
  | .bgpNotification session _ _ =>
    match m.processNotificationEvent session with
    | none => .ok m
    | some m => .ok (m.transit config answers .idle (onIdle config answers · 0))
  | .bgpHeaderError session subcode => .ok (m.reactError config answers msgHdrErr session subcode)
  | .bgpOpenError session subcode => .ok (m.reactError config answers openMsgErr session subcode)
  | .bgpUpdateError session subcode => .ok (m.reactError config answers updateMsgErr session subcode)
  | _ => .ok m

def reactEstablished : Event → Except Fault StateMachine
  | .stop subcode => .ok (m.transit config answers .idle (onIdleCease config answers · subcode))
  | .openTimerExpired | .bgpOpen _ _ _ | .bgpOpenError _ _ =>
    .ok (m.transit config answers .idle (onIdle config answers · fsmErr))
  | .holdTimerExpired => .ok (m.transit config answers .idle (onIdle config answers · holdTimerExp))
  | .tcpPassiveOpen session =>
    let m := m.deleteSession (some session)
    -- `Shutdown` queues an `EvStop`
    .ok (if answers.isCloseGraceful || answers.isRouterTypeBGPaaS then m.enqueue (.stop unknown) else m)
  | .tcpClose _ => .ok (m.transit config answers .idle (onIdle config answers · 0))
  | .bgpNotification _ _ _ => .ok (m.transit config answers .idle (onIdleNotification config answers))
  | .bgpKeepalive _ => .ok m.startHoldTimer
  | .bgpUpdate session update => .ok (m.startHoldTimer.emit (.processUpdate session update))
  | .bgpHeaderError session subcode => .ok (m.reactError config answers msgHdrErr session subcode)
  | .bgpUpdateError session subcode => .ok (m.reactError config answers updateMsgErr session subcode)
  | _ => .ok m

/-- `process_event` in the current state. -/
def react (event : Event) : Except Fault StateMachine :=
  match m.state with
  | .idle => m.reactIdle config answers event
  | .active => m.reactActive config answers event
  | .connect => m.reactConnect config answers event
  | .openSent => m.reactOpenSent config answers event
  | .openConfirm => m.reactOpenConfirm config answers event
  | .established => m.reactEstablished config answers event

/-- `DequeueEvent`: a deferred deletion is carried out, any other event is
processed when it passes its filter. -/
def dequeueEvent (event : Event) : Except Fault StateMachine :=
  match event with
  | .tcpDeleteSession session =>
    .ok { m.emit (.deleteSession session) with deleted := m.deleted ++ [session] }
  | event => if m.validate event then m.react config answers event else .ok m

/-- The state machine as built: Idle has been entered. -/
def init : StateMachine :=
  let blank : StateMachine :=
    { state := .idle, activeSession := none, passiveSession := none, peerSession := none,
      connectTimer := .init, openTimer := .init, holdTimer := .init, idleHoldTimer := .init,
      holdTime := config.configuredHoldTime, idleHoldTime := 0, workQueue := [], effects := [],
      nextSession := 0, observed := [], established := [], closed := [], deleted := [] }
  blank.enterIdle

end StateMachine

/-- What happens around the state machine: the peer starts it, stops it or
brings it administratively up, a running timer fires, the TCP layer accepts a
passive session or reports on a session it observes, a session not yet deleted
delivers a message it received, and the queue's task handles the first event. -/
inductive FsmAction
  | start
  | stop (subcode : Nat)
  | adminUp (closeInProgress : Bool)
  | fireIdleHoldTimer
  | fireConnectTimer
  | fireOpenTimer
  | fireHoldTimer
  | passiveOpen
  | connectComplete (session : Session)
  | connectFail (session : Session)
  | tcpClose (session : Session)
  | receive (session : Session) (message : Message)
  | process (answers : Answers)

namespace StateMachine

variable (config : Config) (m : StateMachine)

def messageEvent (session : Session) : Message → Event
  | .open identifier holdTime => .bgpOpen session identifier holdTime
  | .openError subcode => .bgpOpenError session subcode
  | .keepalive => .bgpKeepalive session
  | .notification error subcode => .bgpNotification session error subcode
  | .update update => .bgpUpdate session update
  | .updateError subcode => .bgpUpdateError session subcode
  | .headerError subcode => .bgpHeaderError session subcode

/-- A TCP event reaches the state machine only through the session's observer. -/
def observe (session : Session) (event : Event) : StateMachine :=
  if session ∈ m.observed then m.enqueue event else m

def apply : FsmAction → Except Fault StateMachine
  | .start => .ok (m.enqueue .start)
  | .stop subcode => .ok (m.enqueue (.stop subcode))
  | .adminUp closeInProgress =>
    let m := { m with idleHoldTime := 0 }
    .ok (if closeInProgress then m else m.enqueue .start)
  | .fireIdleHoldTimer =>
    .ok (if m.idleHoldTimer = .running then { m with idleHoldTimer := .init }.enqueue .idleHoldTimerExpired else m)
  | .fireConnectTimer =>
    .ok (if m.connectTimer = .running then { m with connectTimer := .init }.enqueue .connectTimerExpired else m)
  | .fireOpenTimer =>
    .ok (if m.openTimer = .running then { m with openTimer := .init }.enqueue .openTimerExpired else m)
  | .fireHoldTimer =>
    .ok (if m.holdTimer = .running then { m with holdTimer := .init }.enqueue .holdTimerExpired else m)
  | .passiveOpen =>
    let session := m.nextSession
    .ok { m.enqueue (.tcpPassiveOpen session) with
          nextSession := m.nextSession + 1, observed := m.observed ++ [session],
          established := m.established ++ [session] }
  | .connectComplete session =>
    if session ∈ m.closed then .ok m
    else .ok ({ m with established := m.established ++ [session] }.observe session (.tcpConnected session))
  | .connectFail session => .ok (m.observe session (.tcpConnectFail session))
  | .tcpClose session =>
    let closing := { m with closed := m.closed ++ [session] }
    if session ∈ m.established then
      .ok ({ closing with established := m.established.erase session }.observe session (.tcpClose session))
    else .ok closing
  | .receive session message =>
    if session < m.nextSession && session ∉ m.deleted then .ok (m.enqueue (messageEvent session message))
    else .ok m
  | .process answers =>
    match m.workQueue with
    | [] => .ok m
    | event :: rest => { m with workQueue := rest }.dequeueEvent config answers event

inductive Reachable : StateMachine → Prop
  | init : Reachable (init config)
  | step {m m' : StateMachine} (action : FsmAction) :
    Reachable m → m.apply config action = .ok m' → Reachable m'

def runActions : StateMachine → List FsmAction → Except Fault StateMachine
  | m, [] => .ok m
  | m, action :: rest => m.apply config action >>= fun next => runActions next rest

theorem Reachable.runActions {actions : List FsmAction} :
    ∀ {m next : StateMachine}, m.Reachable config → m.runActions config actions = .ok next →
      next.Reachable config := by
  induction actions with
  | nil =>
    intro m next reachable ran
    cases ran
    exact reachable
  | cons action rest ih =>
    intro m next reachable ran
    simp only [StateMachine.runActions] at ran
    cases applied : m.apply config action with
    | error fault =>
      rw [applied] at ran
      cases ran
    | ok middle =>
      rw [applied] at ran
      exact ih (.step action reachable applied) ran

theorem Reachable.of_runActions {start : StateMachine} {actions : List FsmAction} {q : StateMachine → Bool}
    (reachable : start.Reachable config) (ran : ((start.runActions config actions).toOption.map q) = some true) :
    ∃ m, m.Reachable config ∧ q m = true := by
  cases final : start.runActions config actions with
  | error fault => simp [final, Except.toOption] at ran
  | ok m =>
    simp only [final, Except.toOption, Option.map_some, Option.some.injEq] at ran
    exact ⟨m, reachable.runActions config final, ran⟩

end StateMachine

end Contrail.Bgp
