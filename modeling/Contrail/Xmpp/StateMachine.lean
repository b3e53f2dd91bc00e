import Mathlib

/-! The XMPP state machine of one connection, `xmpp/xmpp_state_machine.cc`:
its six boost.statechart states with their constructors, destructors and
custom reactions, the session bookkeeping of `set_session`, `DeleteSession`,
`ResetSession` and `AssignSession`, and the FIFO work queue that
`DequeueEvent` drains. A session is known by a number. Two facts of the TCP
layer are kept: which sessions have the state machine as observer (only those
report connects and closes) and which sessions are attached to the connection
(only those deliver received messages, and `ProcessMessage` drops a message of
a session that has let go). What the peer, the connection or the other
connections of the server answer while an event is handled is arbitrary; what
the state machine sends and hands to the channel is kept as a list of effects. -/
namespace Contrail.Xmpp

namespace Xmsm

abbrev Session := Nat

/-- `xmsm::XmState`. -/
inductive XmState
  | idle
  | active
  | connect
  | openSent
  | openConfirm
  | established
  deriving DecidableEq, Repr

/-- `xmsm::XmOpenConfirmState`. -/
inductive XmOpenConfirmState
  | openConfirmInit
  | openConfirmFeatureNegotiation
  | openConfirmFeatureSuccess
  deriving DecidableEq, Repr

inductive TimerState
  | init
  | running
  | cancelled
  deriving DecidableEq, Repr

/-- The TLS type of a `FEATURE_TLS` stream message. -/
inductive TlsType
  | tlsFeatureRequest
  | tlsStart
  | tlsProceed
  | other
  deriving DecidableEq, Repr

/-- The stream type of a `STREAM_HEADER` message. -/
inductive StreamType
  | initStreamHeader
  | initStreamHeaderResp
  | featureTls (strmtlstype : TlsType)
  | other
  deriving DecidableEq, Repr

/-- A received `XmppStanza::XmppMessage`, by its type. -/
inductive Message
  | streamHeader (strmtype : StreamType)
  | whitespaceMessageStanza
  | iqStanza
  | messageStanza
  | other
  deriving DecidableEq, Repr

inductive Event
  | start
  | stop
  | adminDown
  | connectTimerExpired
  | openTimerExpired
  | holdTimerExpired
  | tcpConnected (session : Session)
  | tcpConnectFail (session : Session)
  | tcpPassiveOpen (session : Session)
  | tcpClose (session : Session)
  | tcpDeleteSession (session : Session)
  | xmppMessage (session : Session) (msg : Message)
  | xmppOpen (session : Session)
  | streamFeatureRequest (session : Session)
  | startTls (session : Session)
  | tlsProceed (session : Session)
  | tlsHandShakeSuccess (session : Session)
  | tlsHandShakeFailure (session : Session)
  | xmppKeepalive (session : Session)
  | xmppMessageStanza (session : Session)
  | xmppIqStanza (session : Session)
  deriving DecidableEq, Repr

/-- What the state machine makes the connection, its sessions and its channel do. -/
inductive Effect
  | sendOpen (session : Session)
  | sendOpenConfirm (session : Session)
  | sendClose (session : Session)
  | sendStreamFeatureRequest (session : Session)
  | sendStartTls (session : Session)
  | sendProceedTls (session : Session)
  | sendKeepAlive (session : Session)
  | connect (session : Session)
  | asyncReadStart (session : Session)
  | triggerSslHandShake (session : Session)
  | handleStateEvent (state : XmState)
  | processXmppChatMessage (session : Session)
  | processXmppIqMessage (session : Session)
  | managedDelete
  | deleteSession (session : Session)
  deriving DecidableEq, Repr

/-- The connection's side: a client (`IsActiveChannel`) or a server, with or
without TLS authentication. -/
structure Config where
  isActiveChannel : Bool
  isAuthEnabled : Bool
  deriving DecidableEq, Repr

/-- What the environment answers while one event is handled: whether the
connection is being deleted, whether the server keeps connections for
graceful restart, whether `ProcessStreamHeaderMessage` lets a server's open go
on (no other connection holds its name), and whether the open and the open
confirm fit their buffer with the names the connection carries. -/
structure Answers where
  isDeleted : Bool
  isPeerCloseGraceful : Bool
  acceptOpen : Bool
  openFits : Bool
  openRespFits : Bool
  deriving DecidableEq, Repr

/-- `XmppStateMachine::kMaxAttempts`. -/
def kMaxAttempts : Nat := 4

end Xmsm

open Xmsm

/-- The state machine of one connection with the session its connection
holds and the sessions as the TCP layer sees them. -/
structure XmppStateMachine where
  state : XmState
  session : Option Session
  connectionSession : Option Session
  attached : Finset Session
  observed : Finset Session
  workQueue : List Event
  connectTimer : TimerState
  openTimer : TimerState
  holdTimer : TimerState
  keepAliveTimer : Bool
  openConfirmState : XmOpenConfirmState
  attempts : Nat
  keepaliveCount : Nat
  nextSession : Session
  effects : List Effect
  deriving DecidableEq

namespace XmppStateMachine

section Helpers

variable (m : XmppStateMachine)

@[simps]
def enqueue (event : Event) : XmppStateMachine := { m with workQueue := m.workQueue ++ [event] }

@[simps]
def emit (effect : Effect) : XmppStateMachine := { m with effects := m.effects ++ [effect] }

/-- The state machine becomes the observer of a session. -/
@[simps]
def observe (session : Session) : XmppStateMachine := { m with observed := insert session m.observed }

/-- `XmppConnection::clear_session`: the connection's session lets go of it. -/
def clearConnectionSession : XmppStateMachine :=
  match m.connectionSession with
  | none => m
  | some session => { m with attached := m.attached.erase session, connectionSession := none }

/-- `DeleteSession`: the observer goes, the session lets go of the connection
and closes, and its deletion is queued behind the events already queued. -/
@[simps!]
def deleteSession (session : Session) : XmppStateMachine :=
  { m with observed := m.observed.erase session, attached := m.attached.erase session }.enqueue
    (.tcpDeleteSession session)

@[simp] theorem deleteSession_observed (session : Session) :
    (m.deleteSession session).observed = m.observed.erase session := rfl

@[simp] theorem deleteSession_attached (session : Session) :
    (m.deleteSession session).attached = m.attached.erase session := rfl

/-- `set_session`: a session the state machine held is deleted. -/
def setSession (session : Option Session) : XmppStateMachine :=
  match m.session with
  | none => { m with session }
  | some old => { m.clearConnectionSession.deleteSession old with session }

/-- `AssignSession`, called where the session is the event's. -/
@[simps]
def assignSession (session : Session) : XmppStateMachine := { m with connectionSession := some session }

@[simps]
def startConnectTimer : XmppStateMachine := { m with connectTimer := .running }

@[simps]
def cancelConnectTimer : XmppStateMachine := { m with connectTimer := .cancelled }

@[simps]
def startOpenTimer : XmppStateMachine := { m with openTimer := .running }

@[simps]
def cancelOpenTimer : XmppStateMachine := { m with openTimer := .cancelled }

/-- `StartHoldTimer`: the hold time is the configured one, never zero. -/
@[simps]
def startHoldTimer : XmppStateMachine := { m with holdTimer := .running }

@[simps]
def cancelHoldTimer : XmppStateMachine := { m with holdTimer := .cancelled }

/-- `XmppConnection::StartKeepAliveTimer` does nothing without a session. -/
def startKeepAliveTimer : XmppStateMachine :=
  if m.connectionSession.isSome then { m with keepAliveTimer := true } else m

@[simps]
def stopKeepAliveTimer : XmppStateMachine := { m with keepAliveTimer := false }

/-- A send of the connection on its own session: nothing without one. -/
def sendOnConnection (effect : Session → Effect) : XmppStateMachine :=
  match m.connectionSession with
  | none => m
  | some session => m.emit (effect session)

/-- `XmppConnection::SendClose`. -/
def sendClose : XmppStateMachine := m.sendOnConnection .sendClose

/-- `XmppConnection::SendKeepAlive`. -/
def sendKeepAlive : XmppStateMachine := m.sendOnConnection .sendKeepAlive

/-- A send of the connection on its own session that reports failure: none
when the connection has no session or the message does not fit its buffer. -/
def trySendOnConnection (fits : Bool) (effect : Session → Effect) : Option XmppStateMachine :=
  match m.connectionSession with
  | none => none
  | some session => if fits then some (m.emit (effect session)) else none

/-- `XmppConnection::SendOpenConfirm`. -/
def sendOpenConfirm (answers : Answers) : Option XmppStateMachine :=
  m.trySendOnConnection answers.openRespFits .sendOpenConfirm

/-- `XmppConnection::SendStreamFeatureRequest`: a message of fixed size. -/
def sendStreamFeatureRequest : Option XmppStateMachine :=
  m.trySendOnConnection true .sendStreamFeatureRequest

/-- `XmppConnection::SendStartTls`. -/
def sendStartTls : Option XmppStateMachine := m.trySendOnConnection true .sendStartTls

/-- `XmppConnection::SendProceedTls`. -/
def sendProceedTls : Option XmppStateMachine := m.trySendOnConnection true .sendProceedTls

/-- `XmppConnection::SendOpen` sends on the session it is given. -/
def sendOpen (answers : Answers) : Option Session → Option XmppStateMachine
  | none => none
  | some session => if answers.openFits then some (m.emit (.sendOpen session)) else none

end Helpers

variable (config : Config) (answers : Answers) (m : XmppStateMachine)

/-- `ResetSession`: a server's connection is deleted unless it is kept for a
graceful restart. -/
def resetSession : XmppStateMachine :=
  let m := ((m.setSession none).cancelHoldTimer.stopKeepAliveTimer).emit (.handleStateEvent .idle)
  if config.isActiveChannel || answers.isPeerCloseGraceful then m else m.emit .managedDelete

/-- `Connect::StartSession`: a new session of the connection, observed by
the state machine, connects. -/
def startSession : XmppStateMachine :=
  let session := m.nextSession
  let m := { m with nextSession := session + 1, attached := insert session m.attached }.setSession (some session)
  (m.observe session).emit (.connect session)

/-- OpenConfirm's `CloseSession` also stops the keepalives. -/
def closeSession : XmppStateMachine := m.stopKeepAliveTimer.setSession none

/-- The constructor of a state. -/
def enter : XmState → XmppStateMachine
  | .idle => { m with state := .idle }
  | .active =>
    let m := { m with keepaliveCount := 0, state := .active }
    if config.isActiveChannel then
      let m := if m.attempts ≥ kMaxAttempts then m.emit (.handleStateEvent .active) else m
      m.startConnectTimer
    else m
  | .connect => { m.startSession with attempts := m.attempts + 1, state := .connect }.startConnectTimer
  | .openSent => { m with state := .openSent }
  | .openConfirm =>
    let m := m.startHoldTimer
    let m :=
      if !config.isActiveChannel && config.isAuthEnabled then
        match m.sendStreamFeatureRequest with
        | some m => m
        -- the constructor cannot leave the state it builds
        | none => m.sendClose.resetSession config answers
      else m
    { m with state := .openConfirm, openConfirmState := .openConfirmInit }
  | .established => { m.startHoldTimer with state := .established }.emit (.handleStateEvent .established)

/-- The destructor of a state. -/
def exit : XmState → XmppStateMachine
  | .active => m.cancelConnectTimer.cancelOpenTimer
  | .connect => m.cancelConnectTimer
  | .openSent | .established => m.cancelHoldTimer
  | .idle | .openConfirm => m

/-- `transit`: the reaction has run; the current state is left and the target entered. -/
def transit (target : XmState) : XmppStateMachine := (m.exit m.state).enter config answers target

/-- The target of a close on a client or a server. -/
def closedState : XmState := if config.isActiveChannel then .active else .idle

def reactIdle : Event → XmppStateMachine
  | .start => m.transit config answers .active
  | _ => m

def reactActive : Event → XmppStateMachine
  | .adminDown => m.transit config answers .idle
  | .connectTimerExpired =>
    if m.connectTimer = .cancelled then m else m.transit config answers .connect
  | .openTimerExpired =>
    if m.openTimer = .cancelled then m
    else (m.sendClose.resetSession config answers).transit config answers .idle
  | .tcpPassiveOpen session =>
    (((m.emit (.asyncReadStart session)).setSession (some session)).observe session).startOpenTimer
  | .tcpClose session =>
    if m.session ≠ some session then m
    else (m.cancelOpenTimer.resetSession config answers).transit config answers .idle
  | .xmppOpen session =>
    if m.session ≠ some session then m
    else
      let m := m.assignSession session
      if answers.isDeleted then m.resetSession config answers
      else
        let m := m.cancelOpenTimer
        match m.sendOpenConfirm answers with
        | none => (m.sendClose.resetSession config answers).transit config answers .idle
        | some m =>
          if config.isAuthEnabled then m.transit config answers .openConfirm
          else m.startKeepAliveTimer.transit config answers .established
  | .stop =>
    let m := m.cancelOpenTimer.cancelConnectTimer.stopKeepAliveTimer
    if config.isActiveChannel then (m.setSession none).transit config answers .active
    else (m.resetSession config answers).transit config answers .idle
  | _ => m

def reactConnect : Event → XmppStateMachine
  | .adminDown => (m.setSession none).transit config answers .idle
  | .connectTimerExpired =>
    if m.connectTimer = .cancelled then m else (m.setSession none).transit config answers .active
  | .tcpConnected session =>
    if m.session ≠ some session then m
    else
      let m := m.cancelConnectTimer
      match m.sendOpen answers m.session with
      | some m => m.startHoldTimer.transit config answers .openSent
      | none => (m.setSession none).transit config answers .active
  | .tcpConnectFail session =>
    if m.session ≠ some session then m
    else (m.setSession none).cancelConnectTimer.transit config answers .active
  | .tcpClose session =>
    if m.session ≠ some session then m
    else (m.setSession none).cancelConnectTimer.transit config answers .active
  | .stop => (m.setSession none).cancelConnectTimer.transit config answers .active
  | _ => m

def reactOpenSent : Event → XmppStateMachine
  | .tcpClose session =>
    if m.session ≠ some session then m
    else (m.cancelHoldTimer.setSession none).transit config answers .active
  | .xmppOpen session =>
    if m.session = some session then
      let m := m.assignSession session
      if config.isAuthEnabled then m.transit config answers .openConfirm
      else m.sendKeepAlive.startKeepAliveTimer.startHoldTimer.transit config answers .established
    else m
  | .holdTimerExpired =>
    if m.holdTimer = .cancelled then m else (m.setSession none).transit config answers .active
  | .stop => (m.cancelHoldTimer.setSession none).transit config answers .active
  | .adminDown => (m.setSession none).transit config answers .idle
  | _ => m

def reactOpenConfirm : Event → XmppStateMachine
  | .tcpClose _ =>
    -- the event's session is not compared with the state machine's
    let m := m.cancelHoldTimer
    if config.isActiveChannel then m.closeSession.transit config answers .active
    else (m.resetSession config answers).transit config answers .idle
  | .holdTimerExpired =>
    if m.holdTimer = .cancelled then m
    else if config.isActiveChannel then m.closeSession.transit config answers .active
    else (m.resetSession config answers).transit config answers .idle
  | .streamFeatureRequest _ =>
    match m.sendStartTls with
    | none => (m.sendClose.resetSession config answers).transit config answers .active
    | some m => { m.startHoldTimer with openConfirmState := .openConfirmFeatureNegotiation }
  | .tlsProceed _ =>
    let m := m.startHoldTimer
    match m.session with
    | some session => m.emit (.triggerSslHandShake session)
    | none => m
  | .startTls session =>
    if m.session ≠ some session then m
    else
      match m.sendProceedTls with
      | none => (m.sendClose.resetSession config answers).transit config answers .idle
      | some m => m.startHoldTimer.emit (.triggerSslHandShake session)
  | .stop =>
    let m := m.cancelHoldTimer
    if config.isActiveChannel then m.closeSession.transit config answers .active
    else (m.resetSession config answers).transit config answers .idle
  | .tlsHandShakeSuccess session =>
    if m.session ≠ some session then m
    else
      let m := { m.emit (.asyncReadStart session) with openConfirmState := .openConfirmFeatureSuccess }
      if config.isActiveChannel then
        match m.sendOpen answers m.session with
        | none => (m.sendClose.resetSession config answers).transit config answers .active
        | some m => m.startHoldTimer
      else m.startHoldTimer
  | .tlsHandShakeFailure session =>
    if m.session ≠ some session then m
    else (m.resetSession config answers).transit config answers (closedState config)
  | .xmppOpen session =>
    if m.session ≠ some session then m
    else if config.isActiveChannel then
      m.sendKeepAlive.startKeepAliveTimer.startHoldTimer.transit config answers .established
    else
      match m.sendOpenConfirm answers with
      | none => (m.sendClose.resetSession config answers).transit config answers .idle
      | some m => m.startKeepAliveTimer.startHoldTimer.transit config answers .established
  | .adminDown => m.closeSession.transit config answers .idle
  | _ => m

def reactEstablished : Event → XmppStateMachine
  | .tcpClose session =>
    if m.session ≠ some session then m
    else (m.resetSession config answers).transit config answers (closedState config)
  | .xmppKeepalive session =>
    if m.session ≠ some session then m
    else
      let m := { m with keepaliveCount := m.keepaliveCount + 1 }
      let m := if m.keepaliveCount = 3 then { m with attempts := 0 } else m
      m.startHoldTimer
  | .xmppMessageStanza session =>
    if m.session ≠ some session then m else m.startHoldTimer.emit (.processXmppChatMessage session)
  | .xmppIqStanza session =>
    if m.session ≠ some session then m else m.startHoldTimer.emit (.processXmppIqMessage session)
  | .holdTimerExpired =>
    if m.holdTimer = .cancelled then m
    else (m.resetSession config answers).transit config answers (closedState config)
  | .stop => (m.resetSession config answers).transit config answers (closedState config)
  | .adminDown => (m.resetSession config answers).transit config answers .idle
  | _ => m

/-- `process_event` in the current state; an event a state has no reaction
for is discarded. -/
def react (event : Event) : XmppStateMachine :=
  match m.state with
  | .idle => m.reactIdle config answers event
  | .active => m.reactActive config answers event
  | .connect => m.reactConnect config answers event
  | .openSent => m.reactOpenSent config answers event
  | .openConfirm => m.reactOpenConfirm config answers event
  | .established => m.reactEstablished config answers event

/-- `ProcessEvent`: a deferred deletion is carried out at once. -/
def processEvent : Event → XmppStateMachine
  | .tcpDeleteSession session => m.emit (.deleteSession session)
  | event => m.react config answers event

/-- `ProcessStreamHeaderMessage`: a server drops a new session whose name
another connection holds. -/
def processStreamHeaderMessage (session : Session) : XmppStateMachine :=
  if config.isActiveChannel || answers.acceptOpen then m.processEvent config answers (.xmppOpen session)
  else m.processEvent config answers (.tcpClose session)

/-- `ProcessMessage`: a message of a session that has let go of the
connection is dropped. -/
def processMessage (session : Session) (msg : Message) : XmppStateMachine :=
  if session ∉ m.attached then m
  else
    match msg with
    | .streamHeader (.featureTls .tlsFeatureRequest) => m.processEvent config answers (.streamFeatureRequest session)
    | .streamHeader (.featureTls .tlsStart) => m.processEvent config answers (.startTls session)
    | .streamHeader (.featureTls .tlsProceed) => m.processEvent config answers (.tlsProceed session)
    | .streamHeader .initStreamHeader | .streamHeader .initStreamHeaderResp =>
      m.processStreamHeaderMessage config answers session
    | .whitespaceMessageStanza => m.processEvent config answers (.xmppKeepalive session)
    | .iqStanza => m.processEvent config answers (.xmppIqStanza session)
    | .messageStanza => m.processEvent config answers (.xmppMessageStanza session)
    | _ => m

/-- `DequeueEvent`. -/
def dequeueEvent : Event → XmppStateMachine
  | .xmppMessage session msg => m.processMessage config answers session msg
  | event => m.processEvent config answers event

/-- The state machine as constructed, in Idle. -/
def init : XmppStateMachine :=
  { state := .idle, session := none, connectionSession := none, attached := ∅, observed := ∅,
    workQueue := [], connectTimer := .init, openTimer := .init, holdTimer := .init,
    keepAliveTimer := false, openConfirmState := .openConfirmInit, attempts := 0, keepaliveCount := 0,
    nextSession := 0, effects := [] }

end XmppStateMachine

/-- What happens around the state machine: `Initialize`, `Clear` and
`SetAdminState` queue their events, a running timer fires, a server accepts
the one session its connection is made for, the TCP layer reports on a
session the state machine observes, an attached session delivers a message, a
TLS handshake of a session completes, and the queue's task handles the first
event. -/
inductive XmppAction
  | start
  | stop
  | adminDown
  | fireConnectTimer
  | fireOpenTimer
  | fireHoldTimer
  | accept
  | connectComplete (session : Session)
  | connectFail (session : Session)
  | tcpClose (session : Session)
  | receive (session : Session) (msg : Message)
  | handShake (session : Session) (success : Bool)
  | process (answers : Answers)

namespace XmppStateMachine

variable (config : Config) (m : XmppStateMachine)

/-- A TCP event reaches the state machine only through the session's observer. -/
def onSessionEvent (session : Session) (event : Event) : XmppStateMachine :=
  if session ∈ m.observed then m.enqueue event else m

def apply : XmppAction → XmppStateMachine
  | .start => m.enqueue .start
  | .stop => m.enqueue .stop
  | .adminDown => m.enqueue .adminDown
  | .fireConnectTimer =>
    if m.connectTimer = .running then { m with connectTimer := .init }.enqueue .connectTimerExpired else m
  | .fireOpenTimer =>
    if m.openTimer = .running then { m with openTimer := .init }.enqueue .openTimerExpired else m
  | .fireHoldTimer =>
    if m.holdTimer = .running then { m with holdTimer := .init }.enqueue .holdTimerExpired else m
  | .accept =>
    -- `XmppServer::AcceptSession` makes a connection and a state machine for each session
    if !config.isActiveChannel && m.nextSession = 0 then
      { m with nextSession := 1, observed := {0}, attached := {0} }.enqueue (.tcpPassiveOpen 0)
    else m
  | .connectComplete session => m.onSessionEvent session (.tcpConnected session)
  | .connectFail session => m.onSessionEvent session (.tcpConnectFail session)
  | .tcpClose session => m.onSessionEvent session (.tcpClose session)
  | .receive session msg =>
    if session ∈ m.attached then m.enqueue (.xmppMessage session msg) else m
  | .handShake session success =>
    if session < m.nextSession then
      m.enqueue (if success then .tlsHandShakeSuccess session else .tlsHandShakeFailure session)
    else m
  | .process answers =>
    match m.workQueue with
    | [] => m
    | event :: rest => { m with workQueue := rest }.dequeueEvent config answers event

inductive Reachable : XmppStateMachine → Prop
  | init : Reachable init
  | step {m : XmppStateMachine} (action : XmppAction) : Reachable m → Reachable (m.apply config action)

def runActions : XmppStateMachine → List XmppAction → XmppStateMachine
  | m, [] => m
  | m, action :: rest => runActions (m.apply config action) rest

theorem Reachable.runActions {actions : List XmppAction} :
    ∀ {m : XmppStateMachine}, m.Reachable config → (m.runActions config actions).Reachable config := by
  induction actions with
  | nil => intro m reachable; exact reachable
  | cons action rest ih => intro m reachable; exact ih (.step action reachable)

end XmppStateMachine

end Contrail.Xmpp
