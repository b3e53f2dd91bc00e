import Contrail.Xmpp.StateMachine

/-! Stale sessions in the XMPP state machine. Every session the state machine
ever held may still have TCP reports and received messages in the queue. The
reactions of OpenConfirm to a close, a stream feature request and a TLS
proceed do not compare the event's session with `session_`; the state machine
still never reacts to a stale event, because the queue is FIFO: the sessions
are numbered as they are made, the state machine observes and the connection
attaches only the newest, so the queued reports and messages are sorted by
session, and a state that has opened a stream on its session was entered by
an event of that session at the head of the queue, behind which only events
of the same session can stand. -/
namespace Contrail.Xmpp

open Xmsm

namespace Xmsm

/-- The session of a TCP report or of a received message, raw or dispatched. -/
def Event.sessionOf : Event → Option Session
  | .tcpConnected session | .tcpConnectFail session | .tcpClose session | .xmppMessage session _
  | .xmppOpen session | .streamFeatureRequest session | .startTls session | .tlsProceed session
  | .xmppKeepalive session | .xmppMessageStanza session | .xmppIqStanza session => some session
  | _ => none

/-- The states whose stream is open on the state machine's session. -/
def XmState.Opened (state : XmState) : Prop :=
  state = .openSent ∨ state = .openConfirm ∨ state = .established

/-- The states entered once the peer's open was taken. -/
def XmState.Assigned (state : XmState) : Prop := state = .openConfirm ∨ state = .established

end Xmsm

namespace XmppStateMachine

/-- The sessions of the queued reports and messages, in queue order. -/
def carried (m : XmppStateMachine) : List Session := m.workQueue.filterMap Event.sessionOf

/-- What the stale-session argument looks at. -/
structure Books where
  session : Option Session
  connectionSession : Option Session
  attached : Finset Session
  observed : Finset Session
  nextSession : Session
  connectTimer : TimerState
  workQueue : List Event

def books (m : XmppStateMachine) : Books :=
  ⟨m.session, m.connectionSession, m.attached, m.observed, m.nextSession, m.connectTimer, m.workQueue⟩

section Books

variable (m : XmppStateMachine)

@[simp] theorem books_emit (effect : Effect) : books (m.emit effect) = books m := rfl
@[simp] theorem books_startOpenTimer : books m.startOpenTimer = books m := rfl
@[simp] theorem books_cancelOpenTimer : books m.cancelOpenTimer = books m := rfl
@[simp] theorem books_startHoldTimer : books m.startHoldTimer = books m := rfl
@[simp] theorem books_cancelHoldTimer : books m.cancelHoldTimer = books m := rfl
@[simp] theorem books_stopKeepAliveTimer : books m.stopKeepAliveTimer = books m := rfl

@[simp] theorem books_startKeepAliveTimer : books m.startKeepAliveTimer = books m := by
  unfold startKeepAliveTimer
  split <;> rfl

theorem books_sendOnConnection (effect : Session → Effect) : books (m.sendOnConnection effect) = books m := by
  unfold sendOnConnection
  split <;> rfl

@[simp] theorem books_sendClose : books m.sendClose = books m := books_sendOnConnection m _
@[simp] theorem books_sendKeepAlive : books m.sendKeepAlive = books m := books_sendOnConnection m _

/-- A send that reports success has only emitted. -/
theorem eq_emit_of_trySendOnConnection {fits : Bool} {effect : Session → Effect} {sent : XmppStateMachine}
    (h : m.trySendOnConnection fits effect = some sent) : ∃ session, sent = m.emit (effect session) := by
  unfold trySendOnConnection at h
  split at h
  · cases h
  · split at h
    · cases h
      exact ⟨_, rfl⟩
    · cases h

theorem eq_emit_of_sendOpen {answers : Answers} {session : Option Session} {sent : XmppStateMachine}
    (h : m.sendOpen answers session = some sent) : ∃ session, sent = m.emit (.sendOpen session) := by
  cases session with
  | none => cases h
  | some session =>
    simp only [sendOpen] at h
    split at h
    · cases h
      exact ⟨_, rfl⟩
    · cases h

theorem books_of_trySendOnConnection {fits : Bool} {effect : Session → Effect} {sent : XmppStateMachine}
    (h : m.trySendOnConnection fits effect = some sent) : books sent = books m := by
  obtain ⟨_, rfl⟩ := eq_emit_of_trySendOnConnection m h
  rfl

theorem books_of_sendOpen {answers : Answers} {session : Option Session} {sent : XmppStateMachine}
    (h : m.sendOpen answers session = some sent) : books sent = books m := by
  obtain ⟨_, rfl⟩ := eq_emit_of_sendOpen m h
  rfl

/-- A send on the connection's session goes out once the connection holds one. -/
theorem trySendOnConnection_of_connectionSession {effect : Session → Effect} {session : Session}
    (h : m.connectionSession = some session) :
    m.trySendOnConnection true effect = some (m.emit (effect session)) := by
  simp [trySendOnConnection, h]

end Books

section SetSession

variable (m : XmppStateMachine)

theorem setSession_of_none {session : Option Session} (h : m.session = none) :
    m.setSession session = { m with session } := by
  simp [setSession, h]

theorem setSession_of_some {session : Option Session} {old : Session} (h : m.session = some old) :
    m.setSession session = { m.clearConnectionSession.deleteSession old with session } := by
  simp [setSession, h]

/-- `clear_session` touches the connection's session and its attachment only. -/
theorem clearConnectionSession_eq :
    ∃ attached ⊆ m.attached, m.clearConnectionSession = { m with attached, connectionSession := none } := by
  unfold clearConnectionSession
  split
  · rename_i none_held
    exact ⟨m.attached, subset_refl _, by rw [← none_held]⟩
  · exact ⟨m.attached.erase _, Finset.erase_subset _ _, rfl⟩

theorem carried_append_delete (session : Session) :
    (m.enqueue (.tcpDeleteSession session)).carried = m.carried := by
  simp [carried, Event.sessionOf]

theorem setSession_some_eq (session : Session) :
    m.setSession (some session) = { m.setSession none with session := some session } := by
  cases held : m.session with
  | none => simp [setSession_of_none m held]
  | some old => simp [setSession_of_some m held]

@[simp] theorem setSession_state (session : Option Session) : (m.setSession session).state = m.state := by
  cases held : m.session with
  | none => rw [setSession_of_none m held]
  | some old =>
    obtain ⟨attached, -, cleared⟩ := clearConnectionSession_eq m
    rw [setSession_of_some m held, cleared]
    rfl

theorem setSession_connectTimer (session : Option Session) :
    (m.setSession session).connectTimer = m.connectTimer := by
  cases held : m.session with
  | none => rw [setSession_of_none m held]
  | some old =>
    obtain ⟨attached, -, cleared⟩ := clearConnectionSession_eq m
    rw [setSession_of_some m held, cleared]
    rfl

/-- `set_session` reads only the books. -/
theorem books_setSession {m' : XmppStateMachine} (same : books m = books m') (session : Option Session) :
    books (m.setSession session) = books (m'.setSession session) := by
  simp only [books, Books.mk.injEq] at same
  obtain ⟨held, conn, attached, observed, next, timer, queue⟩ := same
  cases old : m.session with
  | none =>
    rw [setSession_of_none m old, setSession_of_none m' (held ▸ old)]
    simp [books, conn, attached, observed, next, timer, queue]
  | some o =>
    rw [setSession_of_some m old, setSession_of_some m' (held ▸ old)]
    unfold clearConnectionSession
    rw [conn]
    cases m'.connectionSession <;> simp [books, deleteSession, conn, attached, observed, next, timer, queue]

theorem books_resetSession (config : Config) (answers : Answers) :
    books (m.resetSession config answers) = books (m.setSession none) := by
  unfold resetSession
  split <;> rfl

theorem resetSession_connectTimer (config : Config) (answers : Answers) :
    (m.resetSession config answers).connectTimer = m.connectTimer := by
  unfold resetSession
  split <;> simp [setSession_connectTimer]

@[simp] theorem resetSession_state (config : Config) (answers : Answers) :
    (m.resetSession config answers).state = m.state := by
  unfold resetSession
  split <;> simp

theorem books_closeSession : books m.closeSession = books (m.setSession none) :=
  @books_setSession m.stopKeepAliveTimer m rfl none

end SetSession

section Transit

variable (config : Config) (answers : Answers) (x : XmppStateMachine)

@[simp] theorem transit_state (target : XmState) : (x.transit config answers target).state = target := by
  cases target <;> simp only [transit, enter]
  case active => split <;> (try split) <;> rfl
  all_goals rfl

theorem books_exit (state : XmState) :
    books (x.exit state) = { books x with connectTimer := (x.exit state).connectTimer } := by
  cases state <;> rfl

theorem exit_connectionSession (state : XmState) : (x.exit state).connectionSession = x.connectionSession := by
  cases state <;> rfl

theorem exit_quiet (state : XmState) (quiet : x.connectTimer ≠ .running) :
    (x.exit state).connectTimer ≠ .running := by
  cases state <;> simp [exit, quiet]

/-- Entering a state other than Connect keeps the books but the connect
timer, OpenConfirm's constructor once the connection holds a session. -/
theorem books_enter (target : XmState) (ne : target ≠ .connect)
    (held : target = .openConfirm → x.connectionSession.isSome) :
    books (x.enter config answers target) = { books x with connectTimer := (x.enter config answers target).connectTimer } := by
  cases target with
  | connect => exact absurd rfl ne
  | openConfirm =>
    obtain ⟨session, conn⟩ := Option.isSome_iff_exists.mp (held rfl)
    have sent := @trySendOnConnection_of_connectionSession x.startHoldTimer .sendStreamFeatureRequest _ conn
    simp only [enter]
    split <;> simp_all [sendStreamFeatureRequest, books]
  | active =>
    simp only [enter]
    split <;> (try split) <;> rfl
  | idle | openSent | established => rfl

theorem enter_openConfirm_connectTimer :
    (x.enter config answers .openConfirm).connectTimer = x.connectTimer := by
  simp only [enter]
  split
  · split
    · rename_i sent sending
      exact congrArg Books.connectTimer (books_of_trySendOnConnection _ sending)
    · rw [resetSession_connectTimer]
      exact congrArg Books.connectTimer (books_sendClose _)
  · rfl

/-- A server never starts its connect timer outside Connect. -/
theorem enter_quiet (server : config.isActiveChannel = false) (target : XmState) (ne : target ≠ .connect)
    (quiet : x.connectTimer ≠ .running) : (x.enter config answers target).connectTimer ≠ .running := by
  cases target with
  | connect => exact absurd rfl ne
  | openConfirm => rwa [enter_openConfirm_connectTimer]
  | active => simpa [enter, server] using quiet
  | idle | openSent | established => simpa [enter] using quiet

theorem books_transit (target : XmState) (ne : target ≠ .connect)
    (held : target = .openConfirm → x.connectionSession.isSome) :
    books (x.transit config answers target) =
      { books x with connectTimer := (x.transit config answers target).connectTimer } := by
  unfold transit
  rw [books_enter config answers _ target ne (by rwa [exit_connectionSession]), books_exit]

theorem transit_quiet (server : config.isActiveChannel = false) (target : XmState) (ne : target ≠ .connect)
    (quiet : x.connectTimer ≠ .running) : (x.transit config answers target).connectTimer ≠ .running :=
  enter_quiet config answers _ server target ne (exit_quiet x x.state quiet)

end Transit

/-- `x` is `m` with its session let go: no session held, none newly tied to the
state machine, the one it held untied, the same allocator, only deletions
queued, and a server's connect timer still at rest. -/
structure Closes (config : Config) (m x : XmppStateMachine) : Prop where
  session : x.session = none
  observed : x.observed ⊆ m.observed
  attached : x.attached ⊆ m.attached
  released : ∀ old, m.session = some old → old ∉ x.observed ∧ old ∉ x.attached
  nextSession : x.nextSession = m.nextSession
  carried : x.carried = m.carried
  passive : ∀ s, Event.tcpPassiveOpen s ∈ x.workQueue → Event.tcpPassiveOpen s ∈ m.workQueue
  connectTimerExpired : Event.connectTimerExpired ∈ x.workQueue → Event.connectTimerExpired ∈ m.workQueue
  quiet : config.isActiveChannel = false → m.connectTimer ≠ .running → x.connectTimer ≠ .running

namespace Closes

variable {config : Config} {m x y : XmppStateMachine}

theorem setSession_none (config : Config) (m : XmppStateMachine) : Closes config m (m.setSession none) := by
  have quiet : config.isActiveChannel = false → m.connectTimer ≠ .running →
      (m.setSession none).connectTimer ≠ .running := fun _ => by rw [setSession_connectTimer]; exact id
  cases held : m.session with
  | none =>
    rw [setSession_of_none m held] at quiet ⊢
    exact ⟨rfl, subset_refl _, subset_refl _, by simp [held], rfl, rfl, fun _ h => h, id, quiet⟩
  | some old =>
    rw [setSession_of_some m held] at quiet ⊢
    obtain ⟨attached, sub, cleared⟩ := clearConnectionSession_eq m
    rw [cleared] at quiet ⊢
    refine ⟨rfl, Finset.erase_subset _ _, (Finset.erase_subset _ _).trans sub, ?_, rfl, ?_, ?_, ?_, quiet⟩
    · intro o same
      cases held.symm.trans same
      simp
    · exact carried_append_delete { m with attached, connectionSession := none } old
    · intro s queued
      simpa [deleteSession] using queued
    · intro queued
      simpa [deleteSession] using queued

/-- Only the books but the connect timer decide whether a state closes. -/
theorem of_sessions (closes : Closes config m x) (same : books y = { books x with connectTimer := y.connectTimer })
    (quiet : config.isActiveChannel = false → x.connectTimer ≠ .running → y.connectTimer ≠ .running) :
    Closes config m y := by
  simp only [books, Books.mk.injEq] at same
  obtain ⟨session, -, attached, observed, next, -, queue⟩ := same
  exact ⟨session ▸ closes.session, observed ▸ closes.observed, attached ▸ closes.attached,
    observed ▸ attached ▸ closes.released, next ▸ closes.nextSession,
    by rw [← closes.carried]; exact congrArg (List.filterMap Event.sessionOf) queue,
    queue ▸ closes.passive, queue ▸ closes.connectTimerExpired,
    fun server rest => quiet server (closes.quiet server rest)⟩

theorem congr_books (closes : Closes config m x) (same : books y = books x) : Closes config m y := by
  have timer : y.connectTimer = x.connectTimer := congrArg Books.connectTimer same
  exact closes.of_sessions (by rw [same, timer]; rfl) (fun _ => timer ▸ id)

/-- A state that closes from one with the same books, but for the
connection's session and the connect timer, closes from this one. -/
theorem of_sessions' (closes : Closes config y x)
    (same : books y = { books m with connectionSession := y.connectionSession, connectTimer := y.connectTimer })
    (quiet : config.isActiveChannel = false → m.connectTimer ≠ .running → y.connectTimer ≠ .running) :
    Closes config m x := by
  simp only [books, Books.mk.injEq] at same
  obtain ⟨session, -, attached, observed, next, -, queue⟩ := same
  exact ⟨closes.session, observed ▸ closes.observed, attached ▸ closes.attached,
    session ▸ closes.released, next ▸ closes.nextSession,
    by rw [closes.carried]; exact congrArg (List.filterMap Event.sessionOf) queue,
    queue ▸ closes.passive, queue ▸ closes.connectTimerExpired,
    fun server rest => closes.quiet server (quiet server rest)⟩

theorem of_books (closes : Closes config y x) (same : books y = books m) : Closes config m x := by
  have conn : y.connectionSession = m.connectionSession := congrArg Books.connectionSession same
  have timer : y.connectTimer = m.connectTimer := congrArg Books.connectTimer same
  exact closes.of_sessions' (by rw [same, conn, timer]; rfl) (fun _ => timer ▸ id)

theorem cancelConnectTimer (closes : Closes config m x) : Closes config m x.cancelConnectTimer :=
  closes.of_sessions rfl (fun _ _ => by simp)

theorem transit (answers : Answers) (closes : Closes config m x) {target : XmState}
    (target_closed : target = .idle ∨ target = .active) : Closes config m (x.transit config answers target) := by
  have ne : target ≠ .connect := by rcases target_closed with h | h <;> simp [h]
  have held : target = .openConfirm → x.connectionSession.isSome := by
    rcases target_closed with h | h <;> simp [h]
  exact closes.of_sessions (books_transit config answers x target ne held)
    (fun server => transit_quiet config answers x server target ne)

/-- `set_session(NULL)` on a state with the books of `m`. -/
theorem release (y : XmppStateMachine) (same : books y = books m) : Closes config m (y.setSession none) :=
  (setSession_none config y).of_books same

/-- `ResetSession` on a state with the books of `m`. -/
theorem reset (answers : Answers) (y : XmppStateMachine) (same : books y = books m) :
    Closes config m (y.resetSession config answers) :=
  ((setSession_none config y).congr_books (books_resetSession y config answers)).of_books same

/-- OpenConfirm's `CloseSession` on a state with the books of `m`. -/
theorem closeSession (y : XmppStateMachine) (same : books y = books m) : Closes config m y.closeSession :=
  ((setSession_none config y).congr_books (books_closeSession y)).of_books same

end Closes

/-- The invariant of the stale-session argument: sessions are numbered as they
are made and only the newest is held, observed or attached; the queued
reports and messages are sorted by session; a state with an open stream holds
the session every queued report and message carries, and once the peer's
open was taken the connection holds it too. A client that holds no session
is tied to none, and only a server accepts one; a server's connect timer
never runs. -/
structure Invariant (config : Config) (m : XmppStateMachine) : Prop where
  current : ∀ s, m.session = some s → s + 1 = m.nextSession
  observedNewest : ∀ s ∈ m.observed, s + 1 = m.nextSession
  attachedNewest : ∀ s ∈ m.attached, s + 1 = m.nextSession
  passiveNewest : ∀ s, Event.tcpPassiveOpen s ∈ m.workQueue → s + 1 = m.nextSession
  carriedSorted : m.carried.Pairwise (· ≤ ·)
  carriedBelow : ∀ s ∈ m.carried, s < m.nextSession
  opened : m.state.Opened → ∃ c, m.session = some c ∧ ∀ s ∈ m.carried, s = c
  assigned : m.state.Assigned → m.connectionSession = m.session
  client : config.isActiveChannel = true →
    (m.session = none → m.observed = ∅ ∧ m.attached = ∅) ∧ ∀ s, Event.tcpPassiveOpen s ∉ m.workQueue
  server : config.isActiveChannel = false →
    m.connectTimer ≠ .running ∧ Event.connectTimerExpired ∉ m.workQueue

/-- What the invariant tells of the event at the head of the queue, stated of
the state machine the event is handled by. -/
structure HeadFacts (config : Config) (m : XmppStateMachine) (event : Event) : Prop where
  newest : ∀ c, event.sessionOf = some c → ∀ s ∈ m.carried, c ≤ s
  passive : ∀ s, event = .tcpPassiveOpen s → config.isActiveChannel = false ∧ s + 1 = m.nextSession
  connectTimer : event = .connectTimerExpired → config.isActiveChannel = true

namespace Invariant

variable {config : Config} {m x : XmppStateMachine}

/-- A session tied to the state machine is the one it holds. -/
theorem held_of_newest (inv : Invariant config m) {s : Session}
    (newest : s + 1 = m.nextSession) (tied : m.session = none → False) : m.session = some s := by
  cases held : m.session with
  | none => exact absurd held tied
  | some c =>
    exact congrArg some (Nat.add_right_cancel ((inv.current c held).trans newest.symm))

theorem observed_held (inv : Invariant config m) (client : config.isActiveChannel = true) {s : Session}
    (mem : s ∈ m.observed) : m.session = some s :=
  inv.held_of_newest (inv.observedNewest s mem) fun none_held => by
    simp [((inv.client client).1 none_held).1] at mem

theorem attached_held (inv : Invariant config m) (client : config.isActiveChannel = true) {s : Session}
    (mem : s ∈ m.attached) : m.session = some s :=
  inv.held_of_newest (inv.attachedNewest s mem) fun none_held => by
    simp [((inv.client client).1 none_held).2] at mem

/-- A state that let its session go and rests in Idle or Active keeps the invariant. -/
theorem closed (inv : Invariant config m) (closes : Closes config m x)
    (state : x.state = .idle ∨ x.state = .active) : Invariant config x where
  current s held := by simp [closes.session] at held
  observedNewest s mem := closes.nextSession ▸ inv.observedNewest s (closes.observed mem)
  attachedNewest s mem := closes.nextSession ▸ inv.attachedNewest s (closes.attached mem)
  passiveNewest s mem := closes.nextSession ▸ inv.passiveNewest s (closes.passive s mem)
  carriedSorted := closes.carried ▸ inv.carriedSorted
  carriedBelow s mem := closes.nextSession ▸ inv.carriedBelow s (closes.carried ▸ mem)
  opened opened := by rcases state with h | h <;> simp [XmState.Opened, h] at opened
  assigned assigned := by rcases state with h | h <;> simp [XmState.Assigned, h] at assigned
  client client := by
    refine ⟨fun _ => ⟨?_, ?_⟩, fun s mem => (inv.client client).2 s (closes.passive s mem)⟩
    · -- the only session it observed was the one it let go
      exact Finset.eq_empty_of_forall_notMem fun s mem =>
        (closes.released s (inv.observed_held client (closes.observed mem))).1 mem
    · exact Finset.eq_empty_of_forall_notMem fun s mem =>
        (closes.released s (inv.attached_held client (closes.attached mem))).2 mem
  server server :=
    ⟨closes.quiet server (inv.server server).1, fun mem => (inv.server server).2 (closes.connectTimerExpired mem)⟩

/-- A transition into a state with an open stream, taken on an event of the
held session at the head of the queue: behind it only that session's events
stand. -/
theorem opening {event : Event} {c : Session} {conn : Option Session}
    (inv : Invariant config m) (facts : HeadFacts config m event) (carries : event.sessionOf = some c)
    (held : m.session = some c)
    (same : books x = { books m with connectionSession := conn, connectTimer := x.connectTimer })
    (assigned : x.state.Assigned → conn = some c)
    (quiet : config.isActiveChannel = false → m.connectTimer ≠ .running → x.connectTimer ≠ .running) :
    Invariant config x := by
  simp only [books, Books.mk.injEq] at same
  obtain ⟨session, connection, attached, observed, next, -, queue⟩ := same
  have carried : x.carried = m.carried := congrArg (List.filterMap Event.sessionOf) queue
  refine ⟨?_, ?_, ?_, ?_, ?_, ?_, ?_, ?_, ?_, ?_⟩
  · rw [session, next]; exact inv.current
  · rw [observed, next]; exact inv.observedNewest
  · rw [attached, next]; exact inv.attachedNewest
  · rw [queue, next]; exact inv.passiveNewest
  · rw [carried]; exact inv.carriedSorted
  · rw [carried, next]; exact inv.carriedBelow
  · -- the events behind the head are of its session or a later one, and none is later
    refine fun _ => ⟨c, session ▸ held, fun s mem => ?_⟩
    have lower := facts.newest c carries s (carried ▸ mem)
    have upper := inv.carriedBelow s (carried ▸ mem)
    rw [← inv.current c held] at upper
    exact Nat.le_antisymm (Nat.le_of_lt_succ upper) lower
  · intro state
    rw [connection, session, held]
    exact assigned state
  · intro client
    refine ⟨fun none_held => by simp [session, held] at none_held, ?_⟩
    rw [queue]
    exact (inv.client client).2
  · intro server
    rw [queue]
    exact ⟨quiet server (inv.server server).1, (inv.server server).2⟩

/-- A reaction that keeps the books but the connect timer and rests in its
state, Idle or Active keeps the invariant. -/
theorem resting (inv : Invariant config m) (same : books x = { books m with connectTimer := x.connectTimer })
    (state : x.state = m.state ∨ x.state = .idle ∨ x.state = .active)
    (quiet : config.isActiveChannel = false → m.connectTimer ≠ .running → x.connectTimer ≠ .running) :
    Invariant config x := by
  simp only [books, Books.mk.injEq] at same
  obtain ⟨session, connection, attached, observed, next, -, queue⟩ := same
  have carried : x.carried = m.carried := congrArg (List.filterMap Event.sessionOf) queue
  have unopened : ¬ x.state.Opened ∧ ¬ x.state.Assigned ∨ x.state = m.state := by
    rcases state with h | h | h <;> simp [XmState.Opened, XmState.Assigned, h]
  refine ⟨?_, ?_, ?_, ?_, ?_, ?_, ?_, ?_, ?_, ?_⟩
  · rw [session, next]; exact inv.current
  · rw [observed, next]; exact inv.observedNewest
  · rw [attached, next]; exact inv.attachedNewest
  · rw [queue, next]; exact inv.passiveNewest
  · rw [carried]; exact inv.carriedSorted
  · rw [carried, next]; exact inv.carriedBelow
  · intro opened
    rcases unopened with ⟨not_opened, -⟩ | same_state
    · exact absurd opened not_opened
    · rw [session, carried]; exact inv.opened (same_state ▸ opened)
  · intro assigned
    rcases unopened with ⟨-, not_assigned⟩ | same_state
    · exact absurd assigned not_assigned
    · rw [session, connection]; exact inv.assigned (same_state ▸ assigned)
  · intro client
    rw [session, observed, attached, queue]
    exact inv.client client
  · intro server
    rw [queue]
    exact ⟨quiet server (inv.server server).1, (inv.server server).2⟩

/-- A reaction that keeps the books and the state. -/
theorem stay (inv : Invariant config m) (same : books x = books m) (state : x.state = m.state) :
    Invariant config x := by
  have timer : x.connectTimer = m.connectTimer := congrArg Books.connectTimer same
  exact inv.resting (by rw [same, timer]; rfl) (.inl state) (fun _ => timer ▸ id)

/-- A transition into Idle or Active that keeps the sessions. -/
theorem rest (answers : Answers) (inv : Invariant config m) {target : XmState}
    (target_rested : target = .idle ∨ target = .active) : Invariant config (m.transit config answers target) := by
  have ne : target ≠ .connect := by rcases target_rested with h | h <;> simp [h]
  have held : target = .openConfirm → m.connectionSession.isSome := by
    rcases target_rested with h | h <;> simp [h]
  exact inv.resting (books_transit config answers m target ne held) (.inr (by simpa using target_rested))
    (fun server => transit_quiet config answers m server target ne)

/-- A close: the session let go, the state machine in Idle or Active. -/
theorem close (answers : Answers) (inv : Invariant config m) (closes : Closes config m x) {target : XmState}
    (target_closed : target = .idle ∨ target = .active) : Invariant config (x.transit config answers target) :=
  inv.closed (closes.transit answers target_closed) (by simpa using target_closed)

/-- The invariant of the queue's tail, and what it tells of the head. -/
theorem head (inv : Invariant config m) {event : Event} {rest : List Event} (queued : m.workQueue = event :: rest) :
    Invariant config { m with workQueue := rest } ∧ HeadFacts config { m with workQueue := rest } event := by
  have tail : ({ m with workQueue := rest } : XmppStateMachine).carried.Sublist m.carried := by
    simp only [carried, queued]
    exact (List.sublist_cons_self event rest).filterMap _
  have behind : ∀ e ∈ rest, e ∈ m.workQueue := fun e mem => queued ▸ List.mem_cons_of_mem _ mem
  have first : event ∈ m.workQueue := queued ▸ List.mem_cons_self
  refine ⟨⟨inv.current, inv.observedNewest, inv.attachedNewest,
    fun s mem => inv.passiveNewest s (behind _ mem), inv.carriedSorted.sublist tail,
    fun s mem => inv.carriedBelow s (tail.subset mem), ?_, inv.assigned,
    fun client => ⟨(inv.client client).1, fun s mem => (inv.client client).2 s (behind _ mem)⟩,
    fun server => ⟨(inv.server server).1, fun mem => (inv.server server).2 (behind _ mem)⟩⟩, ?_, ?_, ?_⟩
  · intro opened
    obtain ⟨c, held, all⟩ := inv.opened opened
    exact ⟨c, held, fun s mem => all s (tail.subset mem)⟩
  · -- the queue is sorted by session from its head
    intro c carries s mem
    have sorted := inv.carriedSorted
    simp only [carried, queued, List.filterMap_cons, carries] at sorted
    exact (List.pairwise_cons.mp sorted).1 s mem
  · rintro s rfl
    refine ⟨?_, inv.passiveNewest s first⟩
    cases client : config.isActiveChannel
    · rfl
    · exact absurd first ((inv.client client).2 s)
  · rintro rfl
    cases client : config.isActiveChannel
    · exact absurd first (inv.server client).2
    · rfl

/-- A transition into a state with an open stream, taken on an event of the
held session at the head of the queue. -/
theorem opens (answers : Answers) {y : XmppStateMachine} {event : Event} {c : Session} {k : Option Session}
    {t : TimerState} (inv : Invariant config m) (facts : HeadFacts config m event)
    (carries : event.sessionOf = some c) (held : m.session = some c)
    (same : books y = { books m with connectionSession := k, connectTimer := t })
    (quiet : config.isActiveChannel = false → m.connectTimer ≠ .running → t ≠ .running)
    {target : XmState} (target_opened : target = .openSent ∨ target = .openConfirm ∨ target = .established)
    (assigned : target.Assigned → k = some c) : Invariant config (y.transit config answers target) := by
  have ne : target ≠ .connect := by rcases target_opened with h | h | h <;> simp [h]
  have conn_eq : y.connectionSession = k := congrArg Books.connectionSession same
  have connected : target = .openConfirm → y.connectionSession.isSome := fun h => by
    rw [conn_eq, assigned (.inl h)]; rfl
  have timer_eq : y.connectTimer = t := congrArg Books.connectTimer same
  refine inv.opening facts carries held ?_ (by simpa using assigned)
    (fun server rest => transit_quiet config answers y server target ne (timer_eq ▸ quiet server rest))
  rw [books_transit config answers y target ne connected, same]

end Invariant

/-- A message dispatched as an event of its session tells the same of the queue. -/
theorem HeadFacts.dispatched {config : Config} {m : XmppStateMachine} {session : Session} {msg : Message}
    (facts : HeadFacts config m (.xmppMessage session msg)) {event : Event} (carries : event.sessionOf = some session) :
    HeadFacts config m event where
  newest c same := by
    rw [carries, Option.some.injEq] at same
    exact same ▸ facts.newest session rfl
  passive s passive := by simp [passive, Event.sessionOf] at carries
  connectTimer expired := by simp [expired, Event.sessionOf] at carries

namespace Invariant

variable {config : Config} {answers : Answers} {m : XmppStateMachine}

theorem reactIdle (inv : Invariant config m) (event : Event) : Invariant config (m.reactIdle config answers event) := by
  cases event
  case start => exact inv.rest answers (.inr rfl)
  all_goals exact inv

theorem reactConnect (inv : Invariant config m) {event : Event} (facts : HeadFacts config m event) :
    Invariant config (m.reactConnect config answers event) := by
  -- a report of another session is discarded; every close lets the session go
  have letGo : Closes config m (m.cancelConnectTimer.setSession none) :=
    (Closes.setSession_none config _).of_sessions' rfl (fun _ _ => by simp)
  cases event
  case adminDown => exact inv.close answers (Closes.release m rfl) (.inl rfl)
  case connectTimerExpired =>
    simp only [XmppStateMachine.reactConnect]
    split
    · exact inv
    · exact inv.close answers (Closes.release m rfl) (.inr rfl)
  case tcpConnected session =>
    simp only [XmppStateMachine.reactConnect]
    split
    · exact inv
    · rename_i held
      split
      · rename_i sent sending
        have same := books_of_sendOpen _ sending
        have timer : sent.connectTimer = .cancelled := congrArg Books.connectTimer same
        refine inv.opens answers facts rfl (not_not.mp held) (k := m.connectionSession) (t := .cancelled) ?_ ?_ (.inl rfl)
          (by simp [XmState.Assigned])
        · rw [books_startHoldTimer, same]
          rfl
        · exact fun _ _ => by simp
      · exact inv.close answers letGo (.inr rfl)
  case tcpConnectFail session | tcpClose session =>
    simp only [XmppStateMachine.reactConnect]
    split
    · exact inv
    · exact inv.close answers (Closes.release m rfl).cancelConnectTimer (.inr rfl)
  case stop => exact inv.close answers (Closes.release m rfl).cancelConnectTimer (.inr rfl)
  all_goals exact inv

/-- A server takes the session it was accepted for. -/
theorem passiveOpen (inv : Invariant config m) (state : m.state = .active) {session : Session}
    (passive : config.isActiveChannel = false ∧ session + 1 = m.nextSession) :
    Invariant config ((((m.emit (.asyncReadStart session)).setSession (some session)).observe session).startOpenTimer) := by
  obtain ⟨server, newest⟩ := passive
  have closes : Closes config m ((m.emit (.asyncReadStart session)).setSession none) := Closes.release _ rfl
  rw [setSession_some_eq]
  refine ⟨?_, ?_, ?_, ?_, ?_, ?_, ?_, ?_, ?_, ?_⟩
  · intro s held
    cases Option.some.inj held
    simpa [closes.nextSession] using newest
  · intro s mem
    rcases Finset.mem_insert.mp mem with rfl | mem
    · simpa [closes.nextSession] using newest
    · simpa [closes.nextSession] using inv.observedNewest s (closes.observed mem)
  · intro s mem
    simpa [closes.nextSession] using inv.attachedNewest s (closes.attached mem)
  · intro s mem
    simpa [closes.nextSession] using inv.passiveNewest s (closes.passive s mem)
  · exact closes.carried ▸ inv.carriedSorted
  · intro s mem
    simpa [closes.nextSession] using inv.carriedBelow s (closes.carried ▸ mem)
  · intro opened
    simp [XmState.Opened, state] at opened
  · intro assigned
    simp [XmState.Assigned, state] at assigned
  · intro client
    simp [server] at client
  · refine fun _ => ⟨?_, fun mem => (inv.server server).2 (closes.connectTimerExpired mem)⟩
    simpa [setSession_connectTimer] using (inv.server server).1

/-- A client's connect timer makes a new session, the newest, and the only one
tied to the state machine. -/
theorem connecting (inv : Invariant config m) (client : config.isActiveChannel = true) (state : m.state = .active) :
    Invariant config (m.transit config answers .connect) := by
  set n := m.nextSession
  set z : XmppStateMachine :=
    { m.cancelConnectTimer.cancelOpenTimer with nextSession := n + 1, attached := insert n m.attached }
  have closes : Closes config z (z.setSession none) := Closes.setSession_none config z
  have next : (z.setSession none).nextSession = n + 1 := closes.nextSession
  have entered : m.transit config answers .connect =
      { ((({ z.setSession none with session := some n }).observe n).emit (.connect n)) with
          attempts := m.attempts + 1, state := .connect }.startConnectTimer := by
    simp only [transit, state, exit, enter, startSession, setSession_some_eq]
    rfl
  rw [entered]
  -- every session tied before was the held one, and that one was let go
  have untied : ∀ s, m.session = some s → s ∉ (z.setSession none).observed ∧ s ∉ (z.setSession none).attached :=
    closes.released
  refine ⟨?_, ?_, ?_, ?_, ?_, ?_, ?_, ?_, ?_, ?_⟩
  · intro s held
    cases Option.some.inj held
    simp [next]
  · intro s mem
    simp only [startConnectTimer_observed, emit_observed, observe_observed, Finset.mem_insert] at mem
    rcases mem with rfl | mem
    · simp [next]
    · exact absurd mem (untied s (inv.observed_held client (closes.observed mem))).1
  · intro s mem
    simp only [startConnectTimer_attached, emit_attached, observe_attached] at mem
    rcases Finset.mem_insert.mp (closes.attached mem) with rfl | tied
    · simp [next]
    · exact absurd mem (untied s (inv.attached_held client tied)).2
  · intro s mem
    exact absurd (closes.passive s mem) ((inv.client client).2 s)
  · exact closes.carried ▸ inv.carriedSorted
  · intro s mem
    have below := inv.carriedBelow s (closes.carried ▸ mem)
    simp only [startConnectTimer_nextSession, emit_nextSession, observe_nextSession, next]
    exact Nat.lt_succ_of_lt below
  · intro opened
    simp [XmState.Opened] at opened
  · intro assigned
    simp [XmState.Assigned] at assigned
  · exact fun _ => ⟨fun held => by simp at held, fun s mem => (inv.client client).2 s (closes.passive s mem)⟩
  · intro server
    simp [client] at server

theorem closedState_closed (config : Config) : closedState config = .idle ∨ closedState config = .active := by
  unfold closedState
  split <;> simp

theorem reactOpenSent (inv : Invariant config m) {event : Event} (facts : HeadFacts config m event) :
    Invariant config (m.reactOpenSent config answers event) := by
  cases event
  case tcpClose session =>
    simp only [XmppStateMachine.reactOpenSent]
    split
    · exact inv
    · exact inv.close answers (Closes.release m.cancelHoldTimer rfl) (.inr rfl)
  case xmppOpen session =>
    simp only [XmppStateMachine.reactOpenSent]
    split
    · -- the peer's open on the held session: the connection takes the session
      rename_i held
      split
      · refine inv.opens answers facts rfl held (k := some session) (t := m.connectTimer) ?_ ?_ (.inr (.inl rfl)) (fun _ => rfl)
        · rfl
        · exact fun _ => id
      · refine inv.opens answers facts rfl held (k := some session) (t := m.connectTimer) ?_ ?_ (.inr (.inr rfl)) (fun _ => rfl)
        · rw [books_startHoldTimer, books_startKeepAliveTimer, books_sendKeepAlive]
          rfl
        · exact fun _ => id
    · exact inv
  case holdTimerExpired =>
    simp only [XmppStateMachine.reactOpenSent]
    split
    · exact inv
    · exact inv.close answers (Closes.release m rfl) (.inr rfl)
  case stop => exact inv.close answers (Closes.release m.cancelHoldTimer rfl) (.inr rfl)
  case adminDown => exact inv.close answers (Closes.release m rfl) (.inl rfl)
  all_goals exact inv

theorem reactOpenConfirm (inv : Invariant config m) (state : m.state = .openConfirm) {event : Event}
    (facts : HeadFacts config m event) : Invariant config (m.reactOpenConfirm config answers event) := by
  -- the connection holds the session since the peer's open was taken
  have connected : m.connectionSession = m.session := inv.assigned (.inl state)
  cases event
  case tcpClose session =>
    simp only [XmppStateMachine.reactOpenConfirm]
    split
    · exact inv.close answers (Closes.closeSession m.cancelHoldTimer rfl) (.inr rfl)
    · exact inv.close answers (Closes.reset answers m.cancelHoldTimer rfl) (.inl rfl)
  case holdTimerExpired =>
    simp only [XmppStateMachine.reactOpenConfirm]
    split
    · exact inv
    · split
      · exact inv.close answers (Closes.closeSession m rfl) (.inr rfl)
      · exact inv.close answers (Closes.reset answers m rfl) (.inl rfl)
  case streamFeatureRequest session =>
    simp only [XmppStateMachine.reactOpenConfirm]
    split
    · exact inv.close answers (Closes.reset answers m.sendClose (books_sendClose m)) (.inr rfl)
    · rename_i sent sending
      obtain ⟨_, rfl⟩ := eq_emit_of_trySendOnConnection m sending
      exact inv.stay rfl rfl
  case tlsProceed session =>
    simp only [XmppStateMachine.reactOpenConfirm]
    split <;> exact inv.stay rfl rfl
  case startTls session =>
    simp only [XmppStateMachine.reactOpenConfirm]
    split
    · exact inv
    · split
      · exact inv.close answers (Closes.reset answers m.sendClose (books_sendClose m)) (.inl rfl)
      · rename_i sent sending
        obtain ⟨_, rfl⟩ := eq_emit_of_trySendOnConnection m sending
        exact inv.stay rfl rfl
  case stop =>
    simp only [XmppStateMachine.reactOpenConfirm]
    split
    · exact inv.close answers (Closes.closeSession m.cancelHoldTimer rfl) (.inr rfl)
    · exact inv.close answers (Closes.reset answers m.cancelHoldTimer rfl) (.inl rfl)
  case tlsHandShakeSuccess session =>
    simp only [XmppStateMachine.reactOpenConfirm]
    split
    · exact inv
    · split
      · split
        · refine inv.close answers (Closes.reset answers _ ?_) (.inr rfl)
          rw [books_sendClose]
          rfl
        · rename_i sent sending
          obtain ⟨_, rfl⟩ := eq_emit_of_sendOpen _ sending
          exact inv.stay rfl rfl
      · exact inv.stay rfl rfl
  case tlsHandShakeFailure session =>
    simp only [XmppStateMachine.reactOpenConfirm]
    split
    · exact inv
    · exact inv.close answers (Closes.reset answers m rfl) (closedState_closed config)
  case xmppOpen session =>
    simp only [XmppStateMachine.reactOpenConfirm]
    split
    · exact inv
    · rename_i held
      have held := not_not.mp held
      split
      · refine inv.opens answers facts rfl held (k := m.connectionSession) (t := m.connectTimer) ?_ ?_
          (.inr (.inr rfl)) (fun _ => connected.trans held)
        · rw [books_startHoldTimer, books_startKeepAliveTimer, books_sendKeepAlive]
          rfl
        · exact fun _ => id
      · split
        · exact inv.close answers (Closes.reset answers m.sendClose (books_sendClose m)) (.inl rfl)
        · rename_i sent sending
          obtain ⟨_, rfl⟩ := eq_emit_of_trySendOnConnection m sending
          refine inv.opens answers facts rfl held (k := m.connectionSession) (t := m.connectTimer) ?_ ?_
            (.inr (.inr rfl)) (fun _ => connected.trans held)
          · rw [books_startHoldTimer, books_startKeepAliveTimer]
            rfl
          · exact fun _ => id
  case adminDown => exact inv.close answers (Closes.closeSession m rfl) (.inl rfl)
  all_goals exact inv

theorem reactEstablished (inv : Invariant config m) (event : Event) :
    Invariant config (m.reactEstablished config answers event) := by
  cases event
  case tcpClose session =>
    simp only [XmppStateMachine.reactEstablished]
    split
    · exact inv
    · exact inv.close answers (Closes.reset answers m rfl) (closedState_closed config)
  case xmppKeepalive session =>
    simp only [XmppStateMachine.reactEstablished]
    split
    · exact inv
    · split <;> exact inv.stay rfl rfl
  case xmppMessageStanza session | xmppIqStanza session =>
    simp only [XmppStateMachine.reactEstablished]
    split
    · exact inv
    · exact inv.stay rfl rfl
  case holdTimerExpired =>
    simp only [XmppStateMachine.reactEstablished]
    split
    · exact inv
    · exact inv.close answers (Closes.reset answers m rfl) (closedState_closed config)
  case stop => exact inv.close answers (Closes.reset answers m rfl) (closedState_closed config)
  case adminDown => exact inv.close answers (Closes.reset answers m rfl) (.inl rfl)
  all_goals exact inv

theorem reactActive (inv : Invariant config m) (state : m.state = .active) {event : Event}
    (facts : HeadFacts config m event) : Invariant config (m.reactActive config answers event) := by
  cases event
  case adminDown => exact inv.rest answers (.inl rfl)
  case connectTimerExpired =>
    simp only [XmppStateMachine.reactActive]
    split
    · exact inv
    · exact inv.connecting (facts.connectTimer rfl) state
  case openTimerExpired =>
    simp only [XmppStateMachine.reactActive]
    split
    · exact inv
    · exact inv.close answers (Closes.reset answers m.sendClose (books_sendClose m)) (.inl rfl)
  case tcpPassiveOpen session => exact inv.passiveOpen state (facts.passive session rfl)
  case tcpClose session =>
    simp only [XmppStateMachine.reactActive]
    split
    · exact inv
    · exact inv.close answers (Closes.reset answers m.cancelOpenTimer rfl) (.inl rfl)
  case xmppOpen session =>
    simp only [XmppStateMachine.reactActive]
    split
    · exact inv
    · rename_i held
      have held := not_not.mp held
      -- the session the connection takes is let go again by a reset
      have reset : ∀ y : XmppStateMachine, books y = { books m with connectionSession := some session } →
          Closes config m (y.resetSession config answers) := fun y same => by
        have conn : y.connectionSession = some session := congrArg Books.connectionSession same
        have timer : y.connectTimer = m.connectTimer := congrArg Books.connectTimer same
        refine ((Closes.setSession_none config y).congr_books (books_resetSession y config answers)).of_sessions'
          ?_ (fun _ => timer ▸ id)
        rw [same, conn, timer]
        rfl
      split
      · exact inv.closed (reset _ rfl) (.inr (by simpa using state))
      · split
        · exact inv.close answers (reset _ (by rw [books_sendClose]; rfl)) (.inl rfl)
        · rename_i sent sending
          obtain ⟨_, rfl⟩ := eq_emit_of_trySendOnConnection _ sending
          split
          · refine inv.opens answers facts rfl held (k := some session) (t := m.connectTimer) ?_ ?_
              (.inr (.inl rfl)) (fun _ => rfl)
            · rfl
            · exact fun _ => id
          · refine inv.opens answers facts rfl held (k := some session) (t := m.connectTimer) ?_ ?_
              (.inr (.inr rfl)) (fun _ => rfl)
            · rw [books_startKeepAliveTimer]
              rfl
            · exact fun _ => id
  case stop =>
    simp only [XmppStateMachine.reactActive]
    have timerless : ∀ y : XmppStateMachine, books y = books m.cancelOpenTimer.cancelConnectTimer.stopKeepAliveTimer →
        Closes config m (y.setSession none) := fun y same => by
      have conn : y.connectionSession = m.connectionSession := congrArg Books.connectionSession same
      have timer : y.connectTimer = .cancelled := congrArg Books.connectTimer same
      refine (Closes.setSession_none config y).of_sessions' ?_ (fun _ _ => by simp [timer])
      rw [same, conn, timer]
      rfl
    split
    · exact inv.close answers (timerless _ rfl) (.inr rfl)
    · exact inv.close answers ((timerless _ rfl).congr_books (books_resetSession _ config answers)) (.inl rfl)
  all_goals exact inv

theorem react (inv : Invariant config m) {event : Event} (facts : HeadFacts config m event) :
    Invariant config (m.react config answers event) := by
  unfold XmppStateMachine.react
  split
  · exact inv.reactIdle event
  · exact inv.reactActive ‹_› facts
  · exact inv.reactConnect facts
  · exact inv.reactOpenSent facts
  · exact inv.reactOpenConfirm ‹_› facts
  · exact inv.reactEstablished event

theorem processEvent (inv : Invariant config m) {event : Event} (facts : HeadFacts config m event) :
    Invariant config (m.processEvent config answers event) := by
  cases event
  case tcpDeleteSession session => exact inv.stay rfl rfl
  all_goals exact inv.react facts

theorem processMessage (inv : Invariant config m) {session : Session} {msg : Message}
    (facts : HeadFacts config m (.xmppMessage session msg)) :
    Invariant config (m.processMessage config answers session msg) := by
  unfold XmppStateMachine.processMessage
  split
  · exact inv
  · -- each dispatched event carries the message's session
    split
    all_goals first
      | exact inv
      | (refine inv.processEvent (facts.dispatched ?_); rfl)
      | (unfold processStreamHeaderMessage
         split <;> (refine inv.processEvent (facts.dispatched ?_); rfl))

theorem dequeueEvent (inv : Invariant config m) {event : Event} (facts : HeadFacts config m event) :
    Invariant config (m.dequeueEvent config answers event) := by
  cases event
  case xmppMessage session msg => exact inv.processMessage facts
  all_goals exact (inv.processEvent facts : Invariant config (m.processEvent config answers _))

end Invariant


namespace Invariant

variable {config : Config} {m : XmppStateMachine}

/-- An event queued from outside: a report or a message of the newest session,
or an event without a session. -/
theorem enqueue (inv : Invariant config m) {event : Event}
    (carries : ∀ s, event.sessionOf = some s → s + 1 = m.nextSession)
    (passive : ∀ s, event ≠ .tcpPassiveOpen s)
    (timer : event = .connectTimerExpired → config.isActiveChannel = true) :
    Invariant config (m.enqueue event) := by
  have queued : ∀ e, e ∈ (m.enqueue event).workQueue → e ∈ m.workQueue ∨ e = event := by simp
  -- the carried sessions grow by the event's own, if it has one
  have grown : ∀ s ∈ (m.enqueue event).carried, s ∈ m.carried ∨ event.sessionOf = some s := by
    simp [carried, List.filterMap_append]
  have sorted : (m.enqueue event).carried.Pairwise (· ≤ ·) := by
    cases sessionOf : event.sessionOf with
    | none => simpa [carried, List.filterMap_append, sessionOf] using inv.carriedSorted
    | some s =>
      have newest := carries s sessionOf
      simp only [carried, enqueue_workQueue, List.filterMap_append, List.filterMap_cons, sessionOf,
        List.filterMap_nil, List.pairwise_append, List.pairwise_singleton, List.mem_singleton, true_and]
      refine ⟨inv.carriedSorted, fun t mem u same => ?_⟩
      have below := inv.carriedBelow t mem
      rw [same, ← newest] at *
      exact Nat.le_of_lt_succ below
  refine ⟨inv.current, inv.observedNewest, inv.attachedNewest, ?_, sorted, ?_, ?_, inv.assigned, ?_, ?_⟩
  · intro s mem
    rcases queued _ mem with mem | same
    · exact inv.passiveNewest s mem
    · exact absurd same.symm (passive s)
  · intro s mem
    rcases grown s mem with mem | carried
    · exact inv.carriedBelow s mem
    · show s < m.nextSession
      rw [← carries s carried]
      exact Nat.lt_succ_self s
  · intro opened
    obtain ⟨c, held, all⟩ := inv.opened opened
    refine ⟨c, held, fun s mem => ?_⟩
    rcases grown s mem with mem | carried
    · exact all s mem
    · exact Nat.add_right_cancel ((carries s carried).trans (inv.current c held).symm)
  · intro client
    refine ⟨(inv.client client).1, fun s mem => ?_⟩
    rcases queued _ mem with mem | same
    · exact absurd mem ((inv.client client).2 s)
    · exact passive s same.symm
  · intro server
    refine ⟨(inv.server server).1, fun mem => ?_⟩
    rcases queued _ mem with mem | same
    · exact (inv.server server).2 mem
    · simp [timer same.symm] at server

/-- A server's connection accepts the one session it is made for. -/
theorem accept (inv : Invariant config m) (server : config.isActiveChannel = false) (fresh : m.nextSession = 0) :
    Invariant config ({ m with nextSession := 1, observed := {0}, attached := {0} }.enqueue (.tcpPassiveOpen 0)) := by
  -- nothing can be tied to the state machine before its first session
  have none_held : m.session = none := by
    cases held : m.session with
    | none => rfl
    | some s => exact absurd (inv.current s held) (by rw [fresh]; exact Nat.succ_ne_zero s)
  have none_carried : ∀ s, s ∉ m.carried := fun s mem => by
    have := inv.carriedBelow s mem
    rw [fresh] at this
    exact Nat.not_lt_zero s this
  have carried : ({ m with nextSession := 1, observed := {0}, attached := {0} }.enqueue (.tcpPassiveOpen 0)).carried =
      m.carried := by
    simp [carried, List.filterMap_append, Event.sessionOf]
  refine ⟨?_, ?_, ?_, ?_, ?_, ?_, ?_, ?_, ?_, ?_⟩
  · intro s held
    simp [none_held] at held
  · intro s mem
    simp at mem
    simp [mem]
  · intro s mem
    simp at mem
    simp [mem]
  · intro s mem
    simp only [enqueue_workQueue, List.mem_append, List.mem_singleton, Event.tcpPassiveOpen.injEq] at mem
    rcases mem with mem | rfl
    · exact absurd (inv.passiveNewest s mem) (by rw [fresh]; exact Nat.succ_ne_zero s)
    · rfl
  · rw [carried]; exact inv.carriedSorted
  · intro s mem
    rw [carried] at mem
    exact absurd mem (none_carried s)
  · intro opened
    obtain ⟨c, held, -⟩ := inv.opened opened
    simp [none_held] at held
  · exact inv.assigned
  · intro client
    simp [server] at client
  · intro _
    refine ⟨(inv.server server).1, fun mem => ?_⟩
    simp only [enqueue_workQueue, List.mem_append, List.mem_singleton, reduceCtorEq, or_false] at mem
    exact (inv.server server).2 mem

theorem apply (inv : Invariant config m) (action : XmppAction) : Invariant config (m.apply config action) := by
  -- an event without a session, other than a passive open or a connect timer's expiry
  have plain : ∀ {x : XmppStateMachine} {event : Event}, Invariant config x → event.sessionOf = none →
      (∀ s, event ≠ .tcpPassiveOpen s) → event ≠ .connectTimerExpired → Invariant config (x.enqueue event) :=
    fun inv none_carried passive timer =>
      inv.enqueue (fun s carried => by simp [none_carried] at carried) passive (fun same => absurd same timer)
  cases action
  case start | stop | adminDown => exact plain inv rfl (fun _ => by simp) (by simp)
  case fireConnectTimer =>
    simp only [XmppStateMachine.apply]
    split
    · rename_i running
      cases client : config.isActiveChannel
      · exact absurd running (inv.server client).1
      · have rested : Invariant config { m with connectTimer := .init } :=
          inv.resting rfl (.inl rfl) (fun _ _ => by simp)
        refine rested.enqueue ?_ ?_ (fun _ => client)
        · intro s carried
          simp [Event.sessionOf] at carried
        · intro s
          simp
    · exact inv
  case fireOpenTimer | fireHoldTimer =>
    simp only [XmppStateMachine.apply]
    split
    · exact plain (inv.stay rfl rfl) rfl (fun _ => by simp) (by simp)
    · exact inv
  case accept =>
    simp only [XmppStateMachine.apply]
    split
    · rename_i fresh
      simp only [Bool.and_eq_true, Bool.not_eq_eq_eq_not, Bool.not_true, decide_eq_true_eq] at fresh
      exact inv.accept fresh.1 fresh.2
    · exact inv
  case connectComplete session | connectFail session | tcpClose session =>
    simp only [XmppStateMachine.apply, onSessionEvent]
    split
    · rename_i observed
      exact inv.enqueue (fun s carried => by
          simp only [Event.sessionOf, Option.some.injEq] at carried
          exact carried ▸ inv.observedNewest session observed)
        (fun _ => by simp) (by simp)
    · exact inv
  case receive session msg =>
    simp only [XmppStateMachine.apply]
    split
    · rename_i attached
      exact inv.enqueue (fun s carried => by
          simp only [Event.sessionOf, Option.some.injEq] at carried
          exact carried ▸ inv.attachedNewest session attached)
        (fun _ => by simp) (by simp)
    · exact inv
  case handShake session success =>
    simp only [XmppStateMachine.apply]
    split
    · split <;> exact plain inv rfl (fun _ => by simp) (by simp)
    · exact inv
  case process answers =>
    simp only [XmppStateMachine.apply]
    split
    · exact inv
    · rename_i event rest queued
      obtain ⟨tail, facts⟩ := inv.head queued
      exact tail.dequeueEvent facts

theorem init (config : Config) : Invariant config init := by
  refine ⟨?_, ?_, ?_, ?_, ?_, ?_, ?_, ?_, ?_, ?_⟩ <;> simp [XmppStateMachine.init, carried, XmState.Opened, XmState.Assigned]

end Invariant

theorem Reachable.invariant {config : Config} {m : XmppStateMachine} (reach : m.Reachable config) :
    Invariant config m := by
  induction reach with
  | init => exact Invariant.init config
  | step action _ ih => exact ih.apply action

/-- Idle, Active and Connect compare every event of a session with the held
one, or have no reaction to it. -/
theorem react_stale {config : Config} {answers : Answers} {m : XmppStateMachine}
    (early : m.state = .idle ∨ m.state = .active ∨ m.state = .connect) {event : Event} {s : Session}
    (carries : event.sessionOf = some s) (stale : m.session ≠ some s) : m.react config answers event = m := by
  unfold react
  rcases early with state | state | state <;> rw [state] <;> cases event <;>
    simp only [Event.sessionOf, Option.some.injEq, reduceCtorEq] at carries <;> subst carries <;>
    simp [reactIdle, reactActive, reactConnect, stale]

/-- Dequeuing a report or a message of a session the state machine does not
hold only takes it off the queue. -/
theorem Invariant.dequeue_stale {config : Config} {answers : Answers} {m : XmppStateMachine}
    (inv : Invariant config m) {event : Event} {rest : List Event} (queued : m.workQueue = event :: rest)
    {s : Session} (carries : event.sessionOf = some s) (stale : m.session ≠ some s) :
    { m with workQueue := rest }.dequeueEvent config answers event = { m with workQueue := rest } := by
  -- a state with an open stream holds the session of every queued event
  have early : m.state = .idle ∨ m.state = .active ∨ m.state = .connect := by
    have first : s ∈ m.carried := by simp [carried, queued, carries]
    cases state : m.state
    case openSent | openConfirm | established =>
      obtain ⟨c, held, all⟩ := inv.opened (by simp [XmState.Opened, state])
      exact absurd (held.trans (congrArg some (all s first).symm)) stale
    all_goals simp
  cases event
  case xmppMessage session msg =>
    simp only [Event.sessionOf, Option.some.injEq] at carries
    subst carries
    simp only [XmppStateMachine.dequeueEvent, XmppStateMachine.processMessage]
    split
    · rfl
    · -- an attached session is the newest, so the state machine holds none
      rename_i attached
      have none_held : m.session = none := by
        cases held : m.session with
        | none => rfl
        | some c =>
          have := Nat.add_right_cancel ((inv.current c held).trans (inv.attachedNewest session (not_not.mp attached)).symm)
          exact absurd (held.trans (congrArg some this)) stale
      have stale' : ({ m with workQueue := rest } : XmppStateMachine).session ≠ some session := by
        simp [none_held]
      split
      all_goals first
        | rfl
        | exact react_stale (m := { m with workQueue := rest }) early rfl stale'
        | (unfold processStreamHeaderMessage
           split <;> exact react_stale (m := { m with workQueue := rest }) early rfl stale')
  case tcpDeleteSession session => simp [Event.sessionOf] at carries
  all_goals exact react_stale (m := { m with workQueue := rest }) early carries stale

/-- An XMPP state machine ignores every event of a session it no longer
holds, and from OpenConfirm on its connection holds the state machine's session. -/
theorem xmpp_stale_sessions_ignored {config : Config} {m : XmppStateMachine} (reach : m.Reachable config) :
    (∀ answers event rest s, m.workQueue = event :: rest → event.sessionOf = some s → m.session ≠ some s →
      m.apply config (.process answers) = { m with workQueue := rest }) ∧
    (m.state = .openConfirm ∨ m.state = .established → ∀ s, m.session = some s → m.connectionSession = some s) := by
  have inv := reach.invariant
  refine ⟨fun answers event rest s queued carries stale => ?_, fun state s held => ?_⟩
  · simp only [XmppStateMachine.apply, queued]
    exact inv.dequeue_stale queued carries stale
  · rw [inv.assigned state, held]

/-- A client that connects with authentication off. -/
def clientConfig : Config := ⟨true, false⟩

/-- Every send fits and the connection is kept. -/
def proceeding : Answers := ⟨false, true, true, true, true⟩

/-- A client in OpenSent holds its session while its connection holds none:
the connection takes the session only with the peer's open. -/
theorem openSent_connection_holds_no_session :
    ∃ m : XmppStateMachine, m.Reachable clientConfig ∧ m.state = .openSent ∧ m.session = some 0 ∧
      m.connectionSession = none :=
  ⟨_, @Reachable.runActions clientConfig [.start, .process proceeding, .fireConnectTimer,
      .process proceeding, .connectComplete 0, .process proceeding] _ .init, by decide⟩

/-- A client starts session 0 and its connect timer fires again before the TCP
connection completes: the timeout deletes session 0, so the report of its
connection is queued after the session has gone. -/
def connectTimeoutActions : List XmppAction :=
  [.start, .process proceeding, .fireConnectTimer, .process proceeding, .fireConnectTimer, .connectComplete 0,
    .process proceeding]

theorem xmpp_stale_sessions_ignored_after_connect_timeout :
    ∃ m, init.runActions clientConfig connectTimeoutActions = m ∧
      m.workQueue = [.tcpConnected 0, .tcpDeleteSession 0] ∧ m.session = none ∧
      (∀ answers event rest s, m.workQueue = event :: rest → event.sessionOf = some s → m.session ≠ some s →
        m.apply clientConfig (.process answers) = { m with workQueue := rest }) ∧
      (m.state = .openConfirm ∨ m.state = .established → ∀ s, m.session = some s → m.connectionSession = some s) := by
  have queue : (init.runActions clientConfig connectTimeoutActions).workQueue =
      [.tcpConnected 0, .tcpDeleteSession 0] := by decide
  have session : (init.runActions clientConfig connectTimeoutActions).session = none := by decide
  exact ⟨_, rfl, queue, session,
    xmpp_stale_sessions_ignored (@Reachable.runActions clientConfig connectTimeoutActions _ .init)⟩

end XmppStateMachine

end Contrail.Xmpp
