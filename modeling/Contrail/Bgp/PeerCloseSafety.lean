import Contrail.Bgp.PeerCloseManager

/-! The close manager never fails an assertion, whatever the peer answers and
in whatever order the timer, the membership manager and the peer feed its
queue; and `membership_req_pending_` counts the table requests not yet
completed plus the completions still queued, which arrive only while the
manager walks the tables.

The argument follows the membership sub-state: with it, the manager is in one
of four phases (`Phase`), and each nested procedure is specified from the phase
it is called in. A nested close re-enters `CloseInternal` at most once, so the
specifications come in two rounds: those for a manager with no nested close
pending, then those that may re-enter. -/
namespace Contrail.Bgp

namespace PeerClose

/-- The states in which the membership manager is not in use. -/
def State.Idle (s : State) : Prop := s = .none ∨ s = .grTimer ∨ s = .llgrTimer

/-- The states `ProcessClosure` moves to before `MembershipRequest()`. -/
def State.AfterClosure (s : State) : Prop := s = .llgrStale ∨ s = .sweep ∨ s = .delete

/-- The states in which the tables of the peer are walked. -/
def State.Walking (s : State) : Prop := s = .stale ∨ s.AfterClosure

instance : DecidablePred State.Idle := fun _ => inferInstanceAs (Decidable (_ ∨ _))

instance : DecidablePred State.AfterClosure := fun _ => inferInstanceAs (Decidable (_ ∨ _))

instance : DecidablePred State.Walking := fun _ => inferInstanceAs (Decidable (_ ∨ _))

theorem State.none_or_timer_or_walking (s : State) :
    s = .none ∨ (s = .grTimer ∨ s = .llgrTimer) ∨ s.Walking := by
  cases s <;> simp [State.Walking, State.AfterClosure]

theorem State.AfterClosure.walking {s : State} (after : s.AfterClosure) : s.Walking := Or.inr after

theorem State.Idle.not_walking {s : State} (idle : s.Idle) : ¬ s.Walking := by
  cases s <;> simp_all [State.Idle, State.Walking, State.AfterClosure]

/-- What the membership sub-state allows of the close state, of a pending
nested close, of the queued `MEMBERSHIP_REQUEST` events and of the requests
outstanding (issued, or completed and queued). -/
def Phase : MembershipState → State → Bool → Nat → Nat → Prop
  | .none, state, closeAgain, requestEvents, outstanding =>
    state.Idle ∧ closeAgain = false ∧ requestEvents = 0 ∧ outstanding = 0
  | .inWait, state, _, requestEvents, outstanding =>
    state.AfterClosure ∧ requestEvents = 0 ∧ outstanding = 0
  | .inUse, state, _, requestEvents, outstanding =>
    (state.AfterClosure ∧ requestEvents = 1 ∧ outstanding = 0) ∨
      (state.Walking ∧ requestEvents = 0 ∧ 0 < outstanding)

end PeerClose

open PeerClose

namespace PeerCloseManager

variable (m : PeerCloseManager)

def completions : Nat := m.eventQueue.count .membershipRequestCompleteCallback

def requestEvents : Nat := m.eventQueue.count .membershipRequest

/-- The table requests whose completion is not yet processed. -/
def outstanding : Nat := m.requests + m.completions

structure Consistent : Prop where
  pending : m.membershipReqPending = m.outstanding
  phase : Phase m.membershipState m.state m.closeAgain m.requestEvents m.outstanding

/-- Nothing is outstanding with the membership manager. -/
structure Quiet : Prop where
  requestEvents : m.requestEvents = 0
  outstanding : m.outstanding = 0
  pending : m.membershipReqPending = 0

variable {m}

theorem Consistent.idle (c : m.Consistent) (idle : m.state.Idle) :
    m.Quiet ∧ m.membershipState = .none ∧ m.closeAgain = false := by
  obtain ⟨pending, phase⟩ := c
  cases membership : m.membershipState <;> rw [membership] at phase
  case none =>
    obtain ⟨-, again, events, quiet⟩ := phase
    exact ⟨⟨events, quiet, pending.trans (by rw [quiet]; rfl)⟩, rfl, again⟩
  case inWait => exact absurd phase.1.walking idle.not_walking
  case inUse =>
    rcases phase with ⟨after, -⟩ | ⟨walking, -⟩
    · exact absurd after.walking idle.not_walking
    · exact absurd walking idle.not_walking

/-- `Quiet` reads only the queue, the requests and the pending count. -/
theorem Quiet.frame {m' : PeerCloseManager} (quiet : m.Quiet) (queue : m'.eventQueue = m.eventQueue)
    (requests : m'.requests = m.requests) (pending : m'.membershipReqPending = m.membershipReqPending) :
    m'.Quiet := by
  obtain ⟨events, outstanding, zero⟩ := quiet
  exact ⟨by simpa [PeerCloseManager.requestEvents, queue] using events,
    by simpa [PeerCloseManager.outstanding, completions, queue, requests] using outstanding, pending.trans zero⟩

/-- `Consistent` reads only the close state, the nested close, the membership
sub-state, the pending count, the outstanding requests and the queued requests. -/
theorem Consistent.congr {n : PeerCloseManager} (c : m.Consistent) (state : n.state = m.state)
    (again : n.closeAgain = m.closeAgain) (membership : n.membershipState = m.membershipState)
    (pending : n.membershipReqPending = m.membershipReqPending) (outstanding : n.outstanding = m.outstanding)
    (events : n.requestEvents = m.requestEvents) : n.Consistent := by
  obtain ⟨equal, phase⟩ := c
  refine ⟨by rw [pending, outstanding, equal], ?_⟩
  rw [state, again, membership, events, outstanding]
  exact phase

/-- Queued requests are those of the requested phase. -/
theorem Consistent.requested (c : m.Consistent) (queued : 0 < m.requestEvents) :
    m.membershipState = .inUse ∧ m.state.AfterClosure ∧ m.requestEvents = 1 ∧ m.outstanding = 0 := by
  obtain ⟨-, phase⟩ := c
  cases membership : m.membershipState <;> rw [membership] at phase
  case inUse =>
    rcases phase with ⟨after, one, quiet⟩ | ⟨-, none, -⟩
    · exact ⟨rfl, after, one, quiet⟩
    · omega
  case none =>
    obtain ⟨-, -, none, -⟩ := phase
    omega
  case inWait =>
    obtain ⟨-, none, -⟩ := phase
    omega

/-- Outstanding requests are those of the walking phase. -/
theorem Consistent.walking (c : m.Consistent) (outstanding : 0 < m.outstanding) :
    m.membershipState = .inUse ∧ m.state.Walking ∧ m.requestEvents = 0 := by
  obtain ⟨-, phase⟩ := c
  cases membership : m.membershipState <;> rw [membership] at phase
  case inUse =>
    rcases phase with ⟨-, -, quiet⟩ | ⟨walking, none, -⟩
    · omega
    · exact ⟨rfl, walking, none⟩
  case none =>
    obtain ⟨-, -, -, quiet⟩ := phase
    omega
  case inWait =>
    obtain ⟨-, -, quiet⟩ := phase
    omega

theorem Consistent.waiting (c : m.Consistent) (membership : m.membershipState = .inWait) :
    m.Quiet ∧ m.state.AfterClosure := by
  obtain ⟨pending, phase⟩ := c
  rw [membership] at phase
  obtain ⟨after, events, quiet⟩ := phase
  exact ⟨⟨events, quiet, by rw [pending, quiet]; rfl⟩, after⟩

/-- Events other than requests and completions leave the counts alone. -/
theorem Consistent.enqueueEvent (c : m.Consistent) {event : Event}
    (completion : event ≠ .membershipRequestCompleteCallback) (request : event ≠ .membershipRequest) :
    (m.enqueueEvent event).Consistent :=
  c.congr rfl rfl rfl rfl
    (by simp [outstanding, completions, PeerCloseManager.enqueueEvent, List.count_append, completion])
    (by simp [requestEvents, PeerCloseManager.enqueueEvent, List.count_append, request])

/-- A nested close is noted only while the tables are walked, where the
phase does not look at it. -/
theorem Consistent.note_nested (c : m.Consistent) (walking : m.state.Walking) :
    { m with closeAgain := true }.Consistent := by
  obtain ⟨pending, phase⟩ := c
  refine ⟨pending, ?_⟩
  show Phase m.membershipState m.state true m.requestEvents m.outstanding
  cases membership : m.membershipState <;> rw [membership] at phase
  case none => exact absurd walking phase.1.not_walking
  all_goals exact phase

theorem Quiet.consistent (quiet : m.Quiet) (membership : m.membershipState = .none)
    (idle : m.state.Idle) (again : m.closeAgain = false) : m.Consistent := by
  refine ⟨by rw [quiet.pending, quiet.outstanding]; rfl, ?_⟩
  rw [membership]
  exact ⟨idle, again, quiet.requestEvents, quiet.outstanding⟩

@[simp]
theorem ok_bind {α β : Type} (x : α) (f : α → Except Fault β) : (Except.ok x >>= f) = f x := rfl

theorem moveToState_of_ne {s : State} (ne : m.state ≠ s) : m.moveToState s = .ok { m with state := s } :=
  if_neg ne

/-- The guard of the completion callback never fails: `LLGR_STALE` stands in
it as a non-zero enumerator. -/
@[simp]
theorem assertMembershipManagerInUse_eq_true : m.assertMembershipManagerInUse = true := by
  simp [assertMembershipManagerInUse, State.toNat]

@[simp]
theorem eventQueue_enqueueEvent (e : Event) : (m.enqueueEvent e).eventQueue = m.eventQueue ++ [e] := rfl

theorem membershipRequest_spec (a : Answers) (quiet : m.Quiet) (notInUse : m.membershipState ≠ .inUse)
    (after : m.state.AfterClosure) : ∃ m', m.membershipRequest a = .ok m' ∧ m'.Consistent := by
  have check : m.assertMembershipState = true := by simpa [assertMembershipState] using notInUse
  obtain ⟨events, quiet, pending⟩ := quiet
  simp only [requestEvents, outstanding, completions] at events quiet
  unfold membershipRequest
  cases use : a.canUseMembershipManager
  case false =>
    simp only [check, Bool.not_true, Bool.not_false, if_true, Bool.false_eq_true, if_false]
    refine ⟨_, rfl, ?_, ?_⟩ <;> simp_all [outstanding, completions, requestEvents, Phase]
  case true =>
    simp only [check, Bool.not_true, Bool.false_eq_true, if_false]
    refine ⟨_, rfl, ?_, ?_⟩ <;>
      simp_all [outstanding, completions, requestEvents, Phase, enqueueEvent, List.count_append]

variable {f : Nat}

/-! ### Without a nested close -/

theorem closeComplete_spec (a : Answers) (quiet : m.Quiet) (membership : m.membershipState = .none)
    (busy : m.state ≠ .none) (again : m.closeAgain = false) (fuel : 1 ≤ f) :
    ∃ m', closeComplete a f m = .ok m' ∧ m'.Consistent := by
  obtain ⟨f, rfl⟩ := Nat.exists_eq_add_of_le' fuel
  simp only [closeComplete, moveToState_of_ne busy, ok_bind, again, Bool.false_eq_true, if_false]
  refine ⟨_, rfl, ?_⟩
  apply Quiet.consistent
  exacts [quiet.frame rfl rfl rfl, membership, Or.inl rfl, rfl]

theorem triggerSweepStateActions_spec (a : Answers) (quiet : m.Quiet) (sweep : m.state = .sweep)
    (again : m.closeAgain = false) (fuel : 2 ≤ f) :
    ∃ m', triggerSweepStateActions a f m = .ok m' ∧ m'.Consistent := by
  obtain ⟨f, rfl⟩ := Nat.exists_eq_add_of_le' fuel
  simp only [triggerSweepStateActions, sweep, ne_eq, not_true_eq_false, if_false]
  exact closeComplete_spec a (quiet.frame rfl rfl rfl) rfl (by simp) again (by omega)

/-- A completion that leaves other requests outstanding. -/
theorem membershipRequestCallback_more (a : Answers) (f : Nat) (inUse : m.membershipState = .inUse)
    (events : m.requestEvents = 0) (walking : m.state.Walking)
    (pending : m.membershipReqPending = m.outstanding + 1) (more : m.outstanding ≠ 0) :
    ∃ m', membershipRequestCallback a (f + 1) m = .ok (false, m') ∧ m'.Consistent := by
  have left : m.membershipReqPending - 1 ≠ 0 := by omega
  simp only [membershipRequestCallback, assertMembershipManagerInUse_eq_true, Bool.not_true,
    Bool.false_eq_true, if_false, ne_eq, left, not_false_eq_true, if_true]
  refine ⟨_, rfl, ?_, ?_⟩
  · show m.membershipReqPending - 1 = m.outstanding
    omega
  · show Phase m.membershipState m.state m.closeAgain m.requestEvents m.outstanding
    rw [inUse]
    exact Or.inr ⟨walking, events, Nat.pos_of_ne_zero more⟩

/-- The last completion of a deletion returns the manager to `NONE`. -/
theorem membershipRequestCallback_delete (a : Answers) (f : Nat) (delete : m.state = .delete)
    (events : m.requestEvents = 0) (last : m.outstanding = 0) (pending : m.membershipReqPending = 1) :
    ∃ m', membershipRequestCallback a (f + 1) m = .ok (true, m') ∧ m'.Consistent := by
  simp only [membershipRequestCallback, assertMembershipManagerInUse_eq_true, Bool.not_true,
    Bool.false_eq_true, if_false, pending, ne_eq, delete, if_true]
  refine ⟨_, rfl, ?_⟩
  apply Quiet.consistent
  exacts [⟨events, last, by simp⟩, rfl, Or.inl rfl, rfl]

theorem membershipRequestCallback_spec (a : Answers) (inUse : m.membershipState = .inUse)
    (events : m.requestEvents = 0) (walking : m.state.Walking)
    (pending : m.membershipReqPending = m.outstanding + 1) (again : m.closeAgain = false) (fuel : 3 ≤ f) :
    ∃ done m', membershipRequestCallback a f m = .ok (done, m') ∧ m'.Consistent ∧
      (m.outstanding = 0 → done = true) := by
  obtain ⟨f, rfl⟩ := Nat.exists_eq_add_of_le' fuel
  by_cases last : m.outstanding = 0
  case neg =>
    obtain ⟨m', run, c⟩ := membershipRequestCallback_more a (f + 2) inUse events walking pending last
    exact ⟨false, m', run, c, fun done => absurd done last⟩
  have one : m.membershipReqPending = 1 := by omega
  have zero : m.membershipReqPending - 1 = 0 := by omega
  rcases walking with stale | llgrStale | sweep | delete
  case inr.inr.inr =>
    obtain ⟨m', run, c⟩ := membershipRequestCallback_delete a (f + 2) delete events last one
    exact ⟨true, m', run, c, fun _ => rfl⟩
  all_goals
    simp only [membershipRequestCallback, assertMembershipManagerInUse_eq_true, Bool.not_true,
      Bool.false_eq_true, if_false, zero, ne_eq, not_true_eq_false, again]
  case inl =>
    simp only [stale, reduceCtorEq, if_false, if_true]
    refine ⟨true, _, rfl, ?_, fun _ => rfl⟩
    apply Quiet.consistent
    exacts [⟨events, last, by simp [startRestartTimer]⟩, rfl, Or.inr (Or.inl rfl), rfl]
  case inr.inl =>
    simp only [llgrStale, reduceCtorEq, if_false, if_true]
    refine ⟨true, _, rfl, ?_, fun _ => rfl⟩
    apply Quiet.consistent
    exacts [⟨events, last, by simp [startRestartTimer]⟩, rfl, Or.inr (Or.inr rfl), rfl]
  case inr.inr.inl =>
    obtain ⟨m', run, c⟩ := triggerSweepStateActions_spec a (m := { m with membershipReqPending := 0 })
      (f := f + 2) ⟨events, last, rfl⟩ sweep again (by omega)
    simp only [sweep, again, reduceCtorEq, if_false] at run ⊢
    exact ⟨true, m', by rw [run]; rfl, c, fun _ => rfl⟩

/-- With tables registered, `MembershipRequest(Event *)` issues one request for each. -/
theorem membershipRequestEvent_tables (a : Answers) (f : Nat) (quiet : m.Quiet) (walking : m.state.Walking)
    (tables : a.registeredRibs ≠ 0) :
    ∃ m', membershipRequestEvent a (f + 1) m = .ok m' ∧ m'.Consistent := by
  obtain ⟨events, last, pending⟩ := quiet
  simp only [membershipRequestEvent, pending, ne_eq, not_true_eq_false, if_false, tables]
  refine ⟨_, rfl, ?_, ?_⟩
  · show 0 + (a.registeredRibs : Int) = ((m.requests + a.registeredRibs + m.completions : Nat) : Int)
    simp only [outstanding] at last
    omega
  · show Phase .inUse m.state m.closeAgain m.requestEvents (m.requests + a.registeredRibs + m.completions)
    exact Or.inr ⟨walking, events, by omega⟩

/-- With no table registered, `MembershipRequest(Event *)` runs the callback of
its one request at once. -/
theorem membershipRequestEvent_no_tables (a : Answers) (f : Nat) (pending : m.membershipReqPending = 0)
    (tables : a.registeredRibs = 0) :
    membershipRequestEvent a (f + 1) m =
      membershipRequestCallback a f { m with membershipState := .inUse, membershipReqPending := 1 } >>=
        fun done => if done.1 then .ok done.2 else .error .assertion := by
  simp only [membershipRequestEvent, pending, ne_eq, not_true_eq_false, if_false, tables, if_true]
  rfl

theorem membershipRequestEvent_spec (a : Answers) (quiet : m.Quiet) (walking : m.state.Walking)
    (again : m.closeAgain = false) (fuel : 4 ≤ f) :
    ∃ m', membershipRequestEvent a f m = .ok m' ∧ m'.Consistent := by
  obtain ⟨f, rfl⟩ := Nat.exists_eq_add_of_le' fuel
  by_cases tables : a.registeredRibs = 0
  case neg => exact membershipRequestEvent_tables a (f + 3) quiet walking tables
  obtain ⟨done, m', run, c, finished⟩ :=
    membershipRequestCallback_spec a (m := { m with membershipState := .inUse, membershipReqPending := 1 })
      (f := f + 3) rfl quiet.requestEvents walking
      (by show (1 : Int) = m.outstanding + 1; simp [quiet.outstanding]) again (by omega)
  rw [membershipRequestEvent_no_tables a (f + 3) quiet.pending tables, run, finished quiet.outstanding]
  exact ⟨m', rfl, c⟩

theorem staleNotify_spec (a : Answers) (quiet : m.Quiet) (membership : m.membershipState ≠ .inUse)
    (stale : m.state = .stale) (again : m.closeAgain = false) (fuel : 5 ≤ f) :
    ∃ m', staleNotify a f m = .ok m' ∧ m'.Consistent := by
  obtain ⟨f, rfl⟩ := Nat.exists_eq_add_of_le' fuel
  have check : m.assertMembershipState = true := by simpa [assertMembershipState] using membership
  simp only [staleNotify, check, Bool.not_true, Bool.false_eq_true, if_false]
  exact membershipRequestEvent_spec a quiet (Or.inl stale) again (by omega)

/-- `ProcessClosure` from `NONE`: a non-graceful close deletes, a graceful one
stales the routes. -/
theorem processClosure_none_spec (a : Answers) (quiet : m.Quiet) (membership : m.membershipState = .none)
    (none : m.state = .none) (again : m.closeAgain = false) (fuel : 6 ≤ f) :
    ∃ m', processClosure a f m = .ok m' ∧ m'.Consistent := by
  obtain ⟨f, rfl⟩ := Nat.exists_eq_add_of_le' fuel
  simp only [processClosure, none]
  by_cases graceful : (!m.graceful || !a.isCloseGraceful) = true
  case pos =>
    simp only [graceful, if_true, moveToState_of_ne (show m.state ≠ .delete by simp [none]), ok_bind]
    exact membershipRequest_spec a (quiet.frame rfl rfl rfl) (by simp [membership])
      (Or.inr (Or.inr rfl))
  case neg =>
    simp only [graceful, Bool.false_eq_true, if_false,
      moveToState_of_ne (show m.state ≠ .stale by simp [none]), ok_bind]
    exact staleNotify_spec a (quiet.frame rfl rfl rfl) (by simp [membership]) rfl again (by omega)

theorem closeInternal_none_spec (a : Answers) (quiet : m.Quiet) (membership : m.membershipState = .none)
    (none : m.state = .none) (again : m.closeAgain = false) (fuel : 7 ≤ f) :
    ∃ m', closeInternal a f m = .ok m' ∧ m'.Consistent := by
  obtain ⟨f, rfl⟩ := Nat.exists_eq_add_of_le' fuel
  simp only [closeInternal, again, Bool.false_eq_true, if_false, none]
  exact processClosure_none_spec a quiet membership none again (by omega)

/-! ### With a nested close -/

/-- `CloseComplete` starts a pending nested close afresh from `NONE`. -/
theorem closeComplete_nested_spec (a : Answers) (quiet : m.Quiet) (membership : m.membershipState = .none)
    (busy : m.state ≠ .none) (fuel : 8 ≤ f) :
    ∃ m', closeComplete a f m = .ok m' ∧ m'.Consistent := by
  cases again : m.closeAgain
  case false => exact closeComplete_spec a quiet membership busy again (by omega)
  obtain ⟨f, rfl⟩ := Nat.exists_eq_add_of_le' fuel
  simp only [closeComplete, moveToState_of_ne busy, ok_bind, again, if_true]
  exact closeInternal_none_spec a (quiet.frame rfl rfl rfl) membership rfl rfl (by omega)

theorem membershipRequestCallback_nested_spec (a : Answers) (inUse : m.membershipState = .inUse)
    (events : m.requestEvents = 0) (walking : m.state.Walking)
    (pending : m.membershipReqPending = m.outstanding + 1) (fuel : 9 ≤ f) :
    ∃ done m', membershipRequestCallback a f m = .ok (done, m') ∧ m'.Consistent ∧
      (m.outstanding = 0 → done = true) := by
  cases again : m.closeAgain
  case false => exact membershipRequestCallback_spec a inUse events walking pending again (by omega)
  obtain ⟨f, rfl⟩ := Nat.exists_eq_add_of_le' fuel
  by_cases last : m.outstanding = 0
  case neg =>
    obtain ⟨m', run, c⟩ := membershipRequestCallback_more a (f + 8) inUse events walking pending last
    exact ⟨false, m', run, c, fun done => absurd done last⟩
  have one : m.membershipReqPending = 1 := by omega
  by_cases delete : m.state = .delete
  case pos =>
    obtain ⟨m', run, c⟩ := membershipRequestCallback_delete a (f + 8) delete events last one
    exact ⟨true, m', run, c, fun _ => rfl⟩
  have zero : m.membershipReqPending - 1 = 0 := by omega
  obtain ⟨m', run, c⟩ := closeComplete_nested_spec a
    (m := { m with membershipReqPending := 0, membershipState := .none }) (f := f + 8)
    ⟨events, last, rfl⟩ rfl (fun none => by simp_all [State.Walking, State.AfterClosure]) (by omega)
  simp only [membershipRequestCallback, assertMembershipManagerInUse_eq_true, Bool.not_true,
    Bool.false_eq_true, if_false, zero, ne_eq, not_true_eq_false, delete, again, if_true]
  simp only [again] at run
  exact ⟨true, m', by rw [run]; rfl, c, fun _ => rfl⟩

theorem membershipRequestEvent_nested_spec (a : Answers) (quiet : m.Quiet) (walking : m.state.Walking)
    (fuel : 10 ≤ f) : ∃ m', membershipRequestEvent a f m = .ok m' ∧ m'.Consistent := by
  obtain ⟨f, rfl⟩ := Nat.exists_eq_add_of_le' fuel
  by_cases tables : a.registeredRibs = 0
  case neg => exact membershipRequestEvent_tables a (f + 9) quiet walking tables
  obtain ⟨done, m', run, c, finished⟩ :=
    membershipRequestCallback_nested_spec a (m := { m with membershipState := .inUse, membershipReqPending := 1 })
      (f := f + 9) rfl quiet.requestEvents walking
      (by show (1 : Int) = m.outstanding + 1; simp [quiet.outstanding]) (by omega)
  rw [membershipRequestEvent_no_tables a (f + 9) quiet.pending tables, run, finished quiet.outstanding]
  exact ⟨m', rfl, c⟩

/-- A close while the stale timer runs cancels it and starts afresh. -/
theorem closeInternal_timer (a : Answers) (f : Nat) (timer : m.state = .grTimer ∨ m.state = .llgrTimer)
    (again : m.closeAgain = false) :
    closeInternal a (f + 1) m = closeComplete a f { m with closeAgain := true } := by
  rcases timer with timer | timer <;> simp [closeInternal, timer, again]

/-- A close while the tables are walked waits for the walk. -/
theorem closeInternal_walking (a : Answers) (f : Nat) (walking : m.state.Walking)
    (again : m.closeAgain = false) : closeInternal a (f + 1) m = .ok { m with closeAgain := true } := by
  rcases walking with walking | walking | walking | walking <;> simp [closeInternal, walking, again]

theorem closeInternal_spec (a : Answers) (c : m.Consistent) (fuel : 9 ≤ f) :
    ∃ m', closeInternal a f m = .ok m' ∧ m'.Consistent := by
  obtain ⟨f, rfl⟩ := Nat.exists_eq_add_of_le' fuel
  cases again : m.closeAgain
  case true =>
    simp only [closeInternal, again, if_true]
    exact ⟨m, rfl, c⟩
  rcases State.none_or_timer_or_walking m.state with none | timer | walking
  · obtain ⟨quiet, membership, -⟩ := c.idle (Or.inl none)
    exact closeInternal_none_spec a quiet membership none again (by omega)
  · obtain ⟨quiet, membership, -⟩ := c.idle (Or.inr timer)
    rw [closeInternal_timer a (f + 8) timer again]
    exact closeComplete_nested_spec a (quiet.frame rfl rfl rfl) membership
      (by rcases timer with timer | timer <;> simp [timer]) (by omega)
  · rw [closeInternal_walking a (f + 8) walking again]
    exact ⟨_, rfl, c.note_nested walking⟩

/-- `ProcessClosure` at the end of a stale timer: the routes are swept, kept
as long-lived stale, or deleted. -/
theorem processClosure_timer_spec (a : Answers) (c : m.Consistent)
    (timer : m.state = .grTimer ∨ m.state = .llgrTimer) (fuel : 1 ≤ f) :
    ∃ m', processClosure a f m = .ok m' ∧ m'.Consistent := by
  obtain ⟨f, rfl⟩ := Nat.exists_eq_add_of_le' fuel
  obtain ⟨quiet, membership, -⟩ := c.idle (Or.inr timer)
  have request : ∀ s : State, s.AfterClosure →
      ∃ m', ({ m with state := s } : PeerCloseManager).membershipRequest a = .ok m' ∧ m'.Consistent :=
    fun s after => membershipRequest_spec a (quiet.frame rfl rfl rfl) (by simp [membership]) after
  cases ready : a.isReadyAtClosure <;> cases longLived : a.isCloseLongLivedGraceful <;>
    rcases timer with timer | timer <;>
    simp only [processClosure, timer, ready, longLived, moveToState, reduceCtorEq, if_false, if_true,
      Bool.false_eq_true, ok_bind] <;>
    exact request _ (by simp [State.AfterClosure])

/-! ### Events and actions -/

theorem Consistent.processEORMarkerReceived (c : m.Consistent) (family : Family) :
    (m.processEORMarkerReceived family).Consistent := by
  unfold PeerCloseManager.processEORMarkerReceived
  dsimp only
  split_ifs <;> exact c.congr rfl rfl rfl rfl rfl rfl

theorem restartTimerCallback_spec (a : Answers) (c : m.Consistent) :
    ∃ m', m.restartTimerCallback a callDepth = .ok m' ∧ m'.Consistent := by
  unfold restartTimerCallback
  by_cases timer : m.state ≠ .grTimer ∧ m.state ≠ .llgrTimer
  case pos => exact ⟨m, if_pos timer, c⟩
  rw [if_neg timer]
  split_ifs
  case pos =>
    refine ⟨_, rfl, c.congr rfl rfl rfl rfl ?_ ?_⟩ <;>
      simp [outstanding, completions, requestEvents, List.count_append, List.count_eq_zero]
  case neg => exact processClosure_timer_spec a c (by tauto) (by decide)

theorem eventCallback_spec (a : Answers) (c : m.Consistent) {event : Event} {rest : List Event}
    (queue : m.eventQueue = event :: rest) :
    ∃ m', { m with eventQueue := rest }.eventCallback a event = .ok m' ∧ m'.Consistent := by
  cases event
  case close graceful =>
    exact closeInternal_spec a (c.congr rfl rfl rfl rfl (by simp [outstanding, completions, queue])
      (by simp [requestEvents, queue])) (by decide)
  case eorReceived family =>
    exact ⟨_, rfl, (c.congr (n := { m with eventQueue := rest }) rfl rfl rfl rfl
      (by simp [outstanding, completions, queue]) (by simp [requestEvents, queue])).processEORMarkerReceived
        family⟩
  case membershipRequest =>
    obtain ⟨-, after, one, quiet⟩ := c.requested (by simp [requestEvents, queue])
    exact membershipRequestEvent_nested_spec a
      ⟨by simpa [requestEvents, queue] using one, by simpa [outstanding, completions, queue] using quiet,
        (c.pending.trans (by rw [quiet]; rfl) : m.membershipReqPending = 0)⟩
      after.walking (by decide)
  case membershipRequestCompleteCallback =>
    have outstanding : 0 < m.outstanding := by
      simp only [PeerCloseManager.outstanding, completions, queue, List.count_cons_self]
      omega
    obtain ⟨inUse, walking, none⟩ := c.walking outstanding
    obtain ⟨done, m', run, c', -⟩ := membershipRequestCallback_nested_spec a
      (m := { m with eventQueue := rest }) (f := callDepth) inUse (by simp_all [requestEvents]) walking
      (by rw [c.pending]; simp [PeerCloseManager.outstanding, completions, queue]; omega) (by decide)
    exact ⟨m', by simp only [eventCallback, run]; rfl, c'⟩
  case timerCallback =>
    exact restartTimerCallback_spec a (c.congr rfl rfl rfl rfl (by simp [outstanding, completions, queue])
      (by simp [requestEvents, queue]))

theorem apply_spec (c : m.Consistent) (action : CloseAction) :
    ∃ m', m.apply action = .ok m' ∧ m'.Consistent := by
  cases action
  case close graceful => exact ⟨_, rfl, c.enqueueEvent (by simp) (by simp)⟩
  case eorReceived family => exact ⟨_, rfl, c.enqueueEvent (by simp) (by simp)⟩
  case timerFires =>
    by_cases idle : m.timerStarts = 0
    case pos => exact ⟨m, if_pos idle, c⟩
    exact ⟨_, if_neg idle, (c.congr (n := { m with timerStarts := m.timerStarts - 1 }) rfl rfl rfl rfl rfl
      rfl).enqueueEvent (by simp) (by simp)⟩
  case requestCompletes =>
    by_cases none : m.requests = 0
    case pos => exact ⟨m, if_pos none, c⟩
    refine ⟨_, if_neg none, c.congr rfl rfl rfl rfl ?_ ?_⟩
    · simp only [outstanding, completions, enqueueEvent, List.count_append, List.count_singleton_self]
      omega
    · simp [requestEvents, List.count_append]
  case resume a =>
    by_cases waiting : m.membershipState = .inWait
    case neg => exact ⟨m, if_neg waiting, c⟩
    obtain ⟨quiet, after⟩ := c.waiting waiting
    rw [apply, if_pos waiting]
    exact membershipRequest_spec a quiet (by simp [waiting]) after
  case process a =>
    cases queue : m.eventQueue
    case nil => exact ⟨m, by simp [apply, queue], c⟩
    case cons event rest =>
      simp only [apply, queue]
      exact eventCallback_spec a c queue

theorem init_consistent : init.Consistent :=
  Quiet.consistent ⟨rfl, rfl, rfl⟩ rfl (Or.inl rfl) rfl

theorem Reachable.consistent (reach : m.Reachable) : m.Consistent := by
  induction reach with
  | init => exact init_consistent
  | step action _ stepped c =>
    obtain ⟨m', run, c'⟩ := apply_spec c action
    rw [stepped] at run
    cases run
    exact c'

end PeerCloseManager

open PeerCloseManager in
/-- Whatever the peer answers and in whatever order the stale timer, the
membership manager and the peer act, every step of the close manager succeeds:
no assertion fires and no call nests deeper than `callDepth`. The pending count
is the number of table requests whose completion is not yet processed, and a
queued completion finds the manager walking the tables. -/
theorem peerCloseManager_well_behaved {m : PeerCloseManager} (reach : m.Reachable) :
    (∀ action, ∃ m', m.apply action = .ok m') ∧
    0 ≤ m.membershipReqPending ∧
    m.membershipReqPending = m.requests + m.eventQueue.count .membershipRequestCompleteCallback ∧
    (.membershipRequestCompleteCallback ∈ m.eventQueue →
      m.state = .stale ∨ m.state = .llgrStale ∨ m.state = .sweep ∨ m.state = .delete) := by
  have c := reach.consistent
  refine ⟨fun action => ?_, by rw [c.pending]; omega, by rw [c.pending]; simp [outstanding, completions],
    fun queued => ?_⟩
  · obtain ⟨m', run, -⟩ := apply_spec c action
    exact ⟨m', run⟩
  · have outstanding : 0 < m.outstanding := by
      simp only [PeerCloseManager.outstanding, completions]
      have := List.count_pos_iff.mpr queued
      omega
    exact (c.walking outstanding).2.1

/-- A graceful close walks two tables; one table's request completes, its
callback queued while the manager is in `STALE` and one request is still out. -/
def staleAnswers : Answers :=
  { isReady := false, isReadyAtClosure := false, isCloseGraceful := true, isCloseLongLivedGraceful := false,
    canUseMembershipManager := true, registeredRibs := 2, gracefulRestartFamilies := ∅ }

def staleCloseActions : List CloseAction :=
  [.close true, .process staleAnswers, .process staleAnswers, .requestCompletes]

theorem peerCloseManager_well_behaved_after_request :
    ∃ m, PeerCloseManager.init.runActions staleCloseActions = .ok m ∧
      m.state = .stale ∧ m.eventQueue = [.membershipRequestCompleteCallback] ∧ m.requests = 1 ∧
      (∀ action, ∃ m', m.apply action = .ok m') ∧
      0 ≤ m.membershipReqPending ∧
      m.membershipReqPending = m.requests + m.eventQueue.count .membershipRequestCompleteCallback ∧
      (.membershipRequestCompleteCallback ∈ m.eventQueue →
        m.state = .stale ∨ m.state = .llgrStale ∨ m.state = .sweep ∨ m.state = .delete) := by
  have ran : (PeerCloseManager.init.runActions staleCloseActions).map
      (fun m => (m.state, m.eventQueue, m.requests)) = .ok (.stale, [.membershipRequestCompleteCallback], 1) := by
    decide
  obtain ⟨m, reached, view⟩ := Runs.exists_of_map_eq_ok ran
  simp only [Prod.mk.injEq] at view
  obtain ⟨state, queue, requests⟩ := view
  exact ⟨m, reached, state, queue, requests,
    peerCloseManager_well_behaved (PeerCloseManager.Reachable.init.runActions reached)⟩

end Contrail.Bgp
