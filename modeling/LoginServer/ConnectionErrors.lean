import LoginServer.ConnectionClosing

/-! # Exceptions in the read handlers

`accept`, `parseHeader` and `parsePacket` arm a timer and start a read inside a `try` block, and
what they do about an exception hangs on `m_logError`, which any connection may have cleared. The
handlers are run from two states that differ in this flag only. -/
namespace LoginServer.Connection

open Runs

inductive Handler where
  | accept
  | parseHeader (error : Option ErrorCode) (sizeOk : Bool)
  | parsePacket (error : Option ErrorCode) (p : Packet)

def Handler.event (a : Arm) : Handler → Event
  | accept => .accept a
  | parseHeader error sizeOk => .parseHeader error sizeOk a
  | parsePacket error p => .parsePacket error p a

def Handler.Enabled (s : State) : Handler → Prop
  | accept => s.accepted = false
  | parseHeader _ _ => .header ∈ s.reads
  | parsePacket _ _ => .packet ∈ s.reads

def Handler.body (s : State) (a : Arm) : Handler → State
  | accept => Connection.accept s a
  | parseHeader error sizeOk =>
    Connection.parseHeader { s with reads := s.reads.erase .header } error sizeOk a
  | parsePacket error p =>
    Connection.parsePacket { s with reads := s.reads.erase .packet } error p a

def Handler.Arms (s : State) : Handler → Prop
  | accept => True
  | parseHeader error sizeOk => error = none ∧ sizeOk = true ∧ s.m_readError = false
  | parsePacket error p => error = none ∧ s.m_readError = false ∧ p.tooMany = false ∧
    (s.m_protocol = true ∨ s.m_receivedFirst = false ∧ p.protocolMade = true)

def Handler.read : Handler → Read
  | accept | parsePacket _ _ => .header
  | parseHeader _ _ => .packet

def readDone (s : State) (r : Read) : State :=
  { s with
    reads := s.reads.erase r
    readTimers := cancel s.readTimers
    m_pendingRead := s.m_pendingRead - 1 }

def firstReceived (s : State) : State :=
  if s.m_protocol then { s with m_receivedFirst := true }
  else attachProtocol { s with m_receivedFirst := true }

/-- The state that the `try` block is entered with. -/
def Handler.entered (s : State) : Handler → State
  | accept => { s with accepted := true }
  | parseHeader _ _ => readDone s .header
  | parsePacket _ p =>
    if s.m_receivedFirst = false then
      onRecvFirstMessage (firstReceived (readDone s .packet)) p.first
    else readDone s .packet

def State.logged (s : State) (b : Bool) : State := { s with m_logError := b }

/-- Whatever the flag was, the handler leaves the same state of the connection and the same
tasks, and the connection is not open any more. -/
def HandledAlike (s : State) (e : Event) : Prop :=
  ∀ b b' u v, step (s.logged b) e = some u → step (s.logged b') e = some v →
    v.m_connectionState = u.m_connectionState ∧ v.tasks = u.tasks ∧
      u.m_connectionState ≠ .CONNECTION_STATE_OPEN

/-- The first packet ends the connection before the next read is to be started. -/
def Handler.EndsFirst (s : State) : Handler → Prop
  | parsePacket _ p => s.m_receivedFirst = false ∧ p.first ≠ .dispatched
  | _ => False

variable {s u : State} {h : Handler} {a : Arm}

theorem step_event_iff : step s (h.event a) = some u ↔
    s.undefined = false ∧ h.Enabled s ∧ u = h.body s a := by
  rw [step]
  cases s.undefined with
  | true => simp
  | false =>
    cases h with
    | accept =>
      cases hs : s.accepted <;>
        simp [Handler.event, liveStep, Handler.Enabled, Handler.body, hs, eq_comm]
    | parseHeader error sizeOk =>
      simp [Handler.event, liveStep, Handler.Enabled, Handler.body, eq_comm]
    | parsePacket error p =>
      simp [Handler.event, liveStep, Handler.Enabled, Handler.body, eq_comm]

theorem body_eq (hopen : s.m_connectionState = .CONNECTION_STATE_OPEN) (harms : h.Arms s) :
    h.body s a = startRead (h.entered s) h.read a := by
  cases h with
  | accept => rfl
  | parseHeader error sizeOk =>
    obtain ⟨rfl, rfl, hread⟩ := harms
    simp [Handler.body, Connection.parseHeader, Handler.entered, Handler.read, readDone, hopen,
      hread]
  | parsePacket error p =>
    obtain ⟨rfl, hread, hmany, hprotocol⟩ := harms
    by_cases hfirst : s.m_receivedFirst = false
    · have hmade : ¬ (s.m_protocol = false ∧ p.protocolMade = false) := by
        rintro ⟨hnone, hmade⟩
        rcases hprotocol with hp | ⟨-, hp⟩
        · rw [hnone] at hp
          exact absurd hp Bool.false_ne_true
        · rw [hmade] at hp
          exact absurd hp Bool.false_ne_true
      simp [Handler.body, Connection.parsePacket, Handler.entered, Handler.read, hopen, hread,
        hmany, hfirst, firstPacket, hmade, firstReceived, readDone]
    · have hp : s.m_protocol = true := hprotocol.resolve_right fun hr => hfirst hr.1
      simp [Handler.body, Connection.parsePacket, Handler.entered, Handler.read, hopen, hread,
        hmany, hfirst, hp, readDone]

def requestClose : ConnectionState × List Task → ConnectionState × List Task
  | (.CONNECTION_STATE_OPEN, tasks) =>
    (.CONNECTION_STATE_REQUEST_CLOSE, tasks ++ [.closeConnection])
  | outcome => outcome

def State.outcome (s : State) : ConnectionState × List Task := (s.m_connectionState, s.tasks)

theorem close_outcome (s : State) : (close s).outcome = requestClose s.outcome := by
  rw [close, State.outcome, State.outcome]
  cases hs : s.m_connectionState <;> simp [requestClose, State.addTask, hs]

theorem caught_outcome (s : State) :
    (caught s).outcome = if s.m_logError then requestClose s.outcome else s.outcome := by
  rw [caught]
  split
  · exact close_outcome _
  · rfl

theorem startRead_outcome (ha : a ≠ .started) (s : State) (r : Read) :
    (startRead s r a).outcome = if s.m_logError then requestClose s.outcome else s.outcome := by
  cases a with
  | started => exact absurd rfl ha
  | waitThrows => exact caught_outcome _
  | operationThrows => exact caught_outcome _

theorem close_logged (s : State) (b : Bool) : close (s.logged b) = (close s).logged b := by
  unfold close State.logged
  dsimp only
  split
  · rfl
  · rfl

theorem closeThroughProtocol_logged (s : State) (b : Bool) :
    closeThroughProtocol (s.logged b) = (closeThroughProtocol s).logged b := by
  have hprotocol : (s.logged b).protocol = s.protocol := rfl
  unfold closeThroughProtocol
  rw [hprotocol]
  split
  · exact close_logged s b
  · rfl

theorem getOutputMessage_logged (s : State) (pool b : Bool) :
    getOutputMessage (s.logged b) pool = (getOutputMessage s pool).map fun u => u.logged b := by
  unfold getOutputMessage State.logged
  dsimp only
  split
  · rfl
  · rfl

theorem send_logged (s : State) (a : Arm) (b c : Bool) :
    (send (s.logged b) a).logged c = (send s a).logged c := by
  have hstate : (s.logged b).m_connectionState = s.m_connectionState := rfl
  have herror : (s.logged b).m_writeError = s.m_writeError := rfl
  have hpending : (s.logged b).m_pendingWrite = s.m_pendingWrite := rfl
  have hforce : (s.logged b).FORCE_CLOSE_SLOW_CONNECTION = s.FORCE_CLOSE_SLOW_CONNECTION := rfl
  rw [send, send, hstate, herror, hpending, hforce]
  split
  · rfl
  · split
    · cases a <;> rfl
    · split
      · rw [close_logged]
        rfl
      · rfl

theorem disconnectClient_logged (s : State) (pool : Bool) (a : Arm) (b c : Bool) :
    (disconnectClient (s.logged b) pool a).logged c = (disconnectClient s pool a).logged c := by
  rw [disconnectClient, disconnectClient, getOutputMessage_logged]
  cases getOutputMessage s pool with
  | none =>
    rw [Option.map_none, closeThroughProtocol_logged]
    rfl
  | some u =>
    rw [Option.map_some]
    dsimp only
    rw [← closeThroughProtocol_logged, ← closeThroughProtocol_logged, send_logged]

theorem onRecvFirstMessage_logged (s : State) (f : FirstMessage) (b c : Bool) :
    (onRecvFirstMessage (s.logged b) f).logged c = (onRecvFirstMessage s f).logged c := by
  cases f with
  | rsaFailed =>
    rw [onRecvFirstMessage, onRecvFirstMessage, closeThroughProtocol_logged]
    rfl
  | disconnected pool a => exact disconnectClient_logged s pool a b c
  | dispatched => rfl

theorem firstReceived_logged (s : State) (b : Bool) :
    firstReceived (s.logged b) = (firstReceived s).logged b := by
  have hprotocol : (s.logged b).m_protocol = s.m_protocol := rfl
  rw [firstReceived, firstReceived, hprotocol]
  split
  · rfl
  · rfl

theorem entered_logged (s : State) (h : Handler) (b c : Bool) :
    (h.entered (s.logged b)).logged c = (h.entered s).logged c := by
  cases h with
  | accept => rfl
  | parseHeader => rfl
  | parsePacket error p =>
    have hfirst : (s.logged b).m_receivedFirst = s.m_receivedFirst := rfl
    have hdone : readDone (s.logged b) .packet = (readDone s .packet).logged b := rfl
    rw [Handler.entered, Handler.entered, hfirst, hdone]
    split
    · rw [firstReceived_logged]
      exact onRecvFirstMessage_logged _ p.first b c
    · rfl

theorem entered_outcome (s : State) (h : Handler) (b b' : Bool) :
    (h.entered (s.logged b)).outcome = (h.entered (s.logged b')).outcome := by
  have houtcome : ∀ t : State, (t.logged false).outcome = t.outcome := fun _ => rfl
  rw [← houtcome, entered_logged, ← entered_logged s h b' false, houtcome]

theorem closeThroughProtocol_live (hs : protocolView s = some (false, true)) :
    closeThroughProtocol s = close s := by
  rw [protocolView] at hs
  obtain ⟨⟨deleted, m_connection, n⟩, hp, heq⟩ := Option.map_eq_some_iff.mp hs
  cases heq
  rw [closeThroughProtocol, hp]

theorem disconnectClient_live (hs : protocolView s = some (false, true)) (pool : Bool) (a : Arm) :
    (disconnectClient s pool a).m_connectionState ≠ .CONNECTION_STATE_OPEN := by
  rw [disconnectClient]
  split
  · rename_i u hu
    have hsend : protocolView (send u a) = some (false, true) := by
      have hcalm := (getOutputMessage_calm hu).trans (send_calm u a)
      exact (congrArg Outline.protocol hcalm.outline).trans hs
    rw [closeThroughProtocol_live hsend]
    exact close_state _
  · rw [closeThroughProtocol_live hs]
    exact close_state s

theorem onRecvFirstMessage_live (hs : protocolView s = some (false, true)) {f : FirstMessage}
    (hf : f ≠ .dispatched) :
    (onRecvFirstMessage s f).m_connectionState ≠ .CONNECTION_STATE_OPEN := by
  cases f with
  | rsaFailed =>
    rw [onRecvFirstMessage, closeThroughProtocol_live hs]
    exact close_state s
  | disconnected pool a => exact disconnectClient_live hs pool a
  | dispatched => exact absurd rfl hf

def Unattached (s : State) : Prop := s.m_receivedFirst = false → s.m_protocol = false

theorem Calm.unattached (hc : Calm s u) (hs : Unattached s) : Unattached u := by
  have hfirst : u.m_receivedFirst = s.m_receivedFirst := congrArg Outline.receivedFirst hc.outline
  have hattached : u.m_protocol = s.m_protocol := congrArg Outline.attached hc.outline
  rw [Unattached, hfirst, hattached]
  exact hs

theorem firstPacket_receivedFirst (s : State) (p : Packet) (a : Arm) :
    (firstPacket s p a).m_receivedFirst = true := by
  have hcalm : ∀ {v}, Calm v (firstPacket s p a) → v.m_receivedFirst = true →
      (firstPacket s p a).m_receivedFirst = true := by
    intro v hc hv
    exact (congrArg Outline.receivedFirst hc.outline).trans hv
  have hmarked : ∀ v, (v = attachProtocol { s with m_receivedFirst := true } ∨
      s.m_protocol = true ∧ v = { s with m_receivedFirst := true }) →
      v.m_receivedFirst = true := by
    rintro v (rfl | ⟨-, rfl⟩)
    · rfl
    · rfl
  rcases firstPacket_cases s p a with hc | ⟨v, hv, hc | hc⟩
  · exact hcalm hc rfl
  · exact hcalm hc (hmarked v hv)
  · exact hcalm hc (hmarked v hv)

theorem releaseConnection_unattached (hs : Unattached s) (throws : Bool) :
    Unattached (releaseConnection s throws) := by
  unfold releaseConnection deleteConnection
  split
  · exact hs
  · split
    · exact hs
    · exact hs

theorem releaseProtocol_unattached (hs : Unattached s) : Unattached (releaseProtocol s) := by
  rw [releaseProtocol]
  split
  · exact hs
  · exact hs

theorem closeConnection_unattached (hs : Unattached s) (throws : Bool) :
    Unattached (closeConnection s throws) := by
  have henter : Unattached (enterClosing s) := by
    rw [enterClosing, detachProtocol]
    split
    · exact fun _ => rfl
    · exact hs
  rw [closeConnection]
  split
  · exact hs
  · split
    · exact releaseConnection_unattached ((closeSocket_calm _).unattached henter) throws
    · exact henter

theorem execute_unattached (hs : Unattached s) (throws : Bool) (t : Task) :
    Unattached (s.execute throws t) := by
  cases t with
  | closeConnection => exact closeConnection_unattached hs throws
  | delegate => exact hs
  | internalReleaseMessage => exact hs
  | retry r =>
    cases r with
    | releaseConnection => exact releaseConnection_unattached hs throws
    | releaseProtocol => exact releaseProtocol_unattached hs

theorem step_unattached {e : Event} (hs : Unattached s) (hu : step s e = some u) :
    Unattached u := by
  cases step_effect hu with
  | calm _ hc => exact hc.unattached hs
  | firstPacket error p a hc _ _ =>
    intro hfirst
    rw [firstPacket_receivedFirst] at hfirst
    exact absurd hfirst.symm Bool.false_ne_true
  | @dispatch t rest throws _ ht =>
    exact execute_unattached (s := { s with tasks := rest }) hs throws t
  | delegate next _ hc _ => exact hc.unattached hs
  | fire hr => exact hs
  | onStop hp =>
    rw [onStop]
    split
    · exact hs
    · exact hs
  | managerRelease hst => exact hs

theorem reachable_unattached (hs : machine.Reachable s) : Unattached s :=
  Machine.invariant (I := Unattached) (by rintro _ ⟨l, f, rfl⟩; exact fun _ => rfl)
    (fun _ _ _ hi hu => step_unattached hi hu) hs

theorem entered_open (hopen : s.m_connectionState = .CONNECTION_STATE_OPEN)
    (hends : ¬ h.EndsFirst s) :
    (h.entered s).m_connectionState = .CONNECTION_STATE_OPEN ∧
      (h.entered s).m_logError = s.m_logError := by
  cases h with
  | accept => exact ⟨hopen, rfl⟩
  | parseHeader => exact ⟨hopen, rfl⟩
  | parsePacket error p =>
    rw [Handler.entered]
    split
    · rename_i hfirst
      have hdispatched : p.first = .dispatched := by
        by_contra hne
        exact hends ⟨hfirst, hne⟩
      rw [hdispatched, firstReceived]
      split
      · exact ⟨hopen, rfl⟩
      · exact ⟨hopen, rfl⟩
    · exact ⟨hopen, rfl⟩

theorem entered_closing (hs : Unattached s) (hends : h.EndsFirst s) :
    (h.entered s).m_connectionState ≠ .CONNECTION_STATE_OPEN := by
  cases h with
  | accept => exact hends.elim
  | parseHeader => exact hends.elim
  | parsePacket error p =>
    obtain ⟨hfirst, hne⟩ := hends
    have hnone : (readDone s .packet).m_protocol = false := hs hfirst
    rw [Handler.entered, if_pos hfirst, firstReceived, if_neg (by rw [hnone]; decide)]
    exact onRecvFirstMessage_live rfl hne

theorem requestClose_of_ne {outcome : ConnectionState × List Task}
    (hne : outcome.1 ≠ .CONNECTION_STATE_OPEN) : requestClose outcome = outcome := by
  obtain ⟨state, tasks⟩ := outcome
  cases state with
  | CONNECTION_STATE_OPEN => exact absurd rfl hne
  | _ => rfl

/-- What a handler that is left by an exception leaves. -/
theorem step_outcome (hopen : s.m_connectionState = .CONNECTION_STATE_OPEN) (harms : h.Arms s)
    (ha : a ≠ .started) (hu : step s (h.event a) = some u) :
    u.outcome = if (h.entered s).m_logError then requestClose (h.entered s).outcome
      else (h.entered s).outcome := by
  rw [(step_event_iff.mp hu).2.2, body_eq hopen harms, startRead_outcome ha]

theorem arms_logged (s : State) (h : Handler) (b : Bool) : h.Arms (s.logged b) ↔ h.Arms s := by
  cases h <;> exact Iff.rfl

theorem endsFirst_logged (s : State) (h : Handler) (b : Bool) :
    h.EndsFirst (s.logged b) ↔ h.EndsFirst s := by
  cases h <;> exact Iff.rfl

theorem enabled_logged (s : State) (h : Handler) (b : Bool) :
    h.Enabled (s.logged b) ↔ h.Enabled s := by
  cases h <;> exact Iff.rfl

theorem outcome_of_endsFirst (hs : Unattached s)
    (hopen : s.m_connectionState = .CONNECTION_STATE_OPEN) (harms : h.Arms s) (ha : a ≠ .started)
    (hends : h.EndsFirst s) {b : Bool} (hu : step (s.logged b) (h.event a) = some u) :
    u.outcome = (h.entered s).outcome := by
  have hclosing := entered_closing (s := s.logged b) hs ((endsFirst_logged s h b).mpr hends)
  rw [step_outcome (s := s.logged b) hopen ((arms_logged s h b).mpr harms) ha hu,
    requestClose_of_ne hclosing, ite_self, entered_outcome s h b s.m_logError]
  rfl

/-- After some error was logged, an exception leaves the connection open. -/
theorem open_of_logged (hopen : s.m_connectionState = .CONNECTION_STATE_OPEN) (harms : h.Arms s)
    (ha : a ≠ .started) (hends : ¬ h.EndsFirst s)
    (hu : step (s.logged false) (h.event a) = some u) :
    u.m_connectionState = .CONNECTION_STATE_OPEN := by
  have hentered := entered_open (s := s.logged false) hopen
    fun hc => hends ((endsFirst_logged s h false).mp hc)
  have houtcome := step_outcome (s := s.logged false) hopen
    ((arms_logged s h false).mpr harms) ha hu
  rw [hentered.2] at houtcome
  exact (congrArg Prod.fst houtcome).trans hentered.1

/-- The handling of an exception is independent of the flag just when the first packet has ended
the connection before. -/
theorem handled_alike_iff (hr : machine.Reachable s)
    (hopen : s.m_connectionState = .CONNECTION_STATE_OPEN) (harms : h.Arms s)
    (ha : a ≠ .started) (hu : step s (h.event a) = some u) :
    HandledAlike s (h.event a) ↔ h.EndsFirst s := by
  constructor
  · intro halike
    by_contra hends
    obtain ⟨hundefined, henabled, -⟩ := step_event_iff.mp hu
    have hstep : step (s.logged false) (h.event a) = some (h.body (s.logged false) a) :=
      step_event_iff.mpr ⟨hundefined, (enabled_logged s h false).mpr henabled, rfl⟩
    exact (halike false false _ _ hstep hstep).2.2 (open_of_logged hopen harms ha hends hstep)
  · intro hends b b' v w hv hw
    have hs := reachable_unattached hr
    have hclosing := entered_closing hs hends
    have hfirst := outcome_of_endsFirst hs hopen harms ha hends hv
    have hsecond := outcome_of_endsFirst hs hopen harms ha hends hw
    refine ⟨congrArg Prod.fst (hsecond.trans hfirst.symm),
      congrArg Prod.snd (hsecond.trans hfirst.symm), ?_⟩
    rw [show v.m_connectionState = (h.entered s).m_connectionState from congrArg Prod.fst hfirst]
    exact hclosing

def greeted : State :=
  startRead (readDone (accept (initial true false) .started) .header) .packet .started

theorem greeted_reachable : machine.Reachable greeted := by
  have hrun : machine.run (initial true false)
      [.accept .started, .parseHeader none true .started] = some greeted := rfl
  exact Machine.run_reachable (.start ⟨true, false, rfl⟩) hrun

/-- A client whose packet cannot be decrypted is turned away in any case. -/
theorem rsa_failure_handled_alike :
    HandledAlike greeted (.parsePacket none ⟨false, true, .rsaFailed⟩ .operationThrows) :=
  (handled_alike_iff (h := .parsePacket none ⟨false, true, .rsaFailed⟩) (a := .operationThrows)
    greeted_reachable rfl ⟨rfl, rfl, rfl, Or.inr ⟨rfl, rfl⟩⟩ (by decide) rfl).mpr
      ⟨rfl, by decide⟩

/-- Once any connection has logged an error, a connection that cannot start its first read stays
open for good. -/
theorem logged_error_leaves_open :
    ¬ ∀ (s u : State) (h : Handler) (a : Arm), machine.Reachable s →
      s.m_connectionState = .CONNECTION_STATE_OPEN → h.Arms s → a ≠ .started →
      step s (h.event a) = some u → HandledAlike s (h.event a) := by
  intro hall
  have hreachable : machine.Reachable (initial false false) := .start ⟨false, false, rfl⟩
  have halike := hall (initial false false) _ .accept .operationThrows hreachable rfl trivial
    (by decide) rfl
  have hleft := (halike false false _ _ rfl rfl).2.2
  exact hleft (open_of_logged (s := initial false false) (h := .accept) rfl trivial (by decide)
    (fun hends => hends) rfl)

end LoginServer.Connection
