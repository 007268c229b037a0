import LoginServer.ConnectionClosing

/-! # The socket after `onStop`

A message that exists keeps a reference to its connection, so no write is under way and no message
can be had when `onStop` runs, and every other handler finds the connection closed. The timeout
handlers alone ask for nothing but a counter and an error flag before they close the socket. -/
namespace LoginServer.Connection

open Runs

/-- What the references to the connection are made of. -/
structure Ledger where
  refCount : ℤ
  writes : ℕ
  queued : ℕ
  holding : ℕ
  releases : ℕ
  accepted : Bool

def heldBy : Option Stage → ℕ
  | some .holding => 1
  | _ => 0

def State.ledger (s : State) : Ledger :=
  ⟨s.m_refCount, s.writes, s.queued, heldBy s.running, s.tasks.count .internalReleaseMessage,
    s.accepted⟩

/-- The references that no message of the connection itself accounts for. -/
def Ledger.balance (l : Ledger) : ℤ :=
  l.refCount - l.writes - l.queued - l.holding - l.releases

structure Booked (s u : State) (k : ℤ) : Prop where
  balance : u.ledger.balance = s.ledger.balance + k
  accepted : u.accepted = s.accepted

theorem booked_of_eq {s u : State} (h : u.ledger = s.ledger) : Booked s u 0 :=
  ⟨by rw [h, Int.add_zero], congrArg Ledger.accepted h⟩

theorem Booked.trans {s u v : State} {k l : ℤ} (h : Booked s u k) (h' : Booked u v l) :
    Booked s v (k + l) :=
  ⟨by rw [h'.balance, h.balance, Int.add_assoc], h'.accepted.trans h.accepted⟩

theorem Booked.then {s u v : State} {k : ℤ} (h : Booked s u k) (h' : v.ledger = u.ledger) :
    Booked s v k :=
  ⟨h' ▸ h.balance, (congrArg Ledger.accepted h').trans h.accepted⟩

theorem Booked.after {s u v : State} {k : ℤ} (h : Booked u v k) (h' : u.ledger = s.ledger) :
    Booked s v k :=
  ⟨h' ▸ h.balance, h.accepted.trans (congrArg Ledger.accepted h')⟩

theorem ledger_close (s : State) : (close s).ledger = s.ledger := by
  rw [close]
  split
  · rfl
  · simp [State.ledger, State.addTask]

theorem ledger_closeSocket (s : State) : (closeSocket s).ledger = s.ledger := by
  rw [closeSocket]
  split <;> rfl

theorem ledger_caught (s : State) : (caught s).ledger = s.ledger := by
  rw [caught]
  split
  · exact ledger_close _
  · rfl

theorem ledger_startRead (s : State) (r : Read) (a : Arm) :
    (startRead s r a).ledger = s.ledger := by
  cases a with
  | started => rfl
  | waitThrows | operationThrows => exact ledger_caught _

theorem ledger_handleReadError (s : State) (error : Option ErrorCode) :
    (handleReadError s error).ledger = s.ledger := by
  rw [handleReadError]
  split
  · rfl
  · exact ledger_close s

theorem ledger_handleWriteError (s : State) (error : Option ErrorCode) :
    (handleWriteError s error).ledger = s.ledger := by
  rw [handleWriteError]
  split
  · rfl
  · exact ledger_close s

theorem ledger_parseHeader (s : State) (error : Option ErrorCode) (sizeOk : Bool) (a : Arm) :
    (parseHeader s error sizeOk a).ledger = s.ledger := by
  have hread : (if error.isSome ∨ sizeOk = false then
      handleReadError { s with readTimers := cancel s.readTimers } error
      else { s with readTimers := cancel s.readTimers }).ledger = s.ledger := by
    split
    · exact ledger_handleReadError _ error
    · rfl
  unfold parseHeader
  dsimp only
  generalize (if error.isSome ∨ sizeOk = false then
    handleReadError { s with readTimers := cancel s.readTimers } error
    else { s with readTimers := cancel s.readTimers }) = v at hread ⊢
  split
  · exact (ledger_close v).trans hread
  · exact (ledger_startRead _ _ a).trans hread

theorem ledger_closeThroughProtocol (s : State) : (closeThroughProtocol s).ledger = s.ledger := by
  rw [closeThroughProtocol]
  split
  · exact ledger_close s
  · rfl

theorem ledger_setTimers (s : State) (write : Bool) (l : List Timer) :
    (s.setTimers write l).ledger = s.ledger := by
  rw [State.setTimers]
  split <;> rfl

theorem ledger_onReadTimeout (s : State) : (onReadTimeout s).ledger = s.ledger := by
  rw [onReadTimeout]
  split
  · exact (ledger_close _).trans (ledger_closeSocket s)
  · rfl

theorem ledger_onWriteTimeout (s : State) : (onWriteTimeout s).ledger = s.ledger := by
  rw [onWriteTimeout]
  split
  · exact (ledger_close _).trans (ledger_closeSocket s)
  · rfl

theorem ledger_releaseConnection (s : State) (throws : Bool) :
    (releaseConnection s throws).ledger = s.ledger := by
  unfold releaseConnection deleteConnection
  split
  · rfl
  · split <;> rfl

theorem ledger_releaseProtocol (s : State) : (releaseProtocol s).ledger = s.ledger := by
  rw [releaseProtocol]
  split <;> rfl

theorem ledger_closeConnection (s : State) (throws : Bool) :
    (closeConnection s throws).ledger = s.ledger := by
  have henter : (enterClosing s).ledger = s.ledger := by
    unfold enterClosing detachProtocol
    split
    · exact ledger_releaseProtocol (setConnection s false)
    · rfl
  rw [closeConnection]
  split
  · rfl
  · split
    · exact (ledger_releaseConnection _ throws).trans ((ledger_closeSocket _).trans henter)
    · exact henter

theorem ledger_retry (s : State) (throws : Bool) (r : Retry) :
    (s.retry throws r).ledger = s.ledger := by
  cases r with
  | releaseConnection => exact ledger_releaseConnection s throws
  | releaseProtocol => exact ledger_releaseProtocol s

theorem releaseMessage_booked (s : State) : Booked s (releaseMessage s) (-1) := by
  refine ⟨?_, rfl⟩
  simp only [Ledger.balance, State.ledger, releaseMessage, State.addTaskFront,
    List.count_cons_self]
  push_cast
  omega

theorem internalSend_booked (s : State) (a : Arm) : Booked s (internalSend s a) (-1) := by
  cases a with
  | started =>
    refine ⟨?_, rfl⟩
    simp only [Ledger.balance, State.ledger, internalSend]
    push_cast
    omega
  | waitThrows | operationThrows =>
    exact (releaseMessage_booked _).after rfl

theorem send_booked (s : State) (a : Arm) : Booked s (send s a) (-1) := by
  rw [send]
  split
  · exact releaseMessage_booked s
  · split
    · exact internalSend_booked s a
    · split
      · exact (releaseMessage_booked _).after (ledger_close s)
      · refine ⟨?_, rfl⟩
        simp only [Ledger.balance, State.ledger]
        push_cast
        omega

theorem getOutputMessage_booked {s u : State} {pool : Bool}
    (h : getOutputMessage s pool = some u) : Booked s u 1 := by
  rw [getOutputMessage] at h
  split at h <;> cases h
  refine ⟨?_, rfl⟩
  simp only [Ledger.balance, State.ledger]
  omega

theorem disconnectClient_booked (s : State) (pool : Bool) (a : Arm) :
    Booked s (disconnectClient s pool a) 0 := by
  rw [disconnectClient]
  split
  · rename_i u hu
    exact ((getOutputMessage_booked hu).trans (send_booked u a)).then (ledger_closeThroughProtocol _)
  · exact booked_of_eq (ledger_closeThroughProtocol s)

theorem onRecvFirstMessage_booked (s : State) (f : FirstMessage) :
    Booked s (onRecvFirstMessage s f) 0 := by
  cases f with
  | rsaFailed => exact booked_of_eq (ledger_closeThroughProtocol s)
  | disconnected pool a => exact disconnectClient_booked s pool a
  | dispatched =>
    refine booked_of_eq ?_
    simp [State.ledger, onRecvFirstMessage, State.addTask]

theorem firstPacket_booked (s : State) (p : Packet) (a : Arm) :
    Booked s (firstPacket s p a) 0 := by
  rw [firstPacket]
  dsimp only
  split
  · exact booked_of_eq (ledger_close _)
  · have hattached : Booked s (if s.m_protocol then { s with m_receivedFirst := true }
        else attachProtocol { s with m_receivedFirst := true }) 0 := by
      split <;> exact booked_of_eq rfl
    exact (hattached.trans (onRecvFirstMessage_booked _ p.first)).then (ledger_startRead _ _ a)

theorem parsePacket_booked (s : State) (error : Option ErrorCode) (p : Packet) (a : Arm) :
    Booked s (parsePacket s error p a) 0 := by
  have hread : (if error.isSome then
      handleReadError { s with readTimers := cancel s.readTimers } error
      else { s with readTimers := cancel s.readTimers }).ledger = s.ledger := by
    split
    · exact ledger_handleReadError _ error
    · rfl
  unfold parsePacket
  dsimp only
  generalize (if error.isSome then handleReadError { s with readTimers := cancel s.readTimers } error
    else { s with readTimers := cancel s.readTimers }) = v at hread ⊢
  split
  · exact booked_of_eq ((ledger_close v).trans hread)
  · split
    · exact booked_of_eq ((ledger_close v).trans hread)
    · split
      · exact (firstPacket_booked _ p a).after hread
      · split
        · exact booked_of_eq ((ledger_startRead _ _ a).trans hread)
        · exact booked_of_eq hread

theorem onWrite_cases (s : State) (error : Option ErrorCode) : ∃ v, v.ledger = s.ledger ∧
    (onWrite s error = releaseMessage (close (closeSocket v)) ∨
      onWrite s error = releaseMessage { v with m_pendingWrite := v.m_pendingWrite - 1 }) := by
  have hwrite : (if error.isSome then
      handleWriteError { s with writeTimers := cancel s.writeTimers } error
      else { s with writeTimers := cancel s.writeTimers }).ledger = s.ledger := by
    split
    · exact ledger_handleWriteError _ error
    · rfl
  unfold onWrite
  dsimp only
  generalize (if error.isSome then handleWriteError { s with writeTimers := cancel s.writeTimers } error
    else { s with writeTimers := cancel s.writeTimers }) = v at hwrite ⊢
  refine ⟨v, hwrite, ?_⟩
  split
  · exact .inl rfl
  · exact .inr rfl

theorem onWrite_booked (s : State) (error : Option ErrorCode) : Booked s (onWrite s error) (-1) := by
  obtain ⟨v, hv, heq | heq⟩ := onWrite_cases s error
  · rw [heq]
    exact (releaseMessage_booked _).after (((ledger_close _).trans (ledger_closeSocket v)).trans hv)
  · rw [heq]
    exact (releaseMessage_booked _).after hv

theorem timeoutHandler_ledger {s u : State} {write : Bool} {t : Timer}
    (h : timeoutHandler s write t = some u) : u.ledger = s.ledger := by
  cases t with
  | armed => cases h
  | aborted | expired =>
    cases h
    exact ledger_setTimers s write _
  | locked =>
    cases h
    cases write with
    | false => exact (ledger_onReadTimeout _).trans (ledger_setTimers s false _)
    | true => exact (ledger_onWriteTimeout _).trans (ledger_setTimers s true _)

theorem execute_booked {s : State} {t : Task} {rest : List Task} (hr : s.running = none)
    (ht : s.tasks = t :: rest) (throws : Bool) :
    Booked s ({ s with tasks := rest }.execute throws t) 0 := by
  cases t with
  | internalReleaseMessage =>
    refine ⟨?_, rfl⟩
    simp only [Ledger.balance, State.ledger, State.execute, internalReleaseMessage, ht,
      List.count_cons_self]
    push_cast
    omega
  | closeConnection =>
    refine booked_of_eq ((ledger_closeConnection _ throws).trans ?_)
    simp [State.ledger, ht]
  | delegate =>
    refine booked_of_eq ?_
    simp [State.ledger, State.execute, ht, hr, heldBy]
  | retry r =>
    refine booked_of_eq ((ledger_retry _ throws r).trans ?_)
    simp [State.ledger, ht]

theorem delegateStep_booked {s u : State} {stage : Stage} {e : Event}
    (hr : s.running = some stage) (h : delegateStep s stage e = some u) : Booked s u 0 := by
  have hrunning : ∀ v : State, ∀ next, v.running = some stage → Booked v { v with running := next }
      (heldBy (some stage) - heldBy next) := by
    intro v next hv
    refine ⟨?_, rfl⟩
    simp only [Ledger.balance, State.ledger, hv]
    omega
  simp only [delegateStep] at h
  split at h
  · split at h
    · cases h
    · rename_i hstage
      obtain rfl := not_not.mp hstage
      split at h
      · rename_i v hv
        cases h
        have hkeep : v.running = s.running :=
          congrArg Outline.running (getOutputMessage_calm hv).outline
        exact (getOutputMessage_booked hv).trans (hrunning v (some .holding) (hkeep.trans hr))
      · cases h
        exact hrunning s (some .submitted) hr
  · split at h
    · rename_i hstage
      cases h
      obtain rfl := hstage
      have hkeep : ∀ a, (send s a).running = s.running :=
        fun a => congrArg Outline.running (send_calm s a).outline
      exact (send_booked s _).trans (hrunning _ (some .submitted) ((hkeep _).trans hr))
    · cases h
  · split at h
    · rename_i hstage
      cases h
      obtain rfl := hstage
      have hkeep : (closeThroughProtocol s).running = s.running :=
        congrArg Outline.running (closeThroughProtocol_calm s).outline
      exact (hrunning _ none (hkeep.trans hr)).after (ledger_closeThroughProtocol s)
    · cases h
  · cases h

theorem queueTaken_booked {s : State} (hq : s.queued ≠ 0) :
    Booked s { s with queued := s.queued - 1 } 1 := by
  refine ⟨?_, rfl⟩
  simp only [Ledger.balance, State.ledger]
  omega

theorem step_booked {s u : State} {e : Event} (ha : s.accepted = true) (h : step s e = some u) :
    Booked s u 0 := by
  rw [step] at h
  split at h
  · cases h
  cases e with
  | accept a =>
    simp only [liveStep, ha, if_true] at h
    cases h
  | parseHeader error sizeOk a =>
    simp only [liveStep] at h
    split at h <;> cases h
    exact booked_of_eq (ledger_parseHeader _ error sizeOk a)
  | parsePacket error p a =>
    simp only [liveStep] at h
    split at h <;> cases h
    exact (parsePacket_booked _ error p a).after rfl
  | onWrite error =>
    simp only [liveStep] at h
    split at h <;> cases h
    rename_i hw
    have htaken : Booked s { s with writes := s.writes - 1 } 1 := by
      refine ⟨?_, rfl⟩
      simp only [Ledger.balance, State.ledger]
      omega
    exact htaken.trans (onWrite_booked _ error)
  | expire write =>
    cases h
    exact booked_of_eq (ledger_setTimers s write _)
  | timeout write t =>
    simp only [liveStep] at h
    split at h
    · exact booked_of_eq (timeoutHandler_ledger h)
    · cases h
  | close =>
    cases h
    exact booked_of_eq (ledger_close s)
  | dispatch throws =>
    simp only [liveStep] at h
    split at h <;> cases h
    rename_i hr ht
    exact execute_booked hr ht throws
  | obtain pool | submit a | delegateClose =>
    obtain ⟨stage, hr, hd⟩ := Option.bind_eq_some_iff.mp h
    exact delegateStep_booked hr hd
  | sendAll a =>
    simp only [liveStep] at h
    split at h <;> cases h
    rename_i hq
    exact (queueTaken_booked hq.2).trans (send_booked _ a)
  | sendAllDrop =>
    simp only [liveStep] at h
    split at h <;> cases h
    rename_i hq
    exact (queueTaken_booked hq.2).trans (releaseMessage_booked _)
  | fire r =>
    simp only [liveStep] at h
    split at h <;> cases h
    refine booked_of_eq ?_
    simp [State.ledger, State.addTaskFront]
  | onStop =>
    simp only [liveStep] at h
    split at h <;> cases h
    refine booked_of_eq ?_
    rw [onStop]
    split <;> rfl
  | managerRelease =>
    simp only [liveStep] at h
    split at h <;> cases h
    exact booked_of_eq rfl
  | logErrorElsewhere =>
    cases h
    exact booked_of_eq rfl

theorem refCount_of_ledger {s u : State} (h : u.ledger = s.ledger) : u.m_refCount = s.m_refCount :=
  congrArg Ledger.refCount h

theorem send_refused {s : State} (ho : s.m_connectionState ≠ .CONNECTION_STATE_OPEN) (a : Arm) :
    send s a = releaseMessage s := by rw [send, if_pos (.inl ho)]

theorem handleReadError_not_open {s : State} (ho : s.m_connectionState ≠ .CONNECTION_STATE_OPEN)
    (error : Option ErrorCode) :
    (handleReadError s error).m_connectionState ≠ .CONNECTION_STATE_OPEN :=
  fun h => ho ((handleReadError_calm s error).open h)

theorem parsePacket_not_open {s : State} (ho : s.m_connectionState ≠ .CONNECTION_STATE_OPEN)
    (error : Option ErrorCode) (p : Packet) (a : Arm) :
    (parsePacket s error p a).ledger = s.ledger := by
  have hread : (if error.isSome then
      handleReadError { s with readTimers := cancel s.readTimers } error
      else { s with readTimers := cancel s.readTimers }).ledger = s.ledger ∧
      (if error.isSome then
      handleReadError { s with readTimers := cancel s.readTimers } error
      else { s with readTimers := cancel s.readTimers }).m_connectionState ≠
        .CONNECTION_STATE_OPEN := by
    split
    · exact ⟨ledger_handleReadError _ error, handleReadError_not_open (by exact ho) error⟩
    · exact ⟨rfl, ho⟩
  unfold parsePacket
  dsimp only
  rw [if_pos (.inl hread.2)]
  exact (ledger_close _).trans hread.1

theorem onWrite_refCount (s : State) (error : Option ErrorCode) :
    (onWrite s error).m_refCount = s.m_refCount := by
  obtain ⟨v, hv, heq | heq⟩ := onWrite_cases s error
  · rw [heq]
    have hclose := refCount_of_ledger (((ledger_close _).trans (ledger_closeSocket v)).trans hv)
    exact hclose
  · rw [heq]
    have hsame := refCount_of_ledger hv
    exact hsame

theorem getOutputMessage_disconnected {s : State} (hp : s.protocol.any (·.m_connection) = false)
    (pool : Bool) : getOutputMessage s pool = none := by
  rw [getOutputMessage, if_neg]
  simp [hp]

/-- Once the connection is closed and its protocol detached, references only go away. -/
theorem step_refCount_le {s u : State} {e : Event} (ha : s.accepted = true)
    (ho : s.m_connectionState ≠ .CONNECTION_STATE_OPEN)
    (hp : s.protocol.any (·.m_connection) = false) (h : step s e = some u) :
    u.m_refCount ≤ s.m_refCount := by
  rw [step] at h
  split at h
  · cases h
  cases e with
  | accept a =>
    simp only [liveStep, ha, if_true] at h
    cases h
  | parseHeader error sizeOk a =>
    simp only [liveStep] at h
    split at h <;> cases h
    exact Int.le_of_eq (refCount_of_ledger (ledger_parseHeader _ error sizeOk a))
  | parsePacket error p a =>
    simp only [liveStep] at h
    split at h <;> cases h
    exact Int.le_of_eq (refCount_of_ledger (parsePacket_not_open (by exact ho) error p a))
  | onWrite error =>
    simp only [liveStep] at h
    split at h <;> cases h
    exact Int.le_of_eq (onWrite_refCount _ error)
  | expire write =>
    cases h
    exact Int.le_of_eq (refCount_of_ledger (ledger_setTimers s write _))
  | timeout write t =>
    simp only [liveStep] at h
    split at h
    · exact Int.le_of_eq (refCount_of_ledger (timeoutHandler_ledger h))
    · cases h
  | close =>
    cases h
    exact Int.le_of_eq (refCount_of_ledger (ledger_close s))
  | dispatch throws =>
    simp only [liveStep] at h
    split at h <;> cases h
    rename_i t rest hr ht
    cases t with
    | internalReleaseMessage =>
      simp only [State.execute, internalReleaseMessage]
      omega
    | closeConnection =>
      have hclose := refCount_of_ledger (ledger_closeConnection { s with tasks := rest } throws)
      exact Int.le_of_eq hclose
    | delegate => exact Int.le_refl _
    | retry r =>
      have hretry := refCount_of_ledger (ledger_retry { s with tasks := rest } throws r)
      exact Int.le_of_eq hretry
  | obtain pool | submit a =>
    obtain ⟨stage, -, hd⟩ := Option.bind_eq_some_iff.mp h
    simp only [delegateStep, getOutputMessage_disconnected hp, send_refused ho] at hd
    split at hd <;> cases hd
    exact Int.le_refl _
  | delegateClose =>
    obtain ⟨stage, -, hd⟩ := Option.bind_eq_some_iff.mp h
    simp only [delegateStep] at hd
    split at hd <;> cases hd
    have hclose := refCount_of_ledger (ledger_closeThroughProtocol s)
    exact Int.le_of_eq hclose
  | sendAll a =>
    simp only [liveStep] at h
    split at h <;> cases h
    rw [send_refused (by exact ho)]
    exact Int.le_refl _
  | sendAllDrop | fire | managerRelease =>
    simp only [liveStep] at h
    split at h <;> cases h
    exact Int.le_refl _
  | onStop =>
    simp only [liveStep] at h
    split at h <;> cases h
    rw [onStop]
    split <;> exact Int.le_refl _
  | logErrorElsewhere =>
    cases h
    exact Int.le_refl _

def Detached (s : State) : Prop :=
  s.m_protocol = false ∨ s.m_connectionState = .CONNECTION_STATE_CLOSING ∨
    s.m_connectionState = .CONNECTION_STATE_CLOSED → s.protocol.any (·.m_connection) = false

theorem any_of_view {s u : State} (h : protocolView u = protocolView s) :
    u.protocol.any (·.m_connection) = s.protocol.any (·.m_connection) := by
  have hview : ∀ v : State, v.protocol.any (·.m_connection) = (protocolView v).any (·.2) := by
    intro v
    rw [protocolView]
    cases v.protocol <;> rfl
  rw [hview, hview, h]

theorem Calm.detached {s u : State} (h : Calm s u) (hs : Detached s) : Detached u := by
  intro hu
  rw [any_of_view (congrArg Outline.protocol h.outline)]
  have hattached : u.m_protocol = s.m_protocol := congrArg Outline.attached h.outline
  refine hs ?_
  obtain ⟨n, back, -, ⟨hsame, -⟩ | ⟨-, hrequest, -⟩⟩ := h.tasks
  · rwa [hattached, hsame] at hu
  · rw [hattached, hrequest] at hu
    exact .inl (by simpa using hu)

theorem firstPacket_detached {s : State} (ho : s.m_connectionState = .CONNECTION_STATE_OPEN)
    (hs : Detached s) (p : Packet) (a : Arm) : Detached (firstPacket s p a) := by
  have hattached : ∀ v, (v = attachProtocol { s with m_receivedFirst := true } ∨
      s.m_protocol = true ∧ v = { s with m_receivedFirst := true }) → Detached v := by
    rintro v (rfl | ⟨-, rfl⟩)
    · intro hv
      simp [attachProtocol, ho] at hv
    · exact hs
  rcases firstPacket_cases s p a with hc | ⟨v, hv, hc | hc⟩
  · exact hc.detached hs
  · exact hc.detached (hattached v hv)
  · exact hc.detached (hattached v hv)

theorem releaseProtocol_detached {s : State} (hs : s.protocol.any (·.m_connection) = false) :
    (releaseProtocol s).protocol.any (·.m_connection) = false := by
  rw [releaseProtocol]
  split
  · exact hs
  · rw [deleteProtocolTask]
    cases s.protocol <;> rfl

theorem detachProtocol_any {s : State} (hs : Detached s) :
    (detachProtocol s).protocol.any (·.m_connection) = false := by
  rw [detachProtocol]
  split
  · refine releaseProtocol_detached ?_
    rw [setConnection]
    cases s.protocol <;> rfl
  · rename_i hm
    exact hs (.inl (Bool.not_eq_true _ ▸ hm))

theorem releaseConnection_any (s : State) (throws : Bool) :
    (releaseConnection s throws).protocol = s.protocol ∧
      (releaseConnection s throws).m_protocol = s.m_protocol ∧
      (releaseConnection s throws).m_connectionState = s.m_connectionState := by
  unfold releaseConnection deleteConnection
  split
  · exact ⟨rfl, rfl, rfl⟩
  · split <;> exact ⟨rfl, rfl, rfl⟩

theorem closeConnection_detached {s : State} (hs : Detached s) (throws : Bool) :
    Detached (closeConnection s throws) := by
  have henter : (enterClosing s).protocol.any (·.m_connection) = false := detachProtocol_any hs
  rw [closeConnection]
  split
  · exact hs
  · split
    · have hview := congrArg Outline.protocol (closeSocket_calm (enterClosing s)).outline
      have hsocket := any_of_view hview
      intro _
      rw [finishClose, (releaseConnection_any _ throws).1]
      exact hsocket.trans henter
    · exact fun _ => henter

theorem step_detached {s u : State} {e : Event} (hs : Detached s) (h : step s e = some u) :
    Detached u := by
  cases step_effect h with
  | calm he hc => exact hc.detached hs
  | firstPacket error p a hc ho hf => exact firstPacket_detached ho (hc.detached hs) p a
  | delegate next hr hc he => exact hc.detached hs
  | fire hr => exact hs
  | onStop hp =>
    rw [onStop]
    split <;> exact hs
  | managerRelease hst => exact hs
  | @dispatch t rest throws hr ht =>
    cases t with
    | closeConnection => exact closeConnection_detached (s := { s with tasks := rest }) hs throws
    | delegate => exact hs
    | internalReleaseMessage =>
      intro hu
      have hany := hs hu
      simp only [State.execute, internalReleaseMessage]
      revert hany
      cases s.protocol <;> exact id
    | retry r =>
      cases r with
      | releaseConnection =>
        obtain ⟨hprotocol, hattached, hstate⟩ :=
          releaseConnection_any { s with tasks := rest } throws
        intro hu
        simp only [State.execute, State.retry, hattached, hstate] at hu
        exact (congrArg (·.any (·.m_connection)) hprotocol).trans (hs hu)
      | releaseProtocol =>
        have hkeep : (releaseProtocol { s with tasks := rest }).m_protocol = s.m_protocol ∧
            (releaseProtocol { s with tasks := rest }).m_connectionState = s.m_connectionState := by
          rw [releaseProtocol]
          split <;> exact ⟨rfl, rfl⟩
        intro hu
        simp only [State.execute, State.retry, hkeep] at hu
        exact releaseProtocol_detached (s := { s with tasks := rest }) (hs hu)

def Leaving (s : State) : Prop := 0 < s.posted + s.stopping.toNat + s.stops

theorem Leaving.closed {s : State} (h : Leaving s) (hs : Releasing s) :
    s.m_connectionState = .CONNECTION_STATE_CLOSED := by
  by_contra hne
  have hnone := hs.releases
  rw [if_neg hne, releases] at hnone
  rw [Leaving] at h
  omega

theorem SameRelease.leaving {s u : State} (h : SameRelease s u) : Leaving u ↔ Leaving s := by
  rw [Leaving, Leaving, h.posted, h.stopping, h.stops]

theorem releaseConnection_leaving {s : State} (throws : Bool) (hs : ¬ Leaving s)
    (h : Leaving (releaseConnection s throws)) :
    (releaseConnection s throws).m_refCount = 0 := by
  rw [releaseConnection] at h ⊢
  split at h
  · exact absurd h hs
  · rename_i hzero
    rw [if_neg hzero, deleteConnection]
    split <;> exact not_not.mp hzero

theorem closeConnection_leaving {s : State} (throws : Bool) (hs : ¬ Leaving s)
    (h : Leaving (closeConnection s throws)) : (closeConnection s throws).m_refCount = 0 := by
  have henter := enterClosing_release s
  have hclosed := henter.trans (closeSocket_calm (enterClosing s)).release
  rw [closeConnection] at h ⊢
  split at h
  · exact absurd h hs
  · rename_i hstate
    rw [if_neg hstate]
    split at h
    · rename_i hdone
      rw [if_pos hdone]
      exact releaseConnection_leaving throws (fun hl => hs (hclosed.leaving.mp hl)) h
    · exact absurd (henter.leaving.mp h) hs

theorem step_leaving {s u : State} {e : Event} (hs : ¬ Leaving s) (h : step s e = some u)
    (hu : Leaving u) : u.m_refCount = 0 := by
  cases step_effect h with
  | calm he hc => exact absurd (hc.release.leaving.mp hu) hs
  | @firstPacket v error p a hc ho hf =>
    obtain ⟨w, hcalm, -, hkeep⟩ := firstPacket_base v p a
    exact absurd (((hc.release.trans hkeep).trans hcalm.release).leaving.mp hu) hs
  | @delegate _ v next hr hc he =>
    have hkeep : SameRelease v { v with running := next } := ⟨rfl, rfl, rfl, rfl⟩
    exact absurd ((hc.release.trans hkeep).leaving.mp hu) hs
  | fire hr => exact absurd hu hs
  | onStop hp =>
    rw [Leaving] at hs
    omega
  | managerRelease hst =>
    rw [Leaving, hst, Bool.toNat_true] at hs
    omega
  | @dispatch t rest throws hr ht =>
    have hrest : SameRelease s { s with tasks := rest } := ⟨rfl, rfl, rfl, rfl⟩
    cases t with
    | closeConnection => exact closeConnection_leaving throws (fun hl => hs (hrest.leaving.mp hl)) hu
    | delegate | internalReleaseMessage => exact absurd hu hs
    | retry r =>
      cases r with
      | releaseConnection =>
        exact releaseConnection_leaving throws (fun hl => hs (hrest.leaving.mp hl)) hu
      | releaseProtocol =>
        exact absurd ((hrest.trans (releaseProtocol_release _)).leaving.mp hu) hs

/-- What excludes the handlers from a connection that is stopped. -/
structure Accounted (s : Shared) : Prop where
  releasing : Releasing s.connection
  detached : Detached s.connection
  accepted : s.connection.accepted = true
  balance : s.connection.ledger.balance = s.held
  unreferenced : Leaving s.connection → s.connection.m_refCount = 0

namespace Accounted

variable {s u : Shared} {c : Call}

theorem disconnected (h : Accounted s) (hl : Leaving s.connection) :
    s.connection.m_connectionState ≠ .CONNECTION_STATE_OPEN ∧
      s.connection.protocol.any (·.m_connection) = false := by
  have hclosed := hl.closed h.releasing
  exact ⟨by simp [hclosed], h.detached (.inr (.inr hclosed))⟩

theorem own {v : State} {e : Event} (h : Accounted s) (hv : step s.connection e = some v) :
    Accounted ⟨v, s.held⟩ := by
  have hbooked := step_booked h.accepted hv
  have hbalance : v.ledger.balance = s.held := by rw [hbooked.balance, h.balance, Int.add_zero]
  refine ⟨step_releasing h.releasing hv, step_detached h.detached hv,
    hbooked.accepted.trans h.accepted, hbalance, fun hl => ?_⟩
  by_cases hs : Leaving s.connection
  · obtain ⟨hopen, hany⟩ := h.disconnected hs
    have hle := step_refCount_le h.accepted hopen hany hv
    have hnonneg : 0 ≤ v.m_refCount := by
      simp only [Ledger.balance, State.ledger] at hbalance
      omega
    have hzero := h.unreferenced hs
    exact Int.le_antisymm (hzero ▸ hle) hnonneg
  · exact step_leaving hs hv hl

theorem other {v : State} {k : ℤ} {n : ℕ} (h : Accounted s) (hc : Calm s.connection v)
    (hb : Booked s.connection v k) (hn : s.held + k = n)
    (hr : Leaving s.connection → v.m_refCount = s.connection.m_refCount) : Accounted ⟨v, n⟩ := by
  refine ⟨hc.releasing h.releasing, hc.detached h.detached, hb.accepted.trans h.accepted, ?_, ?_⟩
  · rw [hb.balance, h.balance, hn]
  · intro hl
    have hs : Leaving s.connection := hc.release.leaving.mp hl
    exact (hr hs).trans (h.unreferenced hs)

theorem step (h : Accounted s) (hs : sharedStep s c = some u) : Accounted u := by
  cases c with
  | own e =>
    obtain ⟨v, hv, rfl⟩ := Option.map_eq_some_iff.mp hs
    exact h.own hv
  | getOutputMessage pool =>
    simp only [sharedStep] at hs
    split at hs
    · cases hs
    · obtain ⟨v, hv, rfl⟩ := Option.map_eq_some_iff.mp hs
      refine h.other (getOutputMessage_calm hv) (getOutputMessage_booked hv) rfl fun hl => ?_
      rw [getOutputMessage_disconnected (h.disconnected hl).2] at hv
      cases hv
  | send a =>
    simp only [sharedStep] at hs
    split at hs <;> cases hs
    rename_i hheld
    refine h.other (send_calm _ a) (send_booked _ a) (by omega) fun hl => ?_
    rw [send_refused (h.disconnected hl).1]
    rfl
  | drop =>
    simp only [sharedStep] at hs
    split at hs <;> cases hs
    rename_i hheld
    exact h.other (releaseMessage_calm _) (releaseMessage_booked _) (by omega) fun _ => rfl

/-- Nothing is left that a handler could use after `onStop` but an error flag. -/
theorem stopped (h : Accounted s) (hs : s.connection.m_socket = none) :
    s.connection.m_connectionState = .CONNECTION_STATE_CLOSED ∧ s.connection.posted = 0 ∧
      s.connection.writes = 0 := by
  have hsocket := h.releasing.socket
  rw [hs, Option.isNone_none] at hsocket
  have hstopped := of_decide_eq_true hsocket.symm
  have hl : Leaving s.connection := by
    rw [Leaving]
    omega
  have hclosed := hl.closed h.releasing
  have hreleases := h.releasing.releases
  rw [if_pos hclosed, releases] at hreleases
  have hbalance := h.balance
  simp only [Ledger.balance, State.ledger, h.unreferenced hl] at hbalance
  exact ⟨hclosed, by omega, by omega⟩

end Accounted

theorem accepted_accounted (logError forceClose : Bool) (a : Arm) :
    Accounted ⟨accept (initial logError forceClose) a, 0⟩ := by
  have hcalm := accept_calm (initial logError forceClose) a
  have hledger : (accept (initial logError forceClose) a).ledger =
      { initial logError forceClose with accepted := true }.ledger := ledger_startRead _ _ a
  have hinitial : Detached (initial logError forceClose) := fun _ => rfl
  refine ⟨hcalm.releasing (initial_releasing logError forceClose), hcalm.detached hinitial,
    congrArg Ledger.accepted hledger, ?_, fun hl => ?_⟩
  · rw [hledger]
    rfl
  · exact absurd (hcalm.release.leaving.mp hl) (Nat.lt_irrefl 0)

/-- `send` starts a write when none is pending. -/
def SendUsesSocket (s : State) : Prop :=
  s.m_connectionState = .CONNECTION_STATE_OPEN ∧ s.m_writeError = false ∧ s.m_pendingWrite = 0

/-- What `onReadTimeout` and `onWriteTimeout` ask for before they close the socket. -/
def PendingOrFailed (s : State) : Bool → Prop
  | false => s.m_pendingRead > 0 ∨ s.m_readError = true
  | true => s.m_pendingWrite > 0 ∨ s.m_writeError = true

/-- The step comes to code that uses `m_socket`. A read handler that finds the connection open
counts, whatever it does then. -/
def UsesSocket (s : State) : Event → Prop
  | .accept _ | .onStop => True
  | .parseHeader _ _ _ | .parsePacket _ _ _ =>
    s.m_connectionState = .CONNECTION_STATE_OPEN ∧ s.m_readError = false
  | .onWrite error =>
    error.isSome ∨ s.m_connectionState ≠ .CONNECTION_STATE_OPEN ∨ s.m_writeError = true
  | .timeout write .locked => PendingOrFailed s write
  | .dispatch _ => s.running = none ∧ s.tasks.head? = some .closeConnection ∧
      s.m_connectionState = .CONNECTION_STATE_REQUEST_CLOSE ∧ WritesDone s
  | .submit _ | .sendAll _ => SendUsesSocket s
  | _ => False

def CallUsesSocket (s : Shared) : Call → Prop
  | .own e => UsesSocket s.connection e
  | .send _ => SendUsesSocket s.connection
  | .getOutputMessage _ | .drop => False

/-- The step leaves a deleted socket alone. -/
def SocketKept (s : Shared) (c : Call) : Prop :=
  s.connection.m_socket = none → ¬ CallUsesSocket s c

/-- After `onStop` no timeout handler that holds the connection finds a pending operation or an
error. -/
def TimeoutsIdle (s : Shared) (c : Call) : Prop :=
  s.connection.m_socket = none →
    ∀ write, c = .own (.timeout write .locked) → ¬ PendingOrFailed s.connection write

theorem socketKept_iff {s u : Shared} {c : Call} (h : Accounted s) (hs : sharedStep s c = some u) :
    SocketKept s c ↔ TimeoutsIdle s c := by
  refine forall_congr' fun hsocket => ?_
  obtain ⟨hclosed, hposted, hwrites⟩ := h.stopped hsocket
  cases c with
  | getOutputMessage pool | drop => simp [CallUsesSocket]
  | send a => simp [CallUsesSocket, SendUsesSocket, hclosed]
  | own e =>
    obtain ⟨v, hv, -⟩ := Option.map_eq_some_iff.mp hs
    rw [Connection.step] at hv
    split at hv
    · cases hv
    cases e with
    | accept a => simp [liveStep, h.accepted] at hv
    | onStop => simp [liveStep, hposted] at hv
    | onWrite error => simp [liveStep, hwrites] at hv
    | parseHeader error sizeOk a | parsePacket error p a =>
      simp [CallUsesSocket, UsesSocket, hclosed]
    | submit a | sendAll a => simp [CallUsesSocket, UsesSocket, SendUsesSocket, hclosed]
    | dispatch throws => simp [CallUsesSocket, UsesSocket, hclosed]
    | timeout write t => cases t <;> simp [CallUsesSocket, UsesSocket]
    | expire | close | obtain | delegateClose | sendAllDrop | fire | managerRelease
    | logErrorElsewhere => simp [CallUsesSocket, UsesSocket]

/-- In a run from the accept on, a deleted socket is used just when a timeout handler that took its
pointer in time enters late and finds a pending operation or an error. -/
theorem socket_kept_iff {logError forceClose : Bool} {a : Arm} {es : List Call} {u : Shared}
    (h : shared.run ⟨accept (initial logError forceClose) a, 0⟩ es = some u) :
    shared.AllSteps SocketKept ⟨accept (initial logError forceClose) a, 0⟩ es ↔
      shared.AllSteps TimeoutsIdle ⟨accept (initial logError forceClose) a, 0⟩ es :=
  Machine.allSteps_congr (I := Accounted) (fun _ _ _ hi hs => hi.step hs)
    (fun _ _ _ hi hs => socketKept_iff hi hs) (accepted_accounted logError forceClose a) h

instance (s : State) : Decidable (SendUsesSocket s) := inferInstanceAs (Decidable (_ ∧ _))

instance (s : State) : (write : Bool) → Decidable (PendingOrFailed s write)
  | false | true => inferInstanceAs (Decidable (_ ∨ _))

instance (s : State) : (e : Event) → Decidable (UsesSocket s e)
  | .accept _ | .onStop => isTrue trivial
  | .parseHeader _ _ _ | .parsePacket _ _ _ => inferInstanceAs (Decidable (_ ∧ _))
  | .onWrite _ => inferInstanceAs (Decidable (_ ∨ _ ∨ _))
  | .timeout write .locked => inferInstanceAs (Decidable (PendingOrFailed s write))
  | .dispatch _ => inferInstanceAs (Decidable (_ ∧ _ ∧ _ ∧ _))
  | .submit _ | .sendAll _ => inferInstanceAs (Decidable (SendUsesSocket s))
  | .expire _ | .timeout _ .armed | .timeout _ .expired | .timeout _ .aborted | .close | .obtain _
  | .delegateClose | .sendAllDrop | .fire _ | .managerRelease | .logErrorElsewhere => isFalse id

instance (s : Shared) : (c : Call) → Decidable (CallUsesSocket s c)
  | .own e => inferInstanceAs (Decidable (UsesSocket s.connection e))
  | .send _ => inferInstanceAs (Decidable (SendUsesSocket s.connection))
  | .getOutputMessage _ | .drop => isFalse id

instance (s : Shared) (c : Call) : Decidable (SocketKept s c) :=
  inferInstanceAs (Decidable (_ → ¬ _))

def lateTimeoutTrace : List Call :=
  [.own (.parseHeader none true .started),
    .own (.parsePacket none ⟨false, true, .dispatched⟩ .started), .own (.dispatch false),
    .own (.obtain true), .own (.submit .started), .own (.expire true), .own (.timeout true .expired),
    .own (.onWrite (some .closed_remotely)), .own .delegateClose, .own (.dispatch false), .own (.dispatch false),
    .own .onStop, .own (.timeout true .locked)]

theorem late_timeout_uses_socket : ¬ ∀ (logError forceClose : Bool) (a : Arm) (es : List Call)
    (u : Shared), shared.run ⟨accept (initial logError forceClose) a, 0⟩ es = some u →
    shared.AllSteps SocketKept ⟨accept (initial logError forceClose) a, 0⟩ es := by
  intro hall
  have hr : (shared.run ⟨accept (initial true false) .started, 0⟩ lateTimeoutTrace).isSome := by
    decide
  obtain ⟨u, hu⟩ := Option.isSome_iff_exists.mp hr
  have hkept := hall true false .started lateTimeoutTrace u hu
  exact absurd hkept (by decide)

def earlyTimeoutTrace : List Call :=
  [.own (.parseHeader none true .started),
    .own (.parsePacket none ⟨false, true, .dispatched⟩ .started), .own (.dispatch false),
    .own (.obtain true), .own (.submit .started), .own (.expire true), .own (.timeout true .expired),
    .own (.timeout true .locked), .own (.onWrite (some .operation_aborted)), .own .delegateClose,
    .own (.dispatch false), .own (.dispatch false), .own .onStop,
    .own (.parseHeader (some .operation_aborted) true .started), .own .managerRelease]

theorem early_timeout_keeps_socket :
    (∃ u, shared.run ⟨accept (initial true false) .started, 0⟩ earlyTimeoutTrace = some u ∧
      u.connection.m_socket = none) ∧
    (shared.AllSteps SocketKept ⟨accept (initial true false) .started, 0⟩ earlyTimeoutTrace ↔
      shared.AllSteps TimeoutsIdle ⟨accept (initial true false) .started, 0⟩ earlyTimeoutTrace) := by
  have hrun : ∃ u, shared.run ⟨accept (initial true false) .started, 0⟩ earlyTimeoutTrace = some u ∧
      u.connection.m_socket = none := Machine.exists_run (by decide)
  obtain ⟨u, hu, hsocket⟩ := hrun
  exact ⟨⟨u, hu, hsocket⟩, socket_kept_iff hu⟩

end LoginServer.Connection
