import LoginServer.MessagePool

/-! # What a step of the message pool may do

Each step is said once with its guard, and what `send` may do with a message in one place for the
two that send: a call of `send` and the second loop of `sendAll`. -/
namespace LoginServer.MessagePool

open Connection (Arm)

inductive Transmitted (s : State) (m : ℕ) : State → Prop where
  | unconnected : (s.messages m).m_connection = none → Transmitted s m s
  | refused : Transmitted s m (onSendMessage s m .refused)
  | framed (c f) : Transmitted s m (onSendMessage (s.setWrite c f) m .direct)
  | written (c f) : Transmitted s m
      { (onSendMessage (s.setWrite c f) m .direct).record (.written (s.messages m).serial) with
        writing := m :: s.writing }
  | forced (c f) : Transmitted s m (s.setWrite c f)
  | queued : Transmitted s m { s with m_addQueue := s.m_addQueue ++ [m] }

@[simp] theorem onSendMessage_messages (s : State) (m : ℕ) (why : Framing) :
    (onSendMessage s m why).messages = s.messages := by
  rw [onSendMessage]
  split <;> rfl

@[simp] theorem onSendMessage_writing (s : State) (m : ℕ) (why : Framing) :
    (onSendMessage s m why).writing = s.writing := by
  rw [onSendMessage]
  split <;> rfl

theorem transmit_transmitted (s : State) (m : ℕ) (a : Arm) : Transmitted s m (transmit s m a) := by
  rw [transmit]
  split
  · rename_i hc
    exact .unconnected hc
  · rename_i c _
    simp only [connectionSend]
    cases sendingOf s c with
    | refused => exact .refused
    | written =>
      cases a with
      | started =>
        have hw := Transmitted.written (s := s) (m := m) c
          fun w => WriteSide.send w s.FORCE_CLOSE_SLOW_CONNECTION
        simpa [internalSend, State.setWrite, State.setPeer] using hw
      | waitThrows | operationThrows => exact .framed c _
    | forced => exact .forced c _
    | queued => exact .queued

/-! ## What the smaller operations leave alone -/

theorem refill_eq (s : State) :
    ∃ free n, s.refill = { s with m_outputMessages := free, allocated := n } := by
  rw [State.refill]
  split
  · exact ⟨_, _, rfl⟩
  · exact ⟨s.m_outputMessages, s.allocated, rfl⟩

theorem dropped_eq (s : State) (m : ℕ) : ∃ r, s.dropped m = { s with releases := r } := by
  rw [State.dropped]
  split
  · exact ⟨s.releases, rfl⟩
  · exact ⟨m :: s.releases, rfl⟩

theorem clearAddQueue_eq (l : List ℕ) (s : State) :
    ∃ r, clearAddQueue s l = { s with m_addQueue := [], releases := r } := by
  induction l generalizing s with
  | nil => exact ⟨s.releases, rfl⟩
  | cons m rest ih =>
    obtain ⟨r, hr⟩ := dropped_eq { s with m_addQueue := rest } m
    obtain ⟨r', hr'⟩ := ih { s with m_addQueue := rest, releases := r }
    rw [clearAddQueue, hr]
    exact ⟨r', hr'⟩

theorem internalReleaseMessage_frame (s : State) (m : ℕ) : ∃ protocols peers messages,
    (∀ c, (peers c).write = (s.peers c).write) ∧ internalReleaseMessage s m =
      { s with
        protocols := protocols
        peers := peers
        messages := messages
        m_outputMessages := s.m_outputMessages ++ [m]
        releases := s.releases.erase m
        configured := s.configured.filter fun entry => entry.1 ≠ m } := by
  have hcounted : ∀ c x : ℕ, (((s.setPeer c fun peer =>
      { peer with m_refCount := peer.m_refCount - 1 }).peers x).write) = (s.peers x).write := by
    intro c x
    simp only [State.setPeer]
    split <;> rfl
  rw [internalReleaseMessage]
  cases (s.messages m).m_protocol with
  | none =>
    cases (s.messages m).m_connection with
    | none => exact ⟨_, _, _, fun _ => rfl, rfl⟩
    | some c => exact ⟨_, _, _, hcounted c, rfl⟩
  | some p =>
    simp only [State.setProtocol]
    cases (s.messages m).m_connection with
    | none => exact ⟨_, _, _, fun _ => rfl, rfl⟩
    | some c => exact ⟨_, _, _, hcounted c, rfl⟩

inductive Effect (s : State) : Event → State → Prop where
  | getOutputMessage {p autoSend c front m} : (s.protocols p).deleted = false →
      s.refill.m_outputMessages = front ++ [m] → Effect s (.getOutputMessage p autoSend)
        (configureOutputMessage { s.refill with m_outputMessages := front, held := m :: s.held }
          m p c autoSend)
  | copy {m} : m ∈ s.held → Effect s (.copy m) { s with held := m :: s.held }
  | drop {m} : m ∈ s.held → Effect s (.drop m) ({ s with held := s.held.erase m }.dropped m)
  | sendIgnored {m} : m ∈ s.held →
      (s.messages m).m_state ≠ .STATE_ALLOCATED_NO_AUTOSEND → Effect s (.send m) s
  | send {m} : m ∈ s.held → (s.messages m).m_state = .STATE_ALLOCATED_NO_AUTOSEND →
      Effect s (.send m) { s.setMessage m fun msg => { msg with submitted := true } with
        sending := m :: s.sending }
  | transmit {m a u} : m ∈ s.sending → Transmitted s m u →
      Effect s (.transmit m a) ({ u with sending := s.sending.erase m }.dropped m)
  | autoSend {m} : m ∈ s.held → Effect s (.autoSend m) (autoSend s m)
  | startExecutionFrame (time) : Effect s (.startExecutionFrame time)
      { s with m_frameTime := time, m_shutdown := false }
  | stop : Effect s .stop { s with m_shutdown := true }
  | sendAll : s.frameTime = none → Effect s .sendAll (beginSendAll s)
  | sendNext {m a rest u} : s.m_autoSend = m :: rest → Transmitted s m u →
      Effect s (.sendNext m a) ({ u with m_autoSend := rest }.dropped m)
  | sendAllEnd : Effect s .sendAllEnd { s with frameTime := none }
  | onWrite {m c} (f error) : m ∈ s.writing → Effect s (.onWrite m error)
      ({ s.setWrite c f with writing := s.writing.erase m }.dropped m)
  | peer (c e) : Effect s (.peer c e) (s.setWrite c e.apply)
  | setConnection {p} (connection) : (s.protocols p).deleted = false →
      Effect s (.setConnection p connection)
        (s.setProtocol p fun protocol => { protocol with m_connection := connection })
  | keepProtocol {p} : (s.protocols p).m_refCount > 0 → Effect s (.releaseProtocol p) s
  | deleteProtocol {p} : (s.protocols p).m_refCount ≤ 0 → Effect s (.releaseProtocol p)
      (s.setProtocol p fun protocol => { protocol with m_connection := none, deleted := true })
  | keepConnection {c} : (s.peers c).m_refCount > 0 → Effect s (.releaseConnection c) s
  | deleteConnection {c} : (s.peers c).m_refCount ≤ 0 → Effect s (.releaseConnection c)
      (s.setPeer c fun peer => { peer with deleted := true })
  | internalReleaseMessage {m} : m ∈ s.releases →
      Effect s (.internalReleaseMessage m) (internalReleaseMessage s m)

theorem getOutputMessage_effect {s u : State} {p : ℕ} {autoSend : Bool}
    (hd : (s.protocols p).deleted = false) (h : getOutputMessage s p autoSend = some u) :
    Effect s (.getOutputMessage p autoSend) u := by
  rw [getOutputMessage] at h
  split at h
  · cases h
  · split at h
    · rename_i c m _ hm
      cases h
      apply Effect.getOutputMessage hd
      rw [List.getLast?_eq_some_iff] at hm
      obtain ⟨front, hf⟩ := hm
      rw [hf, List.dropLast_concat]
    · cases h

theorem step_effect {s u : State} {e : Event} (h : step s e = some u) : Effect s e u := by
  cases e with
  | getOutputMessage p autoSend =>
    simp only [step] at h
    split at h
    · rename_i hp
      exact getOutputMessage_effect hp.2 h
    · cases h
  | copy m =>
    simp only [step] at h
    split at h <;> cases h
    rename_i hm
    exact .copy hm
  | drop m =>
    simp only [step] at h
    split at h <;> cases h
    rename_i hm
    exact .drop hm
  | send m =>
    simp only [step, beginSend] at h
    split at h
    · rename_i hm
      split at h
      · rename_i hst
        cases h
        exact .sendIgnored hm.1 hst
      · rename_i hst
        cases h
        exact .send hm.1 (not_not.mp hst)
    · cases h
  | transmit m a =>
    simp only [step] at h
    split at h <;> cases h
    rename_i hm
    exact .transmit hm.1 (transmit_transmitted s m a)
  | autoSend m =>
    simp only [step] at h
    split at h <;> cases h
    rename_i hm
    exact .autoSend hm.1
  | startExecutionFrame time =>
    simp only [step] at h
    split at h <;> cases h
    exact .startExecutionFrame time
  | stop =>
    cases h
    exact .stop
  | sendAll =>
    simp only [step] at h
    split at h <;> cases h
    rename_i hf
    exact .sendAll hf
  | sendNext m a =>
    simp only [step] at h
    split at h
    · rename_i hl
      split at h
      · rename_i hm
        cases h
        obtain ⟨rfl, _⟩ := hm
        exact .sendNext hl (transmit_transmitted s _ a)
      · cases h
    · cases h
  | sendAllEnd =>
    simp only [step] at h
    split at h
    · split at h <;> cases h
      exact .sendAllEnd
    · cases h
  | onWrite m error =>
    simp only [step] at h
    split at h
    · split at h
      · rename_i hm
        cases h
        exact .onWrite _ error hm
      · cases h
    · cases h
  | peer c e =>
    cases h
    exact .peer c e
  | setConnection p connection =>
    simp only [step] at h
    split at h <;> cases h
    rename_i hd
    exact .setConnection connection hd
  | releaseProtocol p =>
    simp only [step, releaseProtocol] at h
    split at h
    · split at h
      · rename_i hr
        cases h
        exact .keepProtocol hr
      · rename_i hr
        cases h
        exact .deleteProtocol (Int.not_lt.mp hr)
    · cases h
  | releaseConnection c =>
    simp only [step, releaseConnection] at h
    split at h
    · rename_i hr
      cases h
      exact .keepConnection hr
    · rename_i hr
      cases h
      exact .deleteConnection (Int.not_lt.mp hr)
  | internalReleaseMessage m =>
    simp only [step] at h
    split at h <;> cases h
    rename_i hm
    exact .internalReleaseMessage hm.1

end LoginServer.MessagePool
