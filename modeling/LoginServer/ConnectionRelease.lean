import LoginServer.ConnectionSteps

/-! # The release of a closed connection

Each state of the closing protocol has its own place for the work that is left: a queued
`closeConnection` while the close is requested, and one release, on its way from the retries of
`releaseConnection` to the end of `onStop`, once the connection is closed. Nothing is on its way
in `CONNECTION_STATE_CLOSING`, and nothing any more once `onStop` could not be posted, so a
connection that rests there is never released. -/
namespace LoginServer.Connection

open Runs

def closings (s : State) : ℕ := s.tasks.count .closeConnection

def releases (s : State) : ℕ :=
  s.events.count .releaseConnection + s.tasks.count (.retry .releaseConnection) + s.posted +
    s.unposted + s.stopping.toNat + s.stops

structure Releasing (s : State) : Prop where
  closings : closings s =
    if s.m_connectionState = .CONNECTION_STATE_REQUEST_CLOSE then 1 else 0
  releases : releases s = if s.m_connectionState = .CONNECTION_STATE_CLOSED then 1 else 0
  registered : s.registered = decide (s.stops = 0)
  socket : s.m_socket.isNone = decide (0 < s.stopping.toNat + s.stops)

theorem initial_releasing (logError forceClose : Bool) :
    Releasing (initial logError forceClose) := by
  constructor <;> rfl

theorem Calm.releases {s u : State} (h : Calm s u) : releases u = releases s := by
  obtain ⟨n, back, ht, hr⟩ := h.tasks
  have hev : u.events = s.events := congrArg Outline.events h.outline
  have hpo : u.posted = s.posted := congrArg Outline.posted h.outline
  have hup : u.unposted = s.unposted := congrArg Outline.unposted h.outline
  have hst : u.stopping = s.stopping := congrArg Outline.stopping h.outline
  have hsp : u.stops = s.stops := congrArg Outline.stops h.outline
  have hb : back.count (.retry .releaseConnection) = 0 := by
    rcases hr with ⟨_, rfl⟩ | ⟨_, _, rfl⟩ <;> rfl
  simp [Connection.releases, hev, hpo, hup, hst, hsp, ht, hb, List.count_replicate]

theorem Calm.closings {s u : State} (h : Calm s u) : closings u = closings s ∧
    u.m_connectionState = s.m_connectionState ∨
    closings u = closings s + 1 ∧ s.m_connectionState = .CONNECTION_STATE_OPEN ∧
      u.m_connectionState = .CONNECTION_STATE_REQUEST_CLOSE := by
  obtain ⟨n, back, ht, ⟨hs, rfl⟩ | ⟨ho, hs, rfl⟩⟩ := h.tasks
  · exact Or.inl ⟨by simp [Connection.closings, ht, List.count_replicate], hs⟩
  · exact Or.inr ⟨by simp [Connection.closings, ht, List.count_replicate], ho, hs⟩

theorem Calm.releasing {s u : State} (h : Calm s u) (hs : Releasing s) : Releasing u := by
  have hreg : u.registered = s.registered := congrArg Outline.registered h.outline
  have hsp : u.stops = s.stops := congrArg Outline.stops h.outline
  have hsk : u.m_socket.isNone = s.m_socket.isNone := congrArg Outline.socketDeleted h.outline
  have hsg : u.stopping = s.stopping := congrArg Outline.stopping h.outline
  have hrel := h.releases
  rcases h.closings with ⟨hc, hst⟩ | ⟨hc, ho, hst⟩
  · exact ⟨by rw [hc, hst]; exact hs.closings, by rw [hrel, hst]; exact hs.releases,
      by rw [hreg, hsp]; exact hs.registered, by rw [hsk, hsg, hsp]; exact hs.socket⟩
  · have hcl := hs.closings
    have hre := hs.releases
    rw [ho] at hcl hre
    exact ⟨by rw [hc, hst, hcl]; rfl, by rw [hrel, hst, hre]; rfl,
      by rw [hreg, hsp]; exact hs.registered, by rw [hsk, hsg, hsp]; exact hs.socket⟩

structure Kept (s u : State) : Prop where
  tasks : u.tasks = s.tasks
  registered : u.registered = s.registered
  stops : u.stops = s.stops
  stopping : u.stopping = s.stopping
  socket : u.m_socket.isNone = s.m_socket.isNone

theorem Kept.trans {s u v : State} (h : Kept s u) (k : Kept u v) : Kept s v :=
  ⟨k.1.trans h.1, k.2.trans h.2, k.3.trans h.3, k.4.trans h.4, k.5.trans h.5⟩

theorem Kept.closings {s u : State} (h : Kept s u) : closings u = closings s := by
  simp [Connection.closings, h.tasks]

theorem releasing_of_counts {s u : State} (h : Releasing s)
    (hc : closings u = closings s) (hr : releases u = releases s)
    (hs : u.m_connectionState = s.m_connectionState) (hreg : u.registered = s.registered)
    (hsp : u.stops = s.stops) (hsg : u.stopping = s.stopping)
    (hsk : u.m_socket.isNone = s.m_socket.isNone) : Releasing u :=
  ⟨by rw [hc, hs]; exact h.closings, by rw [hr, hs]; exact h.releases,
    by rw [hreg, hsp]; exact h.registered, by rw [hsk, hsg, hsp]; exact h.socket⟩

theorem releaseProtocol_spec (s : State) : Kept s (releaseProtocol s) ∧
    releases (releaseProtocol s) = releases s ∧
    (releaseProtocol s).m_connectionState = s.m_connectionState ∧
    (releaseProtocol s).m_pendingWrite = s.m_pendingWrite ∧
    (releaseProtocol s).m_writeError = s.m_writeError := by
  rw [releaseProtocol]
  split
  · exact ⟨⟨rfl, rfl, rfl, rfl, rfl⟩, by simp [releases, State.addEvent], rfl, rfl, rfl⟩
  · exact ⟨⟨rfl, rfl, rfl, rfl, rfl⟩, rfl, rfl, rfl, rfl⟩

theorem enterClosing_spec (s : State) : Kept s (enterClosing s) ∧
    releases (enterClosing s) = releases s ∧
    (enterClosing s).m_pendingWrite = s.m_pendingWrite ∧
    (enterClosing s).m_writeError = s.m_writeError := by
  unfold enterClosing detachProtocol
  split
  · obtain ⟨hk, hr, _, hp, hw⟩ := releaseProtocol_spec (setConnection s false)
    exact ⟨⟨hk.tasks, hk.registered, hk.stops, hk.stopping, hk.socket⟩, hr, hp, hw⟩
  · exact ⟨⟨rfl, rfl, rfl, rfl, rfl⟩, rfl, rfl, rfl⟩

theorem deleteConnection_spec (s : State) (throws : Bool) : Kept s (deleteConnection s throws) ∧
    (deleteConnection s throws).m_connectionState = s.m_connectionState ∧
    releases (deleteConnection s throws) = releases s + 1 := by
  cases throws with
  | true =>
    refine ⟨⟨rfl, rfl, rfl, rfl, rfl⟩, rfl, ?_⟩
    simp only [releases, deleteConnection, ↓reduceIte]
    omega
  | false =>
    refine ⟨⟨rfl, rfl, rfl, rfl, rfl⟩, rfl, ?_⟩
    simp only [releases, deleteConnection, Bool.false_eq_true, ↓reduceIte]
    omega

theorem releaseConnection_spec (s : State) (throws : Bool) :
    Kept s (releaseConnection s throws) ∧
    (releaseConnection s throws).m_connectionState = s.m_connectionState ∧
    releases (releaseConnection s throws) = releases s + 1 := by
  rw [releaseConnection]
  split
  · refine ⟨⟨rfl, rfl, rfl, rfl, rfl⟩, rfl, ?_⟩
    simp only [releases, State.addEvent, List.count_append, List.count_singleton_self]
    omega
  · exact deleteConnection_spec s throws

theorem releaseConnection_unposted (s : State) (throws : Bool) :
    (releaseConnection s throws).unposted =
      s.unposted + (decide (throws = true ∧ s.m_refCount = 0)).toNat := by
  unfold releaseConnection deleteConnection
  by_cases hr : s.m_refCount = 0 <;> cases throws <;> simp [hr, State.addEvent]

theorem closeSocket_kept (s : State) : Kept s (closeSocket s) := by
  have hc := closeSocket_calm s
  have ht : (closeSocket s).tasks = s.tasks := by unfold closeSocket; split <;> rfl
  exact ⟨ht, congrArg Outline.registered hc.outline, congrArg Outline.stops hc.outline,
    congrArg Outline.stopping hc.outline, congrArg Outline.socketDeleted hc.outline⟩

theorem finishClose_spec (s : State) (throws : Bool) : Kept s (finishClose s throws) ∧
    releases (finishClose s throws) = releases s + 1 := by
  obtain ⟨hk, _, hrel⟩ := releaseConnection_spec (closeSocket s) throws
  have h := (closeSocket_kept s).trans hk
  exact ⟨⟨h.tasks, h.registered, h.stops, h.stopping, h.socket⟩,
    hrel.trans (congrArg (· + 1) (closeSocket_calm s).releases)⟩

/-- `closeConnection` finds no write to wait for, or one that has already failed. -/
def WritesDone (s : State) : Prop := s.m_pendingWrite = 0 ∨ s.m_writeError = true

instance (s : State) : Decidable (WritesDone s) := inferInstanceAs (Decidable (_ ∨ _))

/-- The two ends of `closeConnection`: the release starts and the connection is closed, or a
pending write leaves it closing. -/
theorem closeConnection_spec {s : State} (throws : Bool)
    (hs : s.m_connectionState = .CONNECTION_STATE_REQUEST_CLOSE) :
    Kept s (closeConnection s throws) ∧
    (WritesDone s ∧ (closeConnection s throws).m_connectionState = .CONNECTION_STATE_CLOSED ∧
        releases (closeConnection s throws) = releases s + 1 ∨
      ¬ WritesDone s ∧ (closeConnection s throws).m_connectionState = .CONNECTION_STATE_CLOSING ∧
        releases (closeConnection s throws) = releases s) := by
  obtain ⟨hk, hrel, hp, hw⟩ := enterClosing_spec s
  rw [closeConnection]
  simp only [hs, ne_eq, not_true_eq_false, ↓reduceIte, hp, hw]
  split
  · rename_i hd
    obtain ⟨hf, hfr⟩ := finishClose_spec (enterClosing s) throws
    exact ⟨hk.trans hf, Or.inl ⟨hd, rfl, hfr.trans (congrArg (· + 1) hrel)⟩⟩
  · rename_i hd
    exact ⟨hk, Or.inr ⟨hd, rfl, hrel⟩⟩

/-- The queue holds the one `closeConnection` while the close is requested, so the error branch
of the task is never taken. -/
theorem closeConnection_state {s : State} {rest : List Task} (h : Releasing s)
    (ht : s.tasks = .closeConnection :: rest) :
    s.m_connectionState = .CONNECTION_STATE_REQUEST_CLOSE ∧ rest.count .closeConnection = 0 := by
  have hc := h.closings
  simp only [closings, ht, List.count_cons_self] at hc
  split at hc
  · rename_i hs
    exact ⟨hs, by omega⟩
  · omega

theorem dispatch_close_releasing {s : State} {rest : List Task} (throws : Bool)
    (h : Releasing s) (ht : s.tasks = .closeConnection :: rest) :
    Releasing (closeConnection { s with tasks := rest } throws) := by
  obtain ⟨hst, hz⟩ := closeConnection_state h ht
  have hrest : releases { s with tasks := rest } = 0 := by
    have hr := h.releases
    rw [hst] at hr
    simpa [releases, ht] using hr
  obtain ⟨hk, hend⟩ := closeConnection_spec (s := { s with tasks := rest }) throws hst
  have hclo : closings (closeConnection { s with tasks := rest } throws) = 0 := hk.closings.trans hz
  have hreg : (closeConnection { s with tasks := rest } throws).registered =
      decide ((closeConnection { s with tasks := rest } throws).stops = 0) := by
    rw [hk.registered, hk.stops]
    exact h.registered
  have hsk : (closeConnection { s with tasks := rest } throws).m_socket.isNone =
      decide (0 < (closeConnection { s with tasks := rest } throws).stopping.toNat +
        (closeConnection { s with tasks := rest } throws).stops) := by
    rw [hk.socket, hk.stopping, hk.stops]
    exact h.socket
  rcases hend with ⟨_, hs', hr'⟩ | ⟨_, hs', hr'⟩
  · exact ⟨by rw [hclo, hs']; rfl, by rw [hr', hs', hrest]; rfl, hreg, hsk⟩
  · exact ⟨by rw [hclo, hs']; rfl, by rw [hr', hs', hrest]; rfl, hreg, hsk⟩

theorem dispatch_retry_releasing {s : State} {rest : List Task} {r : Retry} (throws : Bool)
    (h : Releasing s) (ht : s.tasks = .retry r :: rest) :
    Releasing ({ s with tasks := rest }.retry throws r) := by
  have hclo : closings { s with tasks := rest } = closings s := by simp [closings, ht]
  cases r with
  | releaseConnection =>
    obtain ⟨hk, hst, hr⟩ := releaseConnection_spec { s with tasks := rest } throws
    refine releasing_of_counts h (hk.closings.trans hclo) (hr.trans ?_) hst hk.registered
      hk.stops hk.stopping hk.socket
    simp only [releases, ht, List.count_cons_self]
    omega
  | releaseProtocol =>
    obtain ⟨hk, hr, hst, _⟩ := releaseProtocol_spec { s with tasks := rest }
    refine releasing_of_counts h (hk.closings.trans hclo) (hr.trans ?_) hst hk.registered
      hk.stops hk.stopping hk.socket
    simp [releases, ht]

theorem dispatch_releasing {s : State} {rest : List Task} {t : Task} (throws : Bool)
    (h : Releasing s) (ht : s.tasks = t :: rest) :
    Releasing ({ s with tasks := rest }.execute throws t) := by
  cases t with
  | closeConnection => exact dispatch_close_releasing throws h ht
  | delegate =>
    exact releasing_of_counts h (by simp [closings, State.execute, ht])
      (by simp [releases, State.execute, ht]) rfl rfl rfl rfl rfl
  | internalReleaseMessage =>
    exact releasing_of_counts h (by simp [closings, State.execute, internalReleaseMessage, ht])
      (by simp [releases, State.execute, internalReleaseMessage, ht]) rfl rfl rfl rfl rfl
  | retry r => exact dispatch_retry_releasing throws h ht

theorem fire_releasing {s : State} {r : Retry} (h : Releasing s) (hr : r ∈ s.events) :
    Releasing ({ s with events := s.events.erase r }.addTaskFront (.retry r)) := by
  refine releasing_of_counts h (by simp [closings, State.addTaskFront]) ?_ rfl rfl rfl rfl rfl
  have hpos := List.count_pos_iff.mpr hr
  cases r with
  | releaseConnection =>
    simp only [releases, State.addTaskFront, List.count_erase_self, List.count_cons_self]
    omega
  | releaseProtocol => simp [releases, State.addTaskFront, List.count_erase_of_ne]

theorem posted_idle {s : State} (h : Releasing s) (hp : s.posted ≠ 0) :
    s.stopping = false ∧ s.stops = 0 := by
  have hone : releases s ≤ 1 := by
    rw [h.releases]
    split <;> omega
  simp only [releases] at hone
  cases hst : s.stopping with
  | false => exact ⟨rfl, by omega⟩
  | true =>
    simp only [hst, Bool.toNat_true] at hone
    omega

theorem posted_socket {s : State} (h : Releasing s) (hp : s.posted ≠ 0) :
    ∃ b, s.m_socket = some b := by
  obtain ⟨hst, hsp⟩ := posted_idle h hp
  have hsk := h.socket
  cases hm : s.m_socket with
  | some b => exact ⟨b, rfl⟩
  | none => simp [hm, hst, hsp] at hsk

theorem onStop_releasing {s : State} (h : Releasing s) (hp : s.posted ≠ 0) :
    Releasing (onStop { s with posted := s.posted - 1 }) := by
  obtain ⟨hst, hsp⟩ := posted_idle h hp
  obtain ⟨b, hb⟩ := posted_socket h hp
  have hr := h.releases
  simp only [releases, hst, hsp, Bool.toNat_false] at hr
  simp only [onStop, hb]
  refine ⟨h.closings, Eq.trans ?_ hr, h.registered, by simp [Nat.add_comm]⟩
  simp only [releases, hsp, Bool.toNat_true]
  omega

theorem managerRelease_releasing {s : State} (h : Releasing s) (hst : s.stopping = true) :
    Releasing (managerRelease s) := by
  have hr := h.releases
  have hsk : s.m_socket.isNone = true := by rw [h.socket, hst]; simp [Nat.add_comm]
  refine ⟨h.closings, Eq.trans ?_ hr, by simp [managerRelease], ?_⟩
  · simp only [releases, managerRelease, hst, Bool.toNat_false, Bool.toNat_true]
    omega
  · simp [managerRelease, hsk]

theorem delegate_releasing {s : State} (h : Releasing s) (next : Option Stage) :
    Releasing { s with running := next } :=
  ⟨h.closings, h.releases, h.registered, h.socket⟩

theorem firstPacket_releasing {s : State} (h : Releasing s) (p : Packet) (a : Arm) :
    Releasing (firstPacket s p a) := by
  have hf : Releasing { s with m_receivedFirst := true } :=
    ⟨h.closings, h.releases, h.registered, h.socket⟩
  rcases firstPacket_cases s p a with hc | ⟨v, hv, hc | hc⟩
  · exact hc.releasing hf
  · apply hc.releasing
    rcases hv with rfl | ⟨_, rfl⟩
    · exact ⟨h.closings, h.releases, h.registered, h.socket⟩
    · exact hf
  · have hr : Releasing v := by
      rcases hv with rfl | ⟨_, rfl⟩
      · exact ⟨h.closings, h.releases, h.registered, h.socket⟩
      · exact hf
    refine hc.releasing (releasing_of_counts hr ?_ ?_ rfl rfl rfl rfl rfl)
    · simp [closings, onRecvFirstMessage, State.addTask]
    · simp [releases, onRecvFirstMessage, State.addTask]

theorem step_releasing {s u : State} {e : Event} (h : Releasing s) (hu : step s e = some u) :
    Releasing u := by
  cases step_effect hu with
  | calm _ hc => exact hc.releasing h
  | firstPacket error p a hc _ _ => exact firstPacket_releasing (hc.releasing h) p a
  | dispatch throws _ ht => exact dispatch_releasing throws h ht
  | delegate next _ hc _ => exact delegate_releasing (hc.releasing h) next
  | fire hr => exact fire_releasing h hr
  | onStop hp => exact onStop_releasing h hp
  | managerRelease hst => exact managerRelease_releasing h hst

/-- `Dispatcher` takes `closeConnection` only when nothing is left to wait for. -/
def CloseFindsWritesDone (s : State) (e : Event) : Prop :=
  ∀ throws, e = .dispatch throws → s.tasks.head? = some .closeConnection → WritesDone s

instance (s : State) (e : Event) : Decidable (CloseFindsWritesDone s e) :=
  inferInstanceAs (Decidable (∀ _ : Bool, _ → _ → _))

/-- `boost::asio::post` does not throw in a task that gets to `deleteConnection`. -/
def PostGoesThrough (s : State) (e : Event) : Prop :=
  e = .dispatch true → s.m_refCount = 0 →
    s.tasks.head? ≠ some .closeConnection ∧ s.tasks.head? ≠ some (.retry .releaseConnection)

instance (s : State) (e : Event) : Decidable (PostGoesThrough s e) :=
  inferInstanceAs (Decidable (_ → _ → _))

theorem Calm.closing_iff {s u : State} (h : Calm s u) :
    u.m_connectionState = .CONNECTION_STATE_CLOSING ↔
      s.m_connectionState = .CONNECTION_STATE_CLOSING := by
  obtain ⟨_, _, _, ⟨hs, _⟩ | ⟨ho, hs, _⟩⟩ := h.tasks
  · rw [hs]
  · simp [ho, hs]

theorem firstPacket_closing_iff (s : State) (p : Packet) (a : Arm) :
    (firstPacket s p a).m_connectionState = .CONNECTION_STATE_CLOSING ↔
      s.m_connectionState = .CONNECTION_STATE_CLOSING := by
  rcases firstPacket_cases s p a with hc | ⟨v, hv, hc | hc⟩
  · exact hc.closing_iff
  · rcases hv with rfl | ⟨_, rfl⟩ <;> exact hc.closing_iff
  · rcases hv with rfl | ⟨_, rfl⟩ <;> exact hc.closing_iff

theorem onStop_state (s : State) : (onStop s).m_connectionState = s.m_connectionState := by
  rw [onStop]
  split <;> rfl

theorem retry_state (s : State) (throws : Bool) (r : Retry) :
    (s.retry throws r).m_connectionState = s.m_connectionState := by
  cases r with
  | releaseConnection => exact (releaseConnection_spec s throws).2.1
  | releaseProtocol => exact (releaseProtocol_spec s).2.2.1

/-- Only a `closeConnection` that finds a write pending leaves the connection closing. -/
theorem step_closing {s u : State} {e : Event} (h : Releasing s) (hu : step s e = some u) :
    u.m_connectionState = .CONNECTION_STATE_CLOSING ↔
      s.m_connectionState = .CONNECTION_STATE_CLOSING ∨ ¬ CloseFindsWritesDone s e := by
  cases step_effect hu with
  | calm he hc => simp [CloseFindsWritesDone, he, hc.closing_iff]
  | firstPacket error p a hc _ _ =>
    simp [CloseFindsWritesDone, firstPacket_closing_iff, hc.closing_iff]
  | delegate next _ hc he => simp [CloseFindsWritesDone, he, hc.closing_iff]
  | fire hr => simp [CloseFindsWritesDone, State.addTaskFront]
  | onStop hp => simp [CloseFindsWritesDone, onStop_state]
  | managerRelease hst => simp [CloseFindsWritesDone, managerRelease]
  | @dispatch t rest throws hr ht =>
    cases t with
    | closeConnection =>
      obtain ⟨hst, _⟩ := closeConnection_state h ht
      obtain ⟨_, ⟨hd, hs, _⟩ | ⟨hd, hs, _⟩⟩ :=
        closeConnection_spec (s := { s with tasks := rest }) throws hst
      · have hd : WritesDone s := hd
        rw [State.execute, hs]
        simp [hst, CloseFindsWritesDone, hd]
      · have hd : ¬ WritesDone s := hd
        rw [State.execute, hs]
        simp [CloseFindsWritesDone, ht, hd]
    | delegate => simp [State.execute, CloseFindsWritesDone, ht]
    | internalReleaseMessage =>
      simp [State.execute, internalReleaseMessage, CloseFindsWritesDone, ht]
    | retry r => simp [State.execute, retry_state, CloseFindsWritesDone, ht]

theorem Calm.unposted {s u : State} (h : Calm s u) : u.unposted = s.unposted :=
  congrArg Outline.unposted h.outline

theorem firstPacket_unposted (s : State) (p : Packet) (a : Arm) :
    (firstPacket s p a).unposted = s.unposted := by
  rcases firstPacket_cases s p a with hc | ⟨v, hv, hc | hc⟩
  · exact hc.unposted
  · rcases hv with rfl | ⟨_, rfl⟩ <;> exact hc.unposted
  · rcases hv with rfl | ⟨_, rfl⟩ <;> exact hc.unposted

theorem enterClosing_unposted (s : State) :
    (enterClosing s).unposted = s.unposted ∧ (enterClosing s).m_refCount = s.m_refCount := by
  unfold enterClosing detachProtocol releaseProtocol
  split
  · split <;> exact ⟨rfl, rfl⟩
  · exact ⟨rfl, rfl⟩

theorem finishClose_unposted (s : State) (throws : Bool) : (finishClose s throws).unposted =
    s.unposted + (decide (throws = true ∧ s.m_refCount = 0)).toNat := by
  have hu := (closeSocket_calm s).unposted
  have hr : (closeSocket s).m_refCount = s.m_refCount := by unfold closeSocket; split <;> rfl
  rw [← hu, ← hr]
  exact releaseConnection_unposted (closeSocket s) throws

theorem closeConnection_unposted {s : State} (throws : Bool)
    (hs : s.m_connectionState = .CONNECTION_STATE_REQUEST_CLOSE) (hd : WritesDone s) :
    (closeConnection s throws).unposted =
      s.unposted + (decide (throws = true ∧ s.m_refCount = 0)).toNat := by
  obtain ⟨_, _, hp, hw⟩ := enterClosing_spec s
  obtain ⟨hu, hr⟩ := enterClosing_unposted s
  rw [← hu, ← hr, ← finishClose_unposted, closeConnection]
  have hd : (enterClosing s).m_pendingWrite = 0 ∨ (enterClosing s).m_writeError = true := by
    rw [hp, hw]
    exact hd
  simp only [hs, ne_eq, not_true_eq_false, ↓reduceIte, hd]

/-- Where the writes are done, only a throwing post gives a release up. -/
theorem step_unposted {s u : State} {e : Event} (h : Releasing s) (hu : step s e = some u)
    (hf : CloseFindsWritesDone s e) :
    u.unposted ≠ 0 ↔ s.unposted ≠ 0 ∨ ¬ PostGoesThrough s e := by
  cases step_effect hu with
  | calm he hc => simp [PostGoesThrough, he, hc.unposted]
  | firstPacket error p a hc _ _ =>
    simp [PostGoesThrough, firstPacket_unposted, hc.unposted]
  | delegate next _ hc he => simp [PostGoesThrough, he, hc.unposted]
  | fire hr => simp [PostGoesThrough, State.addTaskFront]
  | onStop hp =>
    have hup : (onStop { s with posted := s.posted - 1 }).unposted = s.unposted := by
      rw [onStop]
      split <;> rfl
    simp [PostGoesThrough, hup]
  | managerRelease hst => simp [PostGoesThrough, managerRelease]
  | @dispatch t rest throws hr ht =>
    cases t with
    | closeConnection =>
      obtain ⟨hst, _⟩ := closeConnection_state h ht
      have hd : WritesDone s := hf throws rfl (by rw [ht]; rfl)
      have hup := closeConnection_unposted (s := { s with tasks := rest }) throws hst hd
      rw [State.execute, hup]
      by_cases hz : s.m_refCount = 0 <;> cases throws <;> simp [PostGoesThrough, ht, hz]
    | delegate => simp [State.execute, PostGoesThrough, ht]
    | internalReleaseMessage =>
      simp [State.execute, internalReleaseMessage, PostGoesThrough, ht]
    | retry r =>
      cases r with
      | releaseConnection =>
        rw [State.execute, State.retry, releaseConnection_unposted]
        by_cases hz : s.m_refCount = 0 <;> cases throws <;> simp [PostGoesThrough, ht, hz]
      | releaseProtocol =>
        have hup : (releaseProtocol { s with tasks := rest }).unposted = s.unposted := by
          rw [releaseProtocol]
          split <;> rfl
        simp [State.execute, State.retry, hup, PostGoesThrough, ht]

/-- The two ways in which the release of a connection gets lost. -/
def Leaked (s : State) : Prop :=
  s.m_connectionState = .CONNECTION_STATE_CLOSING ∨ s.unposted ≠ 0

theorem step_leaked {s u : State} {e : Event} (h : Releasing s) (hu : step s e = some u) :
    Leaked u ↔ Leaked s ∨ ¬ (CloseFindsWritesDone s e ∧ PostGoesThrough s e) := by
  rw [Leaked, Leaked, step_closing h hu]
  by_cases hf : CloseFindsWritesDone s e
  · rw [step_unposted h hu hf]
    tauto
  · simp [hf]

theorem run_releasing {s u : State} {es : List Event} (hs : Releasing s)
    (h : machine.run s es = some u) : Releasing u :=
  Machine.run_stable (P := Releasing) (fun _ _ _ hi hu => step_releasing hi hu) h hs

theorem released_iff {s : State} (h : Releasing s) (hq : Quiescent s)
    (ho : s.m_connectionState ≠ .CONNECTION_STATE_OPEN) :
    0 < s.stops ∧ s.registered = false ↔ ¬ Leaked s := by
  have hc := h.closings
  have hr := h.releases
  simp only [closings, releases, hq.tasks, hq.events, hq.posted, hq.stopping, List.count_nil,
    Bool.toNat_false, Nat.zero_add, Nat.add_zero] at hc hr
  cases hs : s.m_connectionState with
  | CONNECTION_STATE_OPEN => exact absurd hs ho
  | CONNECTION_STATE_REQUEST_CLOSE => simp [hs] at hc
  | CONNECTION_STATE_CLOSING =>
    rw [hs, if_neg nofun] at hr
    simp [Leaked, hs, show s.stops = 0 by omega]
  | CONNECTION_STATE_CLOSED =>
    rw [hs, if_pos rfl] at hr
    simp only [Leaked, hs, h.registered]
    simp
    omega

/-- No closed connection is leaked just when `closeConnection` never left a write to finish the
close, as no handler of a write, a timeout or an error resumes a close left in that state, and
when the post of `onStop`, which is not tried again, went through. -/
theorem closed_connection_released_iff (logError forceClose : Bool) (es : List Event) (s : State)
    (h : machine.run (initial logError forceClose) es = some s)
    (ho : s.m_connectionState ≠ .CONNECTION_STATE_OPEN) (hq : Quiescent s) :
    0 < s.stops ∧ s.registered = false ↔
      machine.AllSteps (fun s e => CloseFindsWritesDone s e ∧ PostGoesThrough s e)
        (initial logError forceClose) es := by
  have hi := initial_releasing logError forceClose
  have hc := Machine.run_iff_not_allSteps (M := machine) (I := Releasing) (P := Leaked)
    (fun _ _ _ hi hu => step_releasing hi hu) (fun _ _ _ hi hu => step_leaked hi hu) hi h
  rw [released_iff (run_releasing hi h) hq ho, hc]
  simp [Leaked, initial]

instance (s : State) : Decidable (Quiescent s) :=
  decidable_of_iff (s.reads = [] ∧ s.writes = 0 ∧ s.readTimers = [] ∧ s.writeTimers = [] ∧
      s.tasks = [] ∧ s.running = none ∧ s.events = [] ∧ s.posted = 0 ∧ s.stopping = false)
    ⟨fun ⟨h1, h2, h3, h4, h5, h6, h7, h8, h9⟩ => ⟨h1, h2, h3, h4, h5, h6, h7, h8, h9⟩,
      fun h => ⟨h.1, h.2, h.3, h.4, h.5, h.6, h.7, h.8, h.9⟩⟩

def answeredTrace : List Event :=
  [.accept .started, .parseHeader none true .started,
    .parsePacket none ⟨false, true, .dispatched⟩ .started,
    .dispatch false, .obtain true, .submit .started, .delegateClose]

def timersTrace : List Event :=
  [.timeout false .aborted, .timeout false .aborted, .timeout false .aborted,
    .timeout true .aborted]

def releasedTrace : List Event :=
  answeredTrace ++ [.onWrite none, .dispatch false, .dispatch false,
    .parseHeader (some .operation_aborted) true .started] ++ timersTrace ++
    [.onStop, .managerRelease]

theorem released_trace_released : ∃ s, machine.run (initial true false) releasedTrace = some s ∧
    (0 < s.stops ∧ s.registered = false ↔
      machine.AllSteps (fun s e => CloseFindsWritesDone s e ∧ PostGoesThrough s e)
        (initial true false) releasedTrace) := by
  have hr : (machine.run (initial true false) releasedTrace).isSome := by decide
  obtain ⟨s, hs⟩ := Option.isSome_iff_exists.mp hr
  have hq : ∀ u ∈ machine.run (initial true false) releasedTrace,
      u.m_connectionState ≠ .CONNECTION_STATE_OPEN ∧ Quiescent u := by decide
  obtain ⟨ho, hq⟩ := hq s hs
  exact ⟨s, hs, closed_connection_released_iff true false releasedTrace s hs ho hq⟩

/-- The dispatcher closes the connection while the answer is being written: the completion finds
`CONNECTION_STATE_CLOSING`, in which `close` returns at once. -/
def leakTrace : List Event :=
  answeredTrace ++ [.dispatch false, .onWrite none, .dispatch false,
    .parseHeader (some .operation_aborted) true .started] ++ timersTrace ++
    [.fire .releaseProtocol, .dispatch false]

theorem closing_connection_leaked : ¬ ∀ s, machine.Reachable s →
    s.m_connectionState ≠ .CONNECTION_STATE_OPEN → Quiescent s →
    0 < s.stops ∧ s.registered = false := by
  intro hall
  have hr : (machine.run (initial true false) leakTrace).isSome := by decide
  obtain ⟨s, hs⟩ := Option.isSome_iff_exists.mp hr
  have hq : ∀ u ∈ machine.run (initial true false) leakTrace,
      u.m_connectionState ≠ .CONNECTION_STATE_OPEN ∧ Quiescent u ∧ u.registered = true := by
    decide
  obtain ⟨ho, hq, hreg⟩ := hq s hs
  have hrel := hall s (Machine.run_reachable (.start ⟨true, false, rfl⟩) hs) ho hq
  rw [hreg] at hrel
  cases hrel.2

end LoginServer.Connection
