import LoginServer.Connection

/-! # What a handler of a connection may do

Most steps change the state of the connection by at most one `close` request, queue nothing
else at the back of the dispatcher and only message releases at its front, and leave the
protocol attached or not as it was. This is stated once as `Calm`; every invariant of the
closing protocol uses it for these steps and looks only at the others. -/
namespace LoginServer.Connection

def protocolView (s : State) : Option (Bool × Bool) :=
  s.protocol.map fun p => (p.deleted, p.m_connection)

structure Outline where
  receivedFirst : Bool
  attached : Bool
  protocol : Option (Bool × Bool)
  socketDeleted : Bool
  registered : Bool
  posted : ℕ
  unposted : ℕ
  stopping : Bool
  stops : ℕ
  running : Option Stage
  events : List Retry
  delegates : ℕ

def State.outline (s : State) : Outline :=
  ⟨s.m_receivedFirst, s.m_protocol, protocolView s, s.m_socket.isNone, s.registered, s.posted,
    s.unposted, s.stopping, s.stops, s.running, s.events, s.delegates⟩

/-- The state is kept and nothing is queued at the back, or the connection asks to be closed. -/
def Requests (s u : State) (back : List Task) : Prop :=
  u.m_connectionState = s.m_connectionState ∧ back = [] ∨
  s.m_connectionState = .CONNECTION_STATE_OPEN ∧
    u.m_connectionState = .CONNECTION_STATE_REQUEST_CLOSE ∧ back = [.closeConnection]

structure Calm (s u : State) : Prop where
  outline : u.outline = s.outline
  tasks : ∃ n back, u.tasks = List.replicate n .internalReleaseMessage ++ s.tasks ++ back ∧
    Requests s u back

theorem calm_of_eq {s u : State} (h : u.outline = s.outline) (ht : u.tasks = s.tasks)
    (hc : u.m_connectionState = s.m_connectionState) : Calm s u :=
  ⟨h, 0, [], by simp [ht], Or.inl ⟨hc, rfl⟩⟩

@[refl] theorem Calm.refl (s : State) : Calm s s :=
  calm_of_eq rfl rfl rfl

theorem Requests.trans {s u v : State} {a b : List Task} (h : Requests s u a)
    (k : Requests u v b) : Requests s v (a ++ b) := by
  rcases h with ⟨hs, rfl⟩ | ⟨ho, hs, rfl⟩
  · rcases k with ⟨ks, rfl⟩ | ⟨ko, ks, rfl⟩
    · exact Or.inl ⟨ks.trans hs, rfl⟩
    · exact Or.inr ⟨hs ▸ ko, ks, rfl⟩
  · rcases k with ⟨ks, rfl⟩ | ⟨ko, _, _⟩
    · exact Or.inr ⟨ho, ks.trans hs, rfl⟩
    · rw [hs] at ko; cases ko

theorem Calm.trans {s u v : State} (h : Calm s u) (k : Calm u v) : Calm s v := by
  obtain ⟨n, a, ha, hr⟩ := h.tasks
  obtain ⟨m, b, hb, kr⟩ := k.tasks
  refine ⟨k.outline.trans h.outline, m + n, a ++ b, ?_, hr.trans kr⟩
  rw [hb, ha, ← List.replicate_append_replicate]
  simp only [List.append_assoc]

theorem Calm.open {s u : State} (h : Calm s u)
    (hu : u.m_connectionState = .CONNECTION_STATE_OPEN) :
    s.m_connectionState = .CONNECTION_STATE_OPEN := by
  obtain ⟨_, _, _, ⟨hs, _⟩ | ⟨ho, _, _⟩⟩ := h.tasks
  · exact hs ▸ hu
  · exact ho

theorem close_calm (s : State) : Calm s (close s) := by
  rw [close]
  split
  · exact .refl s
  · rename_i h
    have ho : s.m_connectionState = .CONNECTION_STATE_OPEN := by
      cases hc : s.m_connectionState <;> simp_all
    exact ⟨rfl, 0, [.closeConnection],
      by simp [State.addTask], Or.inr ⟨ho, rfl, rfl⟩⟩

theorem closeSocket_calm (s : State) : Calm s (closeSocket s) := by
  rw [closeSocket]
  split
  · exact calm_of_eq rfl rfl rfl
  · rename_i hm
    exact calm_of_eq (by simp [State.outline, protocolView, hm]) rfl rfl
  · exact .refl s

theorem releaseMessage_calm (s : State) : Calm s (releaseMessage s) :=
  ⟨rfl, 1, [],
    by simp [releaseMessage, State.addTaskFront], Or.inl ⟨rfl, rfl⟩⟩

theorem caught_calm (s : State) : Calm s (caught s) := by
  rw [caught]
  split
  · refine .trans ?_ (close_calm _)
    exact calm_of_eq rfl rfl rfl
  · exact .refl s

theorem startRead_calm (s : State) (r : Read) (a : Arm) : Calm s (startRead s r a) := by
  cases a with
  | started => exact calm_of_eq rfl rfl rfl
  | waitThrows =>
    refine .trans ?_ (caught_calm _)
    exact calm_of_eq rfl rfl rfl
  | operationThrows =>
    refine .trans ?_ (caught_calm _)
    exact calm_of_eq rfl rfl rfl

theorem accept_calm (s : State) (a : Arm) : Calm s (accept s a) := by
  refine .trans ?_ (startRead_calm _ _ a)
  exact calm_of_eq rfl rfl rfl

theorem handleReadError_calm (s : State) (error : Option ErrorCode) :
    Calm s (handleReadError s error) := by
  rw [handleReadError]
  refine .trans (u := if error = some .operation_aborted then s else close s) ?_ ?_
  · split
    · exact .refl s
    · exact close_calm s
  · exact calm_of_eq rfl rfl rfl

theorem handleWriteError_calm (s : State) (error : Option ErrorCode) :
    Calm s (handleWriteError s error) := by
  rw [handleWriteError]
  refine .trans (u := if error = some .operation_aborted then s else close s) ?_ ?_
  · split
    · exact .refl s
    · exact close_calm s
  · exact calm_of_eq rfl rfl rfl

theorem readTimers_calm (s : State) (l : List Timer) : Calm s { s with readTimers := l } :=
  calm_of_eq rfl rfl rfl

theorem writeTimers_calm (s : State) (l : List Timer) : Calm s { s with writeTimers := l } :=
  calm_of_eq rfl rfl rfl

theorem parseHeader_calm (s : State) (error : Option ErrorCode) (sizeOk : Bool) (a : Arm) :
    Calm s (parseHeader s error sizeOk a) := by
  refine (readTimers_calm s (cancel s.readTimers)).trans ?_
  unfold parseHeader
  generalize { s with readTimers := cancel s.readTimers } = s
  have hread : Calm s (if error.isSome ∨ sizeOk = false then handleReadError s error else s) := by
    split
    · exact handleReadError_calm s error
    · exact .refl s
  apply hread.trans
  dsimp only
  generalize (if error.isSome ∨ sizeOk = false then handleReadError s error else s) = s
  split
  · exact close_calm s
  · refine .trans ?_ (startRead_calm _ _ a)
    exact calm_of_eq rfl rfl rfl

theorem internalSend_calm (s : State) (a : Arm) : Calm s (internalSend s a) := by
  cases a with
  | started => exact calm_of_eq rfl rfl rfl
  | waitThrows =>
    refine .trans ?_ (releaseMessage_calm _)
    exact calm_of_eq rfl rfl rfl
  | operationThrows =>
    refine .trans ?_ (releaseMessage_calm _)
    exact calm_of_eq rfl rfl rfl

theorem send_calm (s : State) (a : Arm) : Calm s (send s a) := by
  rw [send]
  split
  · exact releaseMessage_calm s
  · split
    · exact internalSend_calm s a
    · split
      · exact (close_calm s).trans (releaseMessage_calm _)
      · exact calm_of_eq rfl rfl rfl

theorem getOutputMessage_calm {s u : State} {pool : Bool} (h : getOutputMessage s pool = some u) :
    Calm s u := by
  rw [getOutputMessage] at h
  split at h
  · cases h
    refine calm_of_eq ?_ rfl rfl
    cases hp : s.protocol <;> simp [State.outline, protocolView, hp]
  · cases h

theorem internalReleaseMessage_calm (s : State) : Calm s (internalReleaseMessage s) := by
  refine calm_of_eq ?_ rfl rfl
  cases hp : s.protocol <;> simp [State.outline, protocolView, internalReleaseMessage, hp]

theorem closeThroughProtocol_calm (s : State) : Calm s (closeThroughProtocol s) := by
  rw [closeThroughProtocol]
  split
  · exact close_calm s
  · exact calm_of_eq rfl rfl rfl

theorem disconnectClient_calm (s : State) (pool : Bool) (a : Arm) :
    Calm s (disconnectClient s pool a) := by
  rw [disconnectClient]
  split
  · rename_i u hu
    exact (getOutputMessage_calm hu).trans ((send_calm u a).trans (closeThroughProtocol_calm _))
  · exact closeThroughProtocol_calm s

theorem onWrite_calm (s : State) (error : Option ErrorCode) : Calm s (onWrite s error) := by
  refine (writeTimers_calm s (cancel s.writeTimers)).trans ?_
  unfold onWrite
  generalize { s with writeTimers := cancel s.writeTimers } = s
  have hwrite : Calm s (if error.isSome then handleWriteError s error else s) := by
    split
    · exact handleWriteError_calm s error
    · exact .refl s
  apply hwrite.trans
  dsimp only
  generalize (if error.isSome then handleWriteError s error else s) = s
  split
  · exact (closeSocket_calm s).trans ((close_calm _).trans (releaseMessage_calm _))
  · refine .trans ?_ (releaseMessage_calm _)
    exact calm_of_eq rfl rfl rfl

theorem onReadTimeout_calm (s : State) : Calm s (onReadTimeout s) := by
  rw [onReadTimeout]
  split
  · exact (closeSocket_calm s).trans (close_calm _)
  · exact .refl s

theorem onWriteTimeout_calm (s : State) : Calm s (onWriteTimeout s) := by
  rw [onWriteTimeout]
  split
  · exact (closeSocket_calm s).trans (close_calm _)
  · exact .refl s

theorem setTimers_calm (s : State) (write : Bool) (l : List Timer) :
    Calm s (s.setTimers write l) := by
  rw [State.setTimers]
  split <;> exact calm_of_eq rfl rfl rfl

theorem timeoutHandler_calm {s u : State} {write : Bool} {t : Timer}
    (h : timeoutHandler s write t = some u) : Calm s u := by
  cases t with
  | armed => cases h
  | aborted => cases h; exact setTimers_calm s write _
  | expired => cases h; exact setTimers_calm s write _
  | locked =>
    cases h
    refine (setTimers_calm s write ((s.timers write).erase .locked)).trans ?_
    cases write with
    | false => exact onReadTimeout_calm _
    | true => exact onWriteTimeout_calm _

/-- Only the first packet of an open connection makes a protocol or queues the login task. -/
theorem parsePacket_cases (s : State) (error : Option ErrorCode) (p : Packet) (a : Arm) :
    Calm s (parsePacket s error p a) ∨
    ∃ v, Calm s v ∧ v.m_connectionState = .CONNECTION_STATE_OPEN ∧ v.m_receivedFirst = false ∧
      parsePacket s error p a = firstPacket v p a := by
  have hs := readTimers_calm s (cancel s.readTimers)
  rw [parsePacket]
  generalize { s with readTimers := cancel s.readTimers } = t at hs ⊢
  have hread : Calm s (if error.isSome then handleReadError t error else t) := by
    split
    · exact hs.trans (handleReadError_calm t error)
    · exact hs
  dsimp only
  generalize (if error.isSome then handleReadError t error else t) = u at hread ⊢
  split
  · exact Or.inl (hread.trans (close_calm u))
  · rename_i hopen
    split
    · exact Or.inl (hread.trans (close_calm u))
    · have hv : Calm s { u with m_pendingRead := u.m_pendingRead - 1 } :=
        hread.trans (calm_of_eq rfl rfl rfl)
      split
      · rename_i hfirst
        refine Or.inr ⟨_, hv, ?_, hfirst, rfl⟩
        by_contra hne
        exact hopen (Or.inl hne)
      · split
        · exact Or.inl (hv.trans (startRead_calm _ _ a))
        · exact Or.inl (hv.trans (calm_of_eq rfl rfl rfl))

theorem firstPacket_cases (s : State) (p : Packet) (a : Arm) :
    Calm { s with m_receivedFirst := true } (firstPacket s p a) ∨
    ∃ v, (v = attachProtocol { s with m_receivedFirst := true } ∨
        s.m_protocol = true ∧ v = { s with m_receivedFirst := true }) ∧
      (Calm v (firstPacket s p a) ∨
        Calm (onRecvFirstMessage v .dispatched) (firstPacket s p a)) := by
  rw [firstPacket]
  dsimp only
  split
  · exact Or.inl (close_calm _)
  · right
    refine ⟨if s.m_protocol then { s with m_receivedFirst := true }
      else attachProtocol { s with m_receivedFirst := true }, ?_, ?_⟩
    · split
      · rename_i hm
        exact Or.inr ⟨hm, rfl⟩
      · exact Or.inl rfl
    · generalize (if s.m_protocol then { s with m_receivedFirst := true }
        else attachProtocol { s with m_receivedFirst := true }) = v
      cases p.first with
      | rsaFailed => exact Or.inl ((closeThroughProtocol_calm v).trans (startRead_calm _ _ a))
      | disconnected pool arm =>
        exact Or.inl ((disconnectClient_calm v pool arm).trans (startRead_calm _ _ a))
      | dispatched => exact Or.inr (startRead_calm _ _ a)

theorem delegateStep_cases {s u : State} {stage : Stage} {e : Event}
    (h : delegateStep s stage e = some u) :
    ∃ v next, Calm s v ∧ u = { v with running := next } := by
  simp only [delegateStep] at h
  split at h
  · split at h
    · cases h
    · split at h
      · rename_i v hv
        cases h
        exact ⟨v, _, getOutputMessage_calm hv, rfl⟩
      · cases h
        exact ⟨s, _, .refl s, rfl⟩
  · split at h
    · cases h
      exact ⟨_, _, send_calm s _, rfl⟩
    · cases h
  · split at h
    · cases h
      exact ⟨_, _, closeThroughProtocol_calm s, rfl⟩
    · cases h
  · cases h

/-- All that one step can do. -/
inductive Effect (s : State) : Event → State → Prop where
  | calm {e u} : (∀ throws, e ≠ .dispatch throws) → Calm s u → Effect s e u
  | firstPacket {v} (error p a) : Calm s v → v.m_connectionState = .CONNECTION_STATE_OPEN →
      v.m_receivedFirst = false → Effect s (.parsePacket error p a) (firstPacket v p a)
  | dispatch {t rest} (throws) : s.running = none → s.tasks = t :: rest →
      Effect s (.dispatch throws) ({ s with tasks := rest }.execute throws t)
  | delegate {e v} (next) : s.running.isSome → Calm s v → (∀ throws, e ≠ .dispatch throws) →
      Effect s e { v with running := next }
  | fire {r} : r ∈ s.events →
      Effect s (.fire r) ({ s with events := s.events.erase r }.addTaskFront (.retry r))
  | onStop : s.posted ≠ 0 → Effect s .onStop (onStop { s with posted := s.posted - 1 })
  | managerRelease : s.stopping = true → Effect s .managerRelease (managerRelease s)

theorem delegate_effect {s u : State} {e : Event} (he : ∀ throws, e ≠ .dispatch throws)
    (h : s.running.bind (fun stage => delegateStep s stage e) = some u) : Effect s e u := by
  obtain ⟨stage, hr, hd⟩ := Option.bind_eq_some_iff.mp h
  obtain ⟨v, next, hv, rfl⟩ := delegateStep_cases hd
  exact .delegate next (by simp [hr]) hv he

theorem step_effect {s u : State} {e : Event} (h : step s e = some u) : Effect s e u := by
  rw [step] at h
  split at h
  · cases h
  cases e with
  | accept a =>
    simp only [liveStep] at h
    split at h
    · cases h
    · cases h
      exact .calm nofun (accept_calm s a)
  | parseHeader error sizeOk a =>
    simp only [liveStep] at h
    split at h
    · cases h
      refine .calm nofun (.trans ?_ (parseHeader_calm _ error sizeOk a))
      exact calm_of_eq rfl rfl rfl
    · cases h
  | parsePacket error p a =>
    simp only [liveStep] at h
    split at h
    · have hs : Calm s { s with reads := s.reads.erase .packet } := calm_of_eq rfl rfl rfl
      cases h
      rcases parsePacket_cases { s with reads := s.reads.erase .packet } error p a with
        hc | ⟨v, hv, ho, hf, hu⟩
      · exact .calm nofun (hs.trans hc)
      · rw [hu]
        exact .firstPacket error p a (hs.trans hv) ho hf
    · cases h
  | onWrite error =>
    simp only [liveStep] at h
    split at h
    · cases h
    · cases h
      refine .calm nofun (.trans ?_ (onWrite_calm _ error))
      exact calm_of_eq rfl rfl rfl
  | expire write =>
    cases h
    exact .calm nofun (setTimers_calm s write _)
  | timeout write t =>
    simp only [liveStep] at h
    split at h
    · exact .calm nofun (timeoutHandler_calm h)
    · cases h
  | close =>
    cases h
    exact .calm nofun (close_calm s)
  | dispatch throws =>
    simp only [liveStep] at h
    split at h
    · rename_i hr ht
      cases h
      exact .dispatch throws hr ht
    · cases h
  | obtain pool => exact delegate_effect nofun h
  | submit a => exact delegate_effect nofun h
  | delegateClose => exact delegate_effect nofun h
  | sendAll a =>
    simp only [liveStep] at h
    split at h
    · cases h
      refine .calm nofun (.trans ?_ (send_calm _ a))
      exact calm_of_eq rfl rfl rfl
    · cases h
  | sendAllDrop =>
    simp only [liveStep] at h
    split at h
    · cases h
      refine .calm nofun (.trans ?_ (releaseMessage_calm _))
      exact calm_of_eq rfl rfl rfl
    · cases h
  | fire r =>
    simp only [liveStep] at h
    split at h
    · rename_i hr
      cases h
      exact .fire hr
    · cases h
  | onStop =>
    simp only [liveStep] at h
    split at h
    · cases h
    · rename_i hp
      cases h
      exact .onStop hp
  | managerRelease =>
    simp only [liveStep] at h
    split at h
    · rename_i hst
      cases h
      exact .managerRelease hst
    · cases h
  | logErrorElsewhere =>
    cases h
    exact .calm nofun (calm_of_eq rfl rfl rfl)

end LoginServer.Connection
