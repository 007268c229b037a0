import LoginServer.ConnectionRelease

/-! # Closing goes one way and releases once

The connection in the hands of any number of senders besides its own handlers: a message may be
got at any time, and sent or dropped at any later one. Each closing action draws on a potential
of 1. While the connection is open, each counter covers its outstanding completions, and no
handler decrements a counter otherwise. -/
namespace LoginServer.Connection

open Runs

/-- `held` counts the messages that other senders have got for the connection. -/
structure Shared where
  connection : State
  held : ℕ

inductive Call where
  | own (e : Event)
  | getOutputMessage (pool : Bool)
  | send (a : Arm)
  | drop
  deriving DecidableEq, Repr

def sharedStep (s : Shared) : Call → Option Shared
  | .own e => (step s.connection e).map fun c => ⟨c, s.held⟩
  | .getOutputMessage pool =>
    if s.connection.undefined then none
    else (getOutputMessage s.connection pool).map fun c => ⟨c, s.held + 1⟩
  | .send a =>
    if s.connection.undefined ∨ s.held = 0 then none
    else some ⟨send s.connection a, s.held - 1⟩
  | .drop =>
    if s.connection.undefined ∨ s.held = 0 then none
    else some ⟨releaseMessage s.connection, s.held - 1⟩

def shared : Machine Shared Call where
  start s := ∃ logError forceClose, s = ⟨initial logError forceClose, 0⟩
  step := sharedStep

theorem sharedStep_cases {s u : Shared} {c : Call} (h : sharedStep s c = some u) :
    (∃ e, c = .own e ∧ step s.connection e = some u.connection) ∨
      (∀ e, c ≠ .own e) ∧ Calm s.connection u.connection := by
  cases c with
  | own e =>
    obtain ⟨v, hv, rfl⟩ := Option.map_eq_some_iff.mp h
    exact Or.inl ⟨e, rfl, hv⟩
  | getOutputMessage pool =>
    simp only [sharedStep] at h
    split at h
    · cases h
    · obtain ⟨v, hv, rfl⟩ := Option.map_eq_some_iff.mp h
      exact Or.inr ⟨nofun, getOutputMessage_calm hv⟩
  | send a =>
    simp only [sharedStep] at h
    split at h
    · cases h
    · cases h
      exact Or.inr ⟨nofun, send_calm _ a⟩
  | drop =>
    simp only [sharedStep] at h
    split at h
    · cases h
    · cases h
      exact Or.inr ⟨nofun, releaseMessage_calm _⟩

section Counters

variable {s u : State} {r w : ℤ}

/-- `r` and `w` are the completions that are being handled. -/
structure Counted (s : State) (r w : ℤ) : Prop where
  reads : 0 ≤ s.m_pendingRead
  writes : 0 ≤ s.m_pendingWrite
  covered : s.m_connectionState = .CONNECTION_STATE_OPEN →
    s.reads.length + r ≤ s.m_pendingRead ∧ s.writes + w ≤ s.m_pendingWrite

theorem initial_counted (logError forceClose : Bool) :
    Counted (initial logError forceClose) 0 0 := by
  refine ⟨Int.le_refl 0, Int.le_refl 0, fun _ => ⟨?_, ?_⟩⟩ <;> exact Int.le_refl 0

theorem close_state (s : State) : (close s).m_connectionState ≠ .CONNECTION_STATE_OPEN := by
  rw [close]
  split
  · rename_i h
    rcases h with h | h | h <;> simp [h]
  · simp

theorem close_pending (s : State) : (close s).m_pendingRead = s.m_pendingRead ∧
    (close s).m_pendingWrite = s.m_pendingWrite := by
  rw [close]
  split <;> exact ⟨rfl, rfl⟩

/-- A closed connection owes nothing to what is still on its way. -/
theorem close_counted (h : Counted s r w) (r' w' : ℤ) : Counted (close s) r' w' := by
  obtain ⟨hr, hw⟩ := close_pending s
  exact ⟨hr ▸ h.reads, hw ▸ h.writes, fun ho => absurd ho (close_state s)⟩

theorem closeSocket_pending (h : Counted s r w) :
    0 ≤ (closeSocket s).m_pendingRead ∧ 0 ≤ (closeSocket s).m_pendingWrite := by
  rw [closeSocket]
  split
  · exact ⟨h.reads, h.writes⟩
  · exact ⟨Int.le_refl 0, Int.le_refl 0⟩
  · exact ⟨h.reads, h.writes⟩

/-- The counters may be zeroed while completions are in flight: the close follows at once. -/
theorem closeSocket_close_counted (h : Counted s r w) (r' w' : ℤ) :
    Counted (close (closeSocket s)) r' w' := by
  obtain ⟨hr, hw⟩ := close_pending (closeSocket s)
  have hz := closeSocket_pending h
  exact ⟨hr ▸ hz.1, hw ▸ hz.2, fun ho => absurd ho (close_state _)⟩

theorem caught_counted (h : Counted s r w) : Counted (caught s) r w := by
  rw [caught]
  split
  · exact close_counted (s := { s with m_logError := false }) ⟨h.reads, h.writes, h.covered⟩ r w
  · exact h

theorem startRead_counted (h : Counted s 0 w) (k : Read) (a : Arm) :
    Counted (startRead s k a) 0 w := by
  have hr := h.reads
  cases a with
  | started =>
    refine ⟨by simp only [startRead]; omega, h.writes, fun ho => ?_⟩
    have hc := h.covered ho
    refine ⟨?_, hc.2⟩
    simp only [startRead, List.length_append, List.length_singleton]
    omega
  | waitThrows | operationThrows =>
    apply caught_counted
    refine ⟨by dsimp only; omega, h.writes, fun ho => ?_⟩
    have hc := h.covered ho
    exact ⟨by dsimp only; omega, hc.2⟩

theorem handleReadError_counted (h : Counted s r w) (error : Option ErrorCode) :
    Counted (handleReadError s error) r w := by
  rw [handleReadError]
  split
  · exact ⟨h.reads, h.writes, h.covered⟩
  · have hc := close_counted h r w
    exact ⟨hc.reads, hc.writes, hc.covered⟩

theorem handleWriteError_counted (h : Counted s r w) (error : Option ErrorCode) :
    Counted (handleWriteError s error) r w := by
  rw [handleWriteError]
  split
  · exact ⟨h.reads, h.writes, h.covered⟩
  · have hc := close_counted h r w
    exact ⟨hc.reads, hc.writes, hc.covered⟩

theorem readDone_counted (h : Counted s 1 w)
    (ho : s.m_connectionState = .CONNECTION_STATE_OPEN) :
    Counted { s with m_pendingRead := s.m_pendingRead - 1 } 0 w := by
  have hc := h.covered ho
  refine ⟨by dsimp only; omega, h.writes, fun _ => ⟨by dsimp only; omega, hc.2⟩⟩

theorem parseHeader_counted (h : Counted s 1 w) (error : Option ErrorCode) (sizeOk : Bool)
    (a : Arm) : Counted (parseHeader s error sizeOk a) 0 w := by
  unfold parseHeader
  have hs : Counted { s with readTimers := cancel s.readTimers } 1 w :=
    ⟨h.reads, h.writes, h.covered⟩
  generalize { s with readTimers := cancel s.readTimers } = s at hs ⊢
  have hread : Counted (if error.isSome ∨ sizeOk = false then handleReadError s error else s)
      1 w := by
    split
    · exact handleReadError_counted hs error
    · exact hs
  dsimp only
  generalize (if error.isSome ∨ sizeOk = false then handleReadError s error else s) = s at hread ⊢
  split
  · exact close_counted hread 0 w
  · rename_i hopen
    apply startRead_counted
    apply readDone_counted hread
    by_contra hne
    exact hopen (Or.inl hne)

theorem releaseMessage_counted (h : Counted s r w) : Counted (releaseMessage s) r w :=
  ⟨h.reads, h.writes, h.covered⟩

theorem internalSend_counted (h : Counted s r w) (a : Arm) : Counted (internalSend s a) r w := by
  have hw := h.writes
  cases a with
  | started =>
    refine ⟨h.reads, by simp only [internalSend]; omega, fun ho => ?_⟩
    have hc := h.covered ho
    refine ⟨hc.1, ?_⟩
    simp only [internalSend]
    push_cast
    omega
  | waitThrows | operationThrows =>
    apply releaseMessage_counted
    refine ⟨h.reads, by dsimp only; omega, fun ho => ?_⟩
    have hc := h.covered ho
    exact ⟨hc.1, by dsimp only; omega⟩

theorem send_counted (h : Counted s r w) (a : Arm) : Counted (send s a) r w := by
  rw [send]
  split
  · exact releaseMessage_counted h
  · split
    · exact internalSend_counted h a
    · split
      · exact releaseMessage_counted (close_counted h r w)
      · exact ⟨h.reads, h.writes, h.covered⟩

theorem getOutputMessage_counted {pool : Bool} (h : Counted s r w)
    (hg : getOutputMessage s pool = some u) : Counted u r w := by
  rw [getOutputMessage] at hg
  split at hg
  · cases hg
    exact ⟨h.reads, h.writes, h.covered⟩
  · cases hg

theorem closeThroughProtocol_counted (h : Counted s r w) :
    Counted (closeThroughProtocol s) r w := by
  rw [closeThroughProtocol]
  split
  · exact close_counted h r w
  · exact ⟨h.reads, h.writes, h.covered⟩

theorem onRecvFirstMessage_counted (h : Counted s r w) (f : FirstMessage) :
    Counted (onRecvFirstMessage s f) r w := by
  cases f with
  | rsaFailed => exact closeThroughProtocol_counted h
  | disconnected pool a =>
    simp only [onRecvFirstMessage, disconnectClient]
    split
    · rename_i v hv
      exact closeThroughProtocol_counted (send_counted (getOutputMessage_counted h hv) a)
    · exact closeThroughProtocol_counted h
  | dispatched => exact ⟨h.reads, h.writes, h.covered⟩

theorem firstPacket_counted (h : Counted s 0 w) (p : Packet) (a : Arm) :
    Counted (firstPacket s p a) 0 w := by
  have hs : Counted { s with m_receivedFirst := true } 0 w := ⟨h.reads, h.writes, h.covered⟩
  unfold firstPacket
  dsimp only
  split
  · exact close_counted hs 0 w
  · apply startRead_counted
    apply onRecvFirstMessage_counted
    split
    · exact hs
    · exact ⟨h.reads, h.writes, h.covered⟩

theorem parsePacket_counted (h : Counted s 1 w) (error : Option ErrorCode) (p : Packet) (a : Arm) :
    Counted (parsePacket s error p a) 0 w := by
  unfold parsePacket
  have hs : Counted { s with readTimers := cancel s.readTimers } 1 w :=
    ⟨h.reads, h.writes, h.covered⟩
  generalize { s with readTimers := cancel s.readTimers } = s at hs ⊢
  have hread : Counted (if error.isSome then handleReadError s error else s) 1 w := by
    split
    · exact handleReadError_counted hs error
    · exact hs
  dsimp only
  generalize (if error.isSome then handleReadError s error else s) = s at hread ⊢
  split
  · exact close_counted hread 0 w
  · rename_i hopen
    have ho : s.m_connectionState = .CONNECTION_STATE_OPEN := by
      by_contra hne
      exact hopen (Or.inl hne)
    have hdone := readDone_counted hread ho
    split
    · exact close_counted hread 0 w
    · split
      · exact firstPacket_counted hdone p a
      · split
        · exact startRead_counted hdone .header a
        · exact ⟨hdone.reads, hdone.writes, hdone.covered⟩

theorem onWrite_counted (h : Counted s r 1) (error : Option ErrorCode) :
    Counted (onWrite s error) r 0 := by
  unfold onWrite
  have hs : Counted { s with writeTimers := cancel s.writeTimers } r 1 :=
    ⟨h.reads, h.writes, h.covered⟩
  generalize { s with writeTimers := cancel s.writeTimers } = s at hs ⊢
  have hwrite : Counted (if error.isSome then handleWriteError s error else s) r 1 := by
    split
    · exact handleWriteError_counted hs error
    · exact hs
  dsimp only
  generalize (if error.isSome then handleWriteError s error else s) = s at hwrite ⊢
  split
  · exact releaseMessage_counted (closeSocket_close_counted hwrite r 0)
  · rename_i hopen
    apply releaseMessage_counted
    have hc := hwrite.covered (by_contra fun hne => hopen (Or.inl hne))
    refine ⟨hwrite.reads, by dsimp only; omega, fun _ => ⟨hc.1, by dsimp only; omega⟩⟩

theorem releaseProtocol_counted (h : Counted s r w) : Counted (releaseProtocol s) r w := by
  rw [releaseProtocol]
  split
  · exact ⟨h.reads, h.writes, h.covered⟩
  · exact ⟨h.reads, h.writes, h.covered⟩

theorem deleteConnection_counted (h : Counted s r w) (throws : Bool) :
    Counted (deleteConnection s throws) r w := by
  cases throws with
  | true => exact ⟨h.reads, h.writes, h.covered⟩
  | false => exact ⟨h.reads, h.writes, h.covered⟩

theorem releaseConnection_counted (h : Counted s r w) (throws : Bool) :
    Counted (releaseConnection s throws) r w := by
  rw [releaseConnection]
  split
  · exact ⟨h.reads, h.writes, h.covered⟩
  · exact deleteConnection_counted h throws

theorem enterClosing_counted (h : Counted s r w) : Counted (enterClosing s) r w := by
  have hd : Counted (detachProtocol s) r w := by
    rw [detachProtocol]
    split
    · have hc := releaseProtocol_counted (s := setConnection s false) ⟨h.reads, h.writes, h.covered⟩
      exact ⟨hc.reads, hc.writes, hc.covered⟩
    · exact h
  refine ⟨hd.reads, hd.writes, ?_⟩
  intro hopen
  cases hopen

theorem releaseConnection_pending (s : State) (throws : Bool) :
    (releaseConnection s throws).m_pendingRead = s.m_pendingRead ∧
      (releaseConnection s throws).m_pendingWrite = s.m_pendingWrite := by
  unfold releaseConnection deleteConnection
  split
  · exact ⟨rfl, rfl⟩
  · split <;> exact ⟨rfl, rfl⟩

theorem finishClose_counted (h : Counted s r w) (throws : Bool) :
    Counted (finishClose s throws) r w := by
  have hz := closeSocket_pending h
  have hc := releaseConnection_pending (closeSocket s) throws
  refine ⟨hc.1 ▸ hz.1, hc.2 ▸ hz.2, ?_⟩
  intro hopen
  cases hopen

theorem closeConnection_counted (h : Counted s r w) (throws : Bool) :
    Counted (closeConnection s throws) r w := by
  rw [closeConnection]
  split
  · exact h
  · split
    · exact finishClose_counted (enterClosing_counted h) throws
    · exact enterClosing_counted h

theorem setTimers_counted (h : Counted s r w) (write : Bool) (l : List Timer) :
    Counted (s.setTimers write l) r w := by
  rw [State.setTimers]
  split <;> exact ⟨h.reads, h.writes, h.covered⟩

theorem timeoutHandler_counted {write : Bool} {t : Timer} (h : Counted s r w)
    (ht : timeoutHandler s write t = some u) : Counted u r w := by
  cases t with
  | armed => cases ht
  | aborted => cases ht; exact setTimers_counted h write _
  | expired => cases ht; exact setTimers_counted h write _
  | locked =>
    cases ht
    have hs := setTimers_counted h write ((s.timers write).erase .locked)
    cases write with
    | false =>
      simp only [Bool.false_eq_true, if_false, onReadTimeout]
      split
      · exact closeSocket_close_counted hs r w
      · exact hs
    | true =>
      simp only [if_true, onWriteTimeout]
      split
      · exact closeSocket_close_counted hs r w
      · exact hs

theorem execute_counted (h : Counted s r w) (throws : Bool) (t : Task) :
    Counted (s.execute throws t) r w := by
  cases t with
  | closeConnection => exact closeConnection_counted h throws
  | delegate | internalReleaseMessage => exact ⟨h.reads, h.writes, h.covered⟩
  | retry k =>
    cases k with
    | releaseConnection => exact releaseConnection_counted h throws
    | releaseProtocol => exact releaseProtocol_counted h

theorem delegateStep_counted {stage : Stage} {e : Event} (h : Counted s r w)
    (hd : delegateStep s stage e = some u) : Counted u r w := by
  simp only [delegateStep] at hd
  split at hd
  · split at hd
    · cases hd
    · split at hd
      · rename_i v hv
        cases hd
        have hc := getOutputMessage_counted h hv
        exact ⟨hc.reads, hc.writes, hc.covered⟩
      · cases hd
        exact ⟨h.reads, h.writes, h.covered⟩
  · rename_i a
    split at hd
    · cases hd
      have hc := send_counted h a
      exact ⟨hc.reads, hc.writes, hc.covered⟩
    · cases hd
  · split at hd
    · cases hd
      have hc := closeThroughProtocol_counted h
      exact ⟨hc.reads, hc.writes, hc.covered⟩
    · cases hd
  · cases hd

theorem readTaken_counted (h : Counted s 0 w) {k : Read} (hk : k ∈ s.reads) :
    Counted { s with reads := s.reads.erase k } 1 w := by
  refine ⟨h.reads, h.writes, fun ho => ?_⟩
  have hc := h.covered ho
  have hpos := List.length_pos_of_mem hk
  refine ⟨?_, hc.2⟩
  simp only [List.length_erase_of_mem hk]
  omega

theorem step_counted {e : Event} (h : Counted s 0 0) (hs : step s e = some u) :
    Counted u 0 0 := by
  rw [step] at hs
  split at hs
  · cases hs
  cases e with
  | accept a =>
    simp only [liveStep] at hs
    split at hs
    · cases hs
    · cases hs
      exact startRead_counted (s := { s with accepted := true }) ⟨h.reads, h.writes, h.covered⟩ _ a
  | parseHeader error sizeOk a =>
    simp only [liveStep] at hs
    split at hs
    · rename_i hm
      cases hs
      exact parseHeader_counted (readTaken_counted h hm) error sizeOk a
    · cases hs
  | parsePacket error p a =>
    simp only [liveStep] at hs
    split at hs
    · rename_i hm
      cases hs
      exact parsePacket_counted (readTaken_counted h hm) error p a
    · cases hs
  | onWrite error =>
    simp only [liveStep] at hs
    split at hs
    · cases hs
    · rename_i hw
      cases hs
      apply onWrite_counted
      refine ⟨h.reads, h.writes, fun ho => ?_⟩
      have hc := h.covered ho
      exact ⟨hc.1, by dsimp only; omega⟩
  | expire write =>
    cases hs
    exact setTimers_counted h write _
  | timeout write t =>
    simp only [liveStep] at hs
    split at hs
    · exact timeoutHandler_counted h hs
    · cases hs
  | close =>
    cases hs
    exact close_counted h 0 0
  | dispatch throws =>
    simp only [liveStep] at hs
    split at hs
    · rename_i t rest _ _
      cases hs
      have hrest : Counted { s with tasks := rest } 0 0 := ⟨h.reads, h.writes, h.covered⟩
      exact execute_counted hrest throws t
    · cases hs
  | obtain pool | submit a | delegateClose =>
    obtain ⟨stage, _, hd⟩ := Option.bind_eq_some_iff.mp hs
    exact delegateStep_counted h hd
  | sendAll a =>
    simp only [liveStep] at hs
    split at hs
    · cases hs
      exact send_counted (s := { s with queued := s.queued - 1 }) ⟨h.reads, h.writes, h.covered⟩ a
    · cases hs
  | sendAllDrop | fire | managerRelease =>
    simp only [liveStep] at hs
    split at hs
    · cases hs
      exact ⟨h.reads, h.writes, h.covered⟩
    · cases hs
  | onStop =>
    simp only [liveStep] at hs
    split at hs
    · cases hs
    · cases hs
      rw [onStop]
      split <;> exact ⟨h.reads, h.writes, h.covered⟩
  | logErrorElsewhere =>
    cases hs
    exact ⟨h.reads, h.writes, h.covered⟩

end Counters

section Moves

variable {s u : State} {e : Event}

def takesClose (s : State) : Event → Bool
  | .dispatch _ => decide (s.tasks.head? = some .closeConnection)
  | _ => false

theorem takesClose_of_ne (he : ∀ throws, e ≠ .dispatch throws) : takesClose s e = false := by
  cases e with
  | dispatch throws => exact absurd rfl (he throws)
  | _ => rfl

/-- `closeConnection` goes through `CONNECTION_STATE_CLOSING` under the lock, and leaves it there
or closed. -/
inductive Moves (s : State) (e : Event) (u : State) : Prop where
  | stay : u.m_connectionState = s.m_connectionState → takesClose s e = false → Moves s e u
  | request : s.m_connectionState = .CONNECTION_STATE_OPEN →
      u.m_connectionState = .CONNECTION_STATE_REQUEST_CLOSE → takesClose s e = false → Moves s e u
  | close : s.m_connectionState = .CONNECTION_STATE_REQUEST_CLOSE →
      u.m_connectionState = .CONNECTION_STATE_CLOSING ∨
        u.m_connectionState = .CONNECTION_STATE_CLOSED → takesClose s e = true → Moves s e u

theorem Calm.moves (h : Calm s u) (he : ∀ throws, e ≠ .dispatch throws) : Moves s e u := by
  have ht : takesClose s e = false := takesClose_of_ne he
  obtain ⟨_, _, _, ⟨hs, _⟩ | ⟨ho, hs, _⟩⟩ := h.tasks
  · exact .stay hs ht
  · exact .request ho hs ht

structure SameRelease (s u : State) : Prop where
  posted : u.posted = s.posted
  unposted : u.unposted = s.unposted
  stopping : u.stopping = s.stopping
  stops : u.stops = s.stops

theorem SameRelease.trans {v : State} (h : SameRelease s u) (k : SameRelease u v) :
    SameRelease s v :=
  ⟨k.1.trans h.1, k.2.trans h.2, k.3.trans h.3, k.4.trans h.4⟩

theorem firstPacket_base (s : State) (p : Packet) (a : Arm) : ∃ v, Calm v (firstPacket s p a) ∧
    v.m_connectionState = s.m_connectionState ∧ SameRelease s v := by
  rcases firstPacket_cases s p a with hc | ⟨v, hv, hc | hc⟩
  · exact ⟨_, hc, rfl, ⟨rfl, rfl, rfl, rfl⟩⟩
  · refine ⟨v, hc, ?_⟩
    rcases hv with rfl | ⟨_, rfl⟩ <;> exact ⟨rfl, ⟨rfl, rfl, rfl, rfl⟩⟩
  · refine ⟨_, hc, ?_⟩
    rcases hv with rfl | ⟨_, rfl⟩ <;> exact ⟨rfl, ⟨rfl, rfl, rfl, rfl⟩⟩

theorem firstPacket_moves (h : Calm s u) (p : Packet) (a : Arm)
    (he : ∀ throws, e ≠ .dispatch throws) : Moves s e (firstPacket u p a) := by
  have ht : takesClose s e = false := takesClose_of_ne he
  obtain ⟨v, hc, hv, _⟩ := firstPacket_base u p a
  obtain ⟨_, _, _, ⟨hs, _⟩ | ⟨ho, hs, _⟩⟩ := hc.tasks
  · rcases h.moves he with ⟨hu, _⟩ | ⟨ho, hu, _⟩ | ⟨_, _, hf⟩
    · exact .stay (hs.trans (hv.trans hu)) ht
    · exact .request ho (hs.trans (hv.trans hu)) ht
    · rw [ht] at hf
      cases hf
  · exact .request (h.open (hv ▸ ho)) hs ht

theorem step_moves (h : Releasing s) (hs : step s e = some u) : Moves s e u := by
  cases step_effect hs with
  | calm he hc => exact hc.moves he
  | firstPacket error p a hc _ _ => exact firstPacket_moves hc p a fun _ => nofun
  | delegate next _ hc he =>
    rcases hc.moves he with ⟨hu, ht⟩ | ⟨ho, hu, ht⟩ | ⟨ho, hu, ht⟩
    · exact .stay hu ht
    · exact .request ho hu ht
    · exact .close ho hu ht
  | fire _ => exact .stay rfl rfl
  | onStop _ => exact .stay (onStop_state _) rfl
  | managerRelease _ => exact .stay rfl rfl
  | @dispatch t rest throws _ ht =>
    cases t with
    | closeConnection =>
      obtain ⟨hst, _⟩ := closeConnection_state h ht
      have hend := (closeConnection_spec (s := { s with tasks := rest }) throws hst).2
      refine .close hst ?_ (by simp [takesClose, ht])
      rcases hend with ⟨_, hc, _⟩ | ⟨_, hc, _⟩
      · exact Or.inr hc
      · exact Or.inl hc
    | delegate | internalReleaseMessage => exact .stay rfl (by simp [takesClose, ht])
    | retry r => exact .stay (retry_state _ throws r) (by simp [takesClose, ht])

/-- What a step does about the release: nothing, or one of its three parts. A run of
`deleteConnection` posts `onStop` or fails to. -/
inductive ReleaseStep (s : State) (e : Event) (u : State) : Prop where
  | none : e ≠ .onStop → SameRelease s u → ReleaseStep s e u
  | delete : e ≠ .onStop → u.posted + u.unposted = s.posted + s.unposted + 1 →
      u.stopping = s.stopping → u.stops = s.stops → ReleaseStep s e u
  | stop : e = .onStop → s.posted = u.posted + 1 → u.unposted = s.unposted → s.stopping = false →
      s.stops = 0 → u.stopping = true → u.stops = 0 → ReleaseStep s e u
  | forget : e ≠ .onStop → u.posted = s.posted → u.unposted = s.unposted → s.stopping = true →
      u.stopping = false → u.stops = s.stops + 1 → ReleaseStep s e u

theorem Calm.release (h : Calm s u) : SameRelease s u :=
  ⟨congrArg Outline.posted h.outline, congrArg Outline.unposted h.outline,
    congrArg Outline.stopping h.outline, congrArg Outline.stops h.outline⟩

theorem Calm.releaseStep (h : Calm s u) (he : e ≠ .onStop) : ReleaseStep s e u :=
  .none he h.release

theorem firstPacket_releaseStep (h : Calm s u) (p : Packet) (a : Arm) (he : e ≠ .onStop) :
    ReleaseStep s e (firstPacket u p a) := by
  obtain ⟨v, hc, _, hv⟩ := firstPacket_base u p a
  exact .none he ((h.release.trans hv).trans hc.release)

theorem deleteConnection_step (he : e ≠ .onStop) (h : SameRelease s u) (throws : Bool) :
    ReleaseStep s e (deleteConnection u throws) := by
  have hp := h.posted
  have hu := h.unposted
  cases throws with
  | true =>
    refine .delete he ?_ h.stopping h.stops
    simp only [deleteConnection, ↓reduceIte]
    omega
  | false =>
    refine .delete he ?_ h.stopping h.stops
    simp only [deleteConnection, Bool.false_eq_true, ↓reduceIte]
    omega

theorem releaseConnection_step (he : e ≠ .onStop) (h : SameRelease s u) (throws : Bool) :
    ReleaseStep s e (releaseConnection u throws) := by
  rw [releaseConnection]
  split
  · exact .none he ⟨h.posted, h.unposted, h.stopping, h.stops⟩
  · exact deleteConnection_step he h throws

theorem releaseProtocol_release (s : State) : SameRelease s (releaseProtocol s) := by
  rw [releaseProtocol]
  split <;> exact ⟨rfl, rfl, rfl, rfl⟩

theorem enterClosing_release (s : State) : SameRelease s (enterClosing s) := by
  unfold enterClosing detachProtocol
  split
  · have hr := releaseProtocol_release (setConnection s false)
    exact ⟨hr.posted, hr.unposted, hr.stopping, hr.stops⟩
  · exact ⟨rfl, rfl, rfl, rfl⟩

theorem closeConnection_step (he : e ≠ .onStop) (h : SameRelease s u) (throws : Bool) :
    ReleaseStep s e (closeConnection u throws) := by
  have henter := h.trans (enterClosing_release u)
  rw [closeConnection]
  split
  · exact .none he h
  · split
    · have hclosed := henter.trans (closeSocket_calm (enterClosing u)).release
      rcases releaseConnection_step he hclosed throws with ⟨_, hr⟩ | ⟨_, h1, h2, h3⟩ |
        ⟨hf, _⟩ | ⟨_, h1, h2, h3, h4, h5⟩
      · exact .none he ⟨hr.posted, hr.unposted, hr.stopping, hr.stops⟩
      · exact .delete he h1 h2 h3
      · exact absurd hf he
      · exact .forget he h1 h2 h3 h4 h5
    · exact .none he henter

theorem onStop_step (h : Releasing s) (hs : step s .onStop = some u) :
    ReleaseStep s .onStop u := by
  rw [step] at hs
  split at hs
  · cases hs
  · simp only [liveStep] at hs
    split at hs
    · cases hs
    · rename_i hp
      cases hs
      obtain ⟨hstop, hstops⟩ := posted_idle h hp
      obtain ⟨b, hb⟩ := posted_socket h hp
      simp only [onStop, hb]
      exact .stop rfl (by dsimp only; omega) rfl hstop hstops rfl hstops

theorem step_releaseStep (h : Releasing s) (hs : step s e = some u) : ReleaseStep s e u := by
  by_cases he : e = .onStop
  · subst he
    exact onStop_step h hs
  · cases step_effect hs with
    | calm _ hc => exact hc.releaseStep he
    | firstPacket error p a hc _ _ => exact firstPacket_releaseStep hc p a he
    | delegate next _ hc _ =>
      exact .none he ⟨hc.release.posted, hc.release.unposted, hc.release.stopping, hc.release.stops⟩
    | fire _ => exact .none he ⟨rfl, rfl, rfl, rfl⟩
    | onStop _ => exact absurd rfl he
    | managerRelease hst => exact .forget he rfl rfl hst rfl rfl
    | @dispatch t rest throws _ ht =>
      have hrest : SameRelease s { s with tasks := rest } := ⟨rfl, rfl, rfl, rfl⟩
      cases t with
      | closeConnection => exact closeConnection_step he hrest throws
      | delegate | internalReleaseMessage => exact .none he ⟨rfl, rfl, rfl, rfl⟩
      | retry r =>
        cases r with
        | releaseConnection => exact releaseConnection_step he hrest throws
        | releaseProtocol => exact .none he (hrest.trans (releaseProtocol_release _))

end Moves

/-- The invariants of the connection under any senders. -/
structure Orderly (s : Shared) : Prop where
  releasing : Releasing s.connection
  counted : Counted s.connection 0 0

theorem sharedStep_orderly {s u : Shared} {c : Call} (h : Orderly s)
    (hs : sharedStep s c = some u) : Orderly u := by
  constructor
  · rcases sharedStep_cases hs with ⟨e, _, he⟩ | ⟨_, hc⟩
    · exact step_releasing h.releasing he
    · exact hc.releasing h.releasing
  · cases c with
    | own e =>
      obtain ⟨v, hv, rfl⟩ := Option.map_eq_some_iff.mp hs
      exact step_counted h.counted hv
    | getOutputMessage pool =>
      simp only [sharedStep] at hs
      split at hs
      · cases hs
      · obtain ⟨v, hv, rfl⟩ := Option.map_eq_some_iff.mp hs
        exact getOutputMessage_counted h.counted hv
    | send a =>
      simp only [sharedStep] at hs
      split at hs
      · cases hs
      · cases hs
        exact send_counted h.counted a
    | drop =>
      simp only [sharedStep] at hs
      split at hs
      · cases hs
      · cases hs
        exact releaseMessage_counted h.counted

def takesCloseCall (s : Shared) : Call → Bool
  | .own e => takesClose s.connection e
  | _ => false

/-- How many `closeConnection` tasks a step adds to the dispatcher. -/
def closesEnqueued (s : Shared) (c : Call) (u : Shared) : ℕ :=
  closings u.connection + (takesCloseCall s c).toNat - closings s.connection

def closesExecuted (s : Shared) (c : Call) (_ : Shared) : ℕ := (takesCloseCall s c).toNat

/-- How often a step runs `deleteConnection`, which posts `onStop` or fails to. -/
def connectionsDeleted (s : Shared) (c : Call) (u : Shared) : ℕ :=
  if c = .own .onStop then 0
  else u.connection.posted + u.connection.unposted -
    (s.connection.posted + s.connection.unposted)

def onStopsRun (_ : Shared) (c : Call) (_ : Shared) : ℕ := if c = .own .onStop then 1 else 0

/-- `CONNECTION_STATE_CLOSING` between the request and the end is left in the same critical
section unless a write is pending. -/
def Forward : ConnectionState → ConnectionState → Prop
  | .CONNECTION_STATE_OPEN, .CONNECTION_STATE_REQUEST_CLOSE => True
  | .CONNECTION_STATE_REQUEST_CLOSE, .CONNECTION_STATE_CLOSING => True
  | .CONNECTION_STATE_REQUEST_CLOSE, .CONNECTION_STATE_CLOSED => True
  | a, b => a = b

theorem sharedStep_moves {s u : Shared} {c : Call} (h : Orderly s)
    (hs : sharedStep s c = some u) :
    u.connection.m_connectionState = s.connection.m_connectionState ∧ takesCloseCall s c = false ∨
    s.connection.m_connectionState = .CONNECTION_STATE_OPEN ∧
      u.connection.m_connectionState = .CONNECTION_STATE_REQUEST_CLOSE ∧
      takesCloseCall s c = false ∨
    s.connection.m_connectionState = .CONNECTION_STATE_REQUEST_CLOSE ∧
      (u.connection.m_connectionState = .CONNECTION_STATE_CLOSING ∨
        u.connection.m_connectionState = .CONNECTION_STATE_CLOSED) ∧
      takesCloseCall s c = true := by
  rcases sharedStep_cases hs with ⟨e, rfl, he⟩ | ⟨hne, hc⟩
  · rcases step_moves h.releasing he with ⟨hu, ht⟩ | ⟨ho, hu, ht⟩ | ⟨ho, hu, ht⟩
    · exact Or.inl ⟨hu, ht⟩
    · exact Or.inr (Or.inl ⟨ho, hu, ht⟩)
    · exact Or.inr (Or.inr ⟨ho, hu, ht⟩)
  · have ht : takesCloseCall s c = false := by
      cases c with
      | own e => exact absurd rfl (hne e)
      | _ => rfl
    obtain ⟨_, _, _, ⟨hu, _⟩ | ⟨ho, hu, _⟩⟩ := hc.tasks
    · exact Or.inl ⟨hu, ht⟩
    · exact Or.inr (Or.inl ⟨ho, hu, ht⟩)

theorem sharedStep_forward {s u : Shared} {c : Call} (h : Orderly s)
    (hs : sharedStep s c = some u) :
    Forward s.connection.m_connectionState u.connection.m_connectionState := by
  rcases sharedStep_moves h hs with ⟨hu, _⟩ | ⟨ho, hu, _⟩ | ⟨ho, hu | hu, _⟩
  · rw [hu]
    cases s.connection.m_connectionState <;> rfl
  all_goals
    rw [ho, hu]
    trivial

theorem sharedStep_release {s u : Shared} {c : Call} (h : Orderly s)
    (hs : sharedStep s c = some u) : ∃ e, (c = .own .onStop ↔ e = .onStop) ∧
      ReleaseStep s.connection e u.connection := by
  rcases sharedStep_cases hs with ⟨e, rfl, he⟩ | ⟨hne, hc⟩
  · exact ⟨e, by simp, step_releaseStep h.releasing he⟩
  · exact ⟨.close, by simp [hne], hc.releaseStep nofun⟩

theorem posted_le {s : State} (h : Releasing s) :
    s.posted + s.unposted + s.stopping.toNat + s.stops ≤ 1 := by
  have hone : releases s ≤ 1 := by
    rw [h.releases]
    split <;> omega
  simp only [releases] at hone
  omega

section Budgets

variable {s u : Shared} {c : Call}

def enqueueBudget (s : Shared) : ℕ :=
  if s.connection.m_connectionState = .CONNECTION_STATE_OPEN then 1 else 0

def executeBudget (s : Shared) : ℕ :=
  if s.connection.m_connectionState = .CONNECTION_STATE_OPEN ∨
    s.connection.m_connectionState = .CONNECTION_STATE_REQUEST_CLOSE then 1 else 0

def deleteBudget (s : Shared) : ℕ :=
  1 - (s.connection.posted + s.connection.unposted + s.connection.stopping.toNat +
    s.connection.stops)

def stopBudget (s : Shared) : ℕ := 1 - (s.connection.stopping.toNat + s.connection.stops)

theorem closesEnqueued_pays (h : Orderly s) (hs : sharedStep s c = some u) :
    closesEnqueued s c u + enqueueBudget u ≤ enqueueBudget s := by
  have hcs := h.releasing.closings
  have hcu := (sharedStep_orderly h hs).releasing.closings
  rcases sharedStep_moves h hs with ⟨hu, ht⟩ | ⟨ho, hu, ht⟩ | ⟨ho, hu | hu, ht⟩
  · simp [closesEnqueued, enqueueBudget, hcs, hcu, hu, ht]
  · simp [closesEnqueued, enqueueBudget, hcs, hcu, ho, hu, ht]
  · simp [closesEnqueued, enqueueBudget, hcs, hcu, ho, hu, ht]
  · simp [closesEnqueued, enqueueBudget, hcs, hcu, ho, hu, ht]

theorem closesExecuted_pays (h : Orderly s) (hs : sharedStep s c = some u) :
    closesExecuted s c u + executeBudget u ≤ executeBudget s := by
  rcases sharedStep_moves h hs with ⟨hu, ht⟩ | ⟨ho, hu, ht⟩ | ⟨ho, hu | hu, ht⟩
  · simp [closesExecuted, executeBudget, hu, ht]
  · simp [closesExecuted, executeBudget, ho, hu, ht]
  · simp [closesExecuted, executeBudget, ho, hu, ht]
  · simp [closesExecuted, executeBudget, ho, hu, ht]

theorem connectionsDeleted_pays (h : Orderly s) (hs : sharedStep s c = some u) :
    connectionsDeleted s c u + deleteBudget u ≤ deleteBudget s := by
  have hle := posted_le (sharedStep_orderly h hs).releasing
  obtain ⟨e, he, hr⟩ := sharedStep_release h hs
  simp only [connectionsDeleted, deleteBudget, he]
  rcases hr with ⟨hne, hk⟩ | ⟨hne, hp, hst, hsp⟩ | ⟨rfl, hp, hup, hst, hsp, hst', hsp'⟩ |
    ⟨hne, hp, hup, hst, hst', hsp⟩
  · rw [if_neg hne, hk.posted, hk.unposted, hk.stopping, hk.stops]
    omega
  · rw [hp, hst, hsp] at hle
    rw [if_neg hne, hp, hst, hsp]
    omega
  · rw [if_pos rfl, hp, hup, hst, hsp, hst', hsp', Bool.toNat_true, Bool.toNat_false]
    omega
  · rw [if_neg hne, hp, hup, hst, hst', hsp, Bool.toNat_true, Bool.toNat_false]
    omega

theorem onStopsRun_pays (h : Orderly s) (hs : sharedStep s c = some u) :
    onStopsRun s c u + stopBudget u ≤ stopBudget s := by
  obtain ⟨e, he, hr⟩ := sharedStep_release h hs
  simp only [onStopsRun, stopBudget, he]
  rcases hr with ⟨hne, hk⟩ | ⟨hne, _, hst, hsp⟩ | ⟨rfl, _, _, hst, hsp, hst', hsp'⟩ |
    ⟨hne, _, _, hst, hst', hsp⟩
  · rw [if_neg hne, hk.stopping, hk.stops]
    omega
  · rw [if_neg hne, hst, hsp]
    omega
  · simp [hst, hsp, hst', hsp']
  · rw [if_neg hne, hst, hst', hsp, Bool.toNat_true, Bool.toNat_false]
    omega

end Budgets

/-- What holds of a run `es` of a connection from its creation to `u`. -/
structure ClosesOnce (s : Shared) (es : List Call) (u : Shared) : Prop where
  forward : shared.AllSteps (fun v c => ∀ w, sharedStep v c = some w →
    Forward v.connection.m_connectionState w.connection.m_connectionState) s es
  enqueued : shared.total closesEnqueued s es ≤ 1
  executed : shared.total closesExecuted s es ≤ 1
  requested : shared.AllSteps (fun v c => takesCloseCall v c = true → sharedStep v c ≠ none →
    v.connection.m_connectionState = .CONNECTION_STATE_REQUEST_CLOSE) s es
  deleted : shared.total connectionsDeleted s es ≤ 1
  stopped : shared.total onStopsRun s es ≤ 1
  socket : u.connection.posted ≠ 0 → ∃ b, u.connection.m_socket = some b
  registered : u.connection.stopping = true → u.connection.registered = true
  reads : 0 ≤ u.connection.m_pendingRead
  writes : 0 ≤ u.connection.m_pendingWrite

theorem closing_forward_and_once {logError forceClose : Bool} {es : List Call} {u : Shared}
    (h : shared.run ⟨initial logError forceClose, 0⟩ es = some u) :
    ClosesOnce ⟨initial logError forceClose, 0⟩ es u := by
  have hi : Orderly ⟨initial logError forceClose, 0⟩ :=
    ⟨initial_releasing logError forceClose, initial_counted logError forceClose⟩
  have hn : ∀ v c w, Orderly v → shared.step v c = some w → Orderly w :=
    fun _ _ _ hv hw => sharedStep_orderly hv hw
  have hu : Orderly u := Machine.run_stable hn h hi
  refine ⟨?_, ?_, ?_, ?_, ?_, ?_, posted_socket hu.releasing, ?_, hu.counted.reads,
    hu.counted.writes⟩
  · exact Machine.allSteps_of_invariant hn (fun v c hv w hw => sharedStep_forward hv hw) es hi
  · have ht := Machine.total_le hn (fun _ _ _ => closesEnqueued_pays) hi h
    exact Nat.le_trans (Nat.le_add_right _ _) ht
  · have ht := Machine.total_le hn (fun _ _ _ => closesExecuted_pays) hi h
    exact Nat.le_trans (Nat.le_add_right _ _) ht
  · refine Machine.allSteps_of_invariant hn (fun v c hv ht hne => ?_) es hi
    obtain ⟨w, hw⟩ := Option.ne_none_iff_exists'.mp hne
    rcases sharedStep_moves hv hw with ⟨_, hf⟩ | ⟨_, _, hf⟩ | ⟨ho, _⟩
    · rw [ht] at hf
      cases hf
    · rw [ht] at hf
      cases hf
    · exact ho
  · have ht := Machine.total_le hn (fun _ _ _ => connectionsDeleted_pays) hi h
    exact Nat.le_trans (Nat.le_add_right _ _) ht
  · have ht := Machine.total_le hn (fun _ _ _ => onStopsRun_pays) hi h
    exact Nat.le_trans (Nat.le_add_right _ _) ht
  · intro hst
    have hle := posted_le hu.releasing
    have hsp : u.connection.stops = 0 := by
      rw [hst, Bool.toNat_true] at hle
      omega
    rw [hu.releasing.registered, hsp]
    rfl

/-- A write fails with the read side still armed and a second sender late: both counters are
zeroed under the outstanding read, whose completion comes after the close. -/
def failedWriteTrace : List Call :=
  [.own (.accept .started), .own (.parseHeader none true .started),
    .own (.parsePacket none ⟨false, true, .dispatched⟩ .started), .own (.dispatch false),
    .own (.obtain true), .getOutputMessage true, .own (.submit .started),
    .own (.onWrite (some .closed_remotely)), .send .started, .own .delegateClose, .own .close,
    .own (.dispatch false), .own (.dispatch false), .own (.dispatch false),
    .own (.parseHeader (some .operation_aborted) true .started), .own .onStop, .own .managerRelease]

theorem failed_write_trace_closes_once :
    ∃ u, shared.run ⟨initial true false, 0⟩ failedWriteTrace = some u ∧
      ClosesOnce ⟨initial true false, 0⟩ failedWriteTrace u := by
  have hr : (shared.run ⟨initial true false, 0⟩ failedWriteTrace).isSome := by decide
  obtain ⟨u, hu⟩ := Option.isSome_iff_exists.mp hr
  exact ⟨u, hu, closing_forward_and_once hu⟩

end LoginServer.Connection
