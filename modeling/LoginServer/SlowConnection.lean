import LoginServer.MessagePoolSteps

/-! # Slow connections

`Connection::send` forces a connection to close when `m_pendingWrite` is above 100. It starts a
write only where the counter is 0 and queues the message otherwise, so the counter never gets
above 1, however many messages wait. -/
namespace LoginServer.MessagePool

open Runs
open Connection (ErrorCode Arm)

variable {s u : State} {c : ℕ} {e : Event}

def sendsOn (s : State) : Event → Option ℕ
  | .transmit m _ => (s.messages m).m_connection
  | .sendNext m _ => (s.messages m).m_connection
  | _ => none

abbrev SendsOn (s : State) (c : ℕ) (e : Event) : Prop := sendsOn s e = some c

def acceptedBy (s : State) (m : ℕ) (a : Arm) : Option ℕ :=
  match (s.messages m).m_connection with
  | none => none
  | some c => if (connectionSend s c m a).1 then some (s.messages m).serial else none

def accepts (s : State) : Event → Option ℕ
  | .transmit m a => acceptedBy s m a
  | .sendNext m a => acceptedBy s m a
  | _ => none

def acceptedIn (s : State) : List Event → List ℕ
  | [] => []
  | e :: es =>
    match step s e with
    | none => []
    | some u => (accepts s e).toList ++ acceptedIn u es

/-- The messages of a connection that were accepted and are not written: they wait in one of the
two queues, or their write is not complete. -/
def backlog (accepted : List ℕ) (s : State) (c : ℕ) : List ℕ :=
  (s.m_addQueue ++ s.m_autoSend ++ s.writing).filter fun m =>
    (s.messages m).m_connection = some c ∧ (s.messages m).serial ∈ accepted

def IsOpen (s : State) (c : ℕ) : Prop :=
  (s.peers c).write.m_connectionState = .CONNECTION_STATE_OPEN

instance (s : State) (c : ℕ) : Decidable (IsOpen s c) := inferInstanceAs (Decidable (_ = _))

/-- With a backlog of more than 100 messages, this step closes the connection. -/
def CutOff (accepted : List ℕ) (s u : State) (c : ℕ) : Prop :=
  100 < (backlog accepted s c).length → ¬ IsOpen u c

/-! ## What a step does to a sending half -/

inductive Wrote (FORCE_CLOSE_SLOW_CONNECTION : Bool) (w : WriteSide.State) :
    WriteSide.State → Prop where
  | kept : Wrote FORCE_CLOSE_SLOW_CONNECTION w w
  | send : Wrote FORCE_CLOSE_SLOW_CONNECTION w (WriteSide.send w FORCE_CLOSE_SLOW_CONNECTION)
  | onWrite (error) : Wrote FORCE_CLOSE_SLOW_CONNECTION w (WriteSide.onWrite w error)
  | peer (e : PeerEvent) : Wrote FORCE_CLOSE_SLOW_CONNECTION w (e.apply w)

theorem setWrite_self (s : State) (c : ℕ) (f : WriteSide.State → WriteSide.State) :
    ((s.setWrite c f).peers c).write = f (s.peers c).write := by
  simp [State.setWrite, State.setPeer]

theorem setWrite_other (s : State) {c x : ℕ} (h : x ≠ c)
    (f : WriteSide.State → WriteSide.State) :
    ((s.setWrite c f).peers x).write = (s.peers x).write := by
  simp [State.setWrite, State.setPeer, h]

theorem onSendMessage_peers (s : State) (m : ℕ) (why : Framing) :
    (onSendMessage s m why).peers = s.peers := by
  rw [onSendMessage]
  split <;> rfl

theorem dropped_peers (s : State) (m : ℕ) : (s.dropped m).peers = s.peers := by
  obtain ⟨_, heq⟩ := dropped_eq s m
  rw [heq]

theorem internalSend_peers (s : State) (m : ℕ) (a : Arm) :
    (internalSend s m a).peers = s.peers := by
  cases a <;> rfl

theorem transmit_self {m : ℕ} (h : (s.messages m).m_connection = some c) (a : Arm) :
    ((transmit s m a).peers c).write =
      WriteSide.send (s.peers c).write s.FORCE_CLOSE_SLOW_CONNECTION := by
  simp only [transmit, h, connectionSend, sendingOf, WriteSide.send]
  cases hs : WriteSide.sending (s.peers c).write s.FORCE_CLOSE_SLOW_CONNECTION with
  | refused => simp only [onSendMessage_peers]
  | written => simp only [internalSend_peers, onSendMessage_peers, setWrite_self, hs]
  | forced => simp only [setWrite_self, hs]
  | queued => rfl

theorem transmit_other {m : ℕ} (h : (s.messages m).m_connection ≠ some c) (a : Arm) :
    ((transmit s m a).peers c).write = (s.peers c).write := by
  rw [transmit]
  split
  · rfl
  · rename_i x hx
    have hne : c ≠ x := fun hc => h (hx.trans (congrArg some hc.symm))
    simp only [connectionSend]
    cases sendingOf s x with
    | refused => simp only [onSendMessage_peers]
    | written => simp only [internalSend_peers, onSendMessage_peers, setWrite_other s hne]
    | forced => exact setWrite_other s hne _
    | queued => rfl

theorem transmit_wrote (s : State) (c m : ℕ) (a : Arm) :
    Wrote s.FORCE_CLOSE_SLOW_CONNECTION (s.peers c).write ((transmit s m a).peers c).write := by
  by_cases h : (s.messages m).m_connection = some c
  · rw [transmit_self h]
    exact .send
  · rw [transmit_other h]
    exact .kept

theorem requeue_peers (dropTime frameTime : UInt64) (s : State) (m : ℕ) :
    (requeue dropTime frameTime s m).peers = s.peers := by
  rw [requeue]
  dsimp only
  split
  · split <;> rfl
  · exact onSendMessage_peers s m .dropped

theorem foldl_requeue_peers (dropTime frameTime : UInt64) (l : List ℕ) (s : State) :
    (l.foldl (requeue dropTime frameTime) s).peers = s.peers := by
  induction l generalizing s with
  | nil => rfl
  | cons m l ih => rw [List.foldl_cons, ih, requeue_peers]

theorem clearAddQueue_peers (l : List ℕ) (s : State) : (clearAddQueue s l).peers = s.peers := by
  obtain ⟨_, heq⟩ := clearAddQueue_eq l s
  rw [heq]

theorem beginSendAll_peers (s : State) : (beginSendAll s).peers = s.peers := by
  simp only [beginSendAll, clearAddQueue_peers, foldl_requeue_peers]

theorem setWrite_wrote (s : State) (c x : ℕ) (f : WriteSide.State → WriteSide.State)
    (h : ∀ w, Wrote s.FORCE_CLOSE_SLOW_CONNECTION w (f w)) :
    Wrote s.FORCE_CLOSE_SLOW_CONNECTION (s.peers x).write ((s.setWrite c f).peers x).write := by
  by_cases hx : x = c
  · subst hx
    rw [setWrite_self]
    exact h _
  · rw [setWrite_other s hx]
    exact .kept

theorem setPeer_write (s : State) (c x : ℕ) (f : Peer → Peer)
    (h : ∀ peer, (f peer).write = peer.write) : ((s.setPeer c f).peers x).write =
      (s.peers x).write := by
  simp only [State.setPeer]
  split
  · exact h _
  · rfl

theorem internalReleaseMessage_write (s : State) (m c : ℕ) :
    ((internalReleaseMessage s m).peers c).write = (s.peers c).write := by
  obtain ⟨_, _, _, hwrite, heq⟩ := internalReleaseMessage_frame s m
  rw [heq]
  exact hwrite c

theorem configureOutputMessage_write (s : State) (m p x c : ℕ) (autoSend : Bool) :
    ((configureOutputMessage s m p x autoSend).peers c).write = (s.peers c).write :=
  setPeer_write s x c (fun peer => { peer with m_refCount := peer.m_refCount + 1 }) fun _ => rfl

def goesToConnection : Event → Bool
  | .transmit _ _ | .sendNext _ _ | .onWrite _ _ | .peer _ _ => true
  | _ => false

theorem effect_write (he : Effect s e u) (hnot : goesToConnection e = false) (c : ℕ) :
    (u.peers c).write = (s.peers c).write := by
  cases he with
  | getOutputMessage hd hf =>
    obtain ⟨_, _, hrefill⟩ := refill_eq s
    rw [configureOutputMessage_write, hrefill]
  | copy hm => rfl
  | drop hm => rw [dropped_peers]
  | sendIgnored hm hstate => rfl
  | send hm hstate => rfl
  | transmit hm hv => cases hnot
  | autoSend hm => rfl
  | startExecutionFrame time => rfl
  | stop => rfl
  | sendAll hframe => rw [beginSendAll_peers]
  | sendNext hl hv => cases hnot
  | sendAllEnd => rfl
  | onWrite f error hm => cases hnot
  | peer c e => cases hnot
  | setConnection connection hd => rfl
  | keepProtocol hr => rfl
  | deleteProtocol hr => rfl
  | keepConnection hr => rfl
  | @deleteConnection x hr =>
    exact setPeer_write s x c (fun peer => { peer with deleted := true }) fun _ => rfl
  | @internalReleaseMessage m hm => exact internalReleaseMessage_write s m c

theorem step_wrote (h : step s e = some u) (c : ℕ) :
    Wrote s.FORCE_CLOSE_SLOW_CONNECTION (s.peers c).write (u.peers c).write := by
  by_cases hgoes : goesToConnection e = false
  · rw [effect_write (step_effect h) hgoes c]
    exact .kept
  cases e with
  | transmit m a =>
    simp only [step] at h
    split at h <;> cases h
    rw [dropped_peers]
    exact transmit_wrote s c m a
  | sendNext m a =>
    simp only [step] at h
    split at h
    · split at h <;> cases h
      rw [dropped_peers]
      exact transmit_wrote s c m a
    · cases h
  | onWrite m error =>
    simp only [step] at h
    split at h
    · split at h <;> cases h
      rw [dropped_peers]
      exact setWrite_wrote s _ c _ fun w => .onWrite error
    · cases h
  | peer x e =>
    cases h
    exact setWrite_wrote s x c _ fun w => .peer e
  | _ => exact absurd rfl hgoes

theorem closeSocket_pendingWrite {w : WriteSide.State} (h : w.m_pendingWrite ≤ 1) :
    (WriteSide.closeSocket w).m_pendingWrite ≤ 1 := by
  rw [WriteSide.closeSocket]
  split
  · exact Int.zero_le_ofNat 1
  · exact h

theorem handleWriteError_pendingWrite (w : WriteSide.State) (error : Option ErrorCode) :
    (WriteSide.handleWriteError w error).m_pendingWrite = w.m_pendingWrite := by
  simp only [WriteSide.handleWriteError]
  split
  · rfl
  · exact WriteSide.close_pendingWrite w

theorem Wrote.pendingWrite {force : Bool} {w v : WriteSide.State} (h : Wrote force w v)
    (hw : w.m_pendingWrite ≤ 1) : v.m_pendingWrite ≤ 1 := by
  cases h with
  | kept => exact hw
  | send =>
    rw [WriteSide.send]
    split
    · exact hw
    · exact hw
    · rename_i hwritten
      have hzero : w.m_pendingWrite = 0 := by
        by_contra hne
        rw [WriteSide.sending] at hwritten
        rw [if_neg hne] at hwritten
        split at hwritten
        · cases hwritten
        · split at hwritten <;> cases hwritten
      simp only [hzero]
      exact Int.le_refl 1
    · rw [WriteSide.close_pendingWrite]
      exact hw
  | onWrite error =>
    unfold WriteSide.onWrite
    have herror : (if error.isSome then WriteSide.handleWriteError w error
        else w).m_pendingWrite ≤ 1 := by
      split
      · rw [handleWriteError_pendingWrite]
        exact hw
      · exact hw
    generalize (if error.isSome then WriteSide.handleWriteError w error else w) = v at herror ⊢
    dsimp only
    split
    · rw [WriteSide.close_pendingWrite]
      exact closeSocket_pendingWrite herror
    · simp only
      omega
  | peer e =>
    cases e with
    | close =>
      simp only [PeerEvent.apply, WriteSide.close_pendingWrite]
      exact hw
    | closeConnection =>
      simp only [PeerEvent.apply, WriteSide.closeConnection]
      split
      · exact hw
      · split
        · exact closeSocket_pendingWrite hw
        · exact hw
    | closeSocket =>
      simp only [PeerEvent.apply, WriteSide.close_pendingWrite]
      exact closeSocket_pendingWrite hw

theorem reachable_pendingWrite (h : machine.Reachable s) (c : ℕ) :
    (s.peers c).write.m_pendingWrite ≤ 1 := by
  refine Machine.invariant (I := fun s => (s.peers c).write.m_pendingWrite ≤ 1)
    (fun s hs => ?_) (fun s e u hi hstep => ?_) h
  · obtain ⟨time, forceClose, rfl⟩ := hs
    exact Int.zero_le_ofNat 1
  · exact (step_wrote hstep c).pendingWrite hi

/-! ## The counter never gets to the limit -/

theorem send_keeps_state {w : WriteSide.State} (h : w.m_pendingWrite ≤ 1) (force : Bool) :
    (WriteSide.send w force).m_connectionState = w.m_connectionState := by
  have hnever : WriteSide.sending w force ≠ .forced := by
    have hlimit : ¬ (w.m_pendingWrite > 100 ∧ force = true) := by omega
    intro hforced
    rw [WriteSide.sending, if_neg hlimit] at hforced
    split at hforced
    · cases hforced
    · split at hforced
      · cases hforced
      · cases hforced
  rw [WriteSide.send]
  split
  · rfl
  · rfl
  · rfl
  · rename_i hforced
    exact absurd hforced hnever

theorem sendsOn_write (h : step s e = some u) (hsend : SendsOn s c e) :
    (u.peers c).write = WriteSide.send (s.peers c).write s.FORCE_CLOSE_SLOW_CONNECTION := by
  cases e with
  | transmit m a =>
    simp only [step] at h
    split at h <;> cases h
    rw [dropped_peers]
    exact transmit_self hsend a
  | sendNext m a =>
    simp only [step] at h
    split at h
    · split at h <;> cases h
      rw [dropped_peers]
      exact transmit_self hsend a
    · cases h
  | _ => cases hsend

/-- No `send` in any run changes the state of its connection. -/
theorem send_keeps_open (hs : machine.Reachable s) (h : step s e = some u)
    (hsend : SendsOn s c e) (hopen : IsOpen s c) : IsOpen u c := by
  rw [IsOpen, sendsOn_write h hsend, send_keeps_state (reachable_pendingWrite hs c)]
  exact hopen

/-- With any backlog above the limit, after any run, the next `send` leaves the connection open. -/
theorem slow_connection_never_cut_off {time : UInt64} {es : List Event}
    (hrun : machine.run (initial time true) es = some s) (hopen : IsOpen s c)
    (hslow : 100 < (backlog (acceptedIn (initial time true) es) s c).length)
    (hsend : SendsOn s c e) (hstep : step s e = some u) :
    ¬ CutOff (acceptedIn (initial time true) es) s u c := by
  intro hcut
  have hs : machine.Reachable s := Machine.run_reachable (.start ⟨time, true, rfl⟩) hrun
  exact hcut hslow (send_keeps_open hs hstep hsend hopen)

def sendNew (m : ℕ) : List Event := [.getOutputMessage 0 false, .send m, .transmit m .started]

def backlogTrace : List Event :=
  .setConnection 0 (some 0) :: ((List.range 100).reverse ++ [100]).flatMap sendNew ++
    [.getOutputMessage 0 false, .send 101]

def backlogAccepted : List ℕ := acceptedIn (initial 20000 true) backlogTrace

theorem backlog_trace_backlog : ∃ s, machine.run (initial 20000 true) backlogTrace = some s ∧
    IsOpen s 0 ∧ 100 < (backlog backlogAccepted s 0).length ∧
    SendsOn s 0 (.transmit 101 .started) ∧
    ∃ u, step s (.transmit 101 .started) = some u := by
  have hrun : ∃ s, machine.run (initial 20000 true) backlogTrace = some s ∧
      IsOpen s 0 ∧ 100 < (backlog backlogAccepted s 0).length ∧
      SendsOn s 0 (.transmit 101 .started) ∧
      (step s (.transmit 101 .started)).isSome = true :=
    Machine.exists_run (by decide +kernel)
  obtain ⟨s, hrun, hopen, hslow, hsend, hnext⟩ := hrun
  exact ⟨s, hrun, hopen, hslow, hsend, Option.isSome_iff_exists.mp hnext⟩

/-- The connection with a hundred and one unwritten messages is open after the next `send`. -/
theorem backlog_trace_stays_open : ∃ s u, machine.run (initial 20000 true) backlogTrace = some s ∧
    step s (.transmit 101 .started) = some u ∧ ¬ CutOff backlogAccepted s u 0 := by
  obtain ⟨s, hrun, hopen, hslow, hsend, u, hstep⟩ := backlog_trace_backlog
  exact ⟨s, u, hrun, hstep, slow_connection_never_cut_off hrun hopen hslow hsend hstep⟩

theorem slow_connection_not_closed : ¬ ∀ (time : UInt64) (es : List Event) (s u : State) (c : ℕ)
    (e : Event), machine.run (initial time true) es = some s → IsOpen s c → SendsOn s c e →
      step s e = some u → CutOff (acceptedIn (initial time true) es) s u c := by
  intro hall
  obtain ⟨s, hrun, hopen, hslow, hsend, u, hstep⟩ := backlog_trace_backlog
  have hs : machine.Reachable s := Machine.run_reachable (.start ⟨_, _, rfl⟩) hrun
  exact hall 20000 backlogTrace s u 0 _ hrun hopen hsend hstep hslow
    (send_keeps_open hs hstep hsend hopen)

end LoginServer.MessagePool
