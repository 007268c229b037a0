import LoginServer.ThreadsOrder
import Mathlib.Data.List.Perm.Basic

/-! # What can still be queued

A connection sends one message in its life: at its first packet, or in the `delegate` task that
the first packet starts. Everything that may still send it weighs two, a write that has begun
weighs one, and no step adds to the weight of a connection. So nothing is pending when the
message is sent, and the two queues of the pool stay empty. -/
namespace LoginServer.Threads

open Locks Runs
open Connection (ErrorCode Arm)

def taskWeight (c : ℕ) : Task → ℕ
  | .delegate x => if x = c then 2 else 0
  | _ => 0

/-- A message for the queue weighs more than a connection may. -/
@[grind =] def actionWeight (c : ℕ) : Action → ℕ
  | .getOutputMessage x _ | .configureOutputMessage x _ => if x = c then 2 else 0
  | .send msg => if msg.m_connection = c then 2 else 0
  | .autoSend msg => if msg.m_connection = c then 3 else 0
  | .addTask t _ | .addEvent t | .execute t => taskWeight c t
  | .checkWrite x => if x = c then 1 else 0
  | _ => 0

def peerWeight (peer : Peer) : ℕ :=
  (if peer.m_receivedFirst then 0 else 2) + if peer.write.m_pendingWrite = 0 then 0 else 1

def stateWeight (c : ℕ) (s : State) : ℕ :=
  peerWeight (s.peers c) +
    2 * (s.m_taskList.count (.delegate c) + s.m_eventList.count (.delegate c)) +
    s.writing.countP fun msg => msg.m_connection = c

abbrev codeWeight (c : ℕ) (code : Code) : ℕ := load (actionWeight c) code

@[simp] theorem codeWeight_locked (c : ℕ) (l : Mutex) (code : Code) :
    codeWeight c (locked l code) = codeWeight c code := by
  simp [locked, codeWeight, load]

@[simp] theorem codeWeight_addTask (c : ℕ) (t : Task) (front : Bool) :
    codeWeight c (addTask t front) = taskWeight c t := codeWeight_locked c _ _

@[simp] theorem codeWeight_addEvent (c : ℕ) (t : Task) :
    codeWeight c (addEvent t) = taskWeight c t := codeWeight_locked c _ _

@[simp] theorem codeWeight_close (c x : ℕ) : codeWeight c (close x) = 0 := codeWeight_locked c _ _

@[simp] theorem codeWeight_closeSocket (c x : ℕ) : codeWeight c (closeSocket x) = 0 :=
  codeWeight_locked c _ _

@[simp] theorem codeWeight_handleError (c x : ℕ) (error : Option ErrorCode) (set : Action) :
    codeWeight c (handleError x error set) = actionWeight c set := by
  rw [handleError, codeWeight_locked, codeWeight, load_append]
  split <;> simp [load]

theorem codeWeight_onRecvFirstMessage (c x : ℕ) (first : FirstMessage) :
    codeWeight c (onRecvFirstMessage x first) ≤ if x = c then 2 else 0 := by
  cases first with
  | rsaFailed => simp [onRecvFirstMessage, load, actionWeight]
  | rejected => simp [onRecvFirstMessage, disconnectClient, load, actionWeight]
  | checked isDisabled =>
    cases isDisabled <;> simp [onRecvFirstMessage, disconnectClient, load, actionWeight, taskWeight]

theorem codeWeight_delegate (c x : ℕ) (login : Login) :
    codeWeight c (delegate x login) = if x = c then 2 else 0 := by
  cases login <;> simp [delegate, disconnectClient, load, actionWeight]

theorem codeWeight_handler (c : ℕ) (handler : Handler) :
    codeWeight c handler.code =
      match handler with
      | .onWrite msg _ => if msg.m_connection = c then 1 else 0
      | _ => 0 := by
  cases handler with
  | handle accepted => cases accepted <;> simp [Handler.code, load, actionWeight]
  | handleError => simp [Handler.code, taskWeight]
  | parseHeader x error sizeOk =>
    simp only [Handler.code, parseHeader, codeWeight_locked, codeWeight, load_append]
    split <;> simp [load, actionWeight, handleReadError]
  | parsePacket x error p =>
    simp only [Handler.code, parsePacket, codeWeight_locked, codeWeight, load_append]
    split <;> simp [load, actionWeight, handleReadError]
  | onWrite msg error =>
    simp only [Handler.code, onWrite, codeWeight, load_append]
    simp only [codeWeight_locked, load_append]
    split <;> simp [load, actionWeight, handleWriteError]
  | onReadTimeout x => simp [Handler.code, load, actionWeight]
  | onWriteTimeout x => simp [Handler.code, load, actionWeight]
  | onStop x =>
    simp [Handler.code, onStop, ConnectionManager.releaseConnection, load, actionWeight]
  | stop => rfl

theorem codeWeight_task (c : ℕ) (failed : Bool) (login : Login) (t : Task) :
    codeWeight c (t.code failed login) = taskWeight c t := by
  cases t with
  | closeConnection x => simp [Task.code, taskWeight, load, actionWeight]
  | delegate x => exact codeWeight_delegate c x login
  | internalReleaseMessage msg => simp [Task.code, taskWeight, load, actionWeight]
  | releaseConnection x => simp [Task.code, taskWeight, load, actionWeight]
  | releaseProtocol x => simp [Task.code, taskWeight, load, actionWeight]
  | services => cases failed <;> simp [Task.code, taskWeight, load]
  | motdReloadTask => simp [Task.code, taskWeight]

theorem codeWeight_poolSend (c : ℕ) (msg : Message) :
    codeWeight c (poolSend msg) = if msg.m_connection = c then 2 else 0 := by
  simp [poolSend, load, actionWeight]

theorem codeWeight_finishOutput (c : ℕ) (msg : Message) (scope : Scope) :
    codeWeight c (finishOutput msg scope) = 0 := by
  cases scope <;> simp [finishOutput, load, actionWeight]

theorem stateWeight_setPeer (c x : ℕ) (s : State) (f : Peer → Peer) :
    stateWeight c (s.setPeer x f) + (if x = c then peerWeight (s.peers x) else 0) =
      stateWeight c s + if x = c then peerWeight (f (s.peers x)) else 0 := by
  by_cases hx : x = c
  · subst hx
    simp only [stateWeight, State.setPeer, if_true]
    omega
  · simp [stateWeight, State.setPeer, hx, Ne.symm hx]

theorem stateWeight_setWrite (c x : ℕ) (s : State) (f : WriteSide.State → WriteSide.State) :
    stateWeight c (s.setWrite x f) + (if x = c then peerWeight (s.peers x) else 0) =
      stateWeight c s +
        if x = c then peerWeight { s.peers x with write := f (s.peers x).write } else 0 :=
  stateWeight_setPeer c x s _

/-- Nothing waits to be sent automatically. -/
structure Quiet (s : State) : Prop where
  addQueue : s.m_addQueue = []
  autoSend : s.m_autoSend = []

/-! ## The actions -/

theorem stateWeight_setPeer_le {x k : ℕ} {s : State} {f : Peer → Peer}
    (hf : peerWeight (f (s.peers x)) ≤ peerWeight (s.peers x) + k) (c : ℕ) :
    stateWeight c (s.setPeer x f) ≤ stateWeight c s + if x = c then k else 0 := by
  have hs := stateWeight_setPeer c x s f
  split at hs <;> simp only [*, if_true, if_false] at * <;> omega

theorem stateWeight_same {x : ℕ} {s : State} {f : Peer → Peer}
    (hf : peerWeight (f (s.peers x)) ≤ peerWeight (s.peers x)) (c : ℕ) :
    stateWeight c (s.setPeer x f) ≤ stateWeight c s := by
  have hs := stateWeight_setPeer_le (k := 0) hf c
  simpa using hs

theorem peerWeight_write {peer : Peer} {w : WriteSide.State}
    (hw : w.m_pendingWrite = peer.write.m_pendingWrite) :
    peerWeight { peer with write := w } = peerWeight peer := by
  simp [peerWeight, hw]

theorem peerWeight_closeSocket (peer : Peer) (k : ℤ) :
    peerWeight { peer with m_pendingRead := k, write := WriteSide.closeSocket peer.write } ≤
      peerWeight peer := by
  apply Nat.add_le_add_left
  rw [WriteSide.closeSocket]
  split
  · exact Nat.zero_le _
  · exact Nat.le_refl _

theorem startRead_weight (c x : ℕ) (s : State) (a : Arm) :
    stateWeight c (startRead s x a).1 + codeWeight c (startRead s x a).2 ≤ stateWeight c s := by
  have hs : stateWeight c (s.readStarted x) ≤ stateWeight c s := stateWeight_same (Nat.le_refl _) c
  rw [startRead]
  split
  · exact hs
  · rw [codeWeight_close]
    exact hs

theorem firstPacket_weight {c x : ℕ} {s : State} (p : Packet)
    (hf : (s.peers x).m_receivedFirst = false) :
    stateWeight c (firstPacket s x p).1 + codeWeight c (firstPacket s x p).2 ≤ stateWeight c s := by
  have hs := stateWeight_setPeer c x s fun peer => { peer with m_receivedFirst := true }
  have hpeer : peerWeight { s.peers x with m_receivedFirst := true } + 2 =
      peerWeight (s.peers x) := by
    simp only [peerWeight, hf, if_true]
    split <;> simp_all
  have hfirst := codeWeight_onRecvFirstMessage c x p.first
  rw [firstPacket]
  generalize s.setPeer x (fun peer => { peer with m_receivedFirst := true }) = u at hs ⊢
  split
  · rw [codeWeight_close]
    by_cases hx : x = c <;> simp only [hx, if_true, if_false] at * <;> omega
  · have hu : stateWeight c (if (u.peers x).m_protocol then u else u.setPeer x fun peer =>
        { peer with m_protocol := true, protocol := some ⟨false, true, 0⟩ }) ≤ stateWeight c u := by
      split
      · exact Nat.le_refl _
      · exact stateWeight_same (Nat.le_refl _) c
    simp only [codeWeight, load_append, load, actionWeight] at hfirst ⊢
    by_cases hx : x = c <;> simp only [hx, if_true, if_false] at * <;> omega

theorem checkPacket_weight {c x : ℕ} {s : State} {p : Packet} {r : State × Code}
    (hr : checkPacket s x p = some r) : stateWeight c r.1 + codeWeight c r.2 ≤ stateWeight c s := by
  have hs : stateWeight c (s.readDone x) ≤ stateWeight c s := stateWeight_same (Nat.le_refl _) c
  rw [checkPacket] at hr
  split at hr
  · cases hr
    simp
  · split at hr
    · rename_i hf
      cases hr
      have hf' : ((s.readDone x).peers x).m_receivedFirst = false := by
        simpa [State.readDone, State.setPeer] using hf
      exact Nat.le_trans (firstPacket_weight p hf') hs
    · split at hr <;> cases hr
      exact hs

theorem configureOutputMessage_weight {c x : ℕ} {scope : Scope} {s : State} {r : State × Code}
    (hr : configureOutputMessage s x scope = some r) :
    stateWeight c r.1 + codeWeight c r.2 ≤ stateWeight c s + if x = c then 2 else 0 := by
  rw [configureOutputMessage] at hr
  split at hr
  · cases hr
    have hs : stateWeight c (s.setPeer x fun peer => { peer with
        m_refCount := peer.m_refCount + 1
        protocol := peer.protocol.map fun p => { p with m_refCount := p.m_refCount + 1 } }) ≤
        stateWeight c s := stateWeight_same (Nat.le_refl _) c
    have hsend := codeWeight_poolSend c ⟨s.handed, x, s.m_frameTime⟩
    have hfin := codeWeight_finishOutput c ⟨s.handed, x, s.m_frameTime⟩ scope
    simp only [codeWeight, load, load_append] at hsend hfin ⊢
    simp only [hsend, hfin]
    exact Nat.add_le_add_right hs _
  · cases hr
    simp [load, actionWeight]
  · cases hr

theorem send_weight {c : ℕ} {s : State} {msg : Message} (a : Arm)
    (hp : (s.peers msg.m_connection).write.m_pendingWrite = 0) :
    stateWeight c (send s msg a).1 + codeWeight c (send s msg a).2 ≤
      stateWeight c s + if msg.m_connection = c then 2 else 0 := by
  have hs := stateWeight_setWrite c msg.m_connection s
    fun w => WriteSide.send w s.FORCE_CLOSE_SLOW_CONNECTION
  rw [send]
  cases hsend : WriteSide.sending (s.peers msg.m_connection).write s.FORCE_CLOSE_SLOW_CONNECTION with
  | refused => simp [load]
  | forced => simp [load]
  | queued =>
    simp only [WriteSide.sending, hp, if_true] at hsend
    split at hsend <;> cases hsend
  | written =>
    have hw : WriteSide.send (s.peers msg.m_connection).write s.FORCE_CLOSE_SLOW_CONNECTION =
        { (s.peers msg.m_connection).write with m_pendingWrite := 1 } := by
      rw [WriteSide.send, hsend, hp]
      rfl
    have hpeer : peerWeight { s.peers msg.m_connection with
        write := { (s.peers msg.m_connection).write with m_pendingWrite := 1 } } =
        peerWeight (s.peers msg.m_connection) + 1 := by
      simp [peerWeight, hp]
    rw [hw, hpeer] at hs
    have hadd : ∀ u : State, stateWeight c { u.setPointers msg (· + 1) with
        writing := msg :: u.writing } = stateWeight c u + if msg.m_connection = c then 1 else 0 := by
      intro u
      simp only [stateWeight, State.setPointers, List.countP_cons, decide_eq_true_eq]
      omega
    have hle : stateWeight c (s.setWrite msg.m_connection
        fun w => WriteSide.send w s.FORCE_CLOSE_SLOW_CONNECTION) ≤
        stateWeight c s + if msg.m_connection = c then 1 else 0 := by
      by_cases hx : msg.m_connection = c <;> simp only [hx, if_true, if_false] at hs ⊢ <;> omega
    have hcode : codeWeight c [.unlock (.m_connectionLock msg.m_connection)] = 0 := rfl
    dsimp only
    rw [hcode]
    generalize (s.setWrite msg.m_connection
      fun w => WriteSide.send w s.FORCE_CLOSE_SLOW_CONNECTION) = u at hle ⊢
    by_cases ha : a = .started
    · rw [if_pos ha, hadd u]
      by_cases hx : msg.m_connection = c <;> simp only [hx, if_true, if_false] at hle ⊢ <;> omega
    · rw [if_neg ha]
      by_cases hx : msg.m_connection = c <;> simp only [hx, if_true, if_false] at hle ⊢ <;> omega

theorem taskWeight_eq (c : ℕ) (t : Task) : taskWeight c t = if t = .delegate c then 2 else 0 := by
  cases t with
  | delegate x => simp [taskWeight]
  | _ => rfl

theorem takeTask_weight (c : ℕ) (s : State) :
    stateWeight c (takeTask s).1 + codeWeight c (takeTask s).2 ≤ stateWeight c s := by
  have hall : codeWeight c (sendAll ++ [.act .tasksThread]) = 0 := by
    simp [sendAll, codeWeight, load, actionWeight, locked]
  rw [takeTask]
  split
  · simp [load, actionWeight]
  · rename_i t rest hl
    simp only [codeWeight, load_append] at hall
    simp only [stateWeight, codeWeight, load, actionWeight, load_append, hl, List.count_cons,
      beq_iff_eq, taskWeight_eq]
    by_cases ht : t = .delegate c <;> simp only [ht, if_true, if_false] <;> omega

theorem takeEvent_weight {c : ℕ} {s : State} {i : Choice} {r : State × Code}
    (hr : takeEvent s i = some r) : stateWeight c r.1 + codeWeight c r.2 ≤ stateWeight c s := by
  rw [takeEvent] at hr
  split at hr
  · cases hr
    simp [load, actionWeight]
  · split at hr <;> cases hr
    rename_i t hl
    obtain ⟨hlt, rfl⟩ := List.getElem?_eq_some_iff.mp hl
    have hcount := (List.getElem_cons_eraseIdx_perm hlt).count_eq (.delegate c)
    simp only [List.count_cons, beq_iff_eq] at hcount
    have hcode : codeWeight c (.unlock .m_eventLock :: ((if i.stopped then [] else
        addTask s.m_eventList[i.due] true) ++ [.act .schedulerThread])) ≤
        taskWeight c s.m_eventList[i.due] := by
      cases i.stopped <;> simp [load, actionWeight]
    rw [taskWeight_eq] at hcode
    refine Nat.le_trans (Nat.add_le_add_left hcode _) ?_
    simp only [stateWeight]
    by_cases ht : s.m_eventList[i.due] = .delegate c <;>
      simp only [ht, if_true, if_false] at hcount ⊢ <;> omega

theorem begin_weight {c : ℕ} {s u : State} {handler : Handler} (hu : s.begin handler = some u) :
    stateWeight c u + codeWeight c handler.code ≤ stateWeight c s := by
  have hcode := codeWeight_handler c handler
  rw [hcode]
  cases handler with
  | onWrite msg error =>
    simp only [State.begin] at hu
    split at hu <;> cases hu
    rename_i hin
    have hcount := (List.perm_cons_erase hin).countP_eq fun msg => decide (msg.m_connection = c)
    rw [List.countP_cons] at hcount
    simp only [decide_eq_true_eq] at hcount
    simp only [stateWeight]
    omega
  | _ =>
    cases hu
    exact Nat.le_refl _

/-- With nothing queued, and nothing pending where a message is sent, an action weighs what it
changes and starts, or more. -/
theorem exec_weight {c : ℕ} {i : Choice} {s : State} {a : Action} {r : State × Code}
    (hq : Quiet s)
    (hp : ∀ msg, a = .send msg → (s.peers msg.m_connection).write.m_pendingWrite = 0)
    (hr : exec i s a = some r) :
    stateWeight c r.1 + codeWeight c r.2 ≤ stateWeight c s + actionWeight c a := by
  cases a with
  | serve =>
    obtain ⟨u, hu, rfl⟩ := Option.map_eq_some_iff.mp hr
    have hw := begin_weight (c := c) hu
    simpa [load, actionWeight] using hw
  | tasksThread | schedulerThread | createConnection | eraseConnection _ =>
    cases hr
    exact Nat.le_refl _
  | startRead x =>
    cases hr
    exact startRead_weight c x s i.arm
  | close x =>
    simp only [exec] at hr
    split at hr <;> cases hr
    · exact Nat.le_refl _
    · simp only [codeWeight_addTask, taskWeight, actionWeight, Nat.add_zero]
      exact stateWeight_same (Nat.le_of_eq (peerWeight_write (WriteSide.close_pendingWrite _))) c
  | closeSocket x =>
    cases hr
    simp only [codeWeight, load, actionWeight, Nat.add_zero]
    exact stateWeight_same (peerWeight_closeSocket _ _) c
  | setReadError x | setWriteError x | onStop x | closed x =>
    cases hr
    simp only [codeWeight, load, actionWeight, Nat.add_zero]
    exact stateWeight_same (Nat.le_refl _) c
  | checkHeader x =>
    simp only [exec] at hr
    split at hr <;> cases hr
    · simp
    · simp only [codeWeight, load, actionWeight, Nat.add_zero]
      exact stateWeight_same (Nat.le_refl _) c
  | checkPacket x p => exact checkPacket_weight hr
  | getOutputMessage x scope =>
    cases hr
    dsimp only
    split <;> simp [load, actionWeight]
  | configureOutputMessage x scope => exact configureOutputMessage_weight hr
  | closeThroughProtocol x =>
    simp only [exec, closeThroughProtocol] at hr
    split at hr <;> cases hr
    simp
  | send msg =>
    cases hr
    exact send_weight i.arm (hp msg rfl)
  | autoSend msg =>
    cases hr
    exact Nat.le_add_right _ _
  | drop msg =>
    cases hr
    rw [drop]
    dsimp only
    split
    · rw [codeWeight_addTask]
      exact Nat.le_refl _
    · exact Nat.le_refl _
  | checkWrite x =>
    simp only [exec] at hr
    split at hr <;> cases hr
    · simp [load_append]
    · simp only [codeWeight, load, actionWeight, Nat.add_zero]
      refine stateWeight_setPeer_le (k := 1) ?_ c
      simp only [peerWeight]
      split <;> split <;> split <;> omega
  | onReadTimeout x | onWriteTimeout x =>
    cases hr
    dsimp only
    split <;> simp [load, load_append]
  | addTask t front =>
    cases hr
    simp only [stateWeight, codeWeight, load, actionWeight, taskWeight_eq]
    by_cases ht : t = .delegate c <;> cases front <;>
      simp [ht, List.count_append] <;> omega
  | addEvent t =>
    cases hr
    simp only [stateWeight, codeWeight, load, actionWeight, taskWeight_eq]
    by_cases ht : t = .delegate c <;> simp [ht, List.count_append]
    omega
  | awaitTask =>
    cases hr
    dsimp only
    split <;> exact Nat.le_refl _
  | takeTask =>
    cases hr
    exact takeTask_weight c s
  | startExecutionFrame =>
    cases hr
    exact Nat.le_refl _
  | execute t =>
    cases hr
    rw [codeWeight_task]
    exact Nat.le_refl _
  | closeConnection x =>
    cases hr
    rw [closeConnection]
    split
    · exact Nat.le_refl _
    · split
      · simp only [codeWeight, load, actionWeight, Nat.add_zero]
        exact stateWeight_same (Nat.le_refl _) c
      · exact Nat.le_refl _
  | closing x =>
    cases hr
    rw [closing]
    have hs : stateWeight c (s.setPeer x fun peer => { peer with
        m_protocol := false
        write := { peer.write with m_connectionState := .CONNECTION_STATE_CLOSING } }) ≤
        stateWeight c s := stateWeight_same (Nat.le_refl _) c
    dsimp only
    split
    · simpa [load, actionWeight] using hs
    · exact hs
  | releaseProtocol x =>
    cases hr
    rw [releaseProtocol]
    split
    · simp [taskWeight]
    · simp only [codeWeight, load, actionWeight, Nat.add_zero]
      exact stateWeight_same (Nat.le_refl _) c
  | releaseConnection x =>
    cases hr
    dsimp only
    split <;> simp [taskWeight, load]
  | unRef msg =>
    cases hr
    simp only [codeWeight, load, actionWeight, Nat.add_zero]
    exact stateWeight_same (Nat.le_refl _) c
  | sendAll =>
    cases hr
    rw [beginSendAll, hq.addQueue]
    exact Nat.le_refl _
  | sendNext frameTime =>
    cases hr
    rw [sendNext, hq.autoSend]
    exact Nat.le_refl _
  | eraseNext =>
    cases hr
    rw [eraseNext, hq.autoSend]
    exact Nat.le_refl _
  | takeEvent => exact takeEvent_weight hr

theorem exec_quiet {i : Choice} {s : State} {a : Action} {r : State × Code} (hq : Quiet s)
    (ha : ∀ msg, a ≠ .autoSend msg) (hr : exec i s a = some r) : Quiet r.1 := by
  cases a with
  | serve =>
    obtain ⟨u, hu, rfl⟩ := Option.map_eq_some_iff.mp hr
    cases hh : i.handler with
    | onWrite msg error =>
      simp only [hh, State.begin] at hu
      split at hu <;> cases hu
      exact ⟨hq.addQueue, hq.autoSend⟩
    | _ =>
      simp only [hh, State.begin] at hu
      cases hu
      exact ⟨hq.addQueue, hq.autoSend⟩
  | autoSend msg => exact absurd rfl (ha msg)
  | tasksThread | schedulerThread | createConnection | eraseConnection _ | closeSocket _
  | setReadError _ | setWriteError _ | getOutputMessage _ _ | onReadTimeout _ | onWriteTimeout _
  | onStop _ | addTask _ _ | addEvent _ | awaitTask | startExecutionFrame | execute _ | closed _
  | releaseConnection _ | unRef _ | sendNext _ | drop _ =>
    cases hr
    exact ⟨hq.addQueue, hq.autoSend⟩
  | startRead x =>
    cases hr
    rw [startRead]
    split <;> exact ⟨hq.addQueue, hq.autoSend⟩
  | close x | checkHeader x | checkWrite x =>
    simp only [exec] at hr
    split at hr <;> cases hr <;> exact ⟨hq.addQueue, hq.autoSend⟩
  | checkPacket x p =>
    simp only [exec, checkPacket] at hr
    split at hr
    · cases hr
      exact hq
    · split at hr
      · cases hr
        simp only [firstPacket]
        split
        · exact ⟨hq.addQueue, hq.autoSend⟩
        · dsimp only
          split <;> exact ⟨hq.addQueue, hq.autoSend⟩
      · split at hr <;> cases hr
        exact ⟨hq.addQueue, hq.autoSend⟩
  | configureOutputMessage x scope =>
    simp only [exec, configureOutputMessage] at hr
    split at hr <;> cases hr
    · exact ⟨hq.addQueue, hq.autoSend⟩
    · exact hq
  | closeThroughProtocol x =>
    simp only [exec, closeThroughProtocol] at hr
    split at hr <;> cases hr
    exact hq
  | send msg =>
    cases hr
    rw [send]
    split
    · exact hq
    · dsimp only
      split <;> exact ⟨hq.addQueue, hq.autoSend⟩
    · exact hq
    · exact hq
  | takeTask =>
    cases hr
    rw [takeTask]
    split <;> exact ⟨hq.addQueue, hq.autoSend⟩
  | closeConnection x =>
    cases hr
    rw [closeConnection]
    split
    · exact hq
    · split <;> exact ⟨hq.addQueue, hq.autoSend⟩
  | closing x =>
    cases hr
    exact ⟨hq.addQueue, hq.autoSend⟩
  | releaseProtocol x =>
    cases hr
    rw [releaseProtocol]
    split
    · exact hq
    · exact ⟨hq.addQueue, hq.autoSend⟩
  | sendAll =>
    cases hr
    rw [beginSendAll, hq.addQueue]
    exact ⟨rfl, hq.autoSend⟩
  | eraseNext =>
    cases hr
    rw [eraseNext, hq.autoSend]
    exact hq
  | takeEvent =>
    simp only [exec, takeEvent] at hr
    split at hr
    · cases hr
      exact hq
    · split at hr <;> cases hr
      exact ⟨hq.addQueue, hq.autoSend⟩

/-! ## Every step of the server -/

/-- What holds of every state reached: the order is kept, nothing is queued, and no connection
can still send more than its one message. -/
structure Ordinary {n : ℕ} (s : Server n) : Prop where
  orderly : Orderly program discipline s
  quiet : Quiet s.shared
  light : ∀ c, weight (stateWeight c) (actionWeight c) s ≤ 2

theorem initial_ordinary (n : ℕ) (time : UInt64) (logError forceClose : Bool) :
    Ordinary (initial n time logError forceClose) := by
  refine ⟨⟨nofun, ?_⟩, ⟨rfl, rfl⟩, ?_⟩
  · intro t
    cases t <;> exact ⟨rfl, rfl⟩
  · intro c
    have hcode : ∀ t : Thread n, load (actionWeight c) t.code = 0 := by
      intro t
      cases t <;> rfl
    simp only [weight, initial, hcode, Finset.sum_const_zero]
    exact Nat.le_refl 2

/-- A message that is sent is the only one of its connection, so nothing is pending there. -/
theorem Ordinary.unpending {n : ℕ} {s : Server n} (h : Ordinary s) {t : Thread n} {msg : Message}
    {rest : Code} (hcode : s.code t = .act (.send msg) :: rest) :
    (s.shared.peers msg.m_connection).write.m_pendingWrite = 0 := by
  have hle := le_weight (stateWeight msg.m_connection) (actionWeight msg.m_connection) hcode
  have hlight := h.light msg.m_connection
  simp only [actionWeight, if_true, stateWeight, peerWeight] at hle
  by_cases hp : (s.shared.peers msg.m_connection).write.m_pendingWrite = 0
  · exact hp
  · rw [if_neg hp] at hle
    omega

theorem Ordinary.unqueued {n : ℕ} {s : Server n} (h : Ordinary s) {t : Thread n} {msg : Message}
    {rest : Code} : s.code t ≠ .act (.autoSend msg) :: rest := by
  intro hcode
  have hle := le_weight (stateWeight msg.m_connection) (actionWeight msg.m_connection) hcode
  have hlight := h.light msg.m_connection
  simp only [actionWeight, if_true] at hle
  omega

theorem step_ordinary {n : ℕ} {s u : Server n} {t : Thread n} {i : Choice} (h : Ordinary s)
    (hu : step program s (t, i) = some u) : Ordinary u := by
  refine ⟨step_orderly h.orderly (fun a _ _ => exec_sound h.quiet.autoSend a) hu, ?_, ?_⟩
  · rcases step_shared program hu with hs | ⟨a, rest, r, hcode, hr, hs⟩
    · rw [hs]
      exact h.quiet
    · rw [hs]
      apply exec_quiet h.quiet ?_ hr
      rintro msg rfl
      exact h.unqueued hcode
  · intro c
    refine Nat.le_trans (step_weight ?_ hu) (h.light c)
    intro a rest r hcode hr
    apply exec_weight h.quiet ?_ hr
    rintro msg rfl
    exact h.unpending hcode

theorem reachable_ordinary {n : ℕ} {s : Server n} (h : (server n).Reachable s) : Ordinary s := by
  apply Machine.invariant ?_ ?_ h
  · rintro s ⟨time, logError, forceClose, rfl⟩
    exact initial_ordinary n time logError forceClose
  · rintro s ⟨t, i⟩ u hs hu
    exact step_ordinary hs hu

/-- No threads of the running server wait for each other in a circle. -/
theorem no_circular_wait {n : ℕ} {s : Server n} (h : (server n).Reachable s) :
    ¬ ∃ t, Relation.TransGen (Waits program s) t t := by
  rintro ⟨t, ht⟩
  exact no_cycle (reachable_ordinary h).orderly t ht

def waitingTrace : List (Thread 2 × Choice) :=
  [(.dispatcher, {}), (.dispatcher, {}),
    (.service 0, { handler := .parsePacket 0 none ⟨false, true, .checked false⟩ }),
    (.service 0, {}), (.service 0, {}), (.service 0, {}), (.service 0, {}),
    (.service 1, { handler := .onReadTimeout 0 })]

/-- One service thread waits for another, and that one for the dispatcher. -/
theorem waiting_trace_no_circle : ∃ s, (server 2).run (initial 2 20000 true false) waitingTrace =
      some s ∧
    (Waits program s (.service 1) (.service 0) ∧ Waits program s (.service 0) .dispatcher) ∧
    ¬ ∃ t, Relation.TransGen (Waits program s) t t := by
  have hrun : ∃ s, (server 2).run (initial 2 20000 true false) waitingTrace = some s ∧
      (((s.code (.service 1)).head? = some (.lock (.m_connectionLock 0)) ∧
        .m_connectionLock 0 ∈ s.held (.service 0)) ∧
      (s.code (.service 0)).head? = some (.lock .m_taskLock) ∧
        .m_taskLock ∈ s.held .dispatcher) := Machine.exists_run (by decide +kernel)
  obtain ⟨s, hs, ⟨h1, h2⟩, h3, h4⟩ := hrun
  have hwait : ∀ t u l, t ≠ u → (s.code t).head? = some (.lock l) → l ∈ s.held u →
      Waits program s t u := by
    intro t u l hne hhead hin
    obtain ⟨rest, hcode⟩ := List.head?_eq_some_iff.mp hhead
    exact ⟨l, rest, hcode, hin, fun he => absurd he.symm hne⟩
  exact ⟨s, hs, ⟨hwait _ _ _ (by decide) h1 h2, hwait _ _ _ (by decide) h3 h4⟩,
    no_circular_wait (Machine.run_reachable (.start ⟨_, _, _, rfl⟩) hs)⟩

end LoginServer.Threads
