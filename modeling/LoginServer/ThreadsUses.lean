import LoginServer.ThreadsRoles
import Mathlib.Algebra.GroupWithZero.Nat

/-! # What still uses a protocol, and what still closes its connection

A connection makes one protocol, at its first packet. Each of its later uses comes from that packet,
so there is at most one at a time; and a connection is closed once, so its protocol is given up
once. -/
namespace LoginServer.Threads

open Locks Runs
open Connection (ErrorCode Arm)

/-! ## What happens to a connection -/

def Peer.isOpen (peer : Peer) : Prop :=
  peer.write.m_connectionState = .CONNECTION_STATE_OPEN

instance (peer : Peer) : Decidable peer.isOpen :=
  inferInstanceAs (Decidable (_ = Connection.ConnectionState.CONNECTION_STATE_OPEN))

def Peer.object (peer : Peer) : Option (Bool × Bool) :=
  peer.protocol.map fun p => (p.deleted, p.m_connection)

structure Kept (peer after : Peer) : Prop where
  first : after.m_receivedFirst = peer.m_receivedFirst
  made : after.m_protocol = peer.m_protocol
  object : after.object = peer.object
  opened : after.isOpen → peer.isOpen

inductive PeerStep (c : ℕ) (peer : Peer) : Action → Peer → Code → Prop where
  | kept {a : Action} {after : Peer} {code : Code} (h : Kept peer after)
    (ha : a ≠ .closeConnection c) (hb : a ≠ .closing c) : PeerStep c peer a after code
  | refused {p : Packet} {after : Peer} (opened : peer.isOpen) (first : peer.m_receivedFirst = false)
    (received : after.m_receivedFirst = true) (made : after.m_protocol = false) :
    PeerStep c peer (.checkPacket c p) after (close c)
  | attached {p : Packet} {after : Peer} {code : Code} (opened : peer.isOpen)
    (first : peer.m_receivedFirst = false) (received : after.m_receivedFirst = true)
    (made : after.m_protocol = true)
    (object : peer.m_protocol = false → after.object = some (false, true)) :
    PeerStep c peer (.checkPacket c p) after code
  | early : PeerStep c peer (.closeConnection c) peer []
  | bare (made : peer.m_protocol = false) :
    PeerStep c peer (.closeConnection c) peer [.act (.closing c)]
  | detached {after : Peer} (made : peer.m_protocol = true)
    (first : after.m_receivedFirst = peer.m_receivedFirst)
    (keeps : after.m_protocol = peer.m_protocol)
    (object : after.object = peer.object.map fun o => (o.1, false))
    (closed : ¬ after.isOpen) :
    PeerStep c peer (.closeConnection c) after [.act (.releaseProtocol c), .act (.closing c)]
  | closing {after : Peer} {code : Code} (first : after.m_receivedFirst = peer.m_receivedFirst)
    (made : after.m_protocol = false) (object : after.object = peer.object)
    (closed : ¬ after.isOpen) : PeerStep c peer (.closing c) after code
  | deleted {after : Peer} (first : after.m_receivedFirst = peer.m_receivedFirst)
    (made : after.m_protocol = peer.m_protocol) (opened : after.isOpen → peer.isOpen) :
    PeerStep c peer (.releaseProtocol c) after []

theorem Kept.refl (peer : Peer) : Kept peer peer := ⟨rfl, rfl, rfl, id⟩

theorem kept_setPeer {x : ℕ} {s : State} {f : Peer → Peer} (hf : Kept (s.peers x) (f (s.peers x)))
    (c : ℕ) : Kept (s.peers c) ((s.setPeer x f).peers c) := by
  by_cases hc : c = x
  · subst hc
    simpa [State.setPeer] using hf
  · simp only [State.setPeer, hc, if_false]
    exact .refl _

theorem kept_write {x : ℕ} {s : State} {f : WriteSide.State → WriteSide.State}
    (hf : (f (s.peers x).write).m_connectionState = .CONNECTION_STATE_OPEN →
      (s.peers x).write.m_connectionState = .CONNECTION_STATE_OPEN)
    (c : ℕ) : Kept (s.peers c) ((s.setWrite x f).peers c) := by
  apply kept_setPeer
  exact ⟨rfl, rfl, rfl, hf⟩

/-- The reference counts are changed at most. -/
def Peer.recount (f : ℤ → ℤ) (peer : Peer) : Peer :=
  { peer with
    m_refCount := f peer.m_refCount
    protocol := peer.protocol.map fun p => { p with m_refCount := f p.m_refCount } }

theorem kept_recount (x : ℕ) (s : State) (f : ℤ → ℤ) (c : ℕ) :
    Kept (s.peers c) ((s.setPeer x (Peer.recount f)).peers c) := by
  apply kept_setPeer
  exact ⟨rfl, rfl, by simp [Peer.object, Peer.recount, Function.comp_def], id⟩

theorem closeSocket_state (w : WriteSide.State) :
    (WriteSide.closeSocket w).m_connectionState = w.m_connectionState := by
  rw [WriteSide.closeSocket]
  split <;> rfl

theorem send_state {w : WriteSide.State} {forceClose : Bool}
    (h : (WriteSide.send w forceClose).m_connectionState = .CONNECTION_STATE_OPEN) :
    w.m_connectionState = .CONNECTION_STATE_OPEN := by
  rw [WriteSide.send] at h
  split at h
  · exact h
  · exact h
  · exact h
  · rw [WriteSide.close] at h
    split at h
    · exact h
    · cases h

theorem not_open_close {w : WriteSide.State}
    (h : (WriteSide.close w).m_connectionState = .CONNECTION_STATE_OPEN) : False := by
  rw [WriteSide.close] at h
  split at h
  · rename_i hw
    simp [h] at hw
  · cases h

theorem firstPacket_peer {s : State} {x : ℕ} {p : Packet} (hopen : (s.peers x).isOpen)
    (hfirst : (s.peers x).m_receivedFirst = false) (c : ℕ) :
    PeerStep c (s.peers c) (.checkPacket x p) ((firstPacket (s.readDone x) x p).1.peers c)
      (firstPacket (s.readDone x) x p).2 := by
  by_cases hc : c = x
  · subst hc
    rw [firstPacket]
    split
    · rename_i h
      exact .refused hopen hfirst (by simp [State.setPeer]) h.1
    · cases hm : (s.peers c).m_protocol with
      | false =>
        refine .attached hopen hfirst ?_ ?_ fun _ => ?_ <;>
          simp [State.readDone, State.setPeer, hm, Peer.object]
      | true =>
        refine .attached hopen hfirst ?_ ?_ fun h => ?_
        · simp [State.readDone, State.setPeer, hm]
        · simp [State.readDone, State.setPeer, hm]
        · cases hm.symm.trans h
  · have hpeer : (firstPacket (s.readDone x) x p).1.peers c = s.peers c := by
      rw [firstPacket]
      split
      · simp [State.readDone, State.setPeer, hc]
      · dsimp only
        split <;> simp [State.readDone, State.setPeer, hc]
    rw [hpeer]
    exact .kept (.refl _) (by simp) (by simp)

theorem closeConnection_peer (s : State) (x c : ℕ) :
    PeerStep c (s.peers c) (.closeConnection x) ((closeConnection s x).1.peers c)
      (closeConnection s x).2 := by
  rw [closeConnection]
  by_cases hc : c = x
  · subst hc
    split
    · exact .early
    · rename_i hstate
      split
      · rename_i hm
        refine .detached hm ?_ ?_ ?_ ?_
        · simp [State.setPeer]
        · simp [State.setPeer]
        · simp [State.setPeer, Peer.object, Function.comp_def]
        · simp only [ne_eq, Decidable.not_not] at hstate
          simp [State.setPeer, Peer.isOpen, hstate]
      · rename_i hm
        exact .bare (Bool.eq_false_iff.mpr hm)
  · have ha : Action.closeConnection x ≠ .closeConnection c := fun h => hc (by cases h; rfl)
    split
    · exact .kept (.refl _) ha (by simp)
    · split
      · simp only [State.setPeer, hc, if_false]
        exact .kept (.refl _) ha (by simp)
      · exact .kept (.refl _) ha (by simp)

theorem closing_peer (s : State) (x c : ℕ) :
    PeerStep c (s.peers c) (.closing x) ((closing s x).1.peers c) (closing s x).2 := by
  rw [closing]
  by_cases hc : c = x
  · subst hc
    refine .closing ?_ ?_ ?_ ?_ <;> simp [State.setPeer, Peer.object, Peer.isOpen]
  · simp only [State.setPeer, hc, if_false]
    exact .kept (.refl _) (by simp) fun h => hc (by cases h; rfl)

theorem releaseProtocol_peer (s : State) (x c : ℕ) :
    PeerStep c (s.peers c) (.releaseProtocol x) ((releaseProtocol s x).1.peers c)
      (releaseProtocol s x).2 := by
  rw [releaseProtocol]
  split
  · exact .kept (.refl _) (by simp) (by simp)
  · by_cases hc : c = x
    · subst hc
      refine .deleted ?_ ?_ ?_ <;> simp [State.setPeer, Peer.isOpen]
    · simp only [State.setPeer, hc, if_false]
      exact .kept (.refl _) (by simp) (by simp)

theorem exec_peer {i : Choice} {s : State} {a : Action} {r : State × Code} (hq : Quiet s)
    (hr : exec i s a = some r) (c : ℕ) : PeerStep c (s.peers c) a (r.1.peers c) r.2 := by
  cases a with
  | tasksThread | schedulerThread | createConnection | eraseConnection _ | getOutputMessage _ _
  | autoSend _ | drop _ | onReadTimeout _ | onWriteTimeout _ | addTask _ _ | addEvent _ | awaitTask
  | startExecutionFrame | execute _ | releaseConnection _ | sendNext _ =>
    cases hr
    exact .kept (.refl _) (by simp) (by simp)
  | serve =>
    obtain ⟨u, hu, rfl⟩ := Option.map_eq_some_iff.mp hr
    have hpeer : u.peers = s.peers := by
      cases hh : i.handler with
      | onWrite msg error =>
        simp only [hh, State.begin] at hu
        split at hu <;> cases hu
        rfl
      | _ =>
        simp only [hh, State.begin] at hu
        cases hu
        rfl
    rw [hpeer]
    exact .kept (.refl _) (by simp) (by simp)
  | startRead x =>
    cases hr
    have hkept : Kept (s.peers c) ((s.readStarted x).peers c) := by
      apply kept_setPeer
      exact ⟨rfl, rfl, rfl, id⟩
    rw [startRead]
    split <;> exact .kept hkept (by simp) (by simp)
  | close x =>
    simp only [exec] at hr
    split at hr <;> cases hr
    · exact .kept (.refl _) (by simp) (by simp)
    · refine PeerStep.kept ?_ (by simp) (by simp)
      exact kept_write (fun h => (not_open_close h).elim) c
  | closeSocket x =>
    cases hr
    refine PeerStep.kept ?_ (by simp) (by simp)
    dsimp only
    apply kept_setPeer
    exact ⟨rfl, rfl, rfl, fun h => (closeSocket_state _).symm.trans h⟩
  | setReadError x =>
    cases hr
    refine PeerStep.kept ?_ (by simp) (by simp)
    dsimp only
    apply kept_setPeer
    exact ⟨rfl, rfl, rfl, id⟩
  | setWriteError x | onStop x =>
    cases hr
    refine PeerStep.kept ?_ (by simp) (by simp)
    dsimp only
    apply kept_write
    exact id
  | checkHeader x | checkWrite x =>
    simp only [exec] at hr
    split at hr <;> cases hr
    · exact .kept (.refl _) (by simp) (by simp)
    · refine PeerStep.kept ?_ (by simp) (by simp)
      dsimp only
      apply kept_setPeer
      exact ⟨rfl, rfl, rfl, id⟩
  | checkPacket x p =>
    simp only [exec, checkPacket] at hr
    split at hr
    · cases hr
      exact .kept (.refl _) (by simp) (by simp)
    · rename_i hok
      split at hr
      · rename_i hfirst
        cases hr
        have hopen : (s.peers x).isOpen := by
          simp only [not_or, ne_eq, Decidable.not_not] at hok
          exact hok.1
        exact firstPacket_peer hopen hfirst c
      · split at hr <;> cases hr
        refine PeerStep.kept ?_ (by simp) (by simp)
        dsimp only
        apply kept_setPeer
        exact ⟨rfl, rfl, rfl, id⟩
  | configureOutputMessage x scope =>
    simp only [exec, configureOutputMessage] at hr
    split at hr <;> cases hr
    · exact .kept (kept_recount x s (· + 1) c) (by simp) (by simp)
    · exact .kept (.refl _) (by simp) (by simp)
  | closeThroughProtocol x =>
    simp only [exec, closeThroughProtocol] at hr
    split at hr <;> cases hr
    exact .kept (.refl _) (by simp) (by simp)
  | send msg =>
    cases hr
    have hkept : Kept (s.peers c) ((s.setWrite msg.m_connection
        fun w => WriteSide.send w s.FORCE_CLOSE_SLOW_CONNECTION).peers c) :=
      kept_write send_state c
    rw [send]
    split
    · exact .kept (.refl _) (by simp) (by simp)
    · dsimp only
      split <;> exact .kept hkept (by simp) (by simp)
    · exact .kept (.refl _) (by simp) (by simp)
    · exact .kept (.refl _) (by simp) (by simp)
  | takeTask =>
    cases hr
    rw [takeTask]
    split <;> exact .kept (.refl _) (by simp) (by simp)
  | closeConnection x =>
    cases hr
    exact closeConnection_peer s x c
  | closing x =>
    cases hr
    exact closing_peer s x c
  | closed x =>
    cases hr
    refine PeerStep.kept ?_ (by simp) (by simp)
    dsimp only
    apply kept_write
    intro h
    cases h
  | releaseProtocol x =>
    cases hr
    exact releaseProtocol_peer s x c
  | unRef msg =>
    cases hr
    exact .kept (kept_recount msg.m_connection s (· - 1) c) (by simp) (by simp)
  | sendAll =>
    cases hr
    rw [beginSendAll, hq.addQueue]
    exact .kept (.refl _) (by simp) (by simp)
  | eraseNext =>
    cases hr
    rw [eraseNext, hq.autoSend]
    exact .kept (.refl _) (by simp) (by simp)
  | takeEvent =>
    simp only [exec, takeEvent] at hr
    split at hr
    · cases hr
      exact .kept (.refl _) (by simp) (by simp)
    · split at hr <;> cases hr
      exact .kept (.refl _) (by simp) (by simp)

theorem PeerStep.opened {c : ℕ} {peer after : Peer} {a : Action} {code : Code}
    (h : PeerStep c peer a after code) (ho : after.isOpen) : peer.isOpen := by
  cases h with
  | kept h _ _ => exact h.opened ho
  | early => exact ho
  | bare _ => exact ho
  | refused opened _ _ _ => exact opened
  | attached opened _ _ _ _ => exact opened
  | detached _ _ _ _ closed => exact absurd ho closed
  | closing _ _ _ closed => exact absurd ho closed
  | deleted _ _ opened => exact opened ho

theorem PeerStep.received {c : ℕ} {peer after : Peer} {a : Action} {code : Code}
    (h : PeerStep c peer a after code) (hf : peer.m_receivedFirst = true) :
    after.m_receivedFirst = true := by
  cases h with
  | kept h _ _ => exact h.first.trans hf
  | early => exact hf
  | bare _ => exact hf
  | refused _ _ received _ => exact received
  | attached _ _ received _ _ => exact received
  | detached _ first _ _ _ => exact first.trans hf
  | closing first _ _ _ => exact first.trans hf
  | deleted first _ _ => exact first.trans hf

/-! ## What still uses a protocol -/

/-- The calls of a protocol's functions that use its connection, and the login among them. -/
def uses (c : ℕ) : Action → ℕ
  | .getOutputMessage x _ | .configureOutputMessage x _ | .closeThroughProtocol x =>
    if x = c then 1 else 0
  | .addTask t _ | .addEvent t | .execute t => if t = .delegate c then 1 else 0
  | _ => 0

/-- A first packet that has not come counts `f`. -/
def stateUses (f c : ℕ) (s : State) : ℕ :=
  (if (s.peers c).m_receivedFirst then 0 else f) + s.m_taskList.count (.delegate c) +
    s.m_eventList.count (.delegate c)

section Load

variable (w : Action → ℕ)

@[simp] theorem load_locked (l : Mutex) (code : Code) : load w (locked l code) = load w code := by
  simp [locked, load]

@[simp] theorem load_addTask (t : Task) (front : Bool) :
    load w (addTask t front) = w (.addTask t front) := by
  simp [addTask, load]

@[simp] theorem load_addEvent (t : Task) : load w (addEvent t) = w (.addEvent t) := by
  simp [addEvent, load]

@[simp] theorem load_close (c : ℕ) : load w (close c) = w (.close c) := by simp [close, load]

@[simp] theorem load_closeSocket (c : ℕ) : load w (closeSocket c) = w (.closeSocket c) := by
  simp [closeSocket, load]

def begins : Action → Bool
  | .createConnection | .eraseConnection _ | .addEvent .services | .close _ | .setReadError _
  | .setWriteError _ | .checkHeader _ | .checkPacket _ _ | .checkWrite _ | .onReadTimeout _
  | .onWriteTimeout _ | .onStop _ | .drop _ => true
  | _ => false

theorem load_handleError {w : Action → ℕ} (hw : ∀ a, begins a = true → w a = 0) (c : ℕ)
    (error : Option ErrorCode) (set : Action) (hs : begins set = true) :
    load w (handleError c error set) = 0 := by
  rw [handleError, load_locked, load_append]
  split <;> simp [load, hw set hs, hw (.close c) rfl]

theorem load_handler {w : Action → ℕ} (hw : ∀ a, begins a = true → w a = 0) (handler : Handler) :
    load w handler.code = 0 := by
  cases handler with
  | handle accepted => cases accepted <;> simp [Handler.code, load, hw .createConnection rfl]
  | handleError => simp [Handler.code, hw (.addEvent .services) rfl]
  | parseHeader c error sizeOk =>
    simp only [Handler.code, parseHeader, load_locked, load_append, load]
    rw [hw (.checkHeader c) rfl]
    split
    · simp [handleReadError, load_handleError hw c error (.setReadError c) rfl]
    · rfl
  | parsePacket c error p =>
    simp only [Handler.code, parsePacket, load_locked, load_append, load]
    rw [hw (.checkPacket c p) rfl]
    split
    · simp [handleReadError, load_handleError hw c error (.setReadError c) rfl]
    · rfl
  | onWrite msg error =>
    simp only [Handler.code, onWrite, load_locked, load_append, load]
    rw [hw (.checkWrite _) rfl, hw (.drop msg) rfl]
    split
    · simp [handleWriteError, load_handleError hw _ error (.setWriteError _) rfl]
    · rfl
  | onReadTimeout c => simp [Handler.code, load, hw (.onReadTimeout c) rfl]
  | onWriteTimeout c => simp [Handler.code, load, hw (.onWriteTimeout c) rfl]
  | onStop c =>
    simp [Handler.code, onStop, ConnectionManager.releaseConnection, load, hw (.onStop c) rfl,
      hw (.eraseConnection c) rfl]
  | stop => rfl

end Load

theorem uses_begins (c : ℕ) (a : Action) (h : begins a = true) : uses c a = 0 := by
  cases a with
  | getOutputMessage _ _ | configureOutputMessage _ _ | closeThroughProtocol _ => cases h
  | addTask _ _ | execute _ => cases h
  | addEvent t =>
    cases t with
    | services => rfl
    | _ => cases h
  | _ => rfl

theorem uses_task (c : ℕ) (failed : Bool) (login : Login) (t : Task) :
    load (uses c) (t.code failed login) = if t = .delegate c then 1 else 0 := by
  cases t with
  | closeConnection x => simp [Task.code, load, uses]
  | delegate x => cases login <;> simp [Task.code, delegate, disconnectClient, load, uses]
  | internalReleaseMessage msg => simp [Task.code, load, uses]
  | releaseConnection x => simp [Task.code, load, uses]
  | releaseProtocol x => simp [Task.code, load, uses]
  | services => cases failed <;> simp [Task.code, load, uses]
  | motdReloadTask => simp [Task.code, uses]

theorem uses_onRecvFirstMessage (c x : ℕ) (first : FirstMessage) :
    load (uses c) (onRecvFirstMessage x first) = if x = c then 1 else 0 := by
  cases first with
  | rsaFailed => simp [onRecvFirstMessage, load, uses]
  | rejected => simp [onRecvFirstMessage, disconnectClient, load, uses]
  | checked isDisabled =>
    cases isDisabled <;> simp [onRecvFirstMessage, disconnectClient, load, uses]

theorem uses_configureOutputMessage {c x : ℕ} {s : State} {scope : Scope} {r : State × Code}
    (hr : configureOutputMessage s x scope = some r) :
    load (uses c) r.2 = if x = c then 1 else 0 := by
  rw [configureOutputMessage] at hr
  split at hr
  · cases hr
    cases scope <;> simp [poolSend, finishOutput, load, uses]
  · cases hr
    simp [load, uses]
  · cases hr

theorem uses_send (c : ℕ) (s : State) (msg : Message) (a : Arm) :
    load (uses c) (send s msg a).2 = 0 := by
  rw [send]
  split <;> simp [load, uses]

/-- Only the first packet brings a use that nothing brought before. -/
theorem uses_checkPacket {c x : ℕ} {s : State} {p : Packet} {r : State × Code}
    (hr : checkPacket s x p = some r) :
    load (uses c) r.2 = 0 ∨ x = c ∧ load (uses c) r.2 = 1 ∧
      (s.peers c).m_receivedFirst = false ∧ (r.1.peers c).m_receivedFirst = true := by
  rw [checkPacket] at hr
  split at hr
  · cases hr
    simp [uses]
  · split at hr
    · rename_i hfirst
      cases hr
      rw [firstPacket]
      split
      · simp [uses]
      · simp only [load_append, uses_onRecvFirstMessage, load, uses]
        by_cases hx : x = c
        · subst hx
          right
          refine ⟨rfl, by simp, by simpa using hfirst, ?_⟩
          split <;> simp [State.setPeer]
        · simp [hx]
    · split at hr <;> cases hr
      simp [load, uses]

theorem exec_uses_code {c : ℕ} {i : Choice} {s : State} {a : Action} {r : State × Code}
    (hq : Quiet s) (hp : ∀ p, a ≠ .checkPacket c p) (ht : a ≠ .takeTask) (he : a ≠ .takeEvent)
    (hr : exec i s a = some r) : load (uses c) r.2 ≤ uses c a := by
  cases a with
  | serve =>
    obtain ⟨u, _, rfl⟩ := Option.map_eq_some_iff.mp hr
    simp [load_handler (uses_begins c), load, uses]
  | takeTask => exact absurd rfl ht
  | takeEvent => exact absurd rfl he
  | tasksThread | schedulerThread | createConnection | eraseConnection _ | closeSocket _
  | setReadError _ | setWriteError _ | autoSend _ | onStop _ | addTask _ _ | addEvent _
  | startExecutionFrame | closed _ | unRef _ =>
    cases hr
    exact Nat.zero_le _
  | startRead x =>
    cases hr
    rw [startRead]
    split <;> simp [load, uses]
  | close x | checkHeader x | checkWrite x =>
    simp only [exec] at hr
    split at hr <;> cases hr <;> simp [load, uses]
  | checkPacket x p =>
    rcases uses_checkPacket (c := c) hr with h | ⟨rfl, _⟩
    · exact Nat.le_of_eq h
    · exact absurd rfl (hp p)
  | getOutputMessage x scope =>
    cases hr
    dsimp only
    split <;> simp [load, uses]
  | configureOutputMessage x scope => exact Nat.le_of_eq (uses_configureOutputMessage hr)
  | closeThroughProtocol x =>
    simp only [exec, closeThroughProtocol] at hr
    split at hr <;> cases hr
    simp [uses]
  | send msg =>
    cases hr
    exact Nat.le_of_eq (uses_send c s msg i.arm)
  | drop msg =>
    cases hr
    rw [drop]
    dsimp only
    split <;> simp [load, uses]
  | onReadTimeout x | onWriteTimeout x =>
    cases hr
    dsimp only
    split <;> simp [load, uses]
  | awaitTask =>
    cases hr
    dsimp only
    split <;> simp [load, uses]
  | execute t =>
    cases hr
    exact Nat.le_of_eq (uses_task c i.failed i.login t)
  | closeConnection x =>
    cases hr
    rw [closeConnection]
    split
    · simp [load]
    · split <;> simp [load, uses]
  | closing x =>
    cases hr
    rw [closing]
    dsimp only
    split <;> simp [load, uses]
  | releaseProtocol x =>
    cases hr
    rw [releaseProtocol]
    split <;> simp [load, uses]
  | releaseConnection x =>
    cases hr
    dsimp only
    split <;> simp [load, uses]
  | sendAll =>
    cases hr
    simp [beginSendAll, hq.addQueue, load, uses]
  | sendNext frameTime =>
    cases hr
    simp [sendNext, hq.autoSend, load]
  | eraseNext =>
    cases hr
    simp [eraseNext, hq.autoSend, load]

/-! ## What waits in the queues -/

def queued (tw : Task → ℕ) (s : State) : ℕ :=
  (s.m_taskList.map tw).sum + (s.m_eventList.map tw).sum

/-- To hand a task on or to execute it weighs what the task does, and what the threads do around it
weighs nothing. -/
structure Carries (tw : Task → ℕ) (w : Action → ℕ) : Prop where
  addTask : ∀ t front, w (.addTask t front) = tw t
  addEvent : ∀ t, w (.addEvent t) = tw t
  execute : ∀ t, w (.execute t) = tw t
  startExecutionFrame : w .startExecutionFrame = 0
  sendAll : w .sendAll = 0
  takeTask : w .takeTask = 0
  tasksThread : w .tasksThread = 0
  schedulerThread : w .schedulerThread = 0

section Queued

variable {tw : Task → ℕ} {w : Action → ℕ}

theorem takeTask_queued (h : Carries tw w) (s : State) :
    queued tw (takeTask s).1 + load w (takeTask s).2 = queued tw s := by
  rw [takeTask]
  split
  · simp [load, h.tasksThread]
  · rename_i t rest hl
    simp only [queued, hl, List.map_cons, List.sum_cons, load_append, load, sendAll, load_locked,
      h.startExecutionFrame, h.execute, h.sendAll, h.tasksThread]
    omega

theorem takeEvent_queued {s : State} {i : Choice} {r : State × Code} (h : Carries tw w)
    (hr : takeEvent s i = some r) : queued tw r.1 + load w r.2 ≤ queued tw s := by
  rw [takeEvent] at hr
  split at hr
  · cases hr
    simp [load, h.schedulerThread]
  · split at hr <;> cases hr
    rename_i t hl
    obtain ⟨hlt, rfl⟩ := List.getElem?_eq_some_iff.mp hl
    have hsum := ((List.getElem_cons_eraseIdx_perm hlt).map tw).sum_eq
    rw [List.map_cons, List.sum_cons] at hsum
    have hcode : load w (.unlock .m_eventLock :: ((if i.stopped then [] else
        addTask s.m_eventList[i.due] true) ++ [.act .schedulerThread])) ≤
        tw s.m_eventList[i.due] := by
      cases i.stopped <;> simp [load, h.addTask, h.schedulerThread]
    refine Nat.le_trans (Nat.add_le_add_left hcode _) ?_
    simp only [queued]
    omega

theorem exec_queued {i : Choice} {s : State} {a : Action} {r : State × Code} (h : Carries tw w)
    (hg : guard a = some .m_taskLock ∨ guard a = some .m_eventLock) (hr : exec i s a = some r) :
    queued tw r.1 + load w r.2 ≤ queued tw s + w a := by
  cases a with
  | addTask t front =>
    cases hr
    cases front <;> simp only [queued, load, h.addTask, List.map_append, List.map_cons,
      List.map_nil, List.sum_append, List.sum_cons, List.sum_nil, if_true, if_false,
      Bool.false_eq_true] <;> omega
  | addEvent t =>
    cases hr
    simp only [queued, load, h.addEvent, List.map_append, List.map_cons, List.map_nil,
      List.sum_append, List.sum_cons, List.sum_nil]
    omega
  | awaitTask =>
    cases hr
    dsimp only
    split <;> simp [load, h.takeTask]
  | takeTask =>
    cases hr
    exact Nat.le_add_right_of_le (Nat.le_of_eq (takeTask_queued h s))
  | takeEvent => exact Nat.le_add_right_of_le (takeEvent_queued h hr)
  | _ => rcases hg with hg | hg <;> cases hg

end Queued

theorem uses_carries (c : ℕ) : Carries (fun t => if t = .delegate c then 1 else 0) (uses c) :=
  ⟨fun _ _ => rfl, fun _ => rfl, fun _ => rfl, rfl, rfl, rfl, rfl, rfl⟩

theorem count_eq_sum (t : Task) (l : List Task) :
    l.count t = (l.map fun u => if u = t then 1 else 0).sum := by
  induction l with
  | nil => rfl
  | cons u l ih =>
    rw [List.count_cons, List.map_cons, List.sum_cons, ih, Nat.add_comm]
    simp only [beq_iff_eq]

theorem stateUses_eq (f c : ℕ) (s : State) : stateUses f c s =
    (if (s.peers c).m_receivedFirst then 0 else f) +
      queued (fun t => if t = .delegate c then 1 else 0) s := by
  rw [stateUses, queued, count_eq_sum, count_eq_sum, Nat.add_assoc]

/-- No action adds to what uses a protocol, or will once its first packet comes; without what the
first packet brings, only that packet does. -/
theorem exec_uses {f c : ℕ} {i : Choice} {s : State} {a : Action} {r : State × Code}
    (hq : Quiet s) (hf : f = 1 ∨ ∀ p, a = .checkPacket c p → load (uses c) r.2 = 0)
    (hr : exec i s a = some r) :
    stateUses f c r.1 + load (uses c) r.2 ≤ stateUses f c s + uses c a := by
  have hfirst : (if (r.1.peers c).m_receivedFirst then 0 else f) ≤
      if (s.peers c).m_receivedFirst then 0 else f := by
    cases hb : (s.peers c).m_receivedFirst with
    | true => simp [(exec_peer hq hr c).received hb]
    | false => split <;> simp
  rw [stateUses_eq, stateUses_eq]
  by_cases hg : guard a = some .m_taskLock ∨ guard a = some .m_eventLock
  · have hqueued := exec_queued (uses_carries c) hg hr
    omega
  · have hw := exec_within hq hr
    have htasks := hw.tasks fun h => hg (Or.inl h)
    have hevents := hw.events fun h => hg (Or.inr h)
    have ht : a ≠ .takeTask := fun h => hg (Or.inl (by rw [h]; rfl))
    have he : a ≠ .takeEvent := fun h => hg (Or.inr (by rw [h]; rfl))
    simp only [queued, htasks, hevents]
    by_cases hp : ∀ p, a ≠ .checkPacket c p
    · have hcode := exec_uses_code hq hp ht he hr
      omega
    · obtain ⟨p, hp⟩ := not_forall.mp hp
      rw [not_not] at hp
      subst hp
      rcases uses_checkPacket (c := c) hr with hcode | ⟨_, hcode, hb, ha⟩
      · omega
      · obtain rfl : f = 1 := hf.resolve_right fun h => by simp [h p rfl] at hcode
        simp only [hb, ha, if_true, Bool.false_eq_true, if_false]
        omega

/-! ## What still closes a connection -/

def taskClosings (e r c : ℕ) : Task → ℕ
  | .closeConnection x => if x = c then e else 0
  | .releaseProtocol x => if x = c then r else 0
  | _ => 0

/-- A close that is still to come weighs `e`, a protocol that is still to be deleted `r`, and what
is still to be set `k`. -/
def closings (e r k c : ℕ) : Action → ℕ
  | .addTask t _ | .addEvent t | .execute t => taskClosings e r c t
  | .closeConnection x => if x = c then e else 0
  | .releaseProtocol x => if x = c then r else 0
  | .closing x => if x = c then k else 0
  | _ => 0

def stateClosings (e r c : ℕ) (s : State) : ℕ :=
  (if (s.peers c).isOpen then e else 0) + (s.m_taskList.map (taskClosings e r c)).sum +
    (s.m_eventList.map (taskClosings e r c)).sum

section Closings

variable {e r k c : ℕ}

theorem closings_begins (a : Action) (h : begins a = true) : closings e r k c a = 0 := by
  cases a with
  | closeConnection _ | releaseProtocol _ | closing _ | addTask _ _ | execute _ => cases h
  | addEvent t =>
    cases t with
    | services => rfl
    | _ => cases h
  | _ => rfl

theorem closings_task (failed : Bool) (login : Login) (t : Task) :
    load (closings e r k c) (t.code failed login) = taskClosings e r c t := by
  cases t with
  | closeConnection x => simp [Task.code, load, closings, taskClosings]
  | delegate x =>
    cases login <;> simp [Task.code, delegate, disconnectClient, load, closings, taskClosings]
  | internalReleaseMessage msg => simp [Task.code, load, closings, taskClosings]
  | releaseConnection x => simp [Task.code, load, closings, taskClosings]
  | releaseProtocol x => simp [Task.code, load, closings, taskClosings]
  | services => cases failed <;> simp [Task.code, load, closings, taskClosings]
  | motdReloadTask => simp [Task.code, closings, taskClosings]

theorem closings_onRecvFirstMessage (x : ℕ) (first : FirstMessage) :
    load (closings e r k c) (onRecvFirstMessage x first) = 0 := by
  cases first with
  | rsaFailed => simp [onRecvFirstMessage, load, closings]
  | rejected => simp [onRecvFirstMessage, disconnectClient, load, closings]
  | checked isDisabled =>
    cases isDisabled <;>
      simp [onRecvFirstMessage, disconnectClient, load, closings, taskClosings]

theorem closings_checkPacket {x : ℕ} {s : State} {p : Packet} {q : State × Code}
    (hq : checkPacket s x p = some q) : load (closings e r k c) q.2 = 0 := by
  rw [checkPacket] at hq
  split at hq
  · cases hq
    simp [closings]
  · split at hq
    · cases hq
      rw [firstPacket]
      split
      · simp [closings]
      · simp [load, closings, closings_onRecvFirstMessage]
    · split at hq <;> cases hq
      simp [load, closings]

theorem closings_configureOutputMessage {x : ℕ} {s : State} {scope : Scope} {q : State × Code}
    (hq : configureOutputMessage s x scope = some q) : load (closings e r k c) q.2 = 0 := by
  rw [configureOutputMessage] at hq
  split at hq
  · cases hq
    cases scope <;> simp [poolSend, finishOutput, load, closings]
  · cases hq
    simp [load, closings]
  · cases hq

theorem closings_send (s : State) (msg : Message) (a : Arm) :
    load (closings e r k c) (send s msg a).2 = 0 := by
  rw [send]
  split <;> simp [load, closings]

theorem closings_closeConnection (s : State) (c : ℕ) (h : r + k ≤ e) :
    load (closings e r k c) (closeConnection s c).2 ≤ e := by
  rw [closeConnection]
  split
  · simp [load]
  · split <;> simp [load, closings] <;> omega

theorem exec_closings_code {i : Choice} {s : State} {a : Action} {q : State × Code} (hs : Quiet s)
    (hk : r + k ≤ e ∨ (a = .closeConnection c → load (closings e r k c) q.2 ≤ e))
    (hc : a ≠ .close c) (ht : a ≠ .takeTask) (he : a ≠ .takeEvent) (hq : exec i s a = some q) :
    load (closings e r k c) q.2 ≤ closings e r k c a := by
  cases a with
  | serve =>
    obtain ⟨u, _, rfl⟩ := Option.map_eq_some_iff.mp hq
    simp [load_handler closings_begins, load, closings]
  | takeTask => exact absurd rfl ht
  | takeEvent => exact absurd rfl he
  | tasksThread | schedulerThread | createConnection | eraseConnection _ | closeSocket _
  | setReadError _ | setWriteError _ | autoSend _ | onStop _ | addTask _ _ | addEvent _
  | startExecutionFrame | closed _ | unRef _ =>
    cases hq
    exact Nat.zero_le _
  | startRead x =>
    cases hq
    rw [startRead]
    split <;> simp [load, closings]
  | close x =>
    have hx : x ≠ c := fun h => hc (by rw [h])
    simp only [exec] at hq
    split at hq <;> cases hq <;> simp [load, closings, taskClosings, hx]
  | checkHeader x | checkWrite x =>
    simp only [exec] at hq
    split at hq <;> cases hq <;> simp [load, closings]
  | checkPacket x p => exact Nat.le_of_eq (closings_checkPacket hq)
  | getOutputMessage x scope =>
    cases hq
    dsimp only
    split <;> simp [load, closings]
  | configureOutputMessage x scope => exact Nat.le_of_eq (closings_configureOutputMessage hq)
  | closeThroughProtocol x =>
    simp only [exec, closeThroughProtocol] at hq
    split at hq <;> cases hq
    simp [closings]
  | send msg =>
    cases hq
    exact Nat.le_of_eq (closings_send s msg i.arm)
  | drop msg =>
    cases hq
    rw [drop]
    dsimp only
    split <;> simp [load, closings, taskClosings]
  | onReadTimeout x | onWriteTimeout x =>
    cases hq
    dsimp only
    split <;> simp [load, closings]
  | awaitTask =>
    cases hq
    dsimp only
    split <;> simp [load, closings]
  | execute t =>
    cases hq
    exact Nat.le_of_eq (closings_task i.failed i.login t)
  | closeConnection x =>
    cases hq
    by_cases hx : x = c
    · subst hx
      have hle : load (closings e r k x) (closeConnection s x).2 ≤ e :=
        hk.elim (closings_closeConnection s x) fun hk => hk rfl
      simpa [closings] using hle
    · rw [closeConnection]
      split
      · simp [load]
      · split <;> simp [load, closings, hx]
  | closing x =>
    cases hq
    rw [closing]
    dsimp only
    split <;> simp [load, closings]
  | releaseProtocol x =>
    cases hq
    rw [releaseProtocol]
    split <;> simp [load, closings, taskClosings]
  | releaseConnection x =>
    cases hq
    dsimp only
    split <;> simp [load, closings, taskClosings]
  | sendAll =>
    cases hq
    simp [beginSendAll, hs.addQueue, load, closings]
  | sendNext frameTime =>
    cases hq
    simp [sendNext, hs.autoSend, load]
  | eraseNext =>
    cases hq
    simp [eraseNext, hs.autoSend, load]

theorem closings_carries : Carries (taskClosings e r c) (closings e r k c) :=
  ⟨fun _ _ => rfl, fun _ => rfl, fun _ => rfl, rfl, rfl, rfl, rfl, rfl⟩

theorem close_closings {i : Choice} {s : State} {q : State × Code}
    (hq : exec i s (.close c) = some q) :
    stateClosings e r c q.1 + load (closings e r k c) q.2 ≤ stateClosings e r c s := by
  simp only [exec] at hq
  split at hq <;> cases hq
  · exact Nat.le_refl _
  · rename_i hopen
    have hbefore : (s.peers c).isOpen := by
      rw [isClosed] at hopen
      rw [Peer.isOpen]
      cases h : (s.peers c).write.m_connectionState <;> simp_all
    have hafter : ¬ ((s.setWrite c WriteSide.close).peers c).isOpen := by
      intro h
      simp only [State.setWrite, State.setPeer, if_true] at h
      exact not_open_close h
    have hclosed : stateClosings e r c (s.setWrite c WriteSide.close) + e =
        stateClosings e r c s := by
      rw [stateClosings, stateClosings, if_neg hafter, if_pos hbefore]
      simp only [State.setWrite, State.setPeer]
      omega
    simp only [load_addTask, closings, taskClosings, if_true]
    exact Nat.le_of_eq hclosed

/-- No action adds to what still closes a connection; without the closes, only a close does. -/
theorem exec_closings {i : Choice} {s : State} {a : Action} {q : State × Code} (hs : Quiet s)
    (hk : r + k ≤ e ∨ (a = .closeConnection c → load (closings e r k c) q.2 ≤ e))
    (hq : exec i s a = some q) :
    stateClosings e r c q.1 + load (closings e r k c) q.2 ≤
      stateClosings e r c s + closings e r k c a := by
  have hopen : (if (q.1.peers c).isOpen then e else 0) ≤ if (s.peers c).isOpen then e else 0 := by
    by_cases ho : (q.1.peers c).isOpen
    · rw [if_pos ho, if_pos ((exec_peer hs hq c).opened ho)]
    · simp [ho]
  by_cases hc : a = .close c
  · subst hc
    exact close_closings hq
  simp only [stateClosings, Nat.add_assoc]
  by_cases hg : guard a = some .m_taskLock ∨ guard a = some .m_eventLock
  · have hqueued := exec_queued (closings_carries (e := e) (r := r) (k := k) (c := c)) hg hq
    simp only [queued] at hqueued
    omega
  · have hw := exec_within hs hq
    have htasks := hw.tasks fun h => hg (Or.inl h)
    have hevents := hw.events fun h => hg (Or.inr h)
    have ht : a ≠ .takeTask := fun h => hg (Or.inl (by rw [h]; rfl))
    have he : a ≠ .takeEvent := fun h => hg (Or.inr (by rw [h]; rfl))
    have hcode := exec_closings_code hs hk hc ht he hq
    simp only [htasks, hevents]
    omega

end Closings

end LoginServer.Threads
