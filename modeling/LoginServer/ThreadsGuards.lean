import LoginServer.ThreadsQueues

/-! # What the mutexes protect

Each part of the shared state has one mutex, and whatever changes that part is done under it. So
what a thread reads under a mutex stays true until the thread itself goes on. -/
namespace LoginServer.Threads

open Locks Runs
open Connection (ErrorCode Arm)

/-- The mutex that an action needs for the state it reads and writes. -/
def guard : Action → Option Mutex
  | .close c | .closeSocket c | .setReadError c | .setWriteError c | .checkHeader c
  | .checkPacket c _ | .checkWrite c | .onReadTimeout c | .onWriteTimeout c | .onStop c
  | .closeConnection c | .closing c | .closed c => some (.m_connectionLock c)
  | .send msg => some (.m_connectionLock msg.m_connection)
  | .addTask _ _ | .awaitTask | .takeTask => some .m_taskLock
  | .addEvent _ | .takeEvent => some .m_eventLock
  | .configureOutputMessage _ _ | .autoSend _ | .sendAll | .sendNext _ | .eraseNext =>
    some .m_outputPoolLock
  | .createConnection | .eraseConnection _ => some .m_connectionManagerLock
  | _ => none

abbrev Covers (h : List Mutex) (code : Code) (k : List Mutex) : Prop :=
  Covered guard post h code k

theorem covers_append {h k m : List Mutex} {code rest : Code} (hc : Covers h code k)
    (hr : Covers k rest m) : Covers h (code ++ rest) m := covered_append guard post hc hr

theorem covers_locked {h : List Mutex} {l : Mutex} {code : Code}
    (hc : Covers (l :: h) code (l :: h)) : Covers h (locked l code) h :=
  covers_append (k := l :: h) hc (List.erase_cons_head l h)

theorem covers_act {h : List Mutex} {a : Action} {rest : Code} {k : List Mutex}
    (hg : ∀ l ∈ guard a, l ∈ h) (hp : post h a = h) (hr : Covers h rest k) :
    Covers h (.act a :: rest) k :=
  ⟨hg, hp.symm ▸ hr⟩

theorem covers_free {h : List Mutex} {a : Action} {rest : Code} {k : List Mutex}
    (hg : guard a = none) (hp : post h a = h) (hr : Covers h rest k) :
    Covers h (.act a :: rest) k :=
  covers_act (fun l hl => by rw [hg] at hl; cases hl) hp hr

theorem covers_under {h : List Mutex} {l : Mutex} {a : Action} {rest : Code} {k : List Mutex}
    (hg : guard a = some l) (hl : l ∈ h) (hp : post h a = h) (hr : Covers h rest k) :
    Covers h (.act a :: rest) k :=
  covers_act (fun m hm => by rw [hg, Option.mem_some_iff] at hm; exact hm ▸ hl) hp hr

theorem covers_last {h : List Mutex} {l : Mutex} {a : Action} (hg : guard a = some l)
    (hl : l ∈ h) : Covers h [.act a] (post h a) :=
  ⟨fun m hm => by rw [hg, Option.mem_some_iff] at hm; exact hm ▸ hl, rfl⟩

theorem covers_guarded (h : List Mutex) {l : Mutex} {a : Action} (hg : guard a = some l)
    (hp : ∀ k, post k a = k) : Covers h (locked l [.act a]) h :=
  covers_locked (covers_under hg List.mem_cons_self (hp _) rfl)

/-! ## The functions -/

theorem covers_addTask (h : List Mutex) (t : Task) (front : Bool) : Covers h (addTask t front) h :=
  covers_guarded h rfl fun _ => rfl

theorem covers_addEvent (h : List Mutex) (t : Task) : Covers h (addEvent t) h :=
  covers_guarded h rfl fun _ => rfl

theorem covers_close (h : List Mutex) (c : ℕ) : Covers h (close c) h :=
  covers_guarded h rfl fun _ => rfl

theorem covers_closeSocket (h : List Mutex) (c : ℕ) : Covers h (closeSocket c) h :=
  covers_guarded h rfl fun _ => rfl

theorem covers_closeBoth (h : List Mutex) (c : ℕ) : Covers h (closeSocket c ++ close c) h :=
  covers_append (covers_closeSocket h c) (covers_close h c)

theorem covers_empty (h : List Mutex) (l : Mutex) : Covers h (locked l []) h := covers_locked rfl

theorem covers_handleError (h : List Mutex) (c : ℕ) (error : Option ErrorCode) {set : Action}
    (hg : guard set = some (.m_connectionLock c)) (hp : ∀ k, post k set = k) :
    Covers h (handleError c error set) h := by
  apply covers_locked
  refine covers_append (k := .m_connectionLock c :: h) ?_
    (covers_under hg List.mem_cons_self (hp _) rfl)
  split
  · exact rfl
  · exact covers_close _ c

theorem covers_completion (h : List Mutex) (c : ℕ) (error : Option ErrorCode) {set a : Action}
    {failed : Prop} [Decidable failed] (hset : guard set = some (.m_connectionLock c))
    (hps : ∀ k, post k set = k) (ha : guard a = some (.m_connectionLock c))
    (hpa : ∀ k, post k a = k) : Covers h (locked (.m_connectionLock c)
      ((if failed then handleError c error set else []) ++ [.act a])) h := by
  apply covers_locked
  refine covers_append (k := .m_connectionLock c :: h) ?_
    (covers_under ha List.mem_cons_self (hpa _) rfl)
  split
  · exact covers_handleError _ c error hset hps
  · exact rfl

theorem covers_disconnectClient (h : List Mutex) (c : ℕ) : Covers h (disconnectClient c) h :=
  covers_free rfl rfl rfl

theorem covers_onRecvFirstMessage (h : List Mutex) (c : ℕ) (first : FirstMessage) :
    Covers h (onRecvFirstMessage c first) h := by
  cases first with
  | rsaFailed => exact covers_free rfl rfl rfl
  | rejected => exact covers_disconnectClient h c
  | checked isDisabled =>
    apply covers_append (covers_empty h _)
    cases isDisabled with
    | true => exact covers_disconnectClient h c
    | false => exact covers_addTask h _ _

theorem covers_delegate (h : List Mutex) (c : ℕ) (login : Login) :
    Covers h (delegate c login) h := by
  cases login with
  | refused => exact covers_disconnectClient h c
  | failed => exact covers_append (covers_empty h _) (covers_disconnectClient h c)
  | served => exact covers_append (covers_empty h _) (covers_free rfl rfl rfl)

theorem covers_poolSend (h : List Mutex) (msg : Message) : Covers h (poolSend msg) h := by
  have hsend : Covers (.m_connectionLock msg.m_connection :: h) [.act (.send msg)]
      (post (.m_connectionLock msg.m_connection :: h) (.send msg)) :=
    covers_last rfl List.mem_cons_self
  have hpost : post (.m_connectionLock msg.m_connection :: h) (.send msg) = h :=
    List.erase_cons_head _ h
  rw [hpost] at hsend
  exact covers_append (covers_empty h _) hsend

theorem covers_finishOutput (h : List Mutex) (msg : Message) (scope : Scope) :
    Covers h (finishOutput msg scope) h := by
  cases scope with
  | function => exact covers_free rfl rfl (covers_free rfl rfl rfl)
  | block => exact covers_free rfl rfl (covers_free rfl rfl rfl)

theorem covers_handler (h : List Mutex) (handler : Handler) : Covers h handler.code h := by
  cases handler with
  | handle accepted =>
    apply covers_append (covers_empty h _)
    cases accepted with
    | true => exact covers_last (h := .m_connectionManagerLock :: h) rfl List.mem_cons_self
    | false => exact rfl
  | handleError => exact covers_addEvent h _
  | parseHeader c error sizeOk =>
    exact covers_completion h c error rfl (fun _ => rfl) rfl fun _ => rfl
  | parsePacket c error p =>
    exact covers_completion h c error rfl (fun _ => rfl) rfl fun _ => rfl
  | onWrite msg error =>
    exact covers_append (covers_completion h _ error rfl (fun _ => rfl) rfl fun _ => rfl)
      (covers_free rfl rfl rfl)
  | onReadTimeout c => exact covers_guarded h rfl fun _ => rfl
  | onWriteTimeout c => exact covers_guarded h rfl fun _ => rfl
  | onStop c =>
    exact covers_append (covers_guarded h rfl fun _ => rfl) (covers_guarded h rfl fun _ => rfl)
  | stop => exact rfl

theorem covers_task (h : List Mutex) (failed : Bool) (login : Login) (t : Task) :
    Covers h (t.code failed login) h := by
  cases t with
  | closeConnection c => exact covers_guarded h rfl fun _ => rfl
  | delegate c => exact covers_delegate h c login
  | internalReleaseMessage msg => exact covers_free rfl rfl (covers_empty h _)
  | releaseConnection c => exact covers_free rfl rfl rfl
  | releaseProtocol c => exact covers_free rfl rfl rfl
  | services =>
    cases failed with
    | true => exact covers_addEvent h _
    | false => exact rfl
  | motdReloadTask => exact covers_addEvent h _

theorem covers_drops (h : List Mutex) (l : List Message) :
    Covers h (l.map fun msg => .act (.drop msg)) h := by
  induction l with
  | nil => exact rfl
  | cons msg l ih => exact covers_free rfl rfl ih

/-! ## The actions -/

theorem covers_startRead (h : List Mutex) (s : State) (c : ℕ) (a : Arm) :
    Covers h (startRead s c a).2 h := by
  rw [startRead]
  split
  · exact rfl
  · exact covers_close h c

theorem covers_checkPacket {h : List Mutex} {s : State} {c : ℕ} {p : Packet} {r : State × Code}
    (hr : checkPacket s c p = some r) : Covers h r.2 h := by
  rw [checkPacket] at hr
  split at hr
  · cases hr
    exact covers_close h c
  · split at hr
    · cases hr
      rw [firstPacket]
      split
      · exact covers_close h c
      · exact covers_append (covers_onRecvFirstMessage h c p.first) (covers_free rfl rfl rfl)
    · split at hr <;> cases hr
      exact covers_free rfl rfl rfl

theorem covers_configureOutputMessage {h : List Mutex} {s : State} {c : ℕ} {scope : Scope}
    {r : State × Code} (hr : configureOutputMessage s c scope = some r) :
    Covers (.m_outputPoolLock :: h) r.2 h := by
  have herase : (Mutex.m_outputPoolLock :: h).erase .m_outputPoolLock = h :=
    List.erase_cons_head _ h
  rw [configureOutputMessage] at hr
  split at hr
  · cases hr
    change Covers ((Mutex.m_outputPoolLock :: h).erase .m_outputPoolLock) _ h
    rw [herase]
    exact covers_append (covers_poolSend h _) (covers_finishOutput h _ scope)
  · cases hr
    change Covers ((Mutex.m_outputPoolLock :: h).erase .m_outputPoolLock) _ h
    rw [herase]
    exact covers_free rfl rfl rfl
  · cases hr

theorem covers_send (h : List Mutex) (s : State) (msg : Message) (a : Arm) :
    Covers h (send s msg a).2 (h.erase (.m_connectionLock msg.m_connection)) := by
  rw [send]
  split
  · exact rfl
  · exact rfl
  · exact covers_append (covers_close h _) rfl
  · exact covers_append (covers_guarded h rfl fun _ => rfl) rfl

theorem covers_drop (h : List Mutex) (s : State) (msg : Message) :
    Covers h (drop s msg).2 h := by
  rw [drop]
  dsimp only
  split
  · exact covers_addTask h _ _
  · exact rfl

theorem covers_closing {h : List Mutex} {c : ℕ} (hc : .m_connectionLock c ∈ h) (s : State) :
    Covers h (closing s c).2 h := by
  rw [closing]
  dsimp only
  split
  · exact covers_append (covers_closeSocket h c)
      (covers_free rfl rfl (covers_under rfl hc rfl rfl))
  · exact rfl

theorem covers_closeConnection {h : List Mutex} {c : ℕ} (hc : .m_connectionLock c ∈ h)
    (s : State) : Covers h (closeConnection s c).2 h := by
  rw [closeConnection]
  split
  · exact rfl
  · split
    · exact covers_free rfl rfl (covers_under rfl hc rfl rfl)
    · exact covers_under rfl hc rfl rfl

theorem covers_takeTask (s : State) : Covers [.m_taskLock] (takeTask s).2 [] := by
  rw [takeTask]
  split
  · exact covers_free rfl rfl rfl
  · refine covers_free rfl rfl (covers_free rfl rfl ?_)
    have hall : Covers [] sendAll [] := covers_guarded [] rfl fun _ => rfl
    exact covers_append hall (covers_free rfl rfl rfl)

theorem covers_takeEvent {s : State} {i : Choice} {r : State × Code}
    (hr : takeEvent s i = some r) : Covers [.m_eventLock] r.2 [] := by
  rw [takeEvent] at hr
  split at hr
  · cases hr
    exact covers_free rfl rfl rfl
  · split at hr <;> cases hr
    refine covers_append (h := []) (k := []) ?_ (covers_free rfl rfl rfl)
    split
    · exact rfl
    · exact covers_addTask [] _ _

/-- What an action starts, from mutexes that the order of them allows for it, is covered. -/
theorem exec_covers {i : Choice} {s : State} {a : Action} {r : State × Code} {h : List Mutex}
    (hq : s.m_autoSend = []) (hpre : pre h a) (hg : ∀ l ∈ guard a, l ∈ h)
    (hr : exec i s a = some r) : Covers h r.2 (post h a) := by
  cases a with
  | serve =>
    obtain ⟨v, _, rfl⟩ := Option.map_eq_some_iff.mp hr
    exact covers_append (covers_handler h i.handler) (covers_free rfl rfl rfl)
  | tasksThread | schedulerThread =>
    cases hr
    obtain rfl : h = [] := hpre
    exact covers_last rfl List.mem_cons_self
  | createConnection =>
    cases hr
    obtain rfl : h = [.m_connectionManagerLock] := hpre
    exact covers_free rfl rfl rfl
  | startRead c =>
    cases hr
    exact covers_startRead h s c i.arm
  | close c =>
    simp only [exec] at hr
    split at hr <;> cases hr
    · exact rfl
    · exact covers_addTask h _ _
  | eraseConnection _ | closeSocket _ | setReadError _ | setWriteError _ | autoSend _ | onStop _
  | addTask _ _ | addEvent _ | startExecutionFrame | closed _ | unRef _ =>
    cases hr
    exact rfl
  | checkHeader c =>
    simp only [exec] at hr
    split at hr <;> cases hr
    · exact covers_close h c
    · exact covers_free rfl rfl rfl
  | checkPacket c p => exact covers_checkPacket hr
  | getOutputMessage c scope =>
    cases hr
    dsimp only
    split
    · exact covers_free rfl rfl rfl
    · exact covers_last (h := .m_outputPoolLock :: h) rfl List.mem_cons_self
  | configureOutputMessage c scope =>
    obtain ⟨k, rfl, _⟩ := hpre
    exact covers_configureOutputMessage hr
  | closeThroughProtocol c =>
    simp only [exec, closeThroughProtocol] at hr
    split at hr <;> cases hr
    exact covers_close h c
  | send msg =>
    cases hr
    exact covers_send h s msg i.arm
  | drop msg =>
    cases hr
    exact covers_drop h s msg
  | checkWrite c =>
    simp only [exec] at hr
    split at hr <;> cases hr
    · exact covers_closeBoth h c
    · exact rfl
  | onReadTimeout c | onWriteTimeout c =>
    cases hr
    dsimp only
    split
    · exact covers_closeBoth h c
    · exact rfl
  | awaitTask =>
    cases hr
    obtain rfl : h = [.m_taskLock] := hpre
    dsimp only
    split <;> exact covers_last rfl List.mem_cons_self
  | takeTask =>
    cases hr
    obtain rfl : h = [.m_taskLock] := hpre
    exact covers_takeTask s
  | execute t =>
    cases hr
    exact covers_task h i.failed i.login t
  | closeConnection c =>
    cases hr
    exact covers_closeConnection (hg _ rfl) s
  | closing c =>
    cases hr
    exact covers_closing (hg _ rfl) s
  | releaseProtocol c =>
    cases hr
    rw [releaseProtocol]
    split
    · exact covers_addEvent h _
    · exact rfl
  | releaseConnection c =>
    cases hr
    dsimp only
    split
    · exact covers_addEvent h _
    · exact rfl
  | sendAll =>
    cases hr
    exact covers_append (covers_drops h _) (covers_under rfl (hg _ rfl) rfl rfl)
  | sendNext frameTime =>
    cases hr
    rw [sendNext, hq]
    exact rfl
  | eraseNext =>
    cases hr
    rw [eraseNext, hq]
    exact rfl
  | takeEvent =>
    obtain rfl : h = [.m_eventLock] := hpre
    exact covers_takeEvent hr

/-! ## What an action changes -/

/-- The part of a connection that its mutex protects. The numbers of pending reads and of
references, and the fields of the protocol object, are also written without it. -/
structure LockedPart where
  write : WriteSide.State
  m_readError : Bool
  m_receivedFirst : Bool
  m_protocol : Bool
  deriving DecidableEq

def Peer.lockedPart (peer : Peer) : LockedPart :=
  ⟨peer.write, peer.m_readError, peer.m_receivedFirst, peer.m_protocol⟩

/-- At most the part of the state that the mutex protects is changed. -/
structure Within (l : Option Mutex) (s u : State) : Prop where
  connection : ∀ c, l ≠ some (.m_connectionLock c) →
    (u.peers c).lockedPart = (s.peers c).lockedPart
  tasks : l ≠ some .m_taskLock → u.m_taskList = s.m_taskList
  events : l ≠ some .m_eventLock → u.m_eventList = s.m_eventList
  pool : l ≠ some .m_outputPoolLock →
    (u.m_addQueue, u.m_autoSend, u.handed) = (s.m_addQueue, s.m_autoSend, s.handed)
  manager : l ≠ some .m_connectionManagerLock →
    (u.m_connections, u.created) = (s.m_connections, s.created)

theorem Within.refl (l : Option Mutex) (s : State) : Within l s s :=
  ⟨fun _ _ => rfl, fun _ => rfl, fun _ => rfl, fun _ => rfl, fun _ => rfl⟩

theorem Within.trans {l : Option Mutex} {s u v : State} (h : Within l s u) (k : Within l u v) :
    Within l s v :=
  ⟨fun c hc => (k.connection c hc).trans (h.connection c hc),
    fun hl => (k.tasks hl).trans (h.tasks hl), fun hl => (k.events hl).trans (h.events hl),
    fun hl => (k.pool hl).trans (h.pool hl), fun hl => (k.manager hl).trans (h.manager hl)⟩

theorem within_setPeer (l : Option Mutex) {s : State} {x : ℕ} {f : Peer → Peer}
    (hf : (f (s.peers x)).lockedPart = (s.peers x).lockedPart) : Within l s (s.setPeer x f) := by
  refine ⟨fun c _ => ?_, fun _ => rfl, fun _ => rfl, fun _ => rfl, fun _ => rfl⟩
  by_cases hc : c = x
  · subst hc
    simp [State.setPeer, hf]
  · simp [State.setPeer, hc]

theorem within_connection (s : State) (x : ℕ) (f : Peer → Peer) :
    Within (some (.m_connectionLock x)) s (s.setPeer x f) := by
  refine ⟨fun c hc => ?_, fun _ => rfl, fun _ => rfl, fun _ => rfl, fun _ => rfl⟩
  have hne : c ≠ x := fun h => hc (by rw [h])
  simp [State.setPeer, hne]

theorem startRead_within (l : Option Mutex) (s : State) (c : ℕ) (a : Arm) :
    Within l s (startRead s c a).1 := by
  have hs : Within l s (s.readStarted c) := within_setPeer l rfl
  rw [startRead]
  split
  · exact hs
  · exact hs.trans ⟨fun _ _ => rfl, fun _ => rfl, fun _ => rfl, fun _ => rfl, fun _ => rfl⟩

theorem checkPacket_within {s : State} {c : ℕ} {p : Packet} {r : State × Code}
    (hr : checkPacket s c p = some r) : Within (some (.m_connectionLock c)) s r.1 := by
  have hs : Within (some (.m_connectionLock c)) s (s.readDone c) := within_connection s c _
  rw [checkPacket] at hr
  split at hr
  · cases hr
    exact .refl _ s
  · split at hr
    · cases hr
      have hfirst : Within (some (.m_connectionLock c)) s
          ((s.readDone c).setPeer c fun peer => { peer with m_receivedFirst := true }) :=
        hs.trans (within_connection _ c _)
      rw [firstPacket]
      split
      · exact hfirst
      · dsimp only
        split
        · exact hfirst
        · exact hfirst.trans (within_connection _ c _)
    · split at hr <;> cases hr
      exact hs

theorem configureOutputMessage_within {s : State} {c : ℕ} {scope : Scope} {r : State × Code}
    (hr : configureOutputMessage s c scope = some r) : Within (some .m_outputPoolLock) s r.1 := by
  rw [configureOutputMessage] at hr
  split at hr
  · cases hr
    have hs : Within (some .m_outputPoolLock) s (s.setPeer c fun peer => { peer with
        m_refCount := peer.m_refCount + 1
        protocol := peer.protocol.map fun p => { p with m_refCount := p.m_refCount + 1 } }) :=
      within_setPeer _ rfl
    exact hs.trans
      ⟨fun _ _ => rfl, fun _ => rfl, fun _ => rfl, fun h => absurd rfl h, fun _ => rfl⟩
  · cases hr
    exact .refl _ s
  · cases hr

theorem send_within (s : State) (msg : Message) (a : Arm) :
    Within (some (.m_connectionLock msg.m_connection)) s (send s msg a).1 := by
  rw [send]
  split
  · exact .refl _ s
  · have hs : Within (some (.m_connectionLock msg.m_connection)) s
        (s.setWrite msg.m_connection fun w => WriteSide.send w s.FORCE_CLOSE_SLOW_CONNECTION) :=
      within_connection s msg.m_connection _
    dsimp only
    split
    · exact hs.trans ⟨fun _ _ => rfl, fun _ => rfl, fun _ => rfl, fun _ => rfl, fun _ => rfl⟩
    · exact hs
  · exact .refl _ s
  · exact .refl _ s

theorem begin_within {s u : State} {handler : Handler} (hu : s.begin handler = some u) :
    Within none s u := by
  cases handler with
  | onWrite msg error =>
    simp only [State.begin] at hu
    split at hu <;> cases hu
    exact ⟨fun _ _ => rfl, fun _ => rfl, fun _ => rfl, fun _ => rfl, fun _ => rfl⟩
  | _ =>
    cases hu
    exact ⟨fun _ _ => rfl, fun _ => rfl, fun _ => rfl, fun _ => rfl, fun _ => rfl⟩

/-- With nothing to be sent automatically, an action changes only what its mutex protects. -/
theorem exec_within {i : Choice} {s : State} {a : Action} {r : State × Code} (hq : Quiet s)
    (hr : exec i s a = some r) : Within (guard a) s r.1 := by
  cases a with
  | serve =>
    obtain ⟨v, hv, rfl⟩ := Option.map_eq_some_iff.mp hr
    exact begin_within hv
  | tasksThread | schedulerThread | getOutputMessage _ _ | onReadTimeout _ | onWriteTimeout _
  | awaitTask | execute _ | releaseConnection _ | sendNext _ =>
    cases hr
    exact .refl _ s
  | createConnection | eraseConnection c =>
    cases hr
    exact ⟨fun _ _ => rfl, fun _ => rfl, fun _ => rfl, fun _ => rfl, fun h => absurd rfl h⟩
  | startRead c =>
    cases hr
    exact startRead_within _ s c i.arm
  | close c | checkHeader c | checkWrite c =>
    simp only [exec] at hr
    split at hr <;> cases hr
    · exact .refl _ s
    · dsimp only
      exact within_connection s c _
  | closeSocket c | setReadError c | setWriteError c | onStop c | closed c =>
    cases hr
    dsimp only
    exact within_connection s c _
  | checkPacket c p => exact checkPacket_within hr
  | configureOutputMessage c scope => exact configureOutputMessage_within hr
  | closeThroughProtocol c =>
    simp only [exec, closeThroughProtocol] at hr
    split at hr <;> cases hr
    exact .refl _ s
  | send msg =>
    cases hr
    exact send_within s msg i.arm
  | autoSend msg =>
    cases hr
    exact ⟨fun _ _ => rfl, fun _ => rfl, fun _ => rfl, fun h => absurd rfl h, fun _ => rfl⟩
  | drop msg | startExecutionFrame =>
    cases hr
    exact ⟨fun _ _ => rfl, fun _ => rfl, fun _ => rfl, fun _ => rfl, fun _ => rfl⟩
  | addTask t front =>
    cases hr
    exact ⟨fun _ _ => rfl, fun h => absurd rfl h, fun _ => rfl, fun _ => rfl, fun _ => rfl⟩
  | addEvent t =>
    cases hr
    exact ⟨fun _ _ => rfl, fun _ => rfl, fun h => absurd rfl h, fun _ => rfl, fun _ => rfl⟩
  | takeTask =>
    cases hr
    rw [takeTask]
    split
    · exact .refl _ s
    · exact ⟨fun _ _ => rfl, fun h => absurd rfl h, fun _ => rfl, fun _ => rfl, fun _ => rfl⟩
  | closeConnection c =>
    cases hr
    rw [closeConnection]
    split
    · exact .refl _ s
    · split
      · exact within_setPeer _ (x := c) (f := fun peer => { peer with
          protocol := peer.protocol.map fun p => { p with m_connection := false } }) rfl
      · exact .refl _ s
  | closing c =>
    cases hr
    rw [closing]
    dsimp only
    exact within_connection s c _
  | releaseProtocol c =>
    cases hr
    rw [releaseProtocol]
    split
    · exact .refl _ s
    · exact within_setPeer _ (x := c) (f := fun peer => { peer with
        protocol := peer.protocol.map fun p => { p with m_connection := false, deleted := true } })
        rfl
  | unRef msg =>
    cases hr
    exact within_setPeer _ (x := msg.m_connection) (f := fun peer => { peer with
      m_refCount := peer.m_refCount - 1
      protocol := peer.protocol.map fun p => { p with m_refCount := p.m_refCount - 1 } }) rfl
  | sendAll =>
    cases hr
    rw [beginSendAll, hq.addQueue]
    exact ⟨fun _ _ => rfl, fun _ => rfl, fun _ => rfl, fun h => absurd rfl h, fun _ => rfl⟩
  | eraseNext =>
    cases hr
    rw [eraseNext, hq.autoSend]
    exact .refl _ s
  | takeEvent =>
    simp only [exec, takeEvent] at hr
    split at hr
    · cases hr
      exact .refl _ s
    · split at hr <;> cases hr
      exact ⟨fun _ _ => rfl, fun _ => rfl, fun h => absurd rfl h, fun _ => rfl, fun _ => rfl⟩

/-! ## Every run of the server -/

/-- Every action that is still to be taken will be taken under its mutex. -/
structure Watched {n : ℕ} (s : Server n) : Prop where
  ordinary : Ordinary s
  covered : ∀ t, Covers (s.held t) (s.code t) []

theorem initial_watched (n : ℕ) (time : UInt64) (logError forceClose : Bool) :
    Watched (initial n time logError forceClose) := by
  refine ⟨initial_ordinary n time logError forceClose, ?_⟩
  intro t
  cases t <;> exact covers_free rfl rfl rfl

theorem step_watched {n : ℕ} {s u : Server n} {t : Thread n} {i : Choice} (h : Watched s)
    (hu : step program s (t, i) = some u) : Watched u := by
  refine ⟨step_ordinary h.ordinary hu, step_covered h.covered ?_ hu⟩
  intro a rest r hcode hg hr
  have hordered := h.ordinary.orderly.ordered t
  rw [hcode] at hordered
  exact exec_covers h.ordinary.quiet.autoSend hordered.1 hg hr

theorem reachable_watched {n : ℕ} {s : Server n} (h : (server n).Reachable s) : Watched s := by
  apply Machine.invariant ?_ ?_ h
  · rintro s ⟨time, logError, forceClose, rfl⟩
    exact initial_watched n time logError forceClose
  · rintro s ⟨t, i⟩ u hs hu
    exact step_watched hs hu

/-- Over a run of the other threads, a view that only one mutex lets change does not change while
it is held. -/
theorem run_view_held {n : ℕ} {τ : Type} (view : State → τ) {l : Mutex}
    (hv : ∀ s u k, Within k s u → k ≠ some l → view u = view s) {s u : Server n} (h : Watched s)
    {t : Thread n} (hl : l ∈ s.held t) {es : List (Thread n × Choice)}
    (hes : ∀ e ∈ es, e.1 ≠ t) (hrun : (server n).run s es = some u) :
    view u.shared = view s.shared := by
  induction es generalizing s with
  | nil =>
    cases hrun
    rfl
  | cons e es ih =>
    obtain ⟨v, hstep, hrun⟩ := Machine.run_cons hrun
    obtain ⟨hne, hes⟩ := List.forall_mem_cons.mp hes
    have hfirst : view v.shared = view s.shared :=
      step_view h.ordinary.orderly.exclusive h.covered
        (fun a r hg hr => hv _ _ _ (exec_within h.ordinary.quiet hr) hg) hl hne hstep
    have hheld : l ∈ v.held t := by
      rw [step_held_other hne hstep]
      exact hl
    exact (ih (step_watched h hstep) hheld hes hrun).trans hfirst

/-! ## The connections of the manager -/

theorem exec_connections {i : Choice} {s : State} {a : Action} {r : State × Code} (hq : Quiet s)
    (hr : exec i s a = some r) :
    (r.1.m_connections, r.1.created) = (s.m_connections, s.created) ∨
    (r.1.m_connections, r.1.created) = (s.m_connections ++ [s.created], s.created + 1) ∨
    ∃ c, (r.1.m_connections, r.1.created) = (s.m_connections.erase c, s.created) := by
  cases a with
  | createConnection =>
    cases hr
    exact .inr (.inl rfl)
  | eraseConnection c =>
    cases hr
    exact .inr (.inr ⟨c, rfl⟩)
  | _ => exact .inl ((exec_within hq hr).manager fun hg => by cases hg)

/-- No connection is listed twice, so a released one is gone from the list. -/
structure Listed (s : State) : Prop where
  once : s.m_connections.Nodup
  created : ∀ c ∈ s.m_connections, c < s.created

theorem exec_listed {i : Choice} {s : State} {a : Action} {r : State × Code} (hq : Quiet s)
    (h : Listed s) (hr : exec i s a = some r) : Listed r.1 := by
  obtain he | he | ⟨c, he⟩ := exec_connections hq hr <;> rw [Prod.mk.injEq] at he
  · exact ⟨he.1 ▸ h.once, by rw [he.1, he.2]; exact h.created⟩
  · have hnew : s.created ∉ s.m_connections := fun hin => Nat.lt_irrefl _ (h.created _ hin)
    refine ⟨?_, fun c hc => ?_⟩
    · rw [he.1]
      exact List.nodup_append_comm.mp (List.nodup_cons.mpr ⟨hnew, h.once⟩)
    · rw [he.2]
      rw [he.1, List.mem_append, List.mem_singleton] at hc
      rcases hc with hc | rfl
      · exact Nat.lt_succ_of_lt (h.created c hc)
      · exact Nat.lt_succ_self _
  · refine ⟨he.1 ▸ h.once.erase c, fun x hx => ?_⟩
    rw [he.2]
    exact h.created x (List.mem_of_mem_erase (he.1 ▸ hx))

theorem reachable_listed {n : ℕ} {s : Server n} (h : (server n).Reachable s) :
    Listed s.shared := by
  have hboth : Ordinary s ∧ Listed s.shared := by
    apply Machine.invariant ?_ ?_ h
    · rintro s ⟨time, logError, forceClose, rfl⟩
      exact ⟨initial_ordinary n time logError forceClose, List.nodup_nil,
        fun _ hc => absurd hc List.not_mem_nil⟩
    · rintro s ⟨t, i⟩ u ⟨ho, hs⟩ hu
      refine ⟨step_ordinary ho hu, ?_⟩
      rcases step_shared program hu with he | ⟨a, rest, r, _, hr, he⟩
      · exact he ▸ hs
      · exact he ▸ exec_listed ho.quiet hs hr
  exact hboth.2

/-- As long as a thread that holds a mutex does not go on, no run of the other threads changes what
the mutex protects: nothing that is read under it is written at the same time. -/
theorem held_state_stays {n : ℕ} {s u : Server n} (h : (server n).Reachable s) {t : Thread n}
    {es : List (Thread n × Choice)} (hes : ∀ e ∈ es, e.1 ≠ t)
    (hrun : (server n).run s es = some u) :
    (∀ c, .m_connectionLock c ∈ s.held t →
      (u.shared.peers c).lockedPart = (s.shared.peers c).lockedPart) ∧
    (.m_taskLock ∈ s.held t → u.shared.m_taskList = s.shared.m_taskList) ∧
    (.m_eventLock ∈ s.held t → u.shared.m_eventList = s.shared.m_eventList) ∧
    (.m_outputPoolLock ∈ s.held t → u.shared.m_addQueue = s.shared.m_addQueue ∧
      u.shared.m_autoSend = s.shared.m_autoSend ∧ u.shared.handed = s.shared.handed) ∧
    (.m_connectionManagerLock ∈ s.held t → u.shared.m_connections = s.shared.m_connections ∧
      u.shared.created = s.shared.created) := by
  have hw := reachable_watched h
  refine ⟨fun c hl => ?_, fun hl => ?_, fun hl => ?_, fun hl => ?_, fun hl => ?_⟩
  · exact run_view_held (fun s => (s.peers c).lockedPart)
      (fun s u k hk hne => hk.connection c hne) hw hl hes hrun
  · exact run_view_held State.m_taskList (fun s u k hk hne => hk.tasks hne) hw hl hes hrun
  · exact run_view_held State.m_eventList (fun s u k hk hne => hk.events hne) hw hl hes
      hrun
  · have hpool := run_view_held (fun s => (s.m_addQueue, s.m_autoSend, s.handed))
      (fun s u k hk hne => hk.pool hne) hw hl hes hrun
    simpa using hpool
  · have hmanager := run_view_held (fun s => (s.m_connections, s.created))
      (fun s u k hk hne => hk.manager hne) hw hl hes hrun
    simpa using hmanager

def schedulerSteps : List (Thread 2 × Choice) :=
  [(.scheduler, {}), (.scheduler, {}), (.scheduler, {}), (.scheduler, {}), (.scheduler, {})]

theorem waiting_trace_state_stays : ∃ s u,
    (server 2).run (initial 2 20000 true false) waitingTrace = some s ∧
    (server 2).run s schedulerSteps = some u ∧ .m_connectionLock 0 ∈ s.held (.service 0) ∧
    (u.shared.peers 0).lockedPart = (s.shared.peers 0).lockedPart := by
  have hrun : ∃ s, (server 2).run (initial 2 20000 true false) waitingTrace = some s ∧
      (.m_connectionLock 0 ∈ s.held (.service 0) ∧
        ((server 2).run s schedulerSteps).isSome = true) :=
    Machine.exists_run (by decide +kernel)
  obtain ⟨s, hs, hheld, hsome⟩ := hrun
  obtain ⟨u, hu⟩ := Option.isSome_iff_exists.mp hsome
  have hreach : (server 2).Reachable s := Machine.run_reachable (.start ⟨_, _, _, rfl⟩) hs
  have hothers : ∀ e ∈ schedulerSteps, e.1 ≠ .service 0 := by decide
  exact ⟨s, u, hs, hu, hheld, (held_state_stays hreach hothers hu).1 0 hheld⟩

end LoginServer.Threads
