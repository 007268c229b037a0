import LoginServer.ThreadsGuards

/-! # What each thread runs

The service threads run the handlers, the dispatcher its tasks, and the scheduler hands its events
on. So only the dispatcher closes a connection or deletes a protocol, only a service thread reads a
packet or queues a login, and neither a login nor a close goes to the front of the queue. -/
namespace LoginServer.Threads

open Locks Runs
open Connection (ErrorCode Arm)

inductive Role where
  | service | dispatcher | scheduler
  deriving DecidableEq, Repr

def Thread.role {n : ℕ} : Thread n → Role
  | .service _ => .service
  | .dispatcher => .dispatcher
  | .scheduler => .scheduler

/-- The tasks that wait with the scheduler before they come to the dispatcher. -/
def Task.isEvent : Task → Bool
  | .releaseConnection _ | .releaseProtocol _ | .services | .motdReloadTask => true
  | .closeConnection _ | .delegate _ | .internalReleaseMessage _ => false

/-- Which thread puts a task into the queue of the dispatcher, and at which end. -/
def queues (role : Role) (front : Bool) : Task → Bool
  | .closeConnection _ => !front && role != .scheduler
  | .delegate _ => !front && role == .service
  | .internalReleaseMessage _ => front && role != .scheduler
  | .releaseConnection _ | .releaseProtocol _ | .services | .motdReloadTask =>
    front && role == .scheduler

def turns (role : Role) : Action → Bool
  | .serve => role == .service
  | .tasksThread | .awaitTask | .takeTask => role == .dispatcher
  | .schedulerThread | .takeEvent => role == .scheduler
  | _ => false

@[grind =] def does (role : Role) : Action → Bool
  | .createConnection | .eraseConnection _ | .startRead _ | .setReadError _ | .setWriteError _
  | .checkHeader _ | .checkPacket _ _ | .checkWrite _ | .onReadTimeout _ | .onWriteTimeout _
  | .onStop _ =>
    role == .service
  | .startExecutionFrame | .execute _ | .closeConnection _ | .closing _ | .closed _
  | .releaseProtocol _ | .releaseConnection _ | .unRef _ | .sendAll | .sendNext _ | .eraseNext =>
    role == .dispatcher
  | .close _ | .closeSocket _ | .getOutputMessage _ _ | .configureOutputMessage _ _
  | .closeThroughProtocol _ | .send _ | .autoSend _ | .drop _ => role != .scheduler
  | .addTask t front => queues role front t
  | .addEvent t => t.isEvent && role != .scheduler
  | .serve | .tasksThread | .awaitTask | .takeTask | .schedulerThread | .takeEvent => false

def Does (role : Role) (code : Code) : Prop := ∀ a, .act a ∈ code → does role a = true

/-- A thread does what is its own, and then comes back. -/
def Assigned (role : Role) (code : Code) : Prop :=
  ∃ body a, code = body ++ [.act a] ∧ Does role body ∧ turns role a = true

section Does

variable {role : Role}

@[simp] theorem does_nil : Does role [] := fun _ h => absurd h List.not_mem_nil

@[simp] theorem does_lock (l : Mutex) (code : Code) :
    Does role (.lock l :: code) ↔ Does role code := by
  simp [Does]

@[simp] theorem does_unlock (l : Mutex) (code : Code) :
    Does role (.unlock l :: code) ↔ Does role code := by
  simp [Does]

@[simp] theorem does_act (a : Action) (code : Code) :
    Does role (.act a :: code) ↔ does role a = true ∧ Does role code := by
  simp [Does]

@[simp] theorem does_append (code rest : Code) :
    Does role (code ++ rest) ↔ Does role code ∧ Does role rest := by
  simp only [Does, List.mem_append, or_imp, forall_and]

@[simp] theorem does_locked (l : Mutex) (code : Code) :
    Does role (locked l code) ↔ Does role code := by
  simp [locked]

@[simp] theorem does_addTask (t : Task) (front : Bool) :
    Does role (addTask t front) ↔ queues role front t = true := by
  simp [addTask, does]

@[simp] theorem does_addEvent (t : Task) :
    Does role (addEvent t) ↔ t.isEvent = true ∧ role ≠ .scheduler := by
  simp [addEvent, does]

@[simp] theorem does_close (c : ℕ) : Does role (close c) ↔ role ≠ .scheduler := by
  simp [close, does]

@[simp] theorem does_closeSocket (c : ℕ) : Does role (closeSocket c) ↔ role ≠ .scheduler := by
  simp [closeSocket, does]

/-! ## The functions -/

theorem does_handleError (c : ℕ) (error : Option ErrorCode) {set : Action}
    (hs : does .service set = true) : Does .service (handleError c error set) := by
  rw [handleError]
  split <;> simp [hs]

theorem does_onRecvFirstMessage (c : ℕ) (first : FirstMessage) :
    Does .service (onRecvFirstMessage c first) := by
  cases first with
  | rsaFailed => simp [onRecvFirstMessage, does]
  | rejected => simp [onRecvFirstMessage, disconnectClient, does]
  | checked isDisabled =>
    cases isDisabled <;> simp [onRecvFirstMessage, disconnectClient, does, queues]

theorem does_poolSend (msg : Message) (hr : role ≠ .scheduler) : Does role (poolSend msg) := by
  simp [poolSend, does, hr]

theorem does_finishOutput (msg : Message) (scope : Scope) (hr : role ≠ .scheduler) :
    Does role (finishOutput msg scope) := by
  cases scope <;> simp [finishOutput, does, hr]

theorem does_handler (handler : Handler) : Does .service handler.code := by
  cases handler with
  | handle accepted => cases accepted <;> simp [Handler.code, does]
  | handleError => simp [Handler.code, Task.isEvent]
  | parseHeader c error sizeOk =>
    simp only [Handler.code, parseHeader, does_locked, does_append]
    refine ⟨?_, by simp [does]⟩
    split
    · exact does_handleError c error rfl
    · exact does_nil
  | parsePacket c error p =>
    simp only [Handler.code, parsePacket, does_locked, does_append]
    refine ⟨?_, by simp [does]⟩
    split
    · exact does_handleError c error rfl
    · exact does_nil
  | onWrite msg error =>
    simp only [Handler.code, onWrite, does_locked, does_append]
    refine ⟨⟨?_, by simp [does]⟩, by simp [does]⟩
    split
    · exact does_handleError _ error rfl
    · exact does_nil
  | onReadTimeout c => simp [Handler.code, does]
  | onWriteTimeout c => simp [Handler.code, does]
  | onStop c => simp [Handler.code, onStop, ConnectionManager.releaseConnection, does]
  | stop => exact does_nil

theorem does_task (failed : Bool) (login : Login) (t : Task) :
    Does .dispatcher (t.code failed login) := by
  cases t with
  | closeConnection c => simp [Task.code, does]
  | delegate c => cases login <;> simp [Task.code, delegate, disconnectClient, does]
  | internalReleaseMessage msg => simp [Task.code, does]
  | releaseConnection c => simp [Task.code, does]
  | releaseProtocol c => simp [Task.code, does]
  | services => cases failed <;> simp [Task.code, Task.isEvent]
  | motdReloadTask => simp [Task.code, Task.isEvent]

theorem queues_event {t : Task} (ht : t.isEvent = true) : queues .scheduler true t = true := by
  cases t <;> first | rfl | cases ht

/-! ## The actions -/

theorem does_startRead (s : State) (c : ℕ) (a : Arm) : Does .service (startRead s c a).2 := by
  rw [startRead]
  split <;> simp

theorem does_checkPacket {s : State} {c : ℕ} {p : Packet} {r : State × Code}
    (hr : checkPacket s c p = some r) : Does .service r.2 := by
  rw [checkPacket] at hr
  split at hr
  · cases hr
    simp
  · split at hr
    · cases hr
      rw [firstPacket]
      split
      · simp
      · simp only [does_append]
        exact ⟨does_onRecvFirstMessage c p.first, by simp [does]⟩
    · split at hr <;> cases hr
      simp [does]

theorem does_configureOutputMessage {s : State} {c : ℕ} {scope : Scope} {r : State × Code}
    (hrole : role ≠ .scheduler) (hr : configureOutputMessage s c scope = some r) :
    Does role r.2 := by
  rw [configureOutputMessage] at hr
  split at hr
  · cases hr
    rw [List.cons_append, does_unlock, does_append]
    exact ⟨does_poolSend _ hrole, does_finishOutput _ scope hrole⟩
  · cases hr
    simp [does, hrole]
  · cases hr

theorem does_send (s : State) (msg : Message) (a : Arm) (hr : role ≠ .scheduler) :
    Does role (send s msg a).2 := by
  rw [send]
  split <;> simp [does, hr]

theorem exec_does {i : Choice} {s : State} {a : Action} {r : State × Code} (hq : Quiet s)
    (h : does role a = true) (hr : exec i s a = some r) : Does role r.2 := by
  cases a with
  | serve | tasksThread | schedulerThread | awaitTask | takeTask | takeEvent => cases h
  | eraseConnection _ | closeSocket _ | setReadError _ | setWriteError _ | autoSend _ | onStop _
  | addTask _ _ | addEvent _ | startExecutionFrame | closed _ | unRef _ =>
    cases hr
    exact does_nil
  | createConnection =>
    cases hr
    simp only [does, beq_iff_eq] at h
    simp [does, h]
  | startRead c =>
    cases hr
    obtain rfl : role = .service := by simpa [does] using h
    exact does_startRead s c i.arm
  | close c =>
    have hrole : role ≠ .scheduler := by simpa [does] using h
    simp only [exec] at hr
    split at hr <;> cases hr <;> simp [queues, hrole]
  | checkHeader c =>
    obtain rfl : role = .service := by simpa [does] using h
    simp only [exec] at hr
    split at hr <;> cases hr <;> simp [does]
  | checkPacket c p =>
    obtain rfl : role = .service := by simpa [does] using h
    exact does_checkPacket hr
  | getOutputMessage c scope =>
    have hrole : role ≠ .scheduler := by simpa [does] using h
    cases hr
    dsimp only
    split <;> simp [does, hrole]
  | configureOutputMessage c scope =>
    exact does_configureOutputMessage (by simpa [does] using h) hr
  | closeThroughProtocol c =>
    have hrole : role ≠ .scheduler := by simpa [does] using h
    simp only [exec, closeThroughProtocol] at hr
    split at hr <;> cases hr
    simpa using hrole
  | send msg =>
    cases hr
    exact does_send s msg i.arm (by simpa [does] using h)
  | drop msg =>
    have hrole : role ≠ .scheduler := by simpa [does] using h
    cases hr
    rw [drop]
    dsimp only
    split <;> simp [queues, hrole]
  | checkWrite c =>
    obtain rfl : role = .service := by simpa [does] using h
    simp only [exec] at hr
    split at hr <;> cases hr <;> simp
  | onReadTimeout c | onWriteTimeout c =>
    obtain rfl : role = .service := by simpa [does] using h
    cases hr
    dsimp only
    split <;> simp
  | execute t =>
    obtain rfl : role = .dispatcher := by simpa [does] using h
    cases hr
    exact does_task i.failed i.login t
  | closeConnection c =>
    obtain rfl : role = .dispatcher := by simpa [does] using h
    cases hr
    rw [closeConnection]
    split
    · exact does_nil
    · split <;> simp [does]
  | closing c =>
    obtain rfl : role = .dispatcher := by simpa [does] using h
    cases hr
    rw [closing]
    dsimp only
    split <;> simp [does]
  | releaseProtocol c =>
    obtain rfl : role = .dispatcher := by simpa [does] using h
    cases hr
    rw [releaseProtocol]
    split <;> simp [Task.isEvent]
  | releaseConnection c =>
    obtain rfl : role = .dispatcher := by simpa [does] using h
    cases hr
    dsimp only
    split <;> simp [Task.isEvent]
  | sendAll =>
    obtain rfl : role = .dispatcher := by simpa [does] using h
    cases hr
    simp [beginSendAll, hq.addQueue, does]
  | sendNext frameTime =>
    cases hr
    rw [sendNext, hq.autoSend]
    exact does_nil
  | eraseNext =>
    cases hr
    rw [eraseNext, hq.autoSend]
    exact does_nil

theorem assigned_last {a : Action} (body : Code) (hb : Does role body)
    (ha : turns role a = true) : Assigned role (body ++ [.act a]) := ⟨body, a, rfl, hb, ha⟩

theorem exec_turns {i : Choice} {s : State} {a : Action} {r : State × Code}
    (he : ∀ t ∈ s.m_eventList, t.isEvent = true) (h : turns role a = true)
    (hr : exec i s a = some r) : Assigned role r.2 := by
  cases a with
  | serve =>
    obtain rfl : role = .service := by simpa [turns] using h
    obtain ⟨u, _, rfl⟩ := Option.map_eq_some_iff.mp hr
    exact assigned_last i.handler.code (does_handler i.handler) rfl
  | tasksThread =>
    obtain rfl : role = .dispatcher := by simpa [turns] using h
    cases hr
    exact assigned_last [.lock .m_taskLock] (by simp) rfl
  | schedulerThread =>
    obtain rfl : role = .scheduler := by simpa [turns] using h
    cases hr
    exact assigned_last
      [.lock .m_eventLock, .unlock .m_eventLock, .lock .m_eventLock] (by simp) rfl
  | awaitTask =>
    obtain rfl : role = .dispatcher := by simpa [turns] using h
    cases hr
    dsimp only
    split
    · exact assigned_last [.unlock .m_taskLock, .lock .m_taskLock] (by simp) rfl
    · exact assigned_last [] does_nil rfl
  | takeTask =>
    obtain rfl : role = .dispatcher := by simpa [turns] using h
    cases hr
    rw [takeTask]
    split
    · exact assigned_last [.unlock .m_taskLock] (by simp) rfl
    · exact assigned_last _ (by simp [sendAll, does]) rfl
  | takeEvent =>
    obtain rfl : role = .scheduler := by simpa [turns] using h
    simp only [exec, takeEvent] at hr
    split at hr
    · cases hr
      exact assigned_last [.unlock .m_eventLock] (by simp) rfl
    · split at hr <;> cases hr
      rename_i t ht
      have hevent := he t (List.mem_of_getElem? ht)
      refine assigned_last (.unlock .m_eventLock :: _) ?_ rfl
      split
      · simp
      · simp [queues_event hevent]
  | _ => cases h

theorem exec_events {i : Choice} {s : State} {a : Action} {r : State × Code} (hq : Quiet s)
    (he : ∀ t ∈ s.m_eventList, t.isEvent = true) (h : does role a = true ∨ turns role a = true)
    (hr : exec i s a = some r) : ∀ t ∈ r.1.m_eventList, t.isEvent = true := by
  by_cases hg : guard a = some .m_eventLock
  · cases a with
    | addEvent t =>
      cases hr
      have ht : t.isEvent = true := by
        rcases h with h | h
        · simp only [does, Bool.and_eq_true] at h
          exact h.1
        · cases h
      intro x hx
      rcases List.mem_append.mp hx with hx | hx
      · exact he x hx
      · exact List.mem_singleton.mp hx ▸ ht
    | takeEvent =>
      simp only [exec, takeEvent] at hr
      split at hr
      · cases hr
        exact he
      · split at hr <;> cases hr
        exact fun x hx => he x (List.mem_of_mem_eraseIdx hx)
    | _ => cases hg
  · rw [(exec_within hq hr).events hg]
    exact he

theorem Assigned.lock {l : Mutex} {rest : Code} (h : Assigned role (.lock l :: rest)) :
    Assigned role rest := by
  obtain ⟨body, a, hcode, hb, ha⟩ := h
  cases body with
  | nil => cases hcode
  | cons i body =>
    cases hcode
    exact ⟨body, a, rfl, (does_lock l body).mp hb, ha⟩

theorem Assigned.unlock {l : Mutex} {rest : Code} (h : Assigned role (.unlock l :: rest)) :
    Assigned role rest := by
  obtain ⟨body, a, hcode, hb, ha⟩ := h
  cases body with
  | nil => cases hcode
  | cons i body =>
    cases hcode
    exact ⟨body, a, rfl, (does_unlock l body).mp hb, ha⟩

theorem Assigned.act {a : Action} {rest : Code} (h : Assigned role (.act a :: rest)) :
    turns role a = true ∧ rest = [] ∨ does role a = true ∧ Assigned role rest := by
  obtain ⟨body, b, hcode, hb, hturn⟩ := h
  cases body with
  | nil =>
    cases hcode
    exact Or.inl ⟨hturn, rfl⟩
  | cons i body =>
    cases hcode
    obtain ⟨ha, hb⟩ := (does_act a body).mp hb
    exact Or.inr ⟨ha, body, b, rfl, hb, hturn⟩

theorem Assigned.append {code rest : Code} (hc : Does role code) (h : Assigned role rest) :
    Assigned role (code ++ rest) := by
  obtain ⟨body, a, rfl, hb, ha⟩ := h
  exact ⟨code ++ body, a, by simp, by simp [hc, hb], ha⟩

theorem Assigned.ne_nil {code : Code} (h : Assigned role code) : code ≠ [] := by
  obtain ⟨body, a, rfl, _, _⟩ := h
  simp

end Does

/-! ## Every run of the server -/

/-- The threads do what is their own, and so does the scheduler with its list. -/
structure Staffed {n : ℕ} (s : Server n) : Prop where
  watched : Watched s
  assigned : ∀ t, Assigned t.role (s.code t)
  events : ∀ t ∈ s.shared.m_eventList, t.isEvent = true

theorem initial_staffed (n : ℕ) (time : UInt64) (logError forceClose : Bool) :
    Staffed (initial n time logError forceClose) := by
  refine ⟨initial_watched n time logError forceClose, ?_, ?_⟩
  · intro t
    cases t <;> exact assigned_last [] does_nil rfl
  · intro t ht
    rw [List.mem_singleton.mp ht]
    rfl

theorem Staffed.own {n : ℕ} {s : Server n} (h : Staffed s) {t : Thread n} {a : Action}
    {rest : Code} (hcode : s.code t = .act a :: rest) :
    turns t.role a = true ∧ rest = [] ∨ does t.role a = true ∧ Assigned t.role rest :=
  (hcode ▸ h.assigned t).act

theorem step_staffed {n : ℕ} {s u : Server n} {t : Thread n} {i : Choice} (h : Staffed s)
    (hu : step program s (t, i) = some u) : Staffed u := by
  have hq := h.watched.ordinary.quiet
  refine ⟨step_watched h.watched hu, ?_, ?_⟩
  · apply step_each program h.assigned ?_ ?_ hu
    · rintro l rest (hl | hl)
      · exact hl.lock
      · exact hl.unlock
    · intro a rest r _ hr ha
      rcases ha.act with ⟨hturn, rfl⟩ | ⟨hdoes, hrest⟩
      · rw [List.append_nil]
        exact exec_turns h.events hturn hr
      · exact hrest.append (exec_does hq hdoes hr)
  · rcases step_shared program hu with hs | ⟨a, rest, r, hcode, hr, hs⟩
    · rw [hs]
      exact h.events
    · rw [hs]
      have hown := (h.own hcode).symm.imp And.left And.left
      exact exec_events hq h.events hown hr

theorem reachable_staffed {n : ℕ} {s : Server n} (h : (server n).Reachable s) : Staffed s := by
  apply Machine.invariant ?_ ?_ h
  · rintro s ⟨time, logError, forceClose, rfl⟩
    exact initial_staffed n time logError forceClose
  · rintro s ⟨t, i⟩ u hs hu
    exact step_staffed hs hu

end LoginServer.Threads
