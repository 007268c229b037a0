import LoginServer.Shutdown
import LoginServer.ThreadsQueues

/-! # What the server's tasks do in a drain

Every task that the server queues as a script of the thread that drains. Of the callbacks only a
login comes back to the queue, and the login of an open connection always does: it ends with
`Connection::close`. -/
namespace LoginServer.Shutdown

open Drains Threads
open Locks (Instr)

/-- What instructions stand for in the thread that drains: a locked `m_taskLock` is a call of
`addTask`, and the environment makes one choice an instruction. The other mutexes are not the
queue's. -/
def follow : List Choice → Code → Script State (Dispatcher.Call Task)
  | [], _ => .done
  | _ :: _, [] => .done
  | _ :: is, .lock .m_taskLock :: .act (.addTask t front) :: code =>
    .call (.addTask t front) (follow is code)
  | _ :: is, .lock _ :: code => follow is code
  | _ :: is, .unlock _ :: code => follow is code
  | i :: is, .act a :: code =>
    .act (fun s => ((exec i s a).map Prod.fst).getD s) fun s =>
      match exec i s a with
      | some (_, next) => follow is (next ++ code)
      -- a deleted protocol is used: the model goes no further
      | none => .done

@[simp] theorem follow_nil (is : List Choice) : follow is [] = .done := by
  cases is with
  | nil => simp [follow]
  | cons i is => simp [follow]

/-- The tasks that the server queues, each run under the choices `is`; their arguments are pointers,
numbers and strings, so a deletion calls nothing. -/
def serverTasks (is : List Choice) : Dispatcher.Tasks Task State where
  getCallback t := some (follow is [.act (.execute t)])
  delete _ := .done
  sendAll := follow is Threads.sendAll

/-- A connection whose protocol has been made. -/
def online : State :=
  (initialState 0 true false).setPeer 0 fun peer =>
    { peer with m_protocol := true, protocol := some ⟨false, true, 1⟩ }

/-- A login that was queued before the shutdown, and a job that asks for a job. -/
theorem queued_login_locks_again :
    ¬ EndsEmpty (Dispatcher.shutdown (serverTasks (List.replicate 24 {}))
      ⟨false, .STATE_RUNNING, [.delegate 0], online⟩) ∧
    ¬ EndsEmpty (Database.shutdownWorkers ⟨fun job => .call (.asyncTask (job + 1)) .done,
      fun _ => .done⟩ ⟨false, .STATE_RUNNING, [0], ()⟩) :=
  ⟨fun h => h.1 2 rfl, fun h => h.1 2 rfl⟩

/-! ## Tasks that call nothing -/

/-- Instructions that never come to the lock of the queue while no message waits in the pool, nor
does anything they lead to. -/
def Silent : Instr Mutex Action → Prop
  | .lock l => l ≠ .m_taskLock
  | .unlock _ => True
  | .act (.execute t) => ∀ c, t ≠ .delegate c
  | .act (.closeConnection _) | .act (.closing _) | .act (.closed _) | .act (.closeSocket _)
  | .act (.releaseProtocol _) | .act (.releaseConnection _) | .act (.unRef _)
  | .act (.addEvent _) | .act .sendAll | .act (.sendNext _) => True
  | .act _ => False

theorem addEvent_silent (t : Task) : ∀ instr ∈ addEvent t, Silent instr := by
  simp [addEvent, locked, Silent]

theorem closeSocket_silent (c : ℕ) : ∀ instr ∈ closeSocket c, Silent instr := by
  simp [closeSocket, locked, Silent]

theorem sendAll_silent : ∀ instr ∈ sendAll, Silent instr := by
  simp [sendAll, locked, Silent]

theorem code_silent {t : Task} (ht : ∀ c, t ≠ .delegate c) (failed : Bool) (login : Login) :
    ∀ instr ∈ t.code failed login, Silent instr := by
  cases t with
  | delegate c => exact absurd rfl (ht c)
  | services =>
    cases failed with
    | true => exact addEvent_silent .services
    | false => simp [Task.code]
  | motdReloadTask => exact addEvent_silent .motdReloadTask
  | closeConnection c => simp [Task.code, locked, Silent]
  | internalReleaseMessage msg => simp [Task.code, locked, Silent]
  | releaseConnection c => simp [Task.code, Silent]
  | releaseProtocol c => simp [Task.code, Silent]

theorem exec_silent {i : Choice} {s u : State} {a : Action} {code : Code} (hs : Quiet s)
    (h : exec i s a = some (u, code)) (ha : Silent (.act a)) : ∀ instr ∈ code, Silent instr := by
  cases a with
  | execute t =>
    obtain ⟨-, rfl⟩ : s = u ∧ t.code i.failed i.login = code := by simpa [exec] using h
    exact code_silent ha i.failed i.login
  | closeConnection c =>
    simp only [exec, closeConnection, Option.some.injEq] at h
    split at h
    · obtain ⟨-, rfl⟩ := Prod.mk.inj h
      simp
    · split at h
      · obtain ⟨-, rfl⟩ := Prod.mk.inj h
        simp [Silent]
      · obtain ⟨-, rfl⟩ := Prod.mk.inj h
        simp [Silent]
  | closing c =>
    simp only [exec, closing, Option.some.injEq] at h
    obtain ⟨-, rfl⟩ := Prod.mk.inj h
    split
    · intro instr hi
      rcases List.mem_append.mp hi with hi | hi
      · exact closeSocket_silent c instr hi
      · rcases List.mem_pair.mp hi with rfl | rfl
        · simp [Silent]
        · simp [Silent]
    · simp
  | releaseProtocol c =>
    simp only [exec, releaseProtocol, Option.some.injEq] at h
    split at h
    · obtain ⟨-, rfl⟩ := Prod.mk.inj h
      exact addEvent_silent _
    · obtain ⟨-, rfl⟩ := Prod.mk.inj h
      simp
  | releaseConnection c =>
    simp only [exec, Option.some.injEq] at h
    obtain ⟨-, rfl⟩ := Prod.mk.inj h
    split
    · exact addEvent_silent _
    · simp
  | closed c | closeSocket c | unRef msg | addEvent t =>
    obtain ⟨-, rfl⟩ : _ ∧ [] = code := by simpa [exec] using h
    simp
  | sendAll =>
    obtain ⟨-, rfl⟩ := Prod.mk.inj (Option.some.inj h)
    simp [hs.addQueue, Silent]
  | sendNext frameTime =>
    obtain ⟨-, rfl⟩ := Prod.mk.inj (Option.some.inj h)
    simp [sendNext, hs.autoSend]
  | _ => exact absurd ha (by simp [Silent])

theorem follow_returns (is : List Choice) {code : Code} (hcode : ∀ instr ∈ code, Silent instr)
    {s : State} (hs : Quiet s) : ∃ u, (follow is code).returns s = some u ∧ Quiet u := by
  induction is generalizing code s with
  | nil => exact ⟨s, by simp [follow, Script.returns], hs⟩
  | cons i is ih =>
    cases code with
    | nil => exact ⟨s, by simp [Script.returns], hs⟩
    | cons instr code =>
      have hrest : ∀ instr ∈ code, Silent instr :=
        fun instr hi => hcode instr (List.mem_cons_of_mem _ hi)
      have hinstr : Silent instr := hcode instr List.mem_cons_self
      cases instr with
      | lock l =>
        cases l with
        | m_taskLock => exact absurd rfl hinstr
        | _ => simpa only [follow] using ih hrest hs
      | unlock l => simpa only [follow] using ih hrest hs
      | act a =>
        simp only [follow, Script.returns]
        cases he : exec i s a with
        | none => exact ⟨s, by simp [Script.returns], hs⟩
        | some p =>
          obtain ⟨v, next⟩ := p
          have hnext : ∀ instr ∈ next ++ code, Silent instr := by
            intro instr hi
            rcases List.mem_append.mp hi with hi | hi
            · exact exec_silent hs he hinstr instr hi
            · exact hrest instr hi
          have hv : Quiet v := by
            refine exec_quiet hs ?_ he
            rintro msg rfl
            exact hinstr
          simpa using ih hnext hv

/-- Of the tasks of the server only a login can come back to the queue. -/
theorem round_returns {t : Task} (ht : ∀ c, t ≠ .delegate c) (is : List Choice) {s : State}
    (hs : Quiet s) :
    ∃ u, (Dispatcher.round (serverTasks is) t).returns s = some u ∧ Quiet u := by
  have hcallback : ∀ instr ∈ [.act (.execute t)], Silent instr := by
    simpa [Silent] using ht
  obtain ⟨v, hv, hquiet⟩ := follow_returns is hcallback hs
  obtain ⟨u, hu, hu'⟩ := follow_returns is sendAll_silent hquiet
  refine ⟨u, ?_, hu'⟩
  simp [Dispatcher.round, serverTasks, returns_seq, hv, hu, Script.returns]

theorem drain_without_logins (is : List Choice) {queue : List Task} {s : State}
    (hqueue : ∀ t ∈ queue, ∀ c, t ≠ .delegate c) (hs : Quiet s)
    (state : Scheduler.ThreadState) :
    EndsEmpty (Dispatcher.shutdown (serverTasks is) ⟨false, state, queue, s⟩) := by
  apply (lockedDrain_endsEmpty_iff rfl).mpr
  induction queue generalizing s with
  | nil => simp [rounds]
  | cons t queue ih =>
    obtain ⟨u, hu, hquiet⟩ := round_returns (hqueue t List.mem_cons_self) is hs
    have hrest := ih (fun t ht => hqueue t (List.mem_cons_of_mem _ ht)) hquiet
    simpa [rounds, hu] using hrest

/-- In the running server no message ever waits in the pool, so only a queued login can keep a
shutdown from its end. -/
theorem reachable_drain {n : ℕ} {s : Server n} (h : (server n).Reachable s) (is : List Choice)
    (hqueue : ∀ t ∈ s.shared.m_taskList, ∀ c, t ≠ .delegate c) (state : Scheduler.ThreadState) :
    EndsEmpty (Dispatcher.shutdown (serverTasks is)
      ⟨false, state, s.shared.m_taskList, s.shared⟩) :=
  drain_without_logins is hqueue (reachable_ordinary h).quiet state

/-! ## A login comes back -/

/-- Within `n` instructions `addTask` is called, whatever the environment chooses. -/
def CallsWithin (n : ℕ) (s : State) (code : Code) : Prop :=
  ∀ is : List Choice, n ≤ is.length → (follow is code).returns s = none

theorem CallsWithin.mono {n k : ℕ} {s : State} {code : Code} (h : CallsWithin n s code)
    (hk : n ≤ k) : CallsWithin k s code :=
  fun is his => h is (hk.trans his)

theorem CallsWithin.cons {n : ℕ} {s : State} {code : Code}
    (h : ∀ i is, n ≤ is.length → (follow (i :: is) code).returns s = none) :
    CallsWithin (n + 1) s code := by
  intro is his
  cases is with
  | nil => simp at his
  | cons i is => exact h i is (by simpa using his)

theorem CallsWithin.addTask (s : State) (t : Task) (front : Bool) (code : Code) :
    CallsWithin 1 s (Threads.addTask t front ++ code) := by
  apply CallsWithin.cons
  intro i is _
  simp [Threads.addTask, locked, follow, Script.returns]

theorem CallsWithin.lock {n : ℕ} {s : State} {l : Mutex} {code : Code} (hl : l ≠ .m_taskLock)
    (h : CallsWithin n s code) : CallsWithin (n + 1) s (.lock l :: code) := by
  apply CallsWithin.cons
  intro i is hn
  cases l with
  | m_taskLock => exact absurd rfl hl
  | _ => simpa only [follow] using h is hn

theorem CallsWithin.unlock {n : ℕ} {s : State} {l : Mutex} {code : Code}
    (h : CallsWithin n s code) : CallsWithin (n + 1) s (.unlock l :: code) := by
  apply CallsWithin.cons
  intro i is hn
  simpa only [follow] using h is hn

theorem CallsWithin.act {n : ℕ} {s : State} {a : Action} {code : Code}
    (h : ∀ i, ∃ u next, exec i s a = some (u, next) ∧ CallsWithin n u (next ++ code)) :
    CallsWithin (n + 1) s (.act a :: code) := by
  apply CallsWithin.cons
  intro i is hn
  obtain ⟨u, next, he, hu⟩ := h i
  simpa only [follow, Script.returns, he, Option.map_some, Option.getD_some] using hu is hn

/-- The connection is not yet asked to close, and its protocol is there. -/
def Serving (s : State) (c : ℕ) : Prop :=
  ¬ isClosed (s.peers c).write ∧ ∃ count, (s.peers c).protocol = some ⟨false, true, count⟩

theorem Serving.of_peers {s u : State} {c : ℕ} (h : Serving s c) (hu : u.peers = s.peers) :
    Serving u c := by
  rwa [Serving, hu]

theorem Serving.setWrite {s : State} {c : ℕ} {f : WriteSide.State → WriteSide.State}
    (h : Serving s c) (hf : ¬ isClosed (f (s.peers c).write)) : Serving (s.setWrite c f) c := by
  obtain ⟨-, count, hp⟩ := h
  constructor
  · simpa [State.setWrite, State.setPeer] using hf
  · exact ⟨count, by simpa [State.setWrite, State.setPeer] using hp⟩

theorem close_calls {s : State} {c : ℕ} (hc : ¬ isClosed (s.peers c).write) (code : Code) :
    CallsWithin 3 s (close c ++ code) := by
  apply CallsWithin.lock (by simp)
  apply CallsWithin.act
  intro i
  refine ⟨_, _, if_neg hc, ?_⟩
  exact CallsWithin.addTask _ _ _ _

theorem closeThroughProtocol_calls {s : State} {c : ℕ} (h : Serving s c) (code : Code) :
    CallsWithin 4 s (.act (.closeThroughProtocol c) :: code) := by
  obtain ⟨hc, count, hp⟩ := h
  apply CallsWithin.act
  intro i
  refine ⟨s, close c, ?_, close_calls hc code⟩
  simp [exec, closeThroughProtocol, hp]

theorem drop_calls {s : State} {msg : Message} (h : s.pointers msg.ptr = 1) (code : Code) :
    CallsWithin 2 s (.act (.drop msg) :: code) := by
  apply CallsWithin.act
  intro i
  refine ⟨_, _, rfl, ?_⟩
  simp only [State.setPointers, h, if_true]
  exact CallsWithin.addTask _ _ _ _

theorem drop_then_calls {n : ℕ} {s : State} {msg : Message} {code : Code}
    (h : ∀ u, u.peers = s.peers → CallsWithin n u code) (hn : 1 ≤ n) :
    CallsWithin (n + 1) s (.act (.drop msg) :: code) := by
  apply CallsWithin.act
  intro i
  refine ⟨_, _, rfl, ?_⟩
  split
  · exact (CallsWithin.addTask _ _ _ _).mono hn
  · exact h _ rfl

theorem finishOutput_calls {s : State} {msg : Message} (h : Serving s msg.m_connection)
    (scope : Scope) (code : Code) : CallsWithin 5 s (finishOutput msg scope ++ code) := by
  cases scope with
  | function => exact (closeThroughProtocol_calls h _).mono (by simp)
  | block =>
    apply drop_then_calls _ (by simp)
    intro u hu
    exact closeThroughProtocol_calls (h.of_peers hu) _

theorem send_calls {s : State} {msg : Message} (h : Serving s msg.m_connection) (scope : Scope)
    (code : Code) : CallsWithin 10 s (.act (.send msg) :: (finishOutput msg scope ++ code)) := by
  apply CallsWithin.act
  intro i
  refine ⟨_, _, rfl, ?_⟩
  cases hs : WriteSide.sending (s.peers msg.m_connection).write s.FORCE_CLOSE_SLOW_CONNECTION with
  | refused => exact (CallsWithin.unlock (finishOutput_calls h scope code)).mono (by simp)
  | written =>
    have hwritten : Serving (s.setWrite msg.m_connection fun w =>
        WriteSide.send w s.FORCE_CLOSE_SLOW_CONNECTION) msg.m_connection :=
      h.setWrite (by simpa [WriteSide.send, hs, isClosed] using h.1)
    refine (CallsWithin.unlock (finishOutput_calls ?_ scope code)).mono (by simp)
    by_cases ha : i.arm = .started
    · exact hwritten.of_peers (by simp [ha, State.setPointers])
    · exact hwritten.of_peers (by simp [ha])
  | forced =>
    simp only [List.append_assoc]
    exact (close_calls h.1 _).mono (by simp)
  | queued =>
    have hqueued : ∀ u, u.peers = s.peers → CallsWithin 5 u (finishOutput msg scope ++ code) :=
      fun u hu => finishOutput_calls (h.of_peers hu) scope code
    apply CallsWithin.lock (by simp)
    apply CallsWithin.act
    intro j
    refine ⟨_, _, rfl, ?_⟩
    apply CallsWithin.unlock
    apply CallsWithin.unlock
    exact hqueued _ rfl

theorem getOutputMessage_calls {s : State} {c : ℕ} (h : Serving s c) (scope : Scope)
    (code : Code) : CallsWithin 20 s (.act (.getOutputMessage c scope) :: code) := by
  apply CallsWithin.act
  intro i
  refine ⟨s, _, rfl, ?_⟩
  split
  · exact (closeThroughProtocol_calls h code).mono (by simp)
  · apply CallsWithin.lock (by simp)
    apply CallsWithin.act
    intro j
    obtain ⟨hc, count, hp⟩ := h
    refine ⟨_, _, by simp only [exec, configureOutputMessage, hp]; rfl, ?_⟩
    simp only [poolSend, locked, List.cons_append, List.nil_append]
    apply CallsWithin.unlock
    apply CallsWithin.lock (by simp)
    apply CallsWithin.unlock
    apply CallsWithin.lock (by simp)
    apply (send_calls _ scope code).mono (by simp)
    refine ⟨?_, count + 1, ?_⟩
    · simpa [State.setPointers, State.setPeer] using hc
    · simp [State.setPointers, State.setPeer, hp]

/-- A login of an open connection calls `addTask`, however it goes. -/
theorem login_calls {s : State} {c : ℕ} (h : Serving s c) :
    CallsWithin 24 s [.act (.execute (.delegate c))] := by
  apply CallsWithin.act
  intro i
  refine ⟨s, delegate c i.login, rfl, ?_⟩
  cases i.login with
  | refused => exact (getOutputMessage_calls h .function []).mono (by simp)
  | failed =>
    apply CallsWithin.lock (by simp)
    apply CallsWithin.unlock
    exact (getOutputMessage_calls h .function []).mono (by simp)
  | served =>
    apply CallsWithin.lock (by simp)
    apply CallsWithin.unlock
    exact (getOutputMessage_calls h .block []).mono (by simp)

/-- A drain that comes to the login of an open connection does not end. -/
theorem login_blocks {is : List Choice} (his : 24 ≤ is.length) {before after : List Task}
    {s u : State} {c : ℕ} (hbefore : rounds (Dispatcher.round (serverTasks is)) before s = some u)
    (hc : Serving u c) (state : Scheduler.ThreadState) :
    ¬ EndsEmpty (Dispatcher.shutdown (serverTasks is)
      ⟨false, state, before ++ .delegate c :: after, s⟩) := by
  intro h
  have hsome := (lockedDrain_endsEmpty_iff rfl).mp h
  have hlogin : (Dispatcher.round (serverTasks is) (.delegate c)).returns u = none := by
    simp only [Dispatcher.round, serverTasks, Option.getD_some, returns_seq,
      login_calls hc is his, Option.bind_none]
  have hnone : rounds (Dispatcher.round (serverTasks is)) (before ++ .delegate c :: after) s =
      none := by
    rw [rounds_append, hbefore]
    simp [rounds, hlogin]
  rw [hnone] at hsome
  exact absurd hsome (by simp)

end LoginServer.Shutdown
