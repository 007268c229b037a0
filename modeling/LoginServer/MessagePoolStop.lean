import LoginServer.MessagePoolFraming

/-! # Stopping the message pool

`m_shutdown` is read before the pool lock is taken, so a call of `getOutputMessage` is two steps
here: the test, and what it does under the lock. The flag is set by `stop` and cleared by every
frame of the dispatcher. -/
namespace LoginServer.MessagePool

open Runs

/-- `getOutputMessage` behind its test of `m_shutdown`; without a connection it answers nothing. -/
def handOut (s : State) (p : ℕ) (autoSend : Bool) : Option State :=
  match (s.protocols p).m_connection, s.refill.m_outputMessages.getLast? with
  | some c, some m =>
    some (configureOutputMessage { s.refill with
      m_outputMessages := s.refill.m_outputMessages.dropLast
      held := m :: s.held } m p c autoSend)
  | _, _ => none

theorem getOutputMessage_eq (s : State) (p : ℕ) (autoSend : Bool) :
    getOutputMessage s p autoSend = if s.m_shutdown then none else handOut s p autoSend := rfl

/-- `passed` lists the calls that have passed the test, `stopped` says that `stop` has returned, and
`late` counts the messages returned after that. -/
structure Stopping where
  pool : State
  passed : List (ℕ × Bool)
  stopped : Bool
  late : ℕ

inductive StopEvent where
  | pool (e : Event)
  | test (p : ℕ) (autoSend : Bool)
  | handOut (p : ℕ) (autoSend : Bool)
  deriving DecidableEq, Repr

def handOutStep (s : Stopping) (p : ℕ) (autoSend : Bool) : Stopping :=
  let s := { s with passed := s.passed.erase (p, autoSend) }
  match handOut s.pool p autoSend with
  | some pool => { s with pool := pool, late := if s.stopped then s.late + 1 else s.late }
  | none => s

def stopStep (s : Stopping) : StopEvent → Option Stopping
  | .pool (.getOutputMessage _ _) => none
  | .pool e => (step s.pool e).map fun pool =>
      { s with pool := pool, stopped := s.stopped || e = .stop }
  | .test p autoSend =>
    some (if s.pool.m_shutdown then s else { s with passed := (p, autoSend) :: s.passed })
  | .handOut p autoSend =>
    if (p, autoSend) ∈ s.passed ∧ s.pool.frameTime = none ∧ (s.pool.protocols p).deleted = false then
      some (handOutStep s p autoSend) else none

def stopMachine : Machine Stopping StopEvent where
  start s := machine.start s.pool ∧ s.passed = [] ∧ s.stopped = false ∧ s.late = 0
  step := stopStep

theorem undivided_call {s : Stopping} {p : ℕ} {autoSend : Bool} {pool : State}
    (h : step s.pool (.getOutputMessage p autoSend) = some pool) :
    ∃ t, stopMachine.run s [.test p autoSend, .handOut p autoSend] = some t ∧ t.pool = pool := by
  simp only [step] at h
  split at h
  · rename_i hfree
    rw [getOutputMessage_eq] at h
    split at h
    · cases h
    · rename_i hopen
      let tested : Stopping := { s with passed := (p, autoSend) :: s.passed }
      have htest : stopStep s (.test p autoSend) = some tested := by
        rw [stopStep, if_neg hopen]
      have hcall : stopStep tested (.handOut p autoSend) =
          some (handOutStep tested p autoSend) := if_pos ⟨List.mem_cons_self, hfree⟩
      refine ⟨handOutStep tested p autoSend, ?_, ?_⟩
      · simp only [Machine.run, stopMachine, htest, hcall, Option.bind_some]
      · have hpool : handOut tested.pool p autoSend = some pool := h
        simp only [handOutStep, hpool]
  · cases h

theorem stopStep_pool {s : Stopping} {e : Event}
    (he : ∀ p autoSend, e ≠ .getOutputMessage p autoSend) :
    stopStep s (.pool e) = (step s.pool e).map fun pool =>
      { s with pool := pool, stopped := s.stopped || e = .stop } := by
  cases e with
  | getOutputMessage p autoSend => exact absurd rfl (he p autoSend)
  | _ => rfl

/-- Every state of the pool is reached with the calls divided. -/
theorem divided_reachable {pool : State} (h : machine.Reachable pool) :
    ∃ s, stopMachine.Reachable s ∧ s.pool = pool := by
  refine Machine.invariant (I := fun pool => ∃ s, stopMachine.Reachable s ∧ s.pool = pool)
    (fun pool hs => ⟨⟨pool, [], false, 0⟩, .start ⟨hs, rfl, rfl, rfl⟩, rfl⟩) ?_ h
  rintro pool e next ⟨s, hs, rfl⟩ hstep
  by_cases he : ∃ p autoSend, e = .getOutputMessage p autoSend
  · obtain ⟨p, autoSend, rfl⟩ := he
    obtain ⟨t, hrun, ht⟩ := undivided_call hstep
    exact ⟨t, Machine.run_reachable hs hrun, ht⟩
  · have hpool : stopStep s (.pool e) =
        some { s with pool := next, stopped := s.stopped || e = .stop } := by
      rw [stopStep_pool fun p autoSend hcall => he ⟨p, autoSend, hcall⟩]
      exact congrArg (Option.map _) hstep
    exact ⟨_, hs.tail trivial hpool, rfl⟩

/-- `stop` finds no call behind its test, and no frame starts after it. -/
def StopsLast (s : Stopping) : StopEvent → Prop
  | .pool .stop => s.passed = []
  | .pool (.startExecutionFrame _) => s.stopped = false
  | _ => True

theorem shutdown_dropped (s : State) (m : ℕ) : (s.dropped m).m_shutdown = s.m_shutdown := by
  obtain ⟨r, hr⟩ := dropped_eq s m
  rw [hr]

theorem shutdown_onSendMessage (s : State) (m : ℕ) (why : Framing) :
    (onSendMessage s m why).m_shutdown = s.m_shutdown := by
  rw [onSendMessage]
  split <;> rfl

theorem Transmitted.shutdown {s u : State} {m : ℕ} (h : Transmitted s m u) :
    u.m_shutdown = s.m_shutdown := by
  cases h with
  | unconnected | forced | queued => rfl
  | refused | framed | written => exact shutdown_onSendMessage ..

theorem shutdown_beginSendAll (s : State) : (beginSendAll s).m_shutdown = s.m_shutdown := by
  have hfold : ∀ (l : List ℕ) (dropTime frameTime : UInt64) (v : State),
      (l.foldl (requeue dropTime frameTime) v).m_shutdown = v.m_shutdown := by
    intro l dropTime frameTime v
    induction l generalizing v with
    | nil => rfl
    | cons m l ih =>
      rw [List.foldl_cons, ih, requeue]
      split
      · split <;> rfl
      · exact shutdown_onSendMessage ..
  obtain ⟨r, hr⟩ := clearAddQueue_eq (s.m_addQueue.foldl
    (requeue (s.m_frameTime - 10000) (s.m_frameTime - 10)) s).m_addQueue
    (s.m_addQueue.foldl (requeue (s.m_frameTime - 10000) (s.m_frameTime - 10)) s)
  rw [beginSendAll, hr]
  exact hfold ..

theorem shutdown_internalReleaseMessage (s : State) (m : ℕ) :
    (internalReleaseMessage s m).m_shutdown = s.m_shutdown := by
  obtain ⟨_, _, _, _, heq⟩ := internalReleaseMessage_frame s m
  rw [heq]

theorem step_shutdown {s u : State} {e : Event} (h : step s e = some u) :
    (∃ time, e = .startExecutionFrame time) ∨ e = .stop ∧ u.m_shutdown = true ∨
      e ≠ .stop ∧ u.m_shutdown = s.m_shutdown := by
  cases step_effect h with
  | startExecutionFrame time => exact .inl ⟨time, rfl⟩
  | stop => exact .inr (.inl ⟨rfl, rfl⟩)
  | getOutputMessage hd hf =>
    obtain ⟨free, n, hr⟩ := refill_eq s
    exact .inr (.inr ⟨nofun, by rw [hr]; rfl⟩)
  | drop hm => exact .inr (.inr ⟨nofun, shutdown_dropped _ _⟩)
  | transmit hm hv | sendNext hm hv =>
    have hsent := hv.shutdown
    exact .inr (.inr ⟨nofun, (shutdown_dropped _ _).trans hsent⟩)
  | onWrite f error hm => exact .inr (.inr ⟨nofun, shutdown_dropped _ _⟩)
  | sendAll hframe => exact .inr (.inr ⟨nofun, shutdown_beginSendAll s⟩)
  | internalReleaseMessage hm => exact .inr (.inr ⟨nofun, shutdown_internalReleaseMessage s _⟩)
  | _ => exact .inr (.inr ⟨nofun, rfl⟩)

/-- Once stopped, the pool hands out nothing: the flag is set and no call is behind its test. -/
structure Stopped (s : Stopping) : Prop where
  shutdown : s.stopped = true → s.pool.m_shutdown = true ∧ s.passed = []
  late : s.late = 0

theorem pool_step {s t : Stopping} {e : Event} (h : stopStep s (.pool e) = some t) :
    step s.pool e = some t.pool ∧ t.passed = s.passed ∧
      t.stopped = (s.stopped || decide (e = .stop)) ∧ t.late = s.late := by
  have he : ∀ p autoSend, e ≠ .getOutputMessage p autoSend := by
    rintro p autoSend rfl
    cases h
  rw [stopStep_pool he, Option.map_eq_some_iff] at h
  obtain ⟨pool, hpool, rfl⟩ := h
  exact ⟨hpool, rfl, rfl, rfl⟩

theorem pool_stopped {s t : Stopping} {e : Event} (hs : Stopped s) (hok : StopsLast s (.pool e))
    (h : stopStep s (.pool e) = some t) : Stopped t := by
  obtain ⟨hpool, hpassed, hstopped, hlate⟩ := pool_step h
  refine ⟨fun ht => ?_, hlate.trans hs.late⟩
  rw [hstopped, Bool.or_eq_true] at ht
  rcases step_shutdown hpool with ⟨time, rfl⟩ | ⟨rfl, hu⟩ | ⟨hne, hu⟩
  · rw [StopsLast] at hok
    simp [hok] at ht
  · exact ⟨hu, hpassed.trans hok⟩
  · obtain ⟨hshutdown, hnone⟩ := hs.shutdown (ht.resolve_right (by simpa using hne))
    exact ⟨hu.trans hshutdown, hpassed.trans hnone⟩

theorem handOut_stopped {s : Stopping} {p : ℕ} {autoSend : Bool} (hs : Stopped s)
    (hmem : (p, autoSend) ∈ s.passed) : Stopped (handOutStep s p autoSend) := by
  have hrunning : s.stopped = false := by
    cases hstopped : s.stopped with
    | false => rfl
    | true =>
      rw [(hs.shutdown hstopped).2] at hmem
      cases hmem
  rw [handOutStep]
  split
  · exact ⟨fun ht => by simp [hrunning] at ht, by simp [hrunning, hs.late]⟩
  · exact ⟨fun ht => by simp [hrunning] at ht, hs.late⟩

theorem step_stopped {s t : Stopping} {e : StopEvent} (hs : Stopped s) (hok : StopsLast s e)
    (h : stopStep s e = some t) : Stopped t := by
  cases e with
  | pool e => exact pool_stopped hs hok h
  | test p autoSend =>
    cases h
    cases hshutdown : s.pool.m_shutdown with
    | true => exact hs
    | false =>
      refine ⟨fun ht => ?_, hs.late⟩
      have hset := (hs.shutdown ht).1
      rw [hshutdown] at hset
      cases hset
  | handOut p autoSend =>
    simp only [stopStep] at h
    split at h <;> cases h
    rename_i hmem
    exact handOut_stopped hs hmem.1

/-- When no frame starts after `stop` and no call is under way at it, no message is returned after
it. -/
theorem stopped_hands_out_nothing {s : Stopping} (h : stopMachine.ReachableBy StopsLast s) :
    s.late = 0 := by
  have hstopped : Stopped s := by
    refine Machine.invariant_by (fun s hs => ?_) (fun _ _ _ => step_stopped) h
    obtain ⟨-, -, hs, hlate⟩ := hs
    exact ⟨fun ht => absurd ht (by simp [hs]), hlate⟩
  exact hstopped.late

/-- A protocol that can be given a message: it has its connection, and the pool lock is free. -/
structure Served (s : State) (p : ℕ) : Prop where
  connected : (s.protocols p).m_connection.isSome = true
  alive : (s.protocols p).deleted = false
  free : s.frameTime = none

theorem Served.handOut {s : State} {p : ℕ} (h : Served s p) (autoSend : Bool) :
    ∃ u, handOut s p autoSend = some u := by
  obtain ⟨c, hc⟩ := Option.isSome_iff_exists.mp h.connected
  have hfilled : s.refill.m_outputMessages ≠ [] := by
    rw [State.refill]
    split
    · simp
    · assumption
  obtain ⟨m, hm⟩ := Option.ne_none_iff_exists'.mp (mt List.getLast?_eq_none_iff.mp hfilled)
  rw [MessagePool.handOut, hc, hm]
  exact ⟨_, rfl⟩

/-- A call that is behind the test when `stop` returns still gets its message. -/
theorem passed_call_served {s : Stopping} (hs : s.stopped = true) {p : ℕ} (h : Served s.pool p)
    {autoSend : Bool} (hmem : (p, autoSend) ∈ s.passed) :
    ∃ u, stopStep s (.handOut p autoSend) = some u ∧ u.late = s.late + 1 := by
  obtain ⟨pool, hpool⟩ := h.handOut autoSend
  refine ⟨_, if_pos ⟨hmem, h.free, h.alive⟩, ?_⟩
  simp only [handOutStep, hpool, hs, if_true]

/-- A frame that starts after `stop` opens the pool for the next call. -/
theorem frame_reopens {s : Stopping} (hs : s.stopped = true) {p : ℕ} (h : Served s.pool p)
    (time : UInt64) (autoSend : Bool) : ∃ u,
    stopMachine.run s [.pool (.startExecutionFrame time), .test p autoSend, .handOut p autoSend] =
      some u ∧ u.late = s.late + 1 := by
  have hframe : stopStep s (.pool (.startExecutionFrame time)) =
      some { s with pool := { s.pool with m_frameTime := time, m_shutdown := false } } := by
    simp [stopStep, step, h.free]
  obtain ⟨u, hu, hlate⟩ := passed_call_served
    (s := { s with
      pool := { s.pool with m_frameTime := time, m_shutdown := false }
      passed := (p, autoSend) :: s.passed }) hs ⟨h.connected, h.alive, h.free⟩ List.mem_cons_self
  refine ⟨u, ?_, hlate⟩
  simp only [Machine.run, stopMachine, hframe, Option.bind_some]
  simp only [stopStep, Bool.false_eq_true, if_false, Option.bind_some] at hu ⊢
  rw [hu]
  rfl

instance (s : Stopping) : (e : StopEvent) → Decidable (StopsLast s e)
  | .pool .stop => inferInstanceAs (Decidable (s.passed = []))
  | .pool (.startExecutionFrame _) => inferInstanceAs (Decidable (s.stopped = false))
  | .pool (.getOutputMessage _ _) | .pool (.copy _) | .pool (.drop _) | .pool (.send _)
  | .pool (.transmit _ _) | .pool (.autoSend _) | .pool .sendAll | .pool (.sendNext _ _)
  | .pool .sendAllEnd | .pool (.onWrite _ _) | .pool (.peer _ _) | .pool (.setConnection _ _)
  | .pool (.releaseProtocol _) | .pool (.releaseConnection _) | .pool (.internalReleaseMessage _)
  | .test _ _ | .handOut _ _ => isTrue trivial

def reopenedTrace : List StopEvent :=
  [.pool (.setConnection 0 (some 0)), .pool .stop, .pool (.startExecutionFrame 20010),
    .test 0 false, .handOut 0 false]

theorem message_after_stop : ¬ ∀ s, stopMachine.Reachable s → s.late = 0 := by
  intro hall
  have hrun : ∃ s, stopMachine.run ⟨initial 20000 false, [], false, 0⟩ reopenedTrace = some s ∧
      s.late = 1 := Machine.exists_run (by decide +kernel)
  obtain ⟨s, hs, hlate⟩ := hrun
  have hzero := hall s (Machine.run_reachable (.start ⟨⟨_, _, rfl⟩, rfl, rfl, rfl⟩) hs)
  rw [hlate] at hzero
  cases hzero

def stoppedTrace : List StopEvent :=
  [.pool (.setConnection 0 (some 0)), .test 0 false, .handOut 0 false, .pool .stop, .test 0 false]

theorem stopped_trace_hands_out_nothing : ∃ s,
    stopMachine.run ⟨initial 20000 false, [], false, 0⟩ stoppedTrace = some s ∧
      s.stopped = true ∧ s.pool.handed = 1 ∧ s.late = 0 := by
  have hrun : ∃ s, stopMachine.run ⟨initial 20000 false, [], false, 0⟩ stoppedTrace = some s ∧
      (s.stopped = true ∧ s.pool.handed = 1) := Machine.exists_run (by decide +kernel)
  have hall : stopMachine.AllSteps StopsLast ⟨initial 20000 false, [], false, 0⟩ stoppedTrace := by
    decide +kernel
  obtain ⟨s, hs, hstopped, hhanded⟩ := hrun
  exact ⟨s, hs, hstopped, hhanded, stopped_hands_out_nothing
    (Machine.run_reachable_by (.start ⟨⟨_, _, rfl⟩, rfl, rfl, rfl⟩) hall hs)⟩

end LoginServer.MessagePool
