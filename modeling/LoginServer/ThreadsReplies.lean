import LoginServer.ThreadsQueues

/-! # One login and one reply

What may still log in, or be answered, on a connection is paid for by its first packet. The
packet hands the budget on to the task or to the reply that it starts, and no step adds to it. -/
namespace LoginServer.Threads

open Locks Runs
open Connection (ErrorCode Arm)

/-- A login costs `d`, a reply `r`. -/
def spent (d r c : ℕ) : Action → ℕ
  | .execute t => if t = .delegate c then d else 0
  | .send msg => if msg.m_connection = c then r else 0
  | _ => 0

def actionBudget (d r c : ℕ) : Action → ℕ
  | .getOutputMessage x _ | .configureOutputMessage x _ => if x = c then r else 0
  | .send msg => if msg.m_connection = c then r else 0
  | .addTask t _ | .addEvent t | .execute t => if t = .delegate c then d + r else 0
  | _ => 0

def stateBudget (d r c : ℕ) (s : State) : ℕ :=
  (if (s.peers c).m_receivedFirst then 0 else d + r) +
    (d + r) * (s.m_taskList.count (.delegate c) + s.m_eventList.count (.delegate c))

section Budget

variable {d r c : ℕ}

abbrev codeBudget (d r c : ℕ) (code : Code) : ℕ := load (actionBudget d r c) code

@[simp] theorem codeBudget_locked (l : Mutex) (code : Code) :
    codeBudget d r c (locked l code) = codeBudget d r c code := by
  simp [locked, codeBudget, load]

@[simp] theorem codeBudget_addTask (t : Task) (front : Bool) :
    codeBudget d r c (addTask t front) = if t = .delegate c then d + r else 0 :=
  codeBudget_locked _ _

@[simp] theorem codeBudget_addEvent (t : Task) :
    codeBudget d r c (addEvent t) = if t = .delegate c then d + r else 0 := codeBudget_locked _ _

@[simp] theorem codeBudget_close (x : ℕ) : codeBudget d r c (close x) = 0 := codeBudget_locked _ _

@[simp] theorem codeBudget_closeSocket (x : ℕ) : codeBudget d r c (closeSocket x) = 0 :=
  codeBudget_locked _ _

@[simp] theorem codeBudget_handleError (x : ℕ) (error : Option ErrorCode) (set : Action) :
    codeBudget d r c (handleError x error set) = actionBudget d r c set := by
  rw [handleError, codeBudget_locked, codeBudget, load_append]
  split <;> simp [load]

theorem codeBudget_onRecvFirstMessage (x : ℕ) (first : FirstMessage) :
    codeBudget d r c (onRecvFirstMessage x first) ≤ if x = c then d + r else 0 := by
  cases first with
  | rsaFailed => simp [onRecvFirstMessage, load, actionBudget]
  | rejected =>
    simp only [onRecvFirstMessage, disconnectClient, codeBudget, load, actionBudget]
    split <;> omega
  | checked isDisabled =>
    cases isDisabled with
    | true =>
      simp only [onRecvFirstMessage, disconnectClient, codeBudget, load_append, if_true]
      simp only [codeBudget_locked, load, actionBudget]
      split <;> omega
    | false => simp [onRecvFirstMessage, load]

theorem codeBudget_delegate (x : ℕ) (login : Login) :
    codeBudget d r c (delegate x login) = if x = c then r else 0 := by
  cases login <;> simp [delegate, disconnectClient, load, actionBudget]

theorem codeBudget_handler (handler : Handler) : codeBudget d r c handler.code = 0 := by
  cases handler with
  | handle accepted => cases accepted <;> simp [Handler.code, load, actionBudget]
  | handleError => simp [Handler.code]
  | parseHeader x error sizeOk =>
    simp only [Handler.code, parseHeader, codeBudget_locked, codeBudget, load_append]
    split <;> simp [load, actionBudget, handleReadError]
  | parsePacket x error p =>
    simp only [Handler.code, parsePacket, codeBudget_locked, codeBudget, load_append]
    split <;> simp [load, actionBudget, handleReadError]
  | onWrite msg error =>
    simp only [Handler.code, onWrite, codeBudget, load_append]
    simp only [codeBudget_locked, load_append]
    split <;> simp [load, actionBudget, handleWriteError]
  | onReadTimeout x => simp [Handler.code, load, actionBudget]
  | onWriteTimeout x => simp [Handler.code, load, actionBudget]
  | onStop x =>
    simp [Handler.code, onStop, ConnectionManager.releaseConnection, load, actionBudget]
  | stop => rfl

theorem codeBudget_task (failed : Bool) (login : Login) (t : Task) :
    spent d r c (.execute t) + codeBudget d r c (t.code failed login) =
      if t = .delegate c then d + r else 0 := by
  cases t with
  | closeConnection x => simp [Task.code, spent, load, actionBudget]
  | delegate x =>
    simp only [Task.code, codeBudget_delegate, spent, Task.delegate.injEq]
    split <;> rfl
  | internalReleaseMessage msg => simp [Task.code, spent, load, actionBudget]
  | releaseConnection x => simp [Task.code, spent, load, actionBudget]
  | releaseProtocol x => simp [Task.code, spent, load, actionBudget]
  | services => cases failed <;> simp [Task.code, spent, load]
  | motdReloadTask => simp [Task.code, spent]

theorem codeBudget_poolSend (msg : Message) :
    codeBudget d r c (poolSend msg) = if msg.m_connection = c then r else 0 := by
  simp [poolSend, load, actionBudget]

theorem codeBudget_finishOutput (msg : Message) (scope : Scope) :
    codeBudget d r c (finishOutput msg scope) = 0 := by
  cases scope <;> simp [finishOutput, load, actionBudget]

theorem stateBudget_setPeer {x : ℕ} {s : State} {f : Peer → Peer}
    (hf : (f (s.peers x)).m_receivedFirst = (s.peers x).m_receivedFirst) :
    stateBudget d r c (s.setPeer x f) = stateBudget d r c s := by
  have hpeer : ((s.setPeer x f).peers c).m_receivedFirst = (s.peers c).m_receivedFirst := by
    by_cases hx : c = x
    · subst hx
      simp [State.setPeer, hf]
    · simp [State.setPeer, hx]
  rw [stateBudget, hpeer]
  rfl

/-! ## The actions -/

theorem startRead_budget (x : ℕ) (s : State) (a : Arm) :
    stateBudget d r c (startRead s x a).1 + codeBudget d r c (startRead s x a).2 =
      stateBudget d r c s := by
  have hs : stateBudget d r c (s.readStarted x) = stateBudget d r c s := stateBudget_setPeer rfl
  rw [startRead]
  split
  · exact hs
  · rw [codeBudget_close]
    exact hs

theorem firstPacket_budget {x : ℕ} {s : State} (p : Packet)
    (hf : (s.peers x).m_receivedFirst = false) :
    stateBudget d r c (firstPacket s x p).1 + codeBudget d r c (firstPacket s x p).2 ≤
      stateBudget d r c s := by
  have hs : stateBudget d r c (s.setPeer x fun peer => { peer with m_receivedFirst := true }) +
      (if x = c then d + r else 0) = stateBudget d r c s := by
    by_cases hx : x = c
    · subst hx
      simp only [stateBudget, State.setPeer, hf, if_true, Bool.false_eq_true, if_false]
      omega
    · simp [stateBudget, State.setPeer, hx, Ne.symm hx]
  have hfirst := codeBudget_onRecvFirstMessage (d := d) (r := r) (c := c) x p.first
  rw [firstPacket]
  generalize s.setPeer x (fun peer => { peer with m_receivedFirst := true }) = u at hs ⊢
  split
  · dsimp only
    rw [codeBudget_close]
    omega
  · have hu : stateBudget d r c (if (u.peers x).m_protocol then u else u.setPeer x fun peer =>
        { peer with m_protocol := true, protocol := some ⟨false, true, 0⟩ }) =
        stateBudget d r c u := by
      split
      · rfl
      · exact stateBudget_setPeer rfl
    simp only [codeBudget, load_append, load, actionBudget] at hfirst ⊢
    omega

theorem checkPacket_budget {x : ℕ} {s : State} {p : Packet} {q : State × Code}
    (hq : checkPacket s x p = some q) :
    stateBudget d r c q.1 + codeBudget d r c q.2 ≤ stateBudget d r c s := by
  have hs : stateBudget d r c (s.readDone x) = stateBudget d r c s := stateBudget_setPeer rfl
  rw [checkPacket] at hq
  split at hq
  · cases hq
    simp
  · split at hq
    · rename_i hf
      cases hq
      have hf' : ((s.readDone x).peers x).m_receivedFirst = false := by
        simpa [State.readDone, State.setPeer] using hf
      exact Nat.le_trans (firstPacket_budget p hf') (Nat.le_of_eq hs)
    · split at hq <;> cases hq
      exact Nat.le_of_eq hs

theorem configureOutputMessage_budget {x : ℕ} {scope : Scope} {s : State} {q : State × Code}
    (hq : configureOutputMessage s x scope = some q) :
    stateBudget d r c q.1 + codeBudget d r c q.2 ≤
      stateBudget d r c s + if x = c then r else 0 := by
  rw [configureOutputMessage] at hq
  split at hq
  · cases hq
    have hs : stateBudget d r c (s.setPeer x fun peer => { peer with
        m_refCount := peer.m_refCount + 1
        protocol := peer.protocol.map fun p => { p with m_refCount := p.m_refCount + 1 } }) =
        stateBudget d r c s := stateBudget_setPeer rfl
    have hsend := codeBudget_poolSend (d := d) (r := r) (c := c) ⟨s.handed, x, s.m_frameTime⟩
    have hfin := codeBudget_finishOutput (d := d) (r := r) (c := c)
      ⟨s.handed, x, s.m_frameTime⟩ scope
    simp only [codeBudget, load, load_append] at hsend hfin ⊢
    simp only [hsend, hfin]
    exact Nat.add_le_add_right (Nat.le_of_eq hs) _
  · cases hq
    simp [load, actionBudget]
  · cases hq

theorem send_budget (s : State) (msg : Message) (a : Arm) :
    stateBudget d r c (send s msg a).1 + codeBudget d r c (send s msg a).2 =
      stateBudget d r c s := by
  have hs : stateBudget d r c (s.setWrite msg.m_connection
      fun w => WriteSide.send w s.FORCE_CLOSE_SLOW_CONNECTION) = stateBudget d r c s :=
    stateBudget_setPeer rfl
  rw [send]
  cases WriteSide.sending (s.peers msg.m_connection).write s.FORCE_CLOSE_SLOW_CONNECTION with
  | refused => simp [load]
  | forced => simp [load]
  | queued => simp [load, actionBudget]
  | written =>
    rw [← hs]
    by_cases ha : a = .started
    · simp only [ha, if_true]
      exact Nat.add_zero _
    · simp only [ha, if_false]
      exact Nat.add_zero _

theorem takeTask_budget (s : State) :
    stateBudget d r c (takeTask s).1 + codeBudget d r c (takeTask s).2 = stateBudget d r c s := by
  have hall : codeBudget d r c (sendAll ++ [.act .tasksThread]) = 0 := by
    simp [sendAll, codeBudget, load, actionBudget, locked]
  rw [takeTask]
  split
  · simp [load, actionBudget]
  · rename_i t rest hl
    simp only [codeBudget, load_append] at hall
    simp only [stateBudget, codeBudget, load, actionBudget, load_append, hl, List.count_cons,
      beq_iff_eq]
    by_cases ht : t = .delegate c
    · simp only [ht, if_true, Nat.mul_add, Nat.mul_one]
      omega
    · simp only [ht, if_false, Nat.add_zero]
      omega

theorem takeEvent_budget {s : State} {i : Choice} {q : State × Code}
    (hq : takeEvent s i = some q) :
    stateBudget d r c q.1 + codeBudget d r c q.2 ≤ stateBudget d r c s := by
  rw [takeEvent] at hq
  split at hq
  · cases hq
    simp [load, actionBudget]
  · split at hq <;> cases hq
    rename_i t hl
    obtain ⟨hlt, rfl⟩ := List.getElem?_eq_some_iff.mp hl
    have hcount := (List.getElem_cons_eraseIdx_perm hlt).count_eq (.delegate c)
    simp only [List.count_cons, beq_iff_eq] at hcount
    have hcode : codeBudget d r c (.unlock .m_eventLock :: ((if i.stopped then [] else
        addTask s.m_eventList[i.due] true) ++ [.act .schedulerThread])) ≤
        if s.m_eventList[i.due] = .delegate c then d + r else 0 := by
      cases i.stopped <;> simp [load, actionBudget]
    refine Nat.le_trans (Nat.add_le_add_left hcode _) ?_
    simp only [stateBudget]
    rw [← hcount]
    by_cases ht : s.m_eventList[i.due] = .delegate c
    · simp only [ht, if_true, Nat.mul_add, Nat.mul_one]
      omega
    · simp only [ht, if_false, Nat.add_zero]
      omega

theorem begin_budget {s u : State} {handler : Handler} (hu : s.begin handler = some u) :
    stateBudget d r c u = stateBudget d r c s := by
  cases handler with
  | onWrite msg error =>
    simp only [State.begin] at hu
    split at hu <;> cases hu
    rfl
  | _ =>
    cases hu
    rfl

theorem unspent {k m : ℕ} (h : k ≤ m) : 0 + k ≤ m := (Nat.zero_add k).symm ▸ h

/-- What an action spends, changes and starts is paid for by what it has. -/
theorem exec_budget {i : Choice} {s : State} {a : Action} {q : State × Code} (hs : Quiet s)
    (hq : exec i s a = some q) :
    spent d r c a + (stateBudget d r c q.1 + codeBudget d r c q.2) ≤
      stateBudget d r c s + actionBudget d r c a := by
  cases a with
  | serve =>
    obtain ⟨u, hu, rfl⟩ := Option.map_eq_some_iff.mp hq
    have hb := begin_budget (d := d) (r := r) (c := c) hu
    have hcode := codeBudget_handler (d := d) (r := r) (c := c) i.handler
    simp only [codeBudget, load_append, load, actionBudget, spent] at hcode ⊢
    omega
  | tasksThread | schedulerThread | createConnection | eraseConnection _ | startExecutionFrame =>
    cases hq
    exact unspent (Nat.le_refl _)
  | startRead x =>
    cases hq
    exact unspent (Nat.le_of_eq (startRead_budget x s i.arm))
  | close x =>
    simp only [exec] at hq
    split at hq <;> cases hq
    · exact unspent (Nat.le_refl _)
    · simp only [spent, codeBudget_addTask, actionBudget, reduceCtorEq, if_false, Nat.zero_add,
        Nat.add_zero]
      exact Nat.le_of_eq (stateBudget_setPeer rfl)
  | closeSocket x | setReadError x | setWriteError x | onStop x | closed x | unRef x =>
    cases hq
    simp only [spent, codeBudget, load, actionBudget, Nat.zero_add, Nat.add_zero]
    exact Nat.le_of_eq (stateBudget_setPeer rfl)
  | checkHeader x =>
    simp only [exec] at hq
    split at hq <;> cases hq
    · simp [spent]
    · simp only [spent, codeBudget, load, actionBudget, Nat.zero_add, Nat.add_zero]
      exact Nat.le_of_eq (stateBudget_setPeer rfl)
  | checkPacket x p => exact unspent (checkPacket_budget hq)
  | getOutputMessage x scope =>
    cases hq
    dsimp only
    split <;> simp [spent, load, actionBudget]
  | configureOutputMessage x scope => exact unspent (configureOutputMessage_budget hq)
  | closeThroughProtocol x =>
    simp only [exec, closeThroughProtocol] at hq
    split at hq <;> cases hq
    simp [spent]
  | send msg =>
    cases hq
    rw [send_budget, spent, actionBudget, Nat.add_comm]
  | autoSend msg =>
    cases hq
    exact unspent (Nat.le_refl _)
  | drop msg =>
    cases hq
    rw [drop]
    dsimp only
    split
    · rw [codeBudget_addTask]
      exact unspent (Nat.le_refl _)
    · exact unspent (Nat.le_refl _)
  | checkWrite x =>
    simp only [exec] at hq
    split at hq <;> cases hq
    · simp [spent, load_append]
    · simp only [spent, codeBudget, load, actionBudget, Nat.zero_add, Nat.add_zero]
      exact Nat.le_of_eq (stateBudget_setPeer rfl)
  | onReadTimeout x | onWriteTimeout x =>
    cases hq
    dsimp only
    split <;> simp [spent, load, load_append]
  | addTask t front =>
    cases hq
    simp only [spent, stateBudget, codeBudget, load, actionBudget]
    by_cases ht : t = .delegate c <;> cases front <;>
      simp only [ht, if_true, if_false, Bool.false_eq_true, List.count_append, List.count_cons,
        List.count_nil, beq_iff_eq, Nat.mul_add, Nat.mul_one, Nat.mul_zero] <;> omega
  | addEvent t =>
    cases hq
    simp only [spent, stateBudget, codeBudget, load, actionBudget]
    by_cases ht : t = .delegate c <;>
      simp only [ht, if_true, if_false, List.count_append, List.count_cons, List.count_nil,
        beq_iff_eq, Nat.mul_add, Nat.mul_one, Nat.mul_zero] <;> omega
  | awaitTask =>
    cases hq
    dsimp only
    split <;> exact unspent (Nat.le_refl _)
  | takeTask =>
    cases hq
    exact unspent (Nat.le_of_eq (takeTask_budget s))
  | execute t =>
    cases hq
    have hcode := codeBudget_task (d := d) (r := r) (c := c) i.failed i.login t
    simp only [actionBudget]
    omega
  | closeConnection x =>
    cases hq
    rw [closeConnection]
    split
    · exact unspent (Nat.le_refl _)
    · split
      · simp only [spent, codeBudget, load, actionBudget, Nat.zero_add, Nat.add_zero]
        exact Nat.le_of_eq (stateBudget_setPeer rfl)
      · exact unspent (Nat.le_refl _)
  | closing x =>
    cases hq
    rw [closing]
    have hpeer : stateBudget d r c (s.setPeer x fun peer => { peer with
        m_protocol := false
        write := { peer.write with m_connectionState := .CONNECTION_STATE_CLOSING } }) =
        stateBudget d r c s := stateBudget_setPeer rfl
    dsimp only
    rw [hpeer]
    split <;> simp [spent, load, actionBudget]
  | releaseProtocol x =>
    cases hq
    rw [releaseProtocol]
    split
    · simp [spent]
    · simp only [spent, codeBudget, load, actionBudget, Nat.zero_add, Nat.add_zero]
      exact Nat.le_of_eq (stateBudget_setPeer rfl)
  | releaseConnection x =>
    cases hq
    dsimp only
    split <;> simp [spent, load]
  | sendAll =>
    cases hq
    rw [beginSendAll, hs.addQueue]
    exact unspent (Nat.le_refl _)
  | sendNext frameTime =>
    cases hq
    rw [sendNext, hs.autoSend]
    exact unspent (Nat.le_refl _)
  | eraseNext =>
    cases hq
    rw [eraseNext, hs.autoSend]
    exact unspent (Nat.le_refl _)
  | takeEvent => exact unspent (takeEvent_budget hq)

end Budget

/-! ## Every run of the server -/

def logins {n : ℕ} (c : ℕ) (s : Server n) (es : List (Thread n × Choice)) : ℕ :=
  (server n).total (cost (spent 1 0 c)) s es

def replies {n : ℕ} (c : ℕ) (s : Server n) (es : List (Thread n × Choice)) : ℕ :=
  (server n).total (cost (spent 0 1 c)) s es

theorem run_budget {n : ℕ} {s u : Server n} {es : List (Thread n × Choice)} (hs : Ordinary s)
    (h : (server n).run s es = some u) (d r c : ℕ) :
    (server n).total (cost (spent d r c)) s es ≤
      weight (stateBudget d r c) (actionBudget d r c) s := by
  have hpays : ∀ v e w, Ordinary v → (server n).step v e = some w →
      cost (spent d r c) v e w + weight (stateBudget d r c) (actionBudget d r c) w ≤
        weight (stateBudget d r c) (actionBudget d r c) v := by
    intro v e w hv hw
    exact step_spends (fun a rest q _ hq => exec_budget hv.quiet hq) hw
  have hsum := Machine.total_le (fun v e w hv hw => step_ordinary hv hw) hpays hs h
  exact Nat.le_trans (Nat.le_add_right _ _) hsum

/-- However the threads interleave, and whatever the packets, the timers and the database do, a
connection is logged in at most once and answered at most once. -/
theorem one_login_one_reply {n : ℕ} {time : UInt64} {logError forceClose : Bool}
    {es : List (Thread n × Choice)} {u : Server n}
    (h : (server n).run (initial n time logError forceClose) es = some u) (c : ℕ) :
    logins c (initial n time logError forceClose) es ≤ 1 ∧
      replies c (initial n time logError forceClose) es ≤ 1 := by
  have hstart : ∀ d r, weight (stateBudget d r c) (actionBudget d r c)
      (initial n time logError forceClose) = d + r := by
    intro d r
    have hcode : ∀ t : Thread n, load (actionBudget d r c) t.code = 0 := by
      intro t
      cases t <;> rfl
    simp only [weight, initial, hcode, Finset.sum_const_zero]
    simp [stateBudget, initialState, initialPeer]
  have hrun := run_budget (initial_ordinary n time logError forceClose) h
  refine ⟨(hrun 1 0 c).trans ?_, (hrun 0 1 c).trans ?_⟩
  · rw [hstart]
  · rw [hstart]

def repliedTrace : List (Thread 1 × Choice) :=
  (.service 0, { handler := .parsePacket 0 none ⟨false, true, .checked false⟩ }) ::
    (List.replicate 9 (.service 0, ({} : Choice)) ++
      List.replicate 20 (.dispatcher, ({} : Choice)))

theorem replied_trace_once : logins 0 (initial 1 20000 true false) repliedTrace = 1 ∧
    replies 0 (initial 1 20000 true false) repliedTrace = 1 := by
  have hrun : ((server 1).run (initial 1 20000 true false) repliedTrace).isSome = true := by
    decide +kernel
  obtain ⟨u, hu⟩ := Option.isSome_iff_exists.mp hrun
  obtain ⟨hlogins, hreplies⟩ := one_login_one_reply hu 0
  exact ⟨Nat.le_antisymm hlogins (by decide +kernel), Nat.le_antisymm hreplies (by decide +kernel)⟩

end LoginServer.Threads
