import LoginServer.Threads

/-! # The order of the mutexes

A connection comes first, then the pool, the connection manager and the scheduler, then the
dispatcher. A thread inside a connection takes no other connection's mutex, and only the second
loop of `sendAll` would take one inside the pool; where its list is empty, every action keeps to
the order. -/
namespace LoginServer.Threads

open Locks
open Connection (ErrorCode Arm)

def Mutex.rank : Mutex → ℕ
  | .m_connectionLock _ => 0
  | .m_outputPoolLock | .m_connectionManagerLock | .m_eventLock => 1
  | .m_taskLock => 2

/-- All that is held is the mutex of one connection, if anything. -/
def Only (c : ℕ) (h : List Mutex) : Prop := ∀ l ∈ h, l = .m_connectionLock c

def Below (r : ℕ) (h : List Mutex) : Prop := ∀ l ∈ h, l.rank < r

def pre (h : List Mutex) : Action → Prop
  | .serve | .tasksThread | .schedulerThread | .execute _ => h = []
  | .createConnection => h = [.m_connectionManagerLock]
  | .awaitTask | .takeTask => h = [.m_taskLock]
  | .takeEvent => h = [.m_eventLock]
  | .sendAll | .sendNext _ | .eraseNext => h = [.m_outputPoolLock]
  | .startRead c | .close c | .checkHeader c | .checkPacket c _ | .getOutputMessage c _
  | .closeThroughProtocol c | .checkWrite c | .onReadTimeout c | .onWriteTimeout c
  | .closeConnection c | .closing c | .releaseProtocol c | .releaseConnection c => Only c h
  | .configureOutputMessage c _ => ∃ k, h = .m_outputPoolLock :: k ∧ Only c k
  | .send msg => .m_connectionLock msg.m_connection ∈ h ∧ Only msg.m_connection h
  | .drop _ => Below 2 h
  | _ => True

/-- Five actions give back the mutex they are run under. -/
def post (h : List Mutex) : Action → List Mutex
  | .createConnection | .awaitTask | .takeTask | .takeEvent | .configureOutputMessage _ _ => h.tail
  | .send msg => h.erase (.m_connectionLock msg.m_connection)
  | _ => h

def discipline : Discipline Mutex Action := ⟨Mutex.rank, pre, post⟩

abbrev Keeps (h : List Mutex) (code : Code) (k : List Mutex) : Prop :=
  Ordered program discipline h code k

theorem Only.nil (c : ℕ) : Only c [] := fun _ hl => absurd hl List.not_mem_nil

theorem Below.nil (r : ℕ) : Below r [] := fun _ hl => absurd hl List.not_mem_nil

theorem Only.cons {c : ℕ} {h : List Mutex} (ho : Only c h) : Only c (.m_connectionLock c :: h) := by
  intro l hl
  rcases List.mem_cons.mp hl with rfl | hl
  · rfl
  · exact ho l hl

theorem Only.below {c : ℕ} {h : List Mutex} (ho : Only c h) : Below 1 h := by
  intro l hl
  rw [ho l hl]
  exact Nat.zero_lt_one

theorem Below.mono {h : List Mutex} (hb : Below 1 h) : Below 2 h := fun l hl =>
  Nat.lt_succ_of_lt (hb l hl)

theorem Below.mayLock {h : List Mutex} {l : Mutex} (hb : Below l.rank h) :
    MayLock program discipline h l := Or.inr hb

theorem Only.mayLock {c : ℕ} {h : List Mutex} (ho : Only c h) :
    MayLock program discipline h (.m_connectionLock c) := by
  by_cases hin : .m_connectionLock c ∈ h
  · exact Or.inl ⟨hin, rfl⟩
  · refine Or.inr fun l hl => ?_
    exact absurd (ho l hl ▸ hl) hin

theorem keeps_locked {h : List Mutex} {l : Mutex} {code : Code}
    (hl : MayLock program discipline h l) (hc : Keeps (l :: h) code (l :: h)) :
    Keeps h (locked l code) h := ordered_locked program discipline hl hc

theorem keeps_append {h k m : List Mutex} {code rest : Code} (hc : Keeps h code k)
    (hr : Keeps k rest m) : Keeps h (code ++ rest) m := ordered_append program discipline hc hr

/-! ## The functions -/

theorem keeps_addTask {h : List Mutex} (hb : Below 2 h) (t : Task) (front : Bool) :
    Keeps h (addTask t front) h :=
  keeps_locked (Below.mayLock hb) ⟨trivial, rfl⟩

theorem keeps_addEvent {h : List Mutex} (hb : Below 1 h) (t : Task) : Keeps h (addEvent t) h :=
  keeps_locked (Below.mayLock hb) ⟨trivial, rfl⟩

theorem keeps_connection {c : ℕ} {h : List Mutex} {code : Code} (ho : Only c h)
    (hc : ∀ {k}, Only c k → Keeps k code k) : Keeps h (locked (.m_connectionLock c) code) h :=
  keeps_locked ho.mayLock (hc ho.cons)

theorem keeps_close {c : ℕ} {h : List Mutex} (ho : Only c h) : Keeps h (close c) h :=
  keeps_connection ho fun hk => ⟨hk, rfl⟩

theorem keeps_closeSocket {c : ℕ} {h : List Mutex} (ho : Only c h) : Keeps h (closeSocket c) h :=
  keeps_connection ho fun _ => ⟨trivial, rfl⟩

theorem keeps_closeBoth {c : ℕ} {h : List Mutex} (ho : Only c h) :
    Keeps h (closeSocket c ++ close c) h :=
  keeps_append (keeps_closeSocket ho) (keeps_close ho)

theorem keeps_manager {h : List Mutex} (hb : Below 1 h) :
    Keeps h (locked .m_connectionManagerLock []) h :=
  keeps_locked (Below.mayLock hb) rfl

theorem keeps_pool {h : List Mutex} (hb : Below 1 h) : Keeps h (locked .m_outputPoolLock []) h :=
  keeps_locked (Below.mayLock hb) rfl

theorem keeps_handleError {c : ℕ} {h : List Mutex} (ho : Only c h) (error : Option ErrorCode)
    {set : Action} (hpre : ∀ k, pre k set) (hpost : ∀ k, post k set = k) :
    Keeps h (handleError c error set) h := by
  apply keeps_connection ho
  intro k hk
  refine keeps_append (k := k) ?_ ⟨hpre k, hpost k⟩
  split
  · exact rfl
  · exact keeps_close hk

theorem keeps_completion {c : ℕ} (error : Option ErrorCode) {set a : Action} {failed : Prop}
    [Decidable failed] (hset : ∀ k, pre k set ∧ post k set = k)
    (ha : ∀ k, Only c k → pre k a ∧ post k a = k) :
    Keeps [] (locked (.m_connectionLock c)
      ((if failed then handleError c error set else []) ++ [.act a])) [] := by
  apply keeps_connection (.nil c)
  intro k hk
  refine keeps_append (k := k) ?_ (ha k hk)
  split
  · exact keeps_handleError hk error (fun k => (hset k).1) fun k => (hset k).2
  · exact rfl

theorem keeps_parseHeader (c : ℕ) (error : Option ErrorCode) (sizeOk : Bool) :
    Keeps [] (parseHeader c error sizeOk) [] :=
  keeps_completion error (fun _ => ⟨trivial, rfl⟩) fun _ hk => ⟨hk, rfl⟩

theorem keeps_parsePacket (c : ℕ) (error : Option ErrorCode) (p : Packet) :
    Keeps [] (parsePacket c error p) [] :=
  keeps_completion error (fun _ => ⟨trivial, rfl⟩) fun _ hk => ⟨hk, rfl⟩

theorem keeps_onRecvFirstMessage {c : ℕ} {h : List Mutex} (ho : Only c h) (first : FirstMessage) :
    Keeps h (onRecvFirstMessage c first) h := by
  cases first with
  | rsaFailed => exact ⟨ho, rfl⟩
  | rejected => exact ⟨ho, rfl⟩
  | checked isDisabled =>
    apply keeps_append (keeps_manager ho.below)
    cases isDisabled with
    | true => exact ⟨ho, rfl⟩
    | false => exact keeps_addTask ho.below.mono _ _

theorem keeps_delegate (c : ℕ) (login : Login) : Keeps [] (delegate c login) [] := by
  have hb : Below 1 [] := .nil 1
  cases login with
  | refused => exact ⟨.nil c, rfl⟩
  | failed => exact keeps_append (keeps_manager hb) ⟨.nil c, rfl⟩
  | served => exact keeps_append (keeps_manager hb) ⟨.nil c, rfl⟩

theorem keeps_poolSend {msg : Message} {h : List Mutex} (ho : Only msg.m_connection h) :
    Keeps h (poolSend msg) h := by
  apply keeps_append (keeps_pool ho.below)
  refine ⟨ho.mayLock, ⟨List.mem_cons_self, ho.cons⟩, ?_⟩
  exact List.erase_cons_head _ h

theorem keeps_finishOutput {msg : Message} {h : List Mutex} (ho : Only msg.m_connection h)
    (scope : Scope) : Keeps h (finishOutput msg scope) h := by
  cases scope with
  | function => exact ⟨ho, ho.below.mono, rfl⟩
  | block => exact ⟨ho.below.mono, ho, rfl⟩

theorem keeps_onWrite (msg : Message) (error : Option ErrorCode) :
    Keeps [] (onWrite msg error) [] := by
  have hb : Below 2 [] := .nil 2
  refine keeps_append (k := []) ?_ ⟨hb, rfl⟩
  exact keeps_completion error (fun _ => ⟨trivial, rfl⟩) fun _ hk => ⟨hk, rfl⟩

theorem keeps_handler (handler : Handler) : Keeps [] handler.code [] := by
  have hb : Below 1 [] := .nil 1
  cases handler with
  | handle accepted =>
    apply keeps_append (keeps_manager hb)
    cases accepted with
    | true => exact ⟨Below.mayLock hb, rfl, rfl⟩
    | false => exact rfl
  | handleError => exact keeps_addEvent hb _
  | parseHeader c error sizeOk => exact keeps_parseHeader c error sizeOk
  | parsePacket c error p => exact keeps_parsePacket c error p
  | onWrite msg error => exact keeps_onWrite msg error
  | onReadTimeout c => exact keeps_connection (.nil c) fun hk => ⟨hk, rfl⟩
  | onWriteTimeout c => exact keeps_connection (.nil c) fun hk => ⟨hk, rfl⟩
  | onStop c =>
    have hrelease : Keeps [] (ConnectionManager.releaseConnection c) [] :=
      keeps_locked (Below.mayLock hb) ⟨trivial, rfl⟩
    exact keeps_append (keeps_connection (.nil c) fun _ => ⟨trivial, rfl⟩) hrelease
  | stop => exact rfl

theorem keeps_task (failed : Bool) (login : Login) (t : Task) :
    Keeps [] (t.code failed login) [] := by
  have hb : Below 1 [] := .nil 1
  cases t with
  | closeConnection c => exact keeps_connection (.nil c) fun hk => ⟨hk, rfl⟩
  | delegate c => exact keeps_delegate c login
  | internalReleaseMessage msg => exact ⟨trivial, keeps_pool hb⟩
  | releaseConnection c => exact ⟨.nil c, rfl⟩
  | releaseProtocol c => exact ⟨.nil c, rfl⟩
  | services =>
    cases failed with
    | true => exact keeps_addEvent hb _
    | false => exact rfl
  | motdReloadTask => exact keeps_addEvent hb _

theorem keeps_drops {h : List Mutex} (hb : Below 2 h) (l : List Message) :
    Keeps h (l.map fun msg => .act (.drop msg)) h := by
  induction l with
  | nil => exact rfl
  | cons msg l ih => exact ⟨hb, ih⟩

/-! ## The actions -/

theorem keeps_startRead {s : State} {c : ℕ} {h : List Mutex} (ho : Only c h) (a : Arm) :
    Keeps h (startRead s c a).2 h := by
  rw [startRead]
  split
  · exact rfl
  · exact keeps_close ho

theorem keeps_checkPacket {s : State} {c : ℕ} {p : Packet} {r : State × Code} {h : List Mutex}
    (ho : Only c h) (hr : checkPacket s c p = some r) : Keeps h r.2 h := by
  rw [checkPacket] at hr
  split at hr
  · cases hr
    exact keeps_close ho
  · split at hr
    · cases hr
      rw [firstPacket]
      split
      · exact keeps_close ho
      · exact keeps_append (keeps_onRecvFirstMessage ho p.first) ⟨ho, rfl⟩
    · split at hr <;> cases hr
      exact ⟨ho, rfl⟩

theorem keeps_configureOutputMessage {s : State} {c : ℕ} {scope : Scope} {r : State × Code}
    {h : List Mutex} (ho : Only c h) (hr : configureOutputMessage s c scope = some r) :
    Keeps (.m_outputPoolLock :: h) r.2 h := by
  have herase : (Mutex.m_outputPoolLock :: h).erase .m_outputPoolLock = h :=
    List.erase_cons_head _ h
  rw [configureOutputMessage] at hr
  split at hr
  · cases hr
    refine ⟨List.mem_cons_self, ?_⟩
    rw [herase]
    exact keeps_append (keeps_poolSend ho) (keeps_finishOutput ho scope)
  · cases hr
    refine ⟨List.mem_cons_self, ?_⟩
    rw [herase]
    exact ⟨ho, rfl⟩
  · cases hr

theorem keeps_send {s : State} {msg : Message} {h : List Mutex}
    (hin : .m_connectionLock msg.m_connection ∈ h) (ho : Only msg.m_connection h) (a : Arm) :
    Keeps h (send s msg a).2 (h.erase (.m_connectionLock msg.m_connection)) := by
  rw [send]
  split
  · exact ⟨hin, rfl⟩
  · exact ⟨hin, rfl⟩
  · exact keeps_append (keeps_close ho) ⟨hin, rfl⟩
  · exact keeps_append (keeps_locked (Below.mayLock ho.below) ⟨trivial, rfl⟩) ⟨hin, rfl⟩

theorem keeps_drop {s : State} {msg : Message} {h : List Mutex} (hb : Below 2 h) :
    Keeps h (drop s msg).2 h := by
  rw [drop]
  dsimp only
  split
  · exact keeps_addTask hb _ _
  · exact rfl

theorem keeps_closeConnection {s : State} {c : ℕ} {h : List Mutex} (ho : Only c h) :
    Keeps h (closeConnection s c).2 h := by
  rw [closeConnection]
  split
  · exact rfl
  · split
    · exact ⟨ho, ho, rfl⟩
    · exact ⟨ho, rfl⟩

theorem keeps_closing {s : State} {c : ℕ} {h : List Mutex} (ho : Only c h) :
    Keeps h (closing s c).2 h := by
  rw [closing]
  dsimp only
  split
  · exact keeps_append (keeps_closeSocket ho) ⟨ho, trivial, rfl⟩
  · exact rfl

theorem keeps_takeTask (s : State) : Keeps [.m_taskLock] (takeTask s).2 [] := by
  have hb : Below 1 [] := .nil 1
  rw [takeTask]
  split
  · exact ⟨List.mem_cons_self, rfl, rfl⟩
  · refine ⟨List.mem_cons_self, trivial, rfl, ?_⟩
    have hall : Keeps [] sendAll [] := keeps_locked (Below.mayLock hb) ⟨rfl, rfl⟩
    exact keeps_append hall ⟨rfl, rfl⟩

theorem keeps_takeEvent {s : State} {i : Choice} {r : State × Code}
    (hr : takeEvent s i = some r) : Keeps [.m_eventLock] r.2 [] := by
  have hb : Below 2 [] := .nil 2
  rw [takeEvent] at hr
  split at hr
  · cases hr
    exact ⟨List.mem_cons_self, rfl, rfl⟩
  · split at hr <;> cases hr
    refine ⟨List.mem_cons_self, keeps_append (k := []) ?_ ⟨rfl, rfl⟩⟩
    split
    · exact rfl
    · exact keeps_addTask hb _ _

/-- With nothing to be sent automatically, every action keeps to the order. -/
theorem exec_sound {i : Choice} {s : State} (hq : s.m_autoSend = []) (a : Action) :
    Sound program discipline i s a := by
  intro h r hpre hr
  cases a with
  | serve =>
    obtain ⟨v, _, rfl⟩ := Option.map_eq_some_iff.mp hr
    obtain rfl : h = [] := hpre
    exact keeps_append (keeps_handler i.handler) ⟨rfl, rfl⟩
  | tasksThread =>
    cases hr
    obtain rfl : h = [] := hpre
    exact ⟨Below.mayLock (.nil _), rfl, rfl⟩
  | schedulerThread =>
    cases hr
    obtain rfl : h = [] := hpre
    exact ⟨Below.mayLock (.nil _), List.mem_cons_self, Below.mayLock (.nil _), rfl, rfl⟩
  | createConnection =>
    cases hr
    obtain rfl : h = [.m_connectionManagerLock] := hpre
    exact ⟨List.mem_cons_self, .nil _, rfl⟩
  | startRead c =>
    cases hr
    exact keeps_startRead hpre i.arm
  | close c =>
    have ho : Only c h := hpre
    simp only [program, exec] at hr
    split at hr <;> cases hr
    · exact rfl
    · exact keeps_addTask ho.below.mono _ _
  | eraseConnection _ | closeSocket _ | setReadError _ | setWriteError _ | autoSend _ | onStop _
  | addTask _ _ | addEvent _ | startExecutionFrame | closed _ | unRef _ =>
    cases hr
    exact rfl
  | checkHeader c =>
    simp only [program, exec] at hr
    split at hr <;> cases hr
    · exact keeps_close hpre
    · exact ⟨hpre, rfl⟩
  | checkPacket c p => exact keeps_checkPacket hpre hr
  | getOutputMessage c scope =>
    have ho : Only c h := hpre
    cases hr
    dsimp only
    split
    · exact ⟨ho, rfl⟩
    · exact ⟨Below.mayLock ho.below, ⟨h, rfl, ho⟩, rfl⟩
  | configureOutputMessage c scope =>
    obtain ⟨k, rfl, ho⟩ := hpre
    exact keeps_configureOutputMessage ho hr
  | closeThroughProtocol c =>
    simp only [program, exec, closeThroughProtocol] at hr
    split at hr <;> cases hr
    exact keeps_close hpre
  | send msg =>
    cases hr
    exact keeps_send hpre.1 hpre.2 i.arm
  | drop msg =>
    cases hr
    exact keeps_drop hpre
  | checkWrite c =>
    simp only [program, exec] at hr
    split at hr <;> cases hr
    · exact keeps_closeBoth hpre
    · exact rfl
  | onReadTimeout c | onWriteTimeout c =>
    cases hr
    dsimp only
    split
    · exact keeps_closeBoth hpre
    · exact rfl
  | awaitTask =>
    cases hr
    obtain rfl : h = [.m_taskLock] := hpre
    dsimp only
    split
    · exact ⟨List.mem_cons_self, Below.mayLock (.nil _), rfl, rfl⟩
    · exact ⟨rfl, rfl⟩
  | takeTask =>
    cases hr
    obtain rfl : h = [.m_taskLock] := hpre
    exact keeps_takeTask s
  | execute t =>
    cases hr
    obtain rfl : h = [] := hpre
    exact keeps_task i.failed i.login t
  | closeConnection c =>
    cases hr
    exact keeps_closeConnection hpre
  | closing c =>
    cases hr
    exact keeps_closing hpre
  | releaseProtocol c =>
    have ho : Only c h := hpre
    cases hr
    rw [releaseProtocol]
    split
    · exact keeps_addEvent ho.below _
    · exact rfl
  | releaseConnection c =>
    have ho : Only c h := hpre
    cases hr
    dsimp only
    split
    · exact keeps_addEvent ho.below _
    · exact rfl
  | sendAll =>
    cases hr
    obtain rfl : h = [.m_outputPoolLock] := hpre
    refine keeps_append (keeps_drops ?_ _) ⟨rfl, rfl⟩
    intro l hl
    rw [List.mem_singleton.mp hl]
    decide
  | sendNext frameTime =>
    cases hr
    dsimp only
    rw [sendNext, hq]
    exact rfl
  | eraseNext =>
    cases hr
    obtain rfl : h = [.m_outputPoolLock] := hpre
    rw [eraseNext, hq]
    exact rfl
  | takeEvent =>
    obtain rfl : h = [.m_eventLock] := hpre
    exact keeps_takeEvent hr

end LoginServer.Threads
