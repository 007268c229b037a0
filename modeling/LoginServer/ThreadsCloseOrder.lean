import LoginServer.ThreadsUses

/-! # Nothing uses a protocol when its connection is closed

A service thread uses the protocol of a connection only inside the mutex of the connection, and the
dispatcher only in the login, which is queued while the connection is open and so before it is
closed. -/
namespace LoginServer.Threads

open Locks Runs
open Connection (ErrorCode Arm)

/-! ## Inside the mutex -/

def gives (c : ℕ) : Action → ℕ
  | .send msg => if msg.m_connection = c then 1 else 0
  | _ => 0

theorem post_count (c : ℕ) (h : List Mutex) (a : Action) (hp : pre h a) :
    (post h a).count (.m_connectionLock c) + gives c a = h.count (.m_connectionLock c) := by
  cases a with
  | createConnection | awaitTask | takeTask | takeEvent =>
    obtain rfl : h = [_] := hp
    rfl
  | configureOutputMessage x scope =>
    obtain ⟨k, rfl, _⟩ := hp
    simp [post, gives]
  | send msg =>
    have hcount : (h.erase (.m_connectionLock msg.m_connection)).count (.m_connectionLock c) =
        h.count (.m_connectionLock c) -
          if Mutex.m_connectionLock msg.m_connection == .m_connectionLock c then 1 else 0 :=
      List.count_erase
    have hin : 0 < h.count (.m_connectionLock msg.m_connection) := List.count_pos_iff.mpr hp.1
    simp only [post, gives, hcount, beq_iff_eq, Mutex.m_connectionLock.injEq]
    by_cases hc : msg.m_connection = c
    · subst hc
      simp only [if_true]
      omega
    · simp only [hc, if_false]
      omega
  | _ => rfl

def least : Action → List Mutex
  | .createConnection => [.m_connectionManagerLock]
  | .awaitTask | .takeTask => [.m_taskLock]
  | .takeEvent => [.m_eventLock]
  | .configureOutputMessage _ _ | .sendAll | .sendNext _ | .eraseNext => [.m_outputPoolLock]
  | .send msg => [.m_connectionLock msg.m_connection]
  | .serve | .tasksThread | .schedulerThread | .eraseConnection _ | .startRead _ | .close _
  | .closeSocket _ | .setReadError _ | .setWriteError _ | .checkHeader _ | .checkPacket _ _
  | .getOutputMessage _ _ | .closeThroughProtocol _ | .autoSend _ | .drop _ | .checkWrite _
  | .onReadTimeout _ | .onWriteTimeout _ | .onStop _ | .addTask _ _ | .addEvent _
  | .startExecutionFrame | .execute _ | .closeConnection _ | .closing _ | .closed _
  | .releaseProtocol _ | .releaseConnection _ | .unRef _ => []

theorem pre_least (a : Action) : pre (least a) a := by
  cases a with
  | send msg => exact ⟨List.mem_singleton_self _, (Only.nil _).cons⟩
  | configureOutputMessage c scope => exact ⟨[], rfl, .nil c⟩
  | startRead c | close c | checkHeader c | checkPacket c _ | getOutputMessage c _
  | closeThroughProtocol c | checkWrite c | onReadTimeout c | onWriteTimeout c
  | closeConnection c | closing c | releaseProtocol c | releaseConnection c => exact .nil c
  | drop msg => exact .nil 2
  | serve | tasksThread | schedulerThread | execute _ | createConnection | awaitTask | takeTask
  | takeEvent | sendAll | sendNext _ | eraseNext => rfl
  | _ => trivial

theorem post_least (a : Action) (c : ℕ) :
    (post (least a) a).count (.m_connectionLock c) = 0 := by
  cases a <;> simp [post, least]

theorem exec_settles {i : Choice} {s : State} {a : Action} {r : State × Code} (hq : Quiet s)
    (hr : exec i s a = some r) (c : ℕ) : Settles (.m_connectionLock c) (gives c) r.2 :=
  ordered_settles (D := discipline) (P := program) (post_count c) (post_least a c)
    (exec_sound hq.autoSend a (least a) r (pre_least a) hr)

/-- A thread holds the mutex of a connection as often as it has still to give it back. -/
theorem held_count {n : ℕ} {s : Server n} (h : Staffed s) (t : Thread n) (c : ℕ) :
    ((s.held t).count (.m_connectionLock c) : ℤ) =
      net (.m_connectionLock c) (gives c) (s.code t) := by
  have hordered := h.watched.ordinary.orderly.ordered t
  have hnet := ordered_net (post_count c) hordered
  simpa using hnet

theorem mem_held_iff {n : ℕ} {s : Server n} (h : Staffed s) (t : Thread n) (c : ℕ) :
    .m_connectionLock c ∈ s.held t ↔ 1 ≤ net (.m_connectionLock c) (gives c) (s.code t) := by
  rw [← held_count h, ← List.count_pos_iff]
  omega

abbrev UsesInside (c : ℕ) (code : Code) : Prop :=
  Inside (.m_connectionLock c) (gives c) (uses c) code

theorem act_inside {n : ℕ} {s : Server n} (h : Staffed s) {t : Thread n} {i : Choice} {a : Action}
    {rest : Code} {r : State × Code} {c : ℕ} (hrole : t.role = .service)
    (hcode : s.code t = .act a :: rest) (hr : exec i s.shared a = some r)
    (hin : UsesInside c (.act a :: rest)) : UsesInside c (r.2 ++ rest) := by
  have hq := h.watched.ordinary.quiet
  refine inside_append (exec_settles hq hr c) ?_ hin.2
  by_cases hp : ∀ p, a ≠ .checkPacket c p
  · have hown := h.own hcode
    rw [hrole] at hown
    have hle : load (uses c) r.2 ≤ uses c a := by
      apply exec_uses_code hq hp ?_ ?_ hr <;> rintro rfl <;> simp [does, turns] at hown
    rcases hin.1 with hzero | hnet
    · simp only [load] at hzero
      exact Or.inl (by omega)
    · by_cases hg : gives c a = 0
      · simp only [net, hg] at hnet
        exact Or.inr (by omega)
      · cases a with
        | send msg => exact Or.inl (Nat.le_zero.mp hle)
        | _ => exact absurd rfl hg
  · obtain ⟨p, hp⟩ := not_forall.mp hp
    rw [not_not] at hp
    subst hp
    have hcovered := h.watched.covered t
    rw [hcode] at hcovered
    have hnet := (mem_held_iff h t c).mp (hcovered.1 _ rfl)
    rw [hcode] at hnet
    simp only [net, gives] at hnet
    exact Or.inr (by omega)

/-! ## The login is queued while the connection is open -/

/-- The login that is still to be queued. -/
def pends (c : ℕ) : Action → ℕ
  | .addTask t _ => if t = .delegate c then 1 else 0
  | _ => 0

theorem pends_le (c : ℕ) (a : Action) : pends c a ≤ uses c a := by
  cases a with
  | addTask t front => exact Nat.le_refl _
  | _ => exact Nat.zero_le _

/-- Nothing is done before the login is queued. -/
def Queuing (c : ℕ) : Code → Prop
  | [] => True
  | .lock _ :: rest => Queuing c rest
  | .unlock _ :: rest => Queuing c rest
  | .act _ :: rest => load (pends c) rest = 0

theorem queuing_of_load {c : ℕ} {code : Code} (h : load (pends c) code = 0) : Queuing c code := by
  induction code with
  | nil => trivial
  | cons i code ih =>
    cases i with
    | lock l => exact ih h
    | unlock l => exact ih h
    | act a => exact Nat.eq_zero_of_add_eq_zero_left h

theorem queuing_append {c : ℕ} {code rest : Code} (h : Queuing c code)
    (hr : load (pends c) rest = 0) : Queuing c (code ++ rest) := by
  induction code with
  | nil => exact queuing_of_load hr
  | cons i code ih =>
    cases i with
    | lock l => exact ih h
    | unlock l => exact ih h
    | act a =>
      change load (pends c) (code ++ rest) = 0
      rw [load_append, hr, Nat.add_zero]
      exact h

theorem pends_of_does {role : Role} {code : Code} (hr : role ≠ .service) (h : Does role code)
    (c : ℕ) : load (pends c) code = 0 := by
  refine load_eq_zero.mpr fun a ha => ?_
  have hown := h a ha
  cases a with
  | addTask t front =>
    cases t with
    | delegate x => simp [does, queues, hr] at hown
    | _ => rfl
  | _ => rfl

theorem pends_begins (c : ℕ) (a : Action) (h : begins a = true) : pends c a = 0 := by
  cases a with
  | addTask _ _ => cases h
  | _ => rfl

theorem pends_of_assigned {role : Role} {code : Code} (hr : role ≠ .service)
    (h : Assigned role code) (c : ℕ) : load (pends c) code = 0 := by
  obtain ⟨body, a, rfl, hb, ha⟩ := h
  rw [load_append, pends_of_does hr hb]
  cases a with
  | addTask _ _ => cases ha
  | _ => rfl

theorem exec_pends {role : Role} {c : ℕ} {i : Choice} {s : State} {a : Action} {r : State × Code}
    (hq : Quiet s) (he : ∀ t ∈ s.m_eventList, t.isEvent = true)
    (h : does role a = true ∨ turns role a = true) (hp : ∀ p, a ≠ .checkPacket c p)
    (hr : exec i s a = some r) : load (pends c) r.2 = 0 := by
  rcases h with h | h
  · by_cases hd : does .dispatcher a = true
    · exact pends_of_does (by decide) (exec_does hq hd hr) c
    · have hle : load (pends c) r.2 ≤ uses c a := by
        refine Nat.le_trans (load_mono (pends_le c) r.2) (exec_uses_code hq hp ?_ ?_ hr) <;>
          rintro rfl <;> cases h
      cases a with
      | addTask _ _ | addEvent _ =>
        cases hr
        rfl
      | getOutputMessage _ _ | configureOutputMessage _ _ | closeThroughProtocol _ | execute _ =>
        exact absurd rfl hd
      | _ => exact Nat.le_zero.mp hle
  · cases role with
    | service =>
      cases a with
      | serve =>
        obtain ⟨u, _, rfl⟩ := Option.map_eq_some_iff.mp hr
        simp [load_handler (pends_begins c), load, pends]
      | _ => cases h
    | dispatcher => exact pends_of_assigned (by decide) (exec_turns he h hr) c
    | scheduler => exact pends_of_assigned (by decide) (exec_turns he h hr) c

theorem onRecvFirstMessage_queuing (c x : ℕ) (first : FirstMessage) :
    Queuing c (onRecvFirstMessage x first) := by
  cases first with
  | rsaFailed => exact queuing_of_load rfl
  | rejected => exact queuing_of_load rfl
  | checked isDisabled =>
    cases isDisabled with
    | true => exact queuing_of_load rfl
    | false => exact (show load (pends c) [.unlock .m_taskLock] = 0 from rfl)

theorem checkPacket_queuing {c x : ℕ} {s : State} {p : Packet} {r : State × Code}
    (hr : checkPacket s x p = some r) :
    Queuing c r.2 ∧ (load (pends c) r.2 ≠ 0 → (r.1.peers c).isOpen) := by
  have hclose : ∀ s : State, load (pends c) (close x) = 0 ∧
      (load (pends c) (close x) ≠ 0 → (s.peers c).isOpen) := by
    intro s
    rw [load_close]
    exact ⟨rfl, fun h => absurd rfl h⟩
  rw [checkPacket] at hr
  split at hr
  · cases hr
    exact (hclose s).imp_left queuing_of_load
  · rename_i hok
    split at hr
    · cases hr
      have hopen : (s.peers x).isOpen := by
        simp only [not_or, ne_eq, Decidable.not_not] at hok
        exact hok.1
      rw [firstPacket]
      split
      · exact (hclose _).imp_left queuing_of_load
      · refine ⟨queuing_append (onRecvFirstMessage_queuing c x p.first) rfl, fun hload => ?_⟩
        have hx : x = c := by
          by_contra hx
          have hle := load_mono (pends_le c) (onRecvFirstMessage x p.first)
          rw [uses_onRecvFirstMessage, if_neg hx] at hle
          simp only [load_append, load, pends] at hload
          omega
        subst hx
        dsimp only
        split
        · simpa [State.readDone, State.setPeer, Peer.isOpen] using hopen
        · simpa [State.readDone, State.setPeer, Peer.isOpen] using hopen
    · split at hr <;> cases hr
      exact ⟨queuing_of_load rfl, fun h => absurd rfl h⟩

/-! ## The close comes after the login -/

/-- A close that the dispatcher has taken. -/
def closers (c : ℕ) : Action → ℕ
  | .execute t => if t = .closeConnection c then 1 else 0
  | .closeConnection x => if x = c then 1 else 0
  | _ => 0

theorem closers_le (r k c : ℕ) (a : Action) : closers c a ≤ closings 1 r k c a := by
  cases a with
  | execute t => cases t <;> simp [closers, closings, taskClosings]
  | closeConnection x => exact Nat.le_refl _
  | _ => exact Nat.zero_le _

theorem closers_of_does {role : Role} {code : Code} (hr : role ≠ .dispatcher)
    (h : Does role code) (c : ℕ) : load (closers c) code = 0 := by
  refine load_eq_zero.mpr fun a ha => ?_
  have hown := h a ha
  cases a with
  | execute _ | closeConnection _ => simp [does, hr] at hown
  | _ => rfl

theorem closers_of_assigned {role : Role} {code : Code} (hr : role ≠ .dispatcher)
    (h : Assigned role code) (c : ℕ) : load (closers c) code = 0 := by
  obtain ⟨body, a, rfl, hb, ha⟩ := h
  rw [load_append, closers_of_does hr hb]
  cases a with
  | execute _ | closeConnection _ => cases ha
  | _ => rfl

theorem exec_closers {c : ℕ} {i : Choice} {s : State} {a : Action} {r : State × Code}
    (hq : Quiet s) (ht : a ≠ .takeTask) (he : a ≠ .takeEvent) (hr : exec i s a = some r) :
    load (closers c) r.2 ≤ closers c a := by
  have hle : a ≠ .close c → load (closers c) r.2 ≤ closings 1 0 0 c a := fun hc =>
    Nat.le_trans (load_mono (closers_le 0 0 c) r.2)
      (exec_closings_code hq (Or.inl (Nat.zero_le 1)) hc ht he hr)
  cases a with
  | addTask _ _ | addEvent _ =>
    cases hr
    exact Nat.zero_le _
  | close x =>
    simp only [exec] at hr
    split at hr <;> cases hr <;> simp [load, closers]
  | execute t =>
    have hle := hle (by simp)
    cases t with
    | closeConnection x | releaseProtocol x => simpa [closers, closings, taskClosings] using hle
    | _ => exact hle
  | closing x | releaseProtocol x => simpa [closers, closings] using hle (by simp)
  | _ => exact hle (by simp)

theorem exec_delegates {c : ℕ} {i : Choice} {s : State} {a : Action} {r : State × Code}
    (hq : Quiet s) (hr : exec i s a = some r) (hin : .delegate c ∈ r.1.m_taskList) :
    .delegate c ∈ s.m_taskList ∨ ∃ front, a = .addTask (.delegate c) front := by
  by_cases hg : guard a = some .m_taskLock
  · cases a with
    | addTask t front =>
      cases hr
      have hmem : .delegate c ∈ t :: s.m_taskList := by
        cases front with
        | true => exact hin
        | false => exact (List.perm_append_singleton t s.m_taskList).mem_iff.mp hin
      rcases List.mem_cons.mp hmem with rfl | hmem
      · exact Or.inr ⟨front, rfl⟩
      · exact Or.inl hmem
    | awaitTask =>
      cases hr
      exact Or.inl hin
    | takeTask =>
      cases hr
      rw [takeTask] at hin
      split at hin
      · exact Or.inl hin
      · rename_i x rest hl
        rw [hl]
        exact Or.inl (List.mem_cons_of_mem x hin)
    | _ => cases hg
  · rw [(exec_within hq hr).tasks hg] at hin
    exact Or.inl hin

/-! ## Every step of the server -/

section Server

variable {n : ℕ} {s u : Server n} {t : Thread n} {i : Choice} {c : ℕ}

def usesLeft (f c : ℕ) (s : Server n) : ℕ := weight (stateUses f c) (uses c) s

def closingsLeft (e r k c : ℕ) (s : Server n) : ℕ :=
  weight (stateClosings e r c) (closings e r k c) s

/-- A connection's protocol has one use at a time, inside the mutex or on the dispatcher; the close
comes once, behind the login, and nothing is left for the dispatcher when it has taken the close. -/
structure CloseOrder (c : ℕ) (s : Server n) : Prop where
  used_once : usesLeft 1 c s ≤ 1
  released_once : closingsLeft 1 1 0 c s ≤ 1
  closed_once : closingsLeft 1 0 1 c s ≤ 1
  inside : ∀ t, t.role = .service → UsesInside c (s.code t)
  queuing : ∀ t, Queuing c (s.code t)
  opened : ∀ t, load (pends c) (s.code t) ≠ 0 → (s.shared.peers c).isOpen
  behind : s.shared.m_taskList.Pairwise fun x y => x = .closeConnection c → y ≠ .delegate c
  alone : ∀ t, load (closers c) (s.code t) ≠ 0 →
    load (uses c) (s.code t) = 0 ∧ .delegate c ∉ s.shared.m_taskList

theorem step_uses {f : ℕ} (hs : Staffed s)
    (hf : f = 1 ∨ ∀ a rest r, s.code t = .act a :: rest → exec i s.shared a = some r →
      ∀ p, a = .checkPacket c p → load (uses c) r.2 = 0)
    (hu : step program s (t, i) = some u) : usesLeft f c u ≤ usesLeft f c s := by
  apply step_weight ?_ hu
  intro a rest r hcode hr
  exact exec_uses hs.watched.ordinary.quiet (hf.imp_right fun hf => hf a rest r hcode hr) hr

theorem step_closings {e r k : ℕ} (hs : Staffed s)
    (hk : r + k ≤ e ∨ ∀ a rest q, s.code t = .act a :: rest → exec i s.shared a = some q →
      a = .closeConnection c → load (closings e r k c) q.2 ≤ e)
    (hu : step program s (t, i) = some u) : closingsLeft e r k c u ≤ closingsLeft e r k c s := by
  apply step_weight ?_ hu
  intro a rest q hcode hq
  exact exec_closings hs.watched.ordinary.quiet (hk.imp_right fun hk => hk a rest q hcode hq) hq

theorem load_start {w : Action → ℕ} (hw : ∀ role a, turns role a = true → w a = 0) (t : Thread n) :
    load w t.code = 0 := by
  cases t with
  | service j => exact hw .service .serve rfl
  | dispatcher => exact hw .dispatcher .tasksThread rfl
  | scheduler => exact hw .scheduler .schedulerThread rfl

theorem initial_closeOrder (n : ℕ) (time : UInt64) (logError forceClose : Bool) (c : ℕ) :
    CloseOrder c (initial n time logError forceClose) := by
  have huses : ∀ role a, turns role a = true → uses c a = 0 := by
    intro role a ha
    cases a <;> first | rfl | cases ha
  have hclosings : ∀ e r k role a, turns role a = true → closings e r k c a = 0 := by
    intro e r k role a ha
    cases a <;> first | rfl | cases ha
  have hpends : ∀ t : Thread n, load (pends c) t.code = 0 := fun t =>
    Nat.le_zero.mp (load_start huses t ▸ load_mono (pends_le c) t.code)
  have hclosers : ∀ t : Thread n, load (closers c) t.code = 0 := fun t =>
    Nat.le_zero.mp (load_start (hclosings 1 0 0) t ▸ load_mono (closers_le 0 0 c) t.code)
  refine ⟨?_, ?_, ?_, ?_, ?_, ?_, ?_, ?_⟩
  · simp only [usesLeft, weight, initial, load_start huses, Finset.sum_const_zero]
    exact Nat.le_refl 1
  · simp only [closingsLeft, weight, initial, load_start (hclosings 1 1 0), Finset.sum_const_zero]
    exact Nat.le_refl 1
  · simp only [closingsLeft, weight, initial, load_start (hclosings 1 0 1), Finset.sum_const_zero]
    exact Nat.le_refl 1
  · intro t _
    cases t <;> exact ⟨Or.inl rfl, trivial⟩
  · intro t
    exact queuing_of_load (hpends t)
  · intro t ht
    exact absurd (hpends t) ht
  · exact List.Pairwise.nil
  · intro t ht
    exact absurd (hclosers t) ht

theorem CloseOrder.unclosed (h : CloseOrder c s) (ho : (s.shared.peers c).isOpen) :
    .closeConnection c ∉ s.shared.m_taskList ∧ ∀ t, load (closers c) (s.code t) = 0 := by
  have hle : ∀ t, stateClosings 1 1 c s.shared + load (closings 1 1 0 c) (s.code t) ≤ 1 := fun t =>
    Nat.le_trans (load_le_weight (stateClosings 1 1 c) (closings 1 1 0 c) s t) h.released_once
  simp only [stateClosings, ho, if_true] at hle
  constructor
  · intro hin
    have hsum : (s.shared.m_taskList.map (taskClosings 1 1 c)).sum = 0 := by
      have hdispatcher := hle .dispatcher
      omega
    have hclose := List.sum_eq_zero_iff_forall_eq_nat.mp hsum _ (List.mem_map_of_mem hin)
    simp [taskClosings] at hclose
  · intro t
    have hmono := load_mono (closers_le 1 0 c) (s.code t)
    have ht := hle t
    omega

/-- A thread that has a login still to queue is in the mutex of the connection. -/
theorem CloseOrder.pending_held (hs : Staffed s) (h : CloseOrder c s)
    (hp : load (pends c) (s.code t) ≠ 0) : .m_connectionLock c ∈ s.held t := by
  have hrole : t.role = .service := by
    by_contra hrole
    exact hp (pends_of_assigned hrole (hs.assigned t) c)
  have huse : load (uses c) (s.code t) ≠ 0 := by
    have hle := load_mono (pends_le c) (s.code t)
    omega
  exact (mem_held_iff hs t c).mpr ((h.inside t hrole).one_le_net huse)

/-- What the mutex of a connection protects, in a state of all threads. -/
abbrev lockedAt (c : ℕ) (s : State) : LockedPart := (s.peers c).lockedPart

theorem step_opened (hs : Staffed s) (h : CloseOrder c s) (hu : step program s (t, i) = some u)
    (v : Thread n) (hv : load (pends c) (u.code v) ≠ 0) : (u.shared.peers c).isOpen := by
  have hq := hs.watched.ordinary.quiet
  rcases step_loads hu with ⟨hshared, hload⟩ | ⟨a, rest, r, hcode, hr, hshared, hnext, hother⟩
  · rw [hshared]
    rw [hload] at hv
    exact h.opened v hv
  · by_cases hvt : v = t
    · subst hvt
      rw [hnext, load_append] at hv
      have hrest : load (pends c) rest = 0 := by
        have hqueuing := h.queuing v
        rw [hcode] at hqueuing
        exact hqueuing
      rw [hshared]
      by_cases hp : ∀ p, a ≠ .checkPacket c p
      · have hown := (hs.own hcode).symm.imp And.left And.left
        have hzero := exec_pends hq hs.events hown hp hr
        omega
      · obtain ⟨p, hp⟩ := not_forall.mp hp
        rw [not_not] at hp
        subst hp
        exact (checkPacket_queuing hr).2 (by omega)
    · rw [hother v hvt] at hv
      have hview : lockedAt c u.shared = lockedAt c s.shared :=
        step_view hs.watched.ordinary.orderly.exclusive hs.watched.covered
          (fun a r hg hr => (exec_within hq hr).connection c hg) (h.pending_held hs hv)
          (Ne.symm hvt) hu
      have hopen := h.opened v hv
      have hwrite := congrArg LockedPart.write hview
      simp only [lockedAt, Peer.lockedPart] at hwrite
      rw [Peer.isOpen, hwrite]
      exact hopen

theorem step_behind (hs : Staffed s) (h : CloseOrder c s) (hu : step program s (t, i) = some u) :
    u.shared.m_taskList.Pairwise fun x y => x = .closeConnection c → y ≠ .delegate c := by
  have hq := hs.watched.ordinary.quiet
  rcases step_loads hu with ⟨hshared, _⟩ | ⟨a, rest, r, hcode, hr, hshared, _, _⟩
  · rw [hshared]
    exact h.behind
  · rw [hshared]
    by_cases hg : guard a = some .m_taskLock
    · cases a with
      | addTask x front =>
        have hown := hs.own hcode
        simp only [does, turns, Bool.false_eq_true, false_and, false_or] at hown
        cases hr
        cases front with
        | true =>
          refine List.pairwise_cons.mpr ⟨fun y _ hx => ?_, h.behind⟩
          subst hx
          simp [queues] at hown
        | false =>
          refine List.pairwise_append.mpr ⟨h.behind, List.pairwise_singleton _ _, ?_⟩
          intro y hy x' hx' hclose
          obtain rfl := List.mem_singleton.mp hx'
          rintro rfl
          have hpend : load (pends c) (s.code t) ≠ 0 := by
            rw [hcode]
            simp [load, pends]
          exact (h.unclosed (h.opened t hpend)).1 (hclose ▸ hy)
      | awaitTask =>
        cases hr
        exact h.behind
      | takeTask =>
        cases hr
        have hbehind := h.behind
        rw [takeTask]
        split
        · exact hbehind
        · rename_i x rest' hl
          rw [hl] at hbehind
          exact (List.pairwise_cons.mp hbehind).2
      | _ => cases hg
    · rw [(exec_within hq hr).tasks hg]
      exact h.behind

theorem dispatcher_of_role (t v : Thread n) (ht : t.role = .dispatcher) (hv : v.role = .dispatcher) :
    t = v := by
  cases t <;> cases ht
  cases v <;> cases hv
  rfl

theorem takeTask_alone {x : State}
    (hb : x.m_taskList.Pairwise fun y z => y = .closeConnection c → z ≠ .delegate c)
    (hc : load (closers c) (takeTask x).2 ≠ 0) :
    load (uses c) (takeTask x).2 = 0 ∧ .delegate c ∉ (takeTask x).1.m_taskList := by
  rw [takeTask] at hc ⊢
  split at hc
  · exact absurd rfl hc
  · rename_i y rest hl
    rw [hl] at hb
    have hy : y = .closeConnection c := by
      by_contra hy
      simp [load, closers, sendAll, hy] at hc
    subst hy
    refine ⟨by simp [load, uses, sendAll], fun hin => ?_⟩
    exact (List.pairwise_cons.mp hb).1 _ hin rfl rfl

theorem step_alone (hs : Staffed s) (h : CloseOrder c s) (hu : step program s (t, i) = some u)
    (v : Thread n) (hv : load (closers c) (u.code v) ≠ 0) :
    load (uses c) (u.code v) = 0 ∧ .delegate c ∉ u.shared.m_taskList := by
  have hq := hs.watched.ordinary.quiet
  have hrole : v.role = .dispatcher := by
    by_contra hrole
    exact hv (closers_of_assigned hrole ((step_staffed hs hu).assigned v) c)
  rcases step_loads hu with ⟨hshared, hload⟩ | ⟨a, rest, r, hcode, hr, hshared, hnext, hother⟩
  · rw [hshared, hload]
    rw [hload] at hv
    exact h.alone v hv
  · rw [hshared]
    by_cases hvt : v = t
    · subst hvt
      have hown := hs.own hcode
      rw [hrole] at hown
      rw [hnext, load_append] at hv
      by_cases ht : a = .takeTask
      · subst ht
        obtain ⟨_, rfl⟩ : turns .dispatcher .takeTask = true ∧ rest = [] := by
          simpa [does] using hown
        cases hr
        rw [hnext, List.append_nil]
        exact takeTask_alone h.behind (by simpa [load] using hv)
      · have he : a ≠ .takeEvent := by
          rintro rfl
          simp [does, turns] at hown
        have hp : ∀ p, a ≠ .checkPacket c p := by
          rintro p rfl
          simp [does, turns] at hown
        have hclosers := exec_closers (c := c) hq ht he hr
        have huses := exec_uses_code (c := c) hq hp ht he hr
        obtain ⟨hzero, htasks⟩ := h.alone v (by rw [hcode, load]; omega)
        rw [hcode, load] at hzero
        refine ⟨by rw [hnext, load_append]; omega, fun hin => ?_⟩
        rcases exec_delegates hq hr hin with hin | ⟨front, rfl⟩
        · exact htasks hin
        · simp [does, turns, queues] at hown
    · rw [hother v hvt] at hv ⊢
      obtain ⟨huses, htasks⟩ := h.alone v hv
      refine ⟨huses, fun hin => ?_⟩
      rcases exec_delegates hq hr hin with hin | ⟨front, rfl⟩
      · exact htasks hin
      · have hpend : load (pends c) (s.code t) ≠ 0 := by
          rw [hcode]
          simp [load, pends]
        exact hv ((h.unclosed (h.opened t hpend)).2 v)

theorem step_closeOrder (hs : Staffed s) (h : CloseOrder c s)
    (hu : step program s (t, i) = some u) : CloseOrder c u := by
  have hq := hs.watched.ordinary.quiet
  refine ⟨?_, ?_, ?_, ?_, ?_, ?_, ?_, ?_⟩
  · exact (step_uses hs (Or.inl rfl) hu).trans h.used_once
  · exact (step_closings hs (Or.inl (Nat.le_refl 1)) hu).trans h.released_once
  · exact (step_closings hs (Or.inl (Nat.le_refl 1)) hu).trans h.closed_once
  · apply step_each (Q := fun t code => t.role = .service → UsesInside c code) program h.inside
      ?_ ?_ hu
    · intro l rest hin hrole
      exact hin.elim (fun hin => (hin hrole).2) fun hin => (hin hrole).2
    · intro a rest r hcode hr hin hrole
      exact act_inside hs hrole hcode hr (hin hrole)
  · apply step_each (Q := fun _ code => Queuing c code) program h.queuing ?_ ?_ hu
    · intro l rest hqueuing
      exact hqueuing.elim id id
    · intro a rest r hcode hr hqueuing
      refine queuing_append ?_ hqueuing
      by_cases hp : ∀ p, a ≠ .checkPacket c p
      · have hown := (hs.own hcode).symm.imp And.left And.left
        exact queuing_of_load (exec_pends hq hs.events hown hp hr)
      · obtain ⟨p, hp⟩ := not_forall.mp hp
        rw [not_not] at hp
        subst hp
        exact (checkPacket_queuing hr).1
  · exact step_opened hs h hu
  · exact step_behind hs h hu
  · exact step_alone hs h hu

theorem uses_of_scheduler {code : Code} (h : Assigned .scheduler code) (c : ℕ) :
    load (uses c) code = 0 := by
  obtain ⟨body, a, rfl, hb, ha⟩ := h
  have hbody : load (uses c) body = 0 := by
    refine load_eq_zero.mpr fun b hin => ?_
    have hown := hb b hin
    cases b with
    | addTask x front =>
      cases x with
      | delegate y => simp [does, queues] at hown
      | _ => rfl
    | addEvent x => simp [does] at hown
    | getOutputMessage _ _ | configureOutputMessage _ _ | closeThroughProtocol _ | execute _ =>
      cases hown
    | _ => rfl
  rw [load_append, hbody]
  cases a <;> first | rfl | cases ha

/-- When the dispatcher closes a connection, nothing uses its protocol, nor will. -/
theorem unused_at_close (hs : Staffed s) (h : CloseOrder c s) {rest : Code}
    (hcode : s.code t = .act (.closeConnection c) :: rest) : usesLeft 0 c s = 0 := by
  have hrole : t.role = .dispatcher := by
    have hown := hs.own hcode
    simp only [does, turns, beq_iff_eq, Bool.false_eq_true, false_and, false_or] at hown
    exact hown.1
  have hclosers : load (closers c) (s.code t) ≠ 0 := by
    rw [hcode]
    simp [load, closers]
  obtain ⟨hdispatcher, htasks⟩ := h.alone t hclosers
  have hevents : .delegate c ∉ s.shared.m_eventList := fun hin => by cases hs.events _ hin
  have hheld : .m_connectionLock c ∈ s.held t := by
    have hcovered := hs.watched.covered t
    rw [hcode] at hcovered
    exact hcovered.1 _ rfl
  have hload : ∀ v, load (uses c) (s.code v) = 0 := by
    intro v
    cases hv : v.role with
    | service =>
      by_contra huse
      have hin := (mem_held_iff hs v c).mpr ((h.inside v hv).one_le_net huse)
      obtain rfl := hs.watched.ordinary.orderly.exclusive v t _ hin hheld
      cases hv.symm.trans hrole
    | dispatcher =>
      obtain rfl := dispatcher_of_role v t hv hrole
      exact hdispatcher
    | scheduler => exact uses_of_scheduler (hv ▸ hs.assigned v) c
  simp [usesLeft, weight, stateUses, hload, List.count_eq_zero.mpr htasks,
    List.count_eq_zero.mpr hevents]

end Server

end LoginServer.Threads
