import LoginServer.ConnectionRelease
import Mathlib.Order.Nat

/-! # The login task and the objects it reaches through raw pointers

`ProtocolLogin::delegate` is queued with a raw `this`. It is queued once, while the connection is
open, so behind it can only stand the `closeConnection` that detaches the protocol, never before
it; and a protocol is released only after that. The invariant ties the order of the dispatcher's
queue to the connection state through `Releasing`. -/
namespace LoginServer.Connection

open Runs

def pending (s : State) : ℕ := s.tasks.count .delegate + s.running.isSome.toNat

/-- Nothing is on its way that could delete the protocol object. -/
def Unreleased (s : State) : Prop :=
  .releaseProtocol ∉ s.events ∧ .retry .releaseProtocol ∉ s.tasks

/-- No login task waits behind a `closeConnection`. -/
def CloseLast (l : List Task) : Prop := l.Pairwise fun a b => a = .closeConnection → b ≠ .delegate

structure LoginTask (s : State) : Prop where
  once : s.delegates ≤ 1
  pending : pending s ≤ s.delegates
  first : s.m_receivedFirst = false → s.delegates = 0 ∧ s.m_protocol = false
  attached : 0 < Connection.pending s → s.m_protocol = true
  live : s.m_protocol = true → protocolView s = some (false, true)
  unreleased : s.m_protocol = true ∨ s.m_receivedFirst = false → Unreleased s
  order : CloseLast s.tasks

theorem initial_loginTask (logError forceClose : Bool) :
    LoginTask (initial logError forceClose) := by
  constructor <;> simp [initial, pending, Unreleased, CloseLast]

theorem LoginTask.keep {s u : State} (h : LoginTask s)
    (hf : u.m_receivedFirst = s.m_receivedFirst) (hm : u.m_protocol = s.m_protocol)
    (hv : protocolView u = protocolView s) (hd : u.delegates = s.delegates)
    (hp : Connection.pending u ≤ Connection.pending s) (hu : Unreleased s → Unreleased u)
    (ho : CloseLast u.tasks) : LoginTask u where
  once := hd ▸ h.once
  pending := by rw [hd]; exact hp.trans h.pending
  first := by rw [hf, hd, hm]; exact h.first
  attached := fun hpos => by rw [hm]; exact h.attached (hpos.trans_le hp)
  live := by rw [hm, hv]; exact h.live
  unreleased := by rw [hm, hf]; exact fun hr => hu (h.unreleased hr)
  order := ho

theorem closeLast_of_cons {t : Task} {l : List Task} (h : CloseLast (t :: l)) : CloseLast l :=
  (List.pairwise_cons.mp h).2

theorem closeLast_cons {t : Task} {l : List Task} (ht : t ≠ .closeConnection)
    (h : CloseLast l) : CloseLast (t :: l) :=
  List.pairwise_cons.mpr ⟨fun _ _ hc => absurd hc ht, h⟩

theorem closeLast_append_close {l : List Task} (h : CloseLast l) :
    CloseLast (l ++ [.closeConnection]) :=
  List.pairwise_append.mpr ⟨h, List.pairwise_singleton _ _, by simp⟩

theorem closeLast_append_delegate {l : List Task} (h : CloseLast l)
    (hc : .closeConnection ∉ l) : CloseLast (l ++ [.delegate]) :=
  List.pairwise_append.mpr ⟨h, List.pairwise_singleton _ _,
    fun _ ha _ _ he => absurd (he ▸ ha) hc⟩

theorem closeLast_replicate {l : List Task} (n : ℕ) (h : CloseLast l) :
    CloseLast (List.replicate n .internalReleaseMessage ++ l) := by
  induction n with
  | zero => exact h
  | succ n ih => exact closeLast_cons nofun ih

theorem Calm.loginTask {s u : State} (h : Calm s u) (hl : LoginTask s) : LoginTask u := by
  obtain ⟨n, back, ht, hr⟩ := h.tasks
  have hb : back = [] ∨ back = [.closeConnection] := by
    rcases hr with ⟨_, hb⟩ | ⟨_, _, hb⟩
    · exact Or.inl hb
    · exact Or.inr hb
  have hcount : u.tasks.count .delegate = s.tasks.count .delegate := by
    rcases hb with rfl | rfl <;> simp [ht, List.count_replicate]
  have hrun : u.running = s.running := congrArg Outline.running h.outline
  have hev : u.events = s.events := congrArg Outline.events h.outline
  refine hl.keep (congrArg Outline.receivedFirst h.outline) (congrArg Outline.attached h.outline)
    (congrArg Outline.protocol h.outline) (congrArg Outline.delegates h.outline) ?_ ?_ ?_
  · simp [pending, hcount, hrun]
  · rintro ⟨he, hq⟩
    refine ⟨hev ▸ he, ?_⟩
    rcases hb with rfl | rfl <;> simp [ht, hq]
  · rw [ht, List.append_assoc]
    apply closeLast_replicate n
    rcases hb with rfl | rfl
    · simpa using hl.order
    · exact closeLast_append_close hl.order

theorem attach_loginTask {s : State} (h : LoginTask s) (hf : s.m_receivedFirst = false) :
    LoginTask (attachProtocol { s with m_receivedFirst := true }) where
  once := h.once
  pending := h.pending
  first := nofun
  attached := fun _ => rfl
  live := fun _ => rfl
  unreleased := fun _ => h.unreleased (Or.inr hf)
  order := h.order

/-- The login task is queued for a protocol just made, while no close is queued before it. -/
theorem dispatched_loginTask {s : State} (h : LoginTask s) (hp : s.m_protocol = true)
    (hd : s.delegates = 0) (hc : .closeConnection ∉ s.tasks) :
    LoginTask (onRecvFirstMessage s .dispatched) := by
  have hz : pending s = 0 := by have := h.pending; omega
  refine ⟨?_, ?_, ?_, fun _ => hp, h.live, fun hr => ?_, ?_⟩
  · simp [onRecvFirstMessage, State.addTask, hd]
  · simp only [pending, Nat.add_eq_zero_iff] at hz
    simp [pending, onRecvFirstMessage, State.addTask, hz]
  · intro hf
    have hnp := (h.first hf).2
    rw [hp] at hnp
    cases hnp
  · obtain ⟨he, hq⟩ := h.unreleased (Or.inl hp)
    exact ⟨he, by simpa [onRecvFirstMessage, State.addTask] using hq⟩
  · exact closeLast_append_delegate h.order hc

theorem firstPacket_loginTask {s : State} (h : LoginTask s) (hr : Releasing s)
    (ho : s.m_connectionState = .CONNECTION_STATE_OPEN) (hf : s.m_receivedFirst = false)
    (p : Packet) (a : Arm) : LoginTask (firstPacket s p a) := by
  obtain ⟨hd, hnp⟩ := h.first hf
  have hmark : LoginTask { s with m_receivedFirst := true } :=
    ⟨h.once, h.pending, nofun, h.attached, h.live, fun _ => h.unreleased (Or.inr hf), h.order⟩
  have hattached := attach_loginTask h hf
  rcases firstPacket_cases s p a with hc | ⟨v, rfl | ⟨hp, _⟩, hc⟩
  · exact hc.loginTask hmark
  · rcases hc with hc | hc
    · exact hc.loginTask hattached
    · refine hc.loginTask (dispatched_loginTask hattached rfl hd ?_)
      have hz := hr.closings
      rw [ho] at hz
      exact List.count_eq_zero.mp hz
  · rw [hnp] at hp
    cases hp

theorem releaseConnection_loginTask {s : State} (h : LoginTask s) (throws : Bool) :
    LoginTask (releaseConnection s throws) := by
  unfold releaseConnection deleteConnection
  split
  · refine h.keep rfl rfl rfl rfl le_rfl ?_ h.order
    rintro ⟨he, hq⟩
    exact ⟨by simpa [State.addEvent] using he, hq⟩
  · split
    · exact h.keep rfl rfl rfl rfl le_rfl id h.order
    · exact h.keep rfl rfl rfl rfl le_rfl id h.order

/-- Once detached, a protocol has no login task left, so its deletion is harmless. -/
theorem releaseProtocol_loginTask {s : State} (h : LoginTask s) (hp : s.m_protocol = false)
    (hf : s.m_receivedFirst = true) : LoginTask (releaseProtocol s) := by
  have hno : ¬ (s.m_protocol = true ∨ s.m_receivedFirst = false) := by simp [hp, hf]
  rw [releaseProtocol]
  split
  · exact ⟨h.once, h.pending, h.first, h.attached, h.live, fun hr => absurd hr hno, h.order⟩
  · refine ⟨h.once, h.pending, h.first, h.attached, fun hr => ?_, h.unreleased, h.order⟩
    exact absurd (Or.inl hr) hno

theorem detachProtocol_eq {s : State} (hp : s.m_protocol = true) :
    detachProtocol s = releaseProtocol { setConnection s false with m_protocol := false } := by
  unfold detachProtocol releaseProtocol
  simp only [hp, if_true]
  split <;> rfl

theorem detachProtocol_loginTask {s : State} (h : LoginTask s) (hz : pending s = 0) :
    LoginTask (detachProtocol s) := by
  cases hp : s.m_protocol with
  | false =>
    have he : detachProtocol s = s := by simp [detachProtocol, hp]
    rw [he]
    exact h
  | true =>
    have hf : s.m_receivedFirst = true := by
      by_contra hne
      have hnp := (h.first (Bool.eq_false_iff.mpr hne)).2
      rw [hp] at hnp
      cases hnp
    rw [detachProtocol_eq hp]
    refine releaseProtocol_loginTask ⟨h.once, h.pending, fun hr => ?_, fun hpos => ?_, nofun,
      fun hr => ?_, h.order⟩ rfl hf
    · exact absurd (hf.symm.trans hr) nofun
    · exact absurd hz hpos.ne'
    · exact absurd hr (by simp [setConnection, hf])

theorem closeConnection_loginTask {s : State} (h : LoginTask s) (hz : pending s = 0)
    (throws : Bool) : LoginTask (closeConnection s throws) := by
  have hd : LoginTask (enterClosing s) :=
    (detachProtocol_loginTask h hz).keep rfl rfl rfl rfl le_rfl id
      (detachProtocol_loginTask h hz).order
  rw [closeConnection]
  split
  · exact h
  · split
    · have hclosed := (closeSocket_calm (enterClosing s)).loginTask hd
      have hr := releaseConnection_loginTask hclosed throws
      exact hr.keep rfl rfl rfl rfl le_rfl id hr.order
    · exact hd

theorem LoginTask.tail {s : State} {t : Task} {rest : List Task} (h : LoginTask s)
    (ht : s.tasks = t :: rest) (hne : t ≠ .delegate) : LoginTask { s with tasks := rest } := by
  refine h.keep rfl rfl rfl rfl ?_ ?_ ?_
  · simp [Connection.pending, ht, hne]
  · rintro ⟨he, hq⟩
    exact ⟨he, fun hm => hq (ht ▸ List.mem_cons_of_mem t hm)⟩
  · have ho := h.order
    rw [ht] at ho
    exact closeLast_of_cons ho

theorem dispatch_loginTask {s : State} {t : Task} {rest : List Task} (h : LoginTask s)
    (hrun : s.running = none) (ht : s.tasks = t :: rest) (throws : Bool) :
    LoginTask ({ s with tasks := rest }.execute throws t) := by
  cases t with
  | closeConnection =>
    have hrest := h.tail ht (by simp)
    refine closeConnection_loginTask hrest ?_ throws
    have ho := h.order
    rw [ht] at ho
    have hn : .delegate ∉ rest := fun hm => (List.pairwise_cons.mp ho).1 _ hm rfl rfl
    simp [pending, hrun, List.count_eq_zero.mpr hn]
  | delegate =>
    have ho := h.order
    rw [ht] at ho
    refine h.keep rfl rfl rfl rfl ?_ ?_ (closeLast_of_cons ho)
    · simp [pending, State.execute, ht, hrun]
    · rintro ⟨he, hq⟩
      exact ⟨he, fun hm => hq (ht ▸ List.mem_cons_of_mem _ hm)⟩
  | internalReleaseMessage => exact (internalReleaseMessage_calm _).loginTask (h.tail ht (by simp))
  | retry r =>
    have hrest := h.tail ht (by simp)
    cases r with
    | releaseConnection => exact releaseConnection_loginTask hrest throws
    | releaseProtocol =>
      have hno : ¬ (s.m_protocol = true ∨ s.m_receivedFirst = false) :=
        fun hr => (h.unreleased hr).2 (ht ▸ List.mem_cons_self)
      simp only [not_or, Bool.not_eq_true, Bool.not_eq_false] at hno
      exact releaseProtocol_loginTask hrest hno.1 hno.2

theorem fire_loginTask {s : State} {r : Retry} (h : LoginTask s) (hr : r ∈ s.events) :
    LoginTask ({ s with events := s.events.erase r }.addTaskFront (.retry r)) := by
  refine h.keep rfl rfl rfl rfl ?_ ?_ (closeLast_cons nofun h.order)
  · simp [pending, State.addTaskFront]
  · rintro ⟨he, hq⟩
    refine ⟨fun hm => he (List.mem_of_mem_erase hm), ?_⟩
    simp only [State.addTaskFront, List.mem_cons, not_or]
    exact ⟨fun heq => he (Task.retry.inj heq ▸ hr), hq⟩

theorem onStop_loginTask {s : State} (h : LoginTask s) : LoginTask (onStop s) := by
  rw [onStop]
  split <;> exact h.keep rfl rfl rfl rfl le_rfl id h.order

theorem step_loginTask {s u : State} {e : Event} (h : LoginTask s) (hr : Releasing s)
    (hu : step s e = some u) : LoginTask u := by
  cases step_effect hu with
  | calm _ hc => exact hc.loginTask h
  | firstPacket error p a hc ho hf =>
    exact firstPacket_loginTask (hc.loginTask h) (hc.releasing hr) ho hf p a
  | dispatch throws hrun ht => exact dispatch_loginTask h hrun ht throws
  | @delegate _ v next hrun hc _ =>
    have hl := hc.loginTask h
    have hv : v.running = s.running := congrArg Outline.running hc.outline
    refine hl.keep rfl rfl rfl rfl ?_ id hl.order
    have hle : next.isSome.toNat ≤ 1 := Bool.toNat_le _
    simp only [pending, hv, hrun, Bool.toNat_true]
    omega
  | fire hr => exact fire_loginTask h hr
  | onStop hp => exact onStop_loginTask (h.keep rfl rfl rfl rfl le_rfl id h.order)
  | managerRelease hst => exact h.keep rfl rfl rfl rfl le_rfl id h.order

theorem reachable_loginTask {s : State} (h : machine.Reachable s) : LoginTask s := by
  refine (Machine.invariant (I := fun s => LoginTask s ∧ Releasing s) ?_ ?_ h).1
  · rintro _ ⟨l, f, rfl⟩
    exact ⟨initial_loginTask l f, initial_releasing l f⟩
  · intro s e u hi hu
    exact ⟨step_loginTask hi.1 hi.2 hu, step_releasing hi.2 hu⟩

/-- From its first step to its last, `delegate` finds its protocol undeleted and connected, and
no connection ever queues a second one. -/
theorem delegate_has_protocol_and_connection {s : State} (h : machine.Reachable s) :
    (s.running.isSome → ∃ p, s.protocol = some p ∧ p.deleted = false ∧ p.m_connection = true) ∧
      s.delegates ≤ 1 := by
  have hl := reachable_loginTask h
  refine ⟨fun hrun => ?_, hl.once⟩
  have hpos : 0 < pending s := by
    simp only [pending, hrun, Bool.toNat_true]
    omega
  obtain ⟨p, hp, hv⟩ := Option.map_eq_some_iff.mp (hl.live (hl.attached hpos))
  exact ⟨p, hp, (Prod.mk.inj hv).1, (Prod.mk.inj hv).2⟩

def crossedTrace : List Event :=
  [.accept .started, .parseHeader none true .started,
    .parsePacket none ⟨false, true, .dispatched⟩ .started, .close, .dispatch false, .expire false,
    .timeout false .expired, .timeout false .locked, .obtain true]

theorem crossed_trace_has_protocol : ∃ s, machine.run (initial true false) crossedTrace = some s ∧
    (s.running.isSome → ∃ p, s.protocol = some p ∧ p.deleted = false ∧ p.m_connection = true) ∧
      s.delegates ≤ 1 := by
  have hr : (machine.run (initial true false) crossedTrace).isSome := by decide
  obtain ⟨s, hs⟩ := Option.isSome_iff_exists.mp hr
  exact ⟨s, hs, delegate_has_protocol_and_connection
    (Machine.run_reachable (.start ⟨true, false, rfl⟩) hs)⟩

end LoginServer.Connection
