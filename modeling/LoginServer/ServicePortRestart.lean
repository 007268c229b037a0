import LoginServer.ServicePort

/-! # What a service port loses

Two facts about runs of the ports of a process. `open` remembers a failed bind only while
`m_logError` is set, which the first error of the process clears; and `handle` looks the failed
acceptor up in the map that it has just emptied. Both rest on one invariant: an acceptor with an
outstanding accept is listed by its port, or closed. -/
namespace LoginServer.Server

open Runs

namespace AcceptorVec

theorem mem_assign {v : AcceptorVec} {acceptor : ℕ} {ip : IPAddress} {it : ℕ × IPAddress} :
    it ∈ v.assign acceptor ip ↔ it = (acceptor, ip) ∨ it ∈ v ∧ it.1 ≠ acceptor := by
  simp [assign]

theorem index_nil (acceptor : ℕ) : index [] acceptor = ([(acceptor, default)], default) := rfl

theorem mem_addresses_assign {v : AcceptorVec} {acceptor : ℕ} {ip other : IPAddress}
    (hnew : ∀ it ∈ v, it.1 < acceptor) :
    other ∈ (v.assign acceptor ip).addresses ↔ other = ip ∨ other ∈ v.addresses := by
  have hkeep : v.filter (fun it => it.1 ≠ acceptor) = v := by
    rw [List.filter_eq_self]
    intro it hit
    simpa using Nat.ne_of_lt (hnew it hit)
  rw [assign, hkeep]
  simp [addresses]

end AcceptorVec

open AcceptorVec

theorem setPort_self (s : State) (p : ℕ) (f : ServicePort → ServicePort) :
    (s.setPort p f).ports p = f (s.ports p) := Function.update_self ..

theorem setPort_of_ne (s : State) {p q : ℕ} (f : ServicePort → ServicePort) (h : q ≠ p) :
    (s.setPort p f).ports q = s.ports q := Function.update_of_ne h ..

theorem setPort_m_acceptors {s : State} {p : ℕ} {f : ServicePort → ServicePort}
    (hf : ∀ service, (f service).m_acceptors = service.m_acceptors) (q : ℕ) :
    ((s.setPort p f).ports q).m_acceptors = (s.ports q).m_acceptors := by
  by_cases hq : q = p
  · subst hq
    rw [setPort_self, hf]
  · rw [setPort_of_ne s f hq]

theorem assign_accept (s : State) (p acceptor : ℕ) (ip : IPAddress) (throws : Bool) :
    (accept s p acceptor throws).assign p acceptor ip =
      accept (s.assign p acceptor ip) p acceptor throws := by
  cases throws <;> rfl

structure Listed (s : State) : Prop where
  allocated : ∀ p, ∀ it ∈ (s.ports p).m_acceptors, it.1 < s.allocated
  accepts : ∀ p acceptor, (p, acceptor) ∈ s.accepts → acceptor < s.allocated
  listed : ∀ p acceptor, (p, acceptor) ∈ s.accepts → s.isOpen acceptor = true →
    ∃ ip, (acceptor, ip) ∈ (s.ports p).m_acceptors

theorem Listed.congr {s u : State} (h : Listed s)
    (hp : ∀ q, (u.ports q).m_acceptors = (s.ports q).m_acceptors)
    (hn : u.allocated = s.allocated) (ho : u.isOpen = s.isOpen) (ha : u.accepts ⊆ s.accepts) :
    Listed u where
  allocated p := by
    rw [hp, hn]
    exact h.allocated p
  accepts p acceptor hacc := by
    rw [hn]
    exact h.accepts p acceptor (ha hacc)
  listed p acceptor hacc := by
    rw [hp, ho]
    exact h.listed p acceptor (ha hacc)

theorem listed_initial : Listed initial := by
  constructor <;> simp [initial]

theorem listed_setPort {s : State} (h : Listed s) {p : ℕ} {f : ServicePort → ServicePort}
    (hf : ∀ service, (f service).m_acceptors = service.m_acceptors) : Listed (s.setPort p f) :=
  h.congr (setPort_m_acceptors hf) rfl rfl fun _ h => h

theorem listed_allocate {s : State} (h : Listed s) : Listed s.allocate where
  allocated p it hit := Nat.lt_succ_of_lt (h.allocated p it hit)
  accepts p acceptor hacc := Nat.lt_succ_of_lt (h.accepts p acceptor hacc)
  listed p acceptor hacc ho := by
    have hne : acceptor ≠ s.allocated := Nat.ne_of_lt (h.accepts p acceptor hacc)
    simp only [State.allocate, Function.update_of_ne hne] at ho
    exact h.listed p acceptor hacc ho

theorem listed_assign {s : State} (h : Listed s) {p acceptor : ℕ} (ip : IPAddress)
    (hlt : acceptor < s.allocated) : Listed (s.assign p acceptor ip) where
  allocated q it hit := by
    by_cases hq : q = p
    · subst hq
      rw [State.assign, setPort_self] at hit
      rcases mem_assign.mp hit with rfl | ⟨hit, -⟩
      · exact hlt
      · exact h.allocated q it hit
    · rw [State.assign, setPort_of_ne s _ hq] at hit
      exact h.allocated q it hit
  accepts := h.accepts
  listed q a hacc ho := by
    obtain ⟨old, hold⟩ := h.listed q a hacc ho
    by_cases hq : q = p
    · subst hq
      rw [State.assign, setPort_self]
      by_cases ha : a = acceptor
      · exact ⟨ip, mem_assign.mpr (.inl (by rw [ha]))⟩
      · exact ⟨old, mem_assign.mpr (.inr ⟨hold, ha⟩)⟩
    · rw [State.assign, setPort_of_ne s _ hq]
      exact ⟨old, hold⟩

theorem listed_accept {s : State} (h : Listed s) {p acceptor : ℕ} (throws : Bool)
    (hlt : acceptor < s.allocated)
    (hlisted : s.isOpen acceptor = true → ∃ ip, (acceptor, ip) ∈ (s.ports p).m_acceptors) :
    Listed (accept s p acceptor throws) := by
  cases throws with
  | true => exact h.congr (fun _ => rfl) rfl rfl fun _ h => h
  | false =>
    constructor
    · exact h.allocated
    · intro q a hacc
      rcases List.mem_cons.mp hacc with heq | hacc
      · obtain ⟨rfl, rfl⟩ := Prod.mk.inj heq
        exact hlt
      · exact h.accepts q a hacc
    · intro q a hacc ho
      rcases List.mem_cons.mp hacc with heq | hacc
      · obtain ⟨rfl, rfl⟩ := Prod.mk.inj heq
        exact hlisted ho
      · exact h.listed q a hacc ho

theorem listed_openNext {l : Loop} (h : Listed l.state) (p : ℕ) (bind : IPAddress × Bind) :
    Listed (openNext p l bind).state := by
  obtain ⟨ip, outcome⟩ := bind
  cases outcome with
  | failed =>
    simp only [openNext]
    split <;> exact h
  | listening throws =>
    simp only [openNext, assign_accept]
    have hlt : l.state.allocated < l.state.allocate.allocated := Nat.lt_succ_self _
    apply listed_accept (listed_assign (listed_allocate h) ip hlt) throws hlt
    intro _
    rw [State.assign, setPort_self]
    exact ⟨ip, mem_assign.mpr (.inl rfl)⟩

theorem listed_openLoop {s : State} (h : Listed s) (p : ℕ) (binds : List (IPAddress × Bind)) :
    Listed (openLoop s p binds).state := by
  have hfold : ∀ l : Loop, Listed l.state → Listed (binds.foldl (openNext p) l).state := by
    induction binds with
    | nil => exact fun _ h => h
    | cons bind binds ih => exact fun l hl => ih _ (listed_openNext hl p bind)
  exact hfold _ h

theorem listed_openBegin {s : State} (h : Listed s) (p : ℕ) (port : UInt16) :
    Listed (openBegin s p port) := listed_setPort h fun _ => rfl

theorem listed_openPort {s : State} (h : Listed s) (p : ℕ) (binds : List (IPAddress × Bind))
    (port : UInt16) : Listed (openPort s p binds port) := by
  have hloop := listed_openLoop (listed_openBegin h p port) p binds
  simp only [openPort, openEnd]
  split
  · have hpending := listed_setPort hloop (p := p) (f := fun service =>
      { service with m_pendingStart := true }) fun _ => rfl
    exact hpending.congr (fun _ => rfl) rfl rfl fun _ h => h
  · exact hloop.congr (fun _ => rfl) rfl rfl fun _ h => h

theorem close_isOpen {s : State} {p acceptor : ℕ} (ho : (close s p).isOpen acceptor = true) :
    s.isOpen acceptor = true ∧ ∀ ip, (acceptor, ip) ∉ (s.ports p).m_acceptors := by
  simp only [close, Bool.and_eq_true, Bool.not_eq_true', List.any_eq_false,
    decide_eq_true_eq] at ho
  exact ⟨ho.1, fun ip hip => ho.2 _ hip rfl⟩

theorem listed_close {s : State} (h : Listed s) (p : ℕ) : Listed (close s p) where
  allocated q it hit := by
    by_cases hq : q = p
    · subst hq
      simp [close, setPort_self] at hit
    · simp only [close, setPort_of_ne s _ hq] at hit
      exact h.allocated q it hit
  accepts := h.accepts
  listed q acceptor hacc ho := by
    obtain ⟨ho, hnot⟩ := close_isOpen ho
    obtain ⟨ip, hip⟩ := h.listed q acceptor hacc ho
    have hq : q ≠ p := by
      rintro rfl
      exact hnot ip hip
    exact ⟨ip, by simpa only [close, setPort_of_ne s _ hq] using hip⟩

theorem handleError_eq {s : State} {p acceptor : ℕ} (hp : (s.ports p).m_pendingStart = false) :
    handleError s p acceptor =
      { ((close s p).assign p acceptor default).setPort p fun service =>
          { service with m_pendingStart := true } with
        events := .service p default (s.ports p).m_serverPort :: s.events } := by
  have hpending : ((close s p).ports p).m_pendingStart = false := by
    simpa [close, setPort_self] using hp
  have hempty : ((close s p).ports p).m_acceptors = [] := by
    simp [close, setPort_self]
  simp only [handleError, hpending, hempty, index_nil, Bool.false_eq_true, if_false]
  simp [State.assign, State.setPort, close, assign]

theorem listed_handleError {s : State} (h : Listed s) {p acceptor : ℕ}
    (hlt : acceptor < s.allocated) : Listed (handleError s p acceptor) := by
  cases hp : (s.ports p).m_pendingStart with
  | true =>
    have hpending : ((close s p).ports p).m_pendingStart = true := by
      simpa [close, setPort_self] using hp
    simpa only [handleError, hpending, if_true] using listed_close h p
  | false =>
    rw [handleError_eq hp]
    have hassign := listed_assign (listed_close h p) (p := p) default hlt
    have hpending := listed_setPort hassign (p := p) (f := fun service =>
      { service with m_pendingStart := true }) fun _ => rfl
    exact hpending.congr (fun _ => rfl) rfl rfl fun _ h => h

theorem listed_handle {s : State} (h : Listed s) {p acceptor : ℕ}
    (hacc : (p, acceptor) ∈ s.accepts) (completion : Completion) :
    Listed (handle { s with accepts := s.accepts.erase (p, acceptor) } p acceptor completion) := by
  have herase : Listed { s with accepts := s.accepts.erase (p, acceptor) } :=
    h.congr (fun _ => rfl) rfl rfl List.erase_subset
  have hlt : acceptor < s.allocated := h.accepts p acceptor hacc
  cases completion with
  | accepted throws =>
    simp only [handle]
    split
    · exact herase
    · exact listed_accept herase throws hlt (h.listed p acceptor hacc)
  | operation_aborted => exact herase
  | error => exact listed_handleError herase hlt

theorem listed_step {s u : State} {e : Event} (h : Listed s) (hstep : step s e = some u) :
    Listed u := by
  cases e with
  | add p isSingleSocket =>
    cases hstep
    apply listed_setPort h
    intro service
    simp only [add]
    split <;> rfl
  | openPort p binds port =>
    cases hstep
    exact listed_openPort h p binds port
  | restart r outcomes =>
    simp only [step] at hstep
    split at hstep <;> cases hstep
    have herase : Listed { s with events := s.events.erase r } :=
      h.congr (fun _ => rfl) rfl rfl fun _ h => h
    exact listed_openPort herase ..
  | handle p acceptor completion =>
    simp only [step] at hstep
    split at hstep <;> cases hstep
    rename_i hacc
    exact listed_handle h hacc completion
  | close p =>
    cases hstep
    exact listed_close h p

theorem listed_of_reachable {s : State} (h : machine.Reachable s) : Listed s := by
  apply Machine.invariant (fun s hs => ?_) (fun _ _ _ hi h => listed_step hi h) h
  cases hs
  exact listed_initial

theorem step_handle {s u : State} {p acceptor : ℕ} {completion : Completion}
    (hstep : machine.step s (.handle p acceptor completion) = some u) :
    (p, acceptor) ∈ s.accepts ∧
      u = handle { s with accepts := s.accepts.erase (p, acceptor) } p acceptor completion := by
  simp only [machine, step] at hstep
  split at hstep <;> cases hstep
  exact ⟨‹_›, rfl⟩

/-- The addresses that the loop of `open` puts into `m_acceptors` or into the retry, for the value
of `m_logError` that it starts from. -/
def noticed (m_logError : Bool) : List (IPAddress × Bind) → List IPAddress
  | [] => []
  | (ip, .failed) :: binds =>
    if m_logError then ip :: noticed m_logError binds else noticed m_logError binds
  | (ip, .listening throws) :: binds => ip :: noticed (m_logError && !throws) binds

def Loop.addresses (l : Loop) (p : ℕ) : List IPAddress :=
  (l.state.ports p).m_acceptors.addresses ++ l.pendingIps

theorem accept_m_logError (s : State) (p acceptor : ℕ) (throws : Bool) :
    (accept s p acceptor throws).m_logError = (s.m_logError && !throws) := by
  cases throws <;> simp [accept]

theorem accept_ports (s : State) (p acceptor : ℕ) (throws : Bool) :
    (accept s p acceptor throws).ports = s.ports := by
  cases throws <;> rfl

theorem openNext_listening {l : Loop} (h : Listed l.state) (p : ℕ) (ip : IPAddress)
    (throws : Bool) (other : IPAddress) :
    other ∈ (openNext p l (ip, .listening throws)).addresses p ↔
      other = ip ∨ other ∈ l.addresses p := by
  simp only [Loop.addresses, openNext, State.assign, setPort_self, accept_ports, List.mem_append,
    State.allocate]
  rw [mem_addresses_assign (h.allocated p), or_assoc]

theorem openLoop_addresses {l : Loop} (h : Listed l.state) (p : ℕ)
    (binds : List (IPAddress × Bind)) (ip : IPAddress) :
    ip ∈ (binds.foldl (openNext p) l).addresses p ↔
      ip ∈ l.addresses p ∨ ip ∈ noticed l.state.m_logError binds := by
  induction binds generalizing l with
  | nil => simp [noticed]
  | cons bind binds ih =>
    rw [List.foldl_cons, ih (listed_openNext h p bind)]
    obtain ⟨other, outcome⟩ := bind
    cases outcome with
    | failed =>
      cases hlog : l.state.m_logError with
      | true => simp [openNext, noticed, hlog, Loop.addresses, or_assoc]
      | false => simp [openNext, noticed, hlog]
    | listening throws =>
      have hlog : (openNext p l (other, .listening throws)).state.m_logError =
          (l.state.m_logError && !throws) := accept_m_logError ..
      rw [openNext_listening h, hlog, noticed, List.mem_cons, or_assoc, or_left_comm]

theorem openLoop_error (s : State) (p : ℕ) (binds : List (IPAddress × Bind)) :
    (openLoop s p binds).error = true ↔ (openLoop s p binds).pendingIps ≠ [] := by
  have hfold : ∀ l : Loop, (l.error = true ↔ l.pendingIps ≠ []) →
      ((binds.foldl (openNext p) l).error = true ↔ (binds.foldl (openNext p) l).pendingIps ≠ []) := by
    induction binds with
    | nil => exact fun _ h => h
    | cons bind binds ih =>
      intro l hl
      apply ih
      obtain ⟨ip, outcome⟩ := bind
      cases outcome with
      | failed => cases hlog : l.state.m_logError <;> simp [openNext, hlog, hl]
      | listening throws => exact hl
  exact hfold _ (by simp)

theorem openNext_frame (p : ℕ) (l : Loop) (bind : IPAddress × Bind) :
    ((openNext p l bind).state.ports p).m_pendingStart = (l.state.ports p).m_pendingStart ∧
      (openNext p l bind).state.opened = l.state.opened := by
  obtain ⟨ip, outcome⟩ := bind
  cases outcome with
  | failed =>
    simp only [openNext]
    split <;> exact ⟨rfl, rfl⟩
  | listening throws =>
    cases throws <;> simp [openNext, State.assign, accept, State.allocate, State.setPort]

theorem openLoop_frame (s : State) (p : ℕ) (binds : List (IPAddress × Bind)) :
    ((openLoop s p binds).state.ports p).m_pendingStart = (s.ports p).m_pendingStart ∧
      (openLoop s p binds).state.opened = s.opened := by
  have hfold : ∀ l : Loop,
      ((binds.foldl (openNext p) l).state.ports p).m_pendingStart =
          (l.state.ports p).m_pendingStart ∧
        (binds.foldl (openNext p) l).state.opened = l.state.opened := by
    induction binds with
    | nil => exact fun _ => ⟨rfl, rfl⟩
    | cons bind binds ih =>
      intro l
      obtain ⟨hpending, hopened⟩ := openNext_frame p l bind
      rw [List.foldl_cons, ← hpending, ← hopened]
      exact ih _
  exact hfold _

theorem openEnd_m_acceptors (l : Loop) (p : ℕ) :
    ((openEnd l p).ports p).m_acceptors = (l.state.ports p).m_acceptors := by
  rw [openEnd]
  split <;> simp [setPort_self]

theorem openEnd_m_pendingStart (l : Loop) (p : ℕ) :
    ((openEnd l p).ports p).m_pendingStart = (l.error || (l.state.ports p).m_pendingStart) := by
  rw [openEnd]
  split <;> simp_all [setPort_self]

theorem openEnd_opened (l : Loop) (p : ℕ) : (openEnd l p).opened = l.state.opened := by
  rw [openEnd]
  split <;> rfl

/-- What a call of `open` should leave. -/
structure Kept (o : Opened) : Prop where
  addresses : ∀ ip ∈ o.ips, ip ∈ o.listening ∨ ip ∈ o.retry
  pending : o.m_pendingStart = true ↔ o.retry ≠ []

/-- Every address of the list listens already, or is noticed by the loop. -/
def AllNoticed (s : State) (p : ℕ) (binds : List (IPAddress × Bind)) : Prop :=
  ∀ ip ∈ binds.map Prod.fst,
    ip ∈ (s.ports p).m_acceptors.addresses ∨ ip ∈ noticed s.m_logError binds

theorem openLoop_kept {s : State} (h : Listed s) {p : ℕ}
    (hp : (s.ports p).m_pendingStart = false) (binds : List (IPAddress × Bind)) :
    Kept (openRecord (openLoop s p binds) p (binds.map Prod.fst)) ↔ AllNoticed s p binds := by
  have hretry : (openRecord (openLoop s p binds) p (binds.map Prod.fst)).retry =
      (openLoop s p binds).pendingIps := by
    cases herror : (openLoop s p binds).error with
    | true => simp only [openRecord, herror, if_true]
    | false =>
      have hnone := mt (openLoop_error s p binds).mpr (ne_true_of_eq_false herror)
      simp only [openRecord, herror, Bool.false_eq_true, if_false, not_not.mp hnone]
  have haddresses : ∀ ip, ip ∈ (openLoop s p binds).addresses p ↔
      ip ∈ (s.ports p).m_acceptors.addresses ∨ ip ∈ noticed s.m_logError binds := by
    intro ip
    rw [openLoop, openLoop_addresses h]
    simp only [Loop.addresses, List.append_nil]
  have hpending : (openRecord (openLoop s p binds) p (binds.map Prod.fst)).m_pendingStart = true ↔
      (openRecord (openLoop s p binds) p (binds.map Prod.fst)).retry ≠ [] := by
    rw [hretry, ← openLoop_error, openRecord, openEnd_m_pendingStart, (openLoop_frame s p binds).1,
      hp, Bool.or_false]
  have hlisted : ∀ ip, ip ∈ (openLoop s p binds).addresses p ↔
      ip ∈ (openRecord (openLoop s p binds) p (binds.map Prod.fst)).listening ∨
        ip ∈ (openRecord (openLoop s p binds) p (binds.map Prod.fst)).retry := by
    intro ip
    rw [hretry, openRecord, openEnd_m_acceptors, Loop.addresses, List.mem_append]
  constructor
  · intro hkept ip hip
    rw [← haddresses, hlisted]
    exact hkept.addresses ip hip
  · intro hall
    refine ⟨fun ip hip => ?_, hpending⟩
    rw [← hlisted, haddresses]
    exact hall ip hip

theorem openPort_kept {s : State} (h : Listed s) (p : ℕ) (binds : List (IPAddress × Bind))
    (port : UInt16) :
    (∃ o ∈ (openPort s p binds port).opened, ¬ Kept o) ↔
      (∃ o ∈ s.opened, ¬ Kept o) ∨ ¬ AllNoticed s p binds := by
  have hpending : ((openBegin s p port).ports p).m_pendingStart = false := by
    rw [openBegin, setPort_self]
  have hsame : AllNoticed (openBegin s p port) p binds ↔ AllNoticed s p binds := by
    rw [AllNoticed, openBegin, setPort_self]
    rfl
  have hopened : (openEnd (openLoop (openBegin s p port) p binds) p).opened = s.opened := by
    rw [openEnd_opened, (openLoop_frame _ p binds).2]
    rfl
  rw [← hsame, ← openLoop_kept (listed_openBegin h p port) hpending, openPort, hopened]
  simp only [List.mem_cons, or_and_right, exists_or, exists_eq_left]
  rw [or_comm]

/-- The addresses that an event gives to `open` are all noticed. -/
def Noticed (s : State) : Event → Prop
  | .openPort p binds _ => AllNoticed s p binds
  | .restart r outcomes => AllNoticed s r.port (r.ips.zip outcomes)
  | .add .. | .handle .. | .close _ => True

theorem handle_opened (s : State) (p acceptor : ℕ) (completion : Completion) :
    (handle s p acceptor completion).opened = s.opened := by
  cases completion with
  | accepted throws =>
    rw [handle]
    cases throws <;> split <;> rfl
  | operation_aborted => rfl
  | error =>
    simp only [handle, handleError]
    split <;> rfl

theorem lost_step {s u : State} {e : Event} (h : Listed s) (hstep : step s e = some u) :
    (∃ o ∈ u.opened, ¬ Kept o) ↔ (∃ o ∈ s.opened, ¬ Kept o) ∨ ¬ Noticed s e := by
  cases e with
  | add p isSingleSocket =>
    cases hstep
    simp [Noticed, State.setPort]
  | openPort p binds port =>
    cases hstep
    exact openPort_kept h p binds port
  | restart r outcomes =>
    simp only [step] at hstep
    split at hstep <;> cases hstep
    have herase : Listed { s with events := s.events.erase r } :=
      h.congr (fun _ => rfl) rfl rfl fun _ h => h
    exact openPort_kept herase ..
  | handle p acceptor completion =>
    obtain ⟨-, rfl⟩ := step_handle hstep
    simp [Noticed, handle_opened]
  | close p =>
    cases hstep
    simp [Noticed, close, State.setPort]

/-- In a run of the process every call of `open` keeps its list just when every call finds all
its addresses noticed. -/
theorem failed_binds_retried_iff {es : List Event} {u : State}
    (h : machine.run initial es = some u) :
    (∀ o ∈ u.opened, Kept o) ↔ machine.AllSteps Noticed initial es := by
  have hlost := Machine.run_iff_not_allSteps (fun _ _ _ => listed_step)
    (fun _ _ _ => lost_step) listed_initial h
  rw [← not_iff_not]
  simpa [initial] using hlost

instance (o : Opened) : Decidable (Kept o) :=
  decidable_of_iff ((∀ ip ∈ o.ips, ip ∈ o.listening ∨ ip ∈ o.retry) ∧
    (o.m_pendingStart = true ↔ o.retry ≠ [])) ⟨fun h => ⟨h.1, h.2⟩, fun h => ⟨h.1, h.2⟩⟩

def localhost : IPAddress := .v4 0x7F000001

def failedTwice : List Event :=
  [.openPort 0 [(localhost, .failed)] 7171, .restart (.services 0 [localhost] 7171) [.failed]]

theorem failed_retry_forgotten : ¬ ∀ (es : List Event) (u : State),
    machine.run initial es = some u → ∀ o ∈ u.opened, Kept o := by
  intro hall
  have hrun : ∃ u, machine.run initial failedTwice = some u ∧ ¬ ∀ o ∈ u.opened, Kept o :=
    Machine.exists_run (by decide)
  obtain ⟨u, hu, hlost⟩ := hrun
  exact hlost (hall failedTwice u hu)

theorem failed_binds_retried_once :
    (∀ o ∈ (openPort initial 0 [(localhost, .failed)] 7171).opened, Kept o) ↔
      machine.AllSteps Noticed initial [.openPort 0 [(localhost, .failed)] 7171] :=
  failed_binds_retried_iff rfl

/-- An address of an acceptor of the port that the step closed. -/
def Closed (s u : State) (p : ℕ) (ip : IPAddress) : Prop :=
  ∃ acceptor, (acceptor, ip) ∈ (s.ports p).m_acceptors ∧ s.isOpen acceptor = true ∧
    u.isOpen acceptor = false

/-- What an accept error should leave: a restart of just the addresses that were closed, and no
closed acceptor in `m_acceptors`. -/
structure Restarted (s u : State) (p : ℕ) : Prop where
  addresses : ∃ r, u.events = r :: s.events ∧ ∀ ip, ip ∈ r.ips ↔ Closed s u p ip
  acceptors : ∀ it ∈ (u.ports p).m_acceptors, u.isOpen it.1 = true

theorem error_restarts_default {s u : State} {p acceptor : ℕ}
    (hp : (s.ports p).m_pendingStart = false)
    (hstep : machine.step s (.handle p acceptor .error) = some u) :
    u.events = .service p default (s.ports p).m_serverPort :: s.events := by
  obtain ⟨-, rfl⟩ := step_handle hstep
  rw [handle, handleError_eq (by exact hp)]

/-- The restart reopens what was closed just when that is the unspecified address alone. -/
theorem error_addresses_iff {s u : State} {p acceptor : ℕ}
    (hp : (s.ports p).m_pendingStart = false)
    (hstep : machine.step s (.handle p acceptor .error) = some u) :
    (∃ r, u.events = r :: s.events ∧ ∀ ip, ip ∈ r.ips ↔ Closed s u p ip) ↔
      ∀ ip, Closed s u p ip ↔ ip = default := by
  rw [error_restarts_default hp hstep]
  constructor
  · rintro ⟨r, hr, hips⟩ ip
    obtain ⟨rfl, -⟩ := List.cons.inj hr
    rw [← hips ip, Restart.ips, List.mem_singleton]
  · intro hclosed
    refine ⟨_, rfl, fun ip => ?_⟩
    rw [hclosed ip, Restart.ips, List.mem_singleton]

/-- Every accept error leaves the acceptor that failed in `m_acceptors`, closed. -/
theorem error_leaves_closed {s u : State} (hs : Listed s) {p acceptor : ℕ}
    (hp : (s.ports p).m_pendingStart = false)
    (hstep : machine.step s (.handle p acceptor .error) = some u) :
    (acceptor, default) ∈ (u.ports p).m_acceptors ∧ u.isOpen acceptor = false := by
  obtain ⟨hacc, rfl⟩ := step_handle hstep
  rw [handle, handleError_eq (by exact hp)]
  constructor
  · simp only [setPort_self, State.assign]
    exact mem_assign.mpr (.inl rfl)
  · rw [← Bool.not_eq_true]
    intro ho
    obtain ⟨ho, hnot⟩ := close_isOpen ho
    obtain ⟨ip, hip⟩ := hs.listed p acceptor hacc ho
    exact hnot ip hip

theorem accept_error_never_restores {s u : State} (hs : machine.Reachable s) {p acceptor : ℕ}
    (hp : (s.ports p).m_pendingStart = false)
    (hstep : machine.step s (.handle p acceptor .error) = some u) : ¬ Restarted s u p := by
  intro h
  obtain ⟨hmem, hclosed⟩ := error_leaves_closed (listed_of_reachable hs) hp hstep
  have hopen : u.isOpen acceptor = true := h.acceptors _ hmem
  rw [hclosed] at hopen
  cases hopen

def listening : State := openPort initial 0 [(localhost, .listening false)] 7171

theorem accept_error_loses_localhost :
    ¬ Restarted listening (handleError { listening with accepts := [] } 0 0) 0 := by
  have hs : machine.Reachable listening :=
    .tail (.start rfl) trivial (e := .openPort 0 _ 7171) rfl
  have hstep : machine.step listening (.handle 0 0 .error) =
      some (handleError { listening with accepts := [] } 0 0) := rfl
  exact accept_error_never_restores hs rfl hstep

theorem accept_error_not_restored : ¬ ∀ (s u : State) (p acceptor : ℕ), machine.Reachable s →
    (s.ports p).m_pendingStart = false →
    machine.step s (.handle p acceptor .error) = some u → Restarted s u p := by
  intro hall
  have hs : machine.Reachable listening :=
    .tail (.start rfl) trivial (e := .openPort 0 _ 7171) rfl
  obtain ⟨r, hr, hips⟩ := (hall listening _ 0 0 hs rfl rfl).addresses
  obtain ⟨rfl, -⟩ := List.cons.inj hr
  obtain ⟨a, ha, -⟩ := (hips default).mp (List.mem_singleton.mpr rfl)
  have hlisted : (listening.ports 0).m_acceptors = [(0, localhost)] := rfl
  rw [hlisted, List.mem_singleton] at ha
  exact absurd (Prod.mk.inj ha).2 (by decide)

end LoginServer.Server
