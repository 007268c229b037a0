import LoginServer.ConnectionClosing

/-! # One read and one write at a time

A socket is not to be given a second `async_read` or `async_write` before the first is done. The
reads of a connection follow each other, each started by the handler of the one before, and a
write is started where none is counted; the counter covers what is on its way as long as the
connection is open. -/
namespace LoginServer.Connection

open Runs

structure Operations where
  accepted : Bool
  reads : List Read
  writes : ℕ

def State.operations (s : State) : Operations := ⟨s.accepted, s.reads, s.writes⟩

def Read.next : Read → Read
  | .header => .packet
  | .packet => .header

def Alternate : Read → List Read → Prop
  | _, [] => True
  | r, k :: l => k = r ∧ Alternate r.next l

def Call.completed : Call → Option Read
  | .own (.parseHeader ..) => some .header
  | .own (.parsePacket ..) => some .packet
  | _ => none

def completions (calls : List Call) : List Read := calls.filterMap Call.completed

/-- The next read to complete is `r`: it is on its way, or no read is. -/
structure OneEach (s : State) (r : Read) : Prop where
  reads : s.reads = [] ∨ s.reads = [r]
  fresh : s.accepted = false → s.reads = [] ∧ r = .header
  writes : s.writes ≤ 1

/-! ## What a handler starts -/

/-- At most these reads are started, and at most one write. -/
structure Starts (s u : State) (started : List Read) : Prop where
  accepted : u.accepted = s.accepted
  reads : u.reads = s.reads ∨ u.reads = s.reads ++ started
  writes : u.writes = s.writes ∨ u.writes = 1

section Starts

variable {s u v : State} {l : List Read}

theorem starts_of_eq (h : u.operations = s.operations) : Starts s u l := by
  have ha : u.accepted = s.accepted := congrArg Operations.accepted h
  have hr : u.reads = s.reads := congrArg Operations.reads h
  have hw : u.writes = s.writes := congrArg Operations.writes h
  exact ⟨ha, Or.inl hr, Or.inl hw⟩

theorem Starts.none_reads (h : Starts s u []) : u.reads = s.reads := by
  rcases h.reads with hr | hr
  · exact hr
  · rwa [List.append_nil] at hr

theorem Starts.trans (h : Starts s v []) (k : Starts v u l) : Starts s u l := by
  refine ⟨k.accepted.trans h.accepted, ?_, ?_⟩
  · rw [← h.none_reads]
    exact k.reads
  · rcases k.writes with hk | hk
    · rw [hk]
      exact h.writes
    · exact Or.inr hk

theorem Starts.after (k : Starts v u l) (h : v.operations = s.operations) : Starts s u l :=
  (starts_of_eq h).trans k

end Starts

section Functions

variable (s : State)

theorem close_operations : (close s).operations = s.operations := by
  rw [close]
  split <;> rfl

theorem closeSocket_operations : (closeSocket s).operations = s.operations := by
  rw [closeSocket]
  split <;> rfl

theorem caught_operations : (caught s).operations = s.operations := by
  rw [caught]
  split
  · exact close_operations _
  · rfl

theorem handleReadError_operations (error : Option ErrorCode) :
    (handleReadError s error).operations = s.operations := by
  change (if error = some .operation_aborted then s else close s).operations = _
  split
  · rfl
  · exact close_operations s

theorem handleWriteError_operations (error : Option ErrorCode) :
    (handleWriteError s error).operations = s.operations := by
  change (if error = some .operation_aborted then s else close s).operations = _
  split
  · rfl
  · exact close_operations s

theorem releaseMessage_operations : (releaseMessage s).operations = s.operations := rfl

theorem closeThroughProtocol_operations :
    (closeThroughProtocol s).operations = s.operations := by
  rw [closeThroughProtocol]
  split
  · exact close_operations s
  · rfl

theorem releaseConnection_operations (throws : Bool) :
    (releaseConnection s throws).operations = s.operations := by
  unfold releaseConnection deleteConnection
  split
  · rfl
  · split <;> rfl

theorem releaseProtocol_operations : (releaseProtocol s).operations = s.operations := by
  rw [releaseProtocol]
  split <;> rfl

theorem enterClosing_operations : (enterClosing s).operations = s.operations := by
  change (detachProtocol s).operations = _
  rw [detachProtocol]
  split
  · exact releaseProtocol_operations (setConnection s false)
  · rfl

theorem finishClose_operations (throws : Bool) :
    (finishClose s throws).operations = s.operations :=
  (releaseConnection_operations _ throws).trans (closeSocket_operations s)

theorem closeConnection_operations (throws : Bool) :
    (closeConnection s throws).operations = s.operations := by
  rw [closeConnection]
  split
  · rfl
  · split
    · exact (finishClose_operations _ throws).trans (enterClosing_operations s)
    · exact enterClosing_operations s

theorem setTimers_operations (write : Bool) (l : List Timer) :
    (s.setTimers write l).operations = s.operations := by
  rw [State.setTimers]
  split <;> rfl

theorem onReadTimeout_operations : (onReadTimeout s).operations = s.operations := by
  rw [onReadTimeout]
  split
  · exact (close_operations _).trans (closeSocket_operations s)
  · rfl

theorem onWriteTimeout_operations : (onWriteTimeout s).operations = s.operations := by
  rw [onWriteTimeout]
  split
  · exact (close_operations _).trans (closeSocket_operations s)
  · rfl

theorem onStop_operations : (onStop s).operations = s.operations := by
  rw [onStop]
  split <;> rfl

theorem execute_operations (throws : Bool) (t : Task) :
    (s.execute throws t).operations = s.operations := by
  cases t with
  | closeConnection => exact closeConnection_operations s throws
  | delegate | internalReleaseMessage => rfl
  | retry k =>
    cases k with
    | releaseConnection => exact releaseConnection_operations s throws
    | releaseProtocol => exact releaseProtocol_operations s

theorem startRead_starts (k : Read) (a : Arm) : Starts s (startRead s k a) [k] := by
  cases a with
  | started => exact ⟨rfl, Or.inr rfl, Or.inl rfl⟩
  | waitThrows | operationThrows => exact starts_of_eq (caught_operations _)

end Functions

section Sending

variable {s u : State} {r : ℤ}

theorem timeoutHandler_operations {write : Bool} {t : Timer}
    (h : timeoutHandler s write t = some u) : u.operations = s.operations := by
  cases t with
  | armed => cases h
  | aborted | expired =>
    cases h
    exact setTimers_operations s write _
  | locked =>
    cases h
    refine Eq.trans ?_ (setTimers_operations s write ((s.timers write).erase .locked))
    cases write with
    | false => exact onReadTimeout_operations _
    | true => exact onWriteTimeout_operations _

theorem getOutputMessage_operations {pool : Bool} (h : getOutputMessage s pool = some u) :
    u.operations = s.operations := by
  rw [getOutputMessage] at h
  split at h <;> cases h
  rfl

/-- A write is only started where none is on its way: none is counted, and the connection is
open. -/
theorem send_starts (h : Counted s r 0) (a : Arm) : Starts s (send s a) [] := by
  rw [send]
  split
  · exact starts_of_eq rfl
  · rename_i hopen
    have ho : s.m_connectionState = .CONNECTION_STATE_OPEN := by
      by_contra hne
      exact hopen (Or.inl hne)
    split
    · rename_i hpending
      have hcovered := (h.covered ho).2
      have hnone : s.writes = 0 := by omega
      cases a with
      | started => exact ⟨rfl, Or.inl rfl, Or.inr (congrArg (· + 1) hnone)⟩
      | waitThrows | operationThrows => exact starts_of_eq rfl
    · split
      · exact starts_of_eq (close_operations s)
      · exact starts_of_eq rfl

theorem onRecvFirstMessage_starts (h : Counted s r 0) (f : FirstMessage) :
    Starts s (onRecvFirstMessage s f) [] := by
  cases f with
  | rsaFailed => exact starts_of_eq (closeThroughProtocol_operations s)
  | disconnected pool a =>
    simp only [onRecvFirstMessage, disconnectClient]
    split
    · rename_i v hv
      have hgot : Starts s v [] := starts_of_eq (getOutputMessage_operations hv)
      have hsent := send_starts (getOutputMessage_counted h hv) a
      exact (hgot.trans hsent).trans (starts_of_eq (closeThroughProtocol_operations _))
    · exact starts_of_eq (closeThroughProtocol_operations s)
  | dispatched => exact starts_of_eq rfl

theorem parseHeader_starts (error : Option ErrorCode) (sizeOk : Bool) (a : Arm) :
    Starts s (parseHeader s error sizeOk a) [.packet] := by
  unfold parseHeader
  dsimp only
  have herror : (if error.isSome ∨ sizeOk = false then
      handleReadError { s with readTimers := cancel s.readTimers } error
      else { s with readTimers := cancel s.readTimers }).operations = s.operations := by
    split
    · exact handleReadError_operations _ error
    · rfl
  generalize (if error.isSome ∨ sizeOk = false then
    handleReadError { s with readTimers := cancel s.readTimers } error
    else { s with readTimers := cancel s.readTimers }) = v at herror ⊢
  split
  · exact starts_of_eq ((close_operations v).trans herror)
  · exact (startRead_starts _ .packet a).after herror

theorem firstPacket_starts (h : Counted s r 0) (p : Packet) (a : Arm) :
    Starts s (firstPacket s p a) [.header] := by
  have hs : Counted { s with m_receivedFirst := true } r 0 := ⟨h.reads, h.writes, h.covered⟩
  unfold firstPacket
  dsimp only
  split
  · exact starts_of_eq (close_operations _)
  · refine Starts.trans ?_ (startRead_starts _ .header a)
    split
    · exact (onRecvFirstMessage_starts hs p.first).after rfl
    · have hattached : Counted (attachProtocol { s with m_receivedFirst := true }) r 0 :=
        ⟨h.reads, h.writes, h.covered⟩
      exact (onRecvFirstMessage_starts hattached p.first).after rfl

theorem parsePacket_starts (h : Counted s 1 0) (error : Option ErrorCode) (p : Packet) (a : Arm) :
    Starts s (parsePacket s error p a) [.header] := by
  unfold parsePacket
  dsimp only
  have hs : Counted { s with readTimers := cancel s.readTimers } 1 0 :=
    ⟨h.reads, h.writes, h.covered⟩
  have herror : (if error.isSome then
      handleReadError { s with readTimers := cancel s.readTimers } error
      else { s with readTimers := cancel s.readTimers }).operations = s.operations ∧
      Counted (if error.isSome then
        handleReadError { s with readTimers := cancel s.readTimers } error
        else { s with readTimers := cancel s.readTimers }) 1 0 := by
    split
    · exact ⟨handleReadError_operations _ error, handleReadError_counted hs error⟩
    · exact ⟨rfl, hs⟩
  generalize (if error.isSome then
    handleReadError { s with readTimers := cancel s.readTimers } error
    else { s with readTimers := cancel s.readTimers }) = v at herror ⊢
  obtain ⟨hv, hcounted⟩ := herror
  have hsv : Starts s v [] := starts_of_eq hv
  split
  · exact hsv.trans (starts_of_eq (close_operations v))
  · rename_i hopen
    have hdone := readDone_counted hcounted (by_contra fun hne => hopen (Or.inl hne))
    split
    · exact hsv.trans (starts_of_eq (close_operations v))
    · split
      · exact (firstPacket_starts hdone p a).after hv
      · split
        · exact (startRead_starts _ .header a).after hv
        · exact starts_of_eq hv

theorem onWrite_operations (error : Option ErrorCode) :
    (onWrite s error).operations = s.operations := by
  unfold onWrite
  dsimp only
  have herror : (if error.isSome then
      handleWriteError { s with writeTimers := cancel s.writeTimers } error
      else { s with writeTimers := cancel s.writeTimers }).operations = s.operations := by
    split
    · exact handleWriteError_operations _ error
    · rfl
  generalize (if error.isSome then
    handleWriteError { s with writeTimers := cancel s.writeTimers } error
    else { s with writeTimers := cancel s.writeTimers }) = v at herror ⊢
  split
  · exact ((close_operations _).trans (closeSocket_operations v)).trans herror
  · exact herror

theorem delegateStep_starts {stage : Stage} {e : Event} (h : Counted s r 0)
    (hd : delegateStep s stage e = some u) : Starts s u [] := by
  simp only [delegateStep] at hd
  split at hd
  · split at hd
    · cases hd
    · split at hd
      · rename_i v hv
        cases hd
        have hgot := getOutputMessage_operations hv
        exact starts_of_eq hgot
      · cases hd
        exact starts_of_eq rfl
  · rename_i a
    split at hd
    · cases hd
      exact (send_starts h a).trans (starts_of_eq rfl)
    · cases hd
  · split at hd
    · cases hd
      exact starts_of_eq (closeThroughProtocol_operations s)
    · cases hd
  · cases hd

end Sending

/-! ## Runs -/

section Runs

variable {s u : State} {r : Read} {e : Event}

theorem initial_oneEach (logError forceClose : Bool) :
    OneEach (initial logError forceClose) .header :=
  ⟨Or.inl rfl, fun _ => ⟨rfl, rfl⟩, Nat.zero_le 1⟩

theorem OneEach.starts (h : OneEach s r) (k : Starts s u []) : OneEach u r := by
  have hreads := k.none_reads
  refine ⟨hreads ▸ h.reads, ?_, ?_⟩
  · rw [k.accepted, hreads]
    exact h.fresh
  · rcases k.writes with hw | hw
    · exact hw ▸ h.writes
    · exact Nat.le_of_eq hw

theorem OneEach.taken (h : OneEach s r) {k : Read} (hk : k ∈ s.reads) :
    k = r ∧ s.reads.erase k = [] ∧ s.accepted = true := by
  have hone : s.reads = [r] := by
    rcases h.reads with hnone | hone
    · rw [hnone] at hk
      cases hk
    · exact hone
  have hkr : k = r := by
    rw [hone] at hk
    exact List.mem_singleton.mp hk
  refine ⟨hkr, ?_, ?_⟩
  · rw [hone, hkr, List.erase_cons_head]
  · cases ha : s.accepted with
    | true => rfl
    | false =>
      have hnone := (h.fresh ha).1
      rw [hone] at hnone
      cases hnone

theorem Starts.oneEach (h : Starts s u [r]) (ha : s.accepted = true) (hr : s.reads = [])
    (hw : s.writes ≤ 1) : OneEach u r := by
  refine ⟨?_, fun hfresh => ?_, ?_⟩
  · have hreads := h.reads
    rwa [hr, List.nil_append] at hreads
  · rw [h.accepted, ha] at hfresh
    cases hfresh
  · rcases h.writes with hu | hu
    · exact hu ▸ hw
    · exact Nat.le_of_eq hu

theorem OneEach.completes (h : OneEach s r) {k : Read} (hk : k ∈ s.reads)
    (hs : Starts { s with reads := s.reads.erase k } u [r.next]) : OneEach u r.next := by
  obtain ⟨_, hnone, haccepted⟩ := h.taken hk
  exact hs.oneEach haccepted hnone h.writes

theorem OneEach.other (h : OneEach s r) (k : Starts s u []) :
    (∀ k ∈ (none : Option Read), k = r) ∧ OneEach u ((none : Option Read).elim r Read.next) := by
  constructor
  · intro k hk
    cases hk
  · exact h.starts k

theorem step_oneEach (h : OneEach s r) (hc : Counted s 0 0) (hs : step s e = some u) :
    (∀ k ∈ (Call.own e).completed, k = r) ∧
      OneEach u ((Call.own e).completed.elim r Read.next) := by
  rw [step] at hs
  split at hs
  · cases hs
  cases e with
  | accept a =>
    simp only [liveStep] at hs
    split at hs
    · cases hs
    · rename_i hfresh
      cases hs
      obtain ⟨hnone, rfl⟩ := h.fresh (by simpa using hfresh)
      constructor
      · intro k hk
        cases hk
      · have hstarts := startRead_starts { s with accepted := true } .header a
        exact hstarts.oneEach rfl hnone h.writes
  | parseHeader error sizeOk a =>
    simp only [liveStep] at hs
    split at hs
    · rename_i hm
      cases hs
      obtain rfl := (h.taken hm).1
      refine ⟨fun k hk => (Option.some.inj hk).symm, h.completes hm ?_⟩
      exact parseHeader_starts error sizeOk a
    · cases hs
  | parsePacket error p a =>
    simp only [liveStep] at hs
    split at hs
    · rename_i hm
      cases hs
      obtain rfl := (h.taken hm).1
      refine ⟨fun k hk => (Option.some.inj hk).symm, h.completes hm ?_⟩
      exact parsePacket_starts (readTaken_counted hc hm) error p a
    · cases hs
  | onWrite error =>
    simp only [liveStep] at hs
    split at hs
    · cases hs
    · cases hs
      have hwritten : OneEach { s with writes := s.writes - 1 } r :=
        ⟨h.reads, h.fresh, Nat.le_trans (Nat.sub_le _ _) h.writes⟩
      exact hwritten.other (starts_of_eq (onWrite_operations error))
  | expire write =>
    cases hs
    exact h.other (starts_of_eq (setTimers_operations s write _))
  | timeout write t =>
    simp only [liveStep] at hs
    split at hs
    · exact h.other (starts_of_eq (timeoutHandler_operations hs))
    · cases hs
  | close =>
    cases hs
    exact h.other (starts_of_eq (close_operations s))
  | dispatch throws =>
    simp only [liveStep] at hs
    split at hs
    · rename_i t rest _ _
      cases hs
      exact h.other (starts_of_eq (execute_operations { s with tasks := rest } throws t))
    · cases hs
  | obtain pool | submit a | delegateClose =>
    obtain ⟨stage, _, hd⟩ := Option.bind_eq_some_iff.mp hs
    exact h.other (delegateStep_starts hc hd)
  | sendAll a =>
    simp only [liveStep] at hs
    split at hs
    · cases hs
      have hqueued : Counted { s with queued := s.queued - 1 } 0 0 :=
        ⟨hc.reads, hc.writes, hc.covered⟩
      exact h.other ((send_starts hqueued a).after rfl)
    · cases hs
  | sendAllDrop | fire | managerRelease =>
    simp only [liveStep] at hs
    split at hs
    · cases hs
      exact h.other (starts_of_eq rfl)
    · cases hs
  | onStop =>
    simp only [liveStep] at hs
    split at hs
    · cases hs
    · cases hs
      exact h.other (starts_of_eq (onStop_operations _))
  | logErrorElsewhere =>
    cases hs
    exact h.other (starts_of_eq rfl)

end Runs

section Senders

variable {s u : Shared} {r : Read} {c : Call}

theorem sharedStep_counted (h : Counted s.connection 0 0) (hs : sharedStep s c = some u) :
    Counted u.connection 0 0 := by
  cases c with
  | own e =>
    obtain ⟨v, hv, rfl⟩ := Option.map_eq_some_iff.mp hs
    exact step_counted h hv
  | getOutputMessage pool =>
    simp only [sharedStep] at hs
    split at hs
    · cases hs
    · obtain ⟨v, hv, rfl⟩ := Option.map_eq_some_iff.mp hs
      exact getOutputMessage_counted h hv
  | send a =>
    simp only [sharedStep] at hs
    split at hs <;> cases hs
    exact send_counted h a
  | drop =>
    simp only [sharedStep] at hs
    split at hs <;> cases hs
    exact releaseMessage_counted h

theorem sharedStep_oneEach (h : OneEach s.connection r) (hc : Counted s.connection 0 0)
    (hs : sharedStep s c = some u) :
    (∀ k ∈ c.completed, k = r) ∧ OneEach u.connection (c.completed.elim r Read.next) := by
  cases c with
  | own e =>
    obtain ⟨v, hv, rfl⟩ := Option.map_eq_some_iff.mp hs
    exact step_oneEach h hc hv
  | getOutputMessage pool =>
    simp only [sharedStep] at hs
    split at hs
    · cases hs
    · obtain ⟨v, hv, rfl⟩ := Option.map_eq_some_iff.mp hs
      exact h.other (starts_of_eq (getOutputMessage_operations hv))
  | send a =>
    simp only [sharedStep] at hs
    split at hs <;> cases hs
    exact h.other (send_starts hc a)
  | drop =>
    simp only [sharedStep] at hs
    split at hs <;> cases hs
    exact h.other (starts_of_eq (releaseMessage_operations _))

theorem run_oneEach {calls : List Call} (h : OneEach s.connection r)
    (hc : Counted s.connection 0 0) (hs : shared.run s calls = some u) :
    Alternate r (completions calls) ∧ ∃ k, OneEach u.connection k := by
  induction calls generalizing s r with
  | nil =>
    cases hs
    exact ⟨trivial, r, h⟩
  | cons c calls ih =>
    obtain ⟨v, hv, hs⟩ := Machine.run_cons hs
    obtain ⟨hr, hone⟩ := sharedStep_oneEach h hc hv
    obtain ⟨hrest, hu⟩ := ih hone (sharedStep_counted hc hv) hs
    refine ⟨?_, hu⟩
    cases hk : c.completed with
    | none =>
      rw [hk] at hrest
      rwa [completions, List.filterMap_cons_none hk]
    | some k =>
      rw [hk] at hrest hr
      obtain rfl := hr k rfl
      rw [completions, List.filterMap_cons_some hk]
      exact ⟨rfl, hrest⟩

end Senders

/-- Whatever the handlers, the timers and any number of senders do: the completions that a
connection handles are those of a header, of its packet, of the next header and so on, and its
socket has at most one read and at most one write to do. -/
theorem one_read_one_write (logError forceClose : Bool) {calls : List Call} {u : Shared}
    (h : shared.run ⟨initial logError forceClose, 0⟩ calls = some u) :
    Alternate .header (completions calls) ∧
      u.connection.reads.length ≤ 1 ∧ u.connection.writes ≤ 1 := by
  obtain ⟨halternate, r, hone⟩ := run_oneEach (initial_oneEach logError forceClose)
    (initial_counted logError forceClose) h
  refine ⟨halternate, ?_, hone.writes⟩
  rcases hone.reads with hr | hr
  · rw [hr]
    exact Nat.zero_le 1
  · rw [hr]
    exact Nat.le_refl 1

theorem failed_write_trace_one_each :
    Alternate .header (completions failedWriteTrace) ∧
      ∃ u, shared.run ⟨initial true false, 0⟩ failedWriteTrace = some u ∧
        u.connection.reads.length ≤ 1 ∧ u.connection.writes ≤ 1 := by
  have hr : (shared.run ⟨initial true false, 0⟩ failedWriteTrace).isSome := by decide
  obtain ⟨u, hu⟩ := Option.isSome_iff_exists.mp hr
  obtain ⟨halternate, hone⟩ := one_read_one_write true false hu
  exact ⟨halternate, u, hu, hone⟩

end LoginServer.Connection
