import LoginServer.ThreadsProtocols

/-! # Every thread goes on

No action of a reachable state is without a next state, and no threads wait in a circle. So every
thread goes on, or waits in the end for one that does. -/
namespace LoginServer.Threads

open Locks Runs
open Connection (ErrorCode Arm)

instance : Inhabited Choice := ⟨{}⟩

variable {n : ℕ} {s : Server n} {t : Thread n}

theorem exec_default {s : State} {a : Action} (hp : ∀ c p, a ≠ .checkPacket c p)
    (hc : ∀ c scope, a ≠ .configureOutputMessage c scope) (ht : ∀ c, a ≠ .closeThroughProtocol c)
    (he : a ≠ .takeEvent) : ∃ i, (exec i s a).isSome = true := by
  refine ⟨{}, ?_⟩
  cases a with
  | checkPacket c p => exact absurd rfl (hp c p)
  | configureOutputMessage c scope => exact absurd rfl (hc c scope)
  | closeThroughProtocol c => exact absurd rfl (ht c)
  | takeEvent => exact absurd rfl he
  | close c | checkHeader c | checkWrite c =>
    simp only [exec]
    split <;> rfl
  | _ => rfl

/-- Where a protocol is called without a check, it is there; the scheduler can be woken. -/
theorem exec_possible (h : (server n).Reachable s) {a : Action} {rest : Code}
    (hcode : s.code t = .act a :: rest) : ∃ i, (exec i s.shared a).isSome = true := by
  cases a with
  | checkPacket c p =>
    have hg := reachable_guarded h c
    refine ⟨{}, ?_⟩
    simp only [exec, checkPacket]
    split
    · rfl
    · rename_i hok
      split
      · rfl
      · rename_i hfirst
        simp only [not_or, ne_eq, Decidable.not_not] at hok
        rw [if_pos (packet_made hg.staffed hg.refusing hcode hok.1 (by simpa using hfirst))]
        rfl
  | configureOutputMessage c scope =>
    have hobject := (reachable_guarded h c).attached hcode (by simp [uses])
    obtain ⟨k, hk⟩ := object_iff.mp hobject
    exact ⟨{}, by simp [exec, configureOutputMessage, hk]⟩
  | closeThroughProtocol c =>
    have hobject := (reachable_guarded h c).attached hcode (by simp [uses])
    obtain ⟨k, hk⟩ := object_iff.mp hobject
    exact ⟨{}, by simp [exec, closeThroughProtocol, hk]⟩
  | takeEvent => exact ⟨{ signalled := true }, by simp [exec, takeEvent]⟩
  | _ => exact exec_default (by simp) (by simp) (by simp) (by simp)

/-- Every thread of the running server goes on, or waits, through others or not, for a thread that
does. -/
theorem every_thread_goes_on (h : (server n).Reachable s) (t : Thread n) :
    ∃ u, Relation.ReflTransGen (Waits program s) t u ∧
      ∃ i, ((server n).step s (u, i)).isSome = true := by
  have hs := reachable_staffed h
  exact waits_for_step (fun t => (hs.assigned t).ne_nil)
    (fun t a rest hcode => exec_possible h hcode) (no_cycle hs.watched.ordinary.orderly) t

/-- A service thread waits for another, and in the end for the dispatcher, which goes on. -/
theorem waiting_trace_goes_on : ∃ s, (server 2).run (initial 2 20000 true false) waitingTrace =
      some s ∧ Waits program s (.service 1) (.service 0) ∧
    ∃ u, Relation.ReflTransGen (Waits program s) (.service 1) u ∧
      ∃ i, ((server 2).step s (u, i)).isSome = true := by
  have hrun : ∃ s, (server 2).run (initial 2 20000 true false) waitingTrace = some s ∧
      ((s.code (.service 1)).head? = some (.lock (.m_connectionLock 0)) ∧
        .m_connectionLock 0 ∈ s.held (.service 0)) := Machine.exists_run (by decide +kernel)
  obtain ⟨s, hs, hhead, hheld⟩ := hrun
  obtain ⟨rest, hcode⟩ := List.head?_eq_some_iff.mp hhead
  have hreach : (server 2).Reachable s := Machine.run_reachable (.start ⟨_, _, _, rfl⟩) hs
  refine ⟨s, hs, ⟨_, rest, hcode, hheld, ?_⟩, every_thread_goes_on hreach (.service 1)⟩
  intro h
  cases h

end LoginServer.Threads
