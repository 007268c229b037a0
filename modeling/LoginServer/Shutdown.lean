import LoginServer.Library.Drains
import LoginServer.Scheduler

/-! # The drains at shutdown

`Dispatcher::shutdown` and `Database::shutdownWorkers` run what is queued while they hold the
mutex of the queue, which is not recursive. The other threads wait at that mutex, so only what the
drain itself runs could still reach the queue. What a callback, a destructor and `sendAll` do is
any script over the rest of the program. -/
namespace LoginServer.Shutdown

open Drains
open Scheduler (ThreadState)

variable {τ σ : Type*}

abbrev Queue (τ σ : Type*) := Monitor ThreadState τ σ

/-! ## The dispatcher -/

namespace Dispatcher

/-- What locks `m_taskLock` first. -/
inductive Call (τ : Type*) where
  | addTask (task : τ) (front : Bool)
  | stop
  deriving DecidableEq, Repr

/-- What the tasks of a dispatcher do: `getCallback` may be null. -/
structure Tasks (τ σ : Type*) where
  getCallback : τ → Option (Script σ (Call τ))
  delete : τ → Script σ (Call τ)
  sendAll : Script σ (Call τ)

variable (tasks : Tasks τ σ)

/-- The critical section of `addTask`. A task that is not accepted is deleted in it, and whatever
its destructor calls finds the mutex held. -/
def addTask (task : τ) (front : Bool) (m : Queue τ σ) : Except Halt (Queue τ σ) :=
  if m.state = .STATE_RUNNING then
    .ok { m with queue := if front then task :: m.queue else m.queue ++ [task] }
  else run (fun _ m => .ok m) (tasks.delete task) m

def stop (m : Queue τ σ) : Except Halt (Queue τ σ) := .ok { m with state := .STATE_CLOSING }

def serve : Call τ → Queue τ σ → Except Halt (Queue τ σ)
  | .addTask task front => addTask tasks task front
  | .stop => stop

/-- The body of the loop of `flush`, once the task is off the queue. -/
def round (task : τ) : Script σ (Call τ) :=
  ((tasks.getCallback task).getD .done).seq ((tasks.delete task).seq tasks.sendAll)

def flush (fuel : ℕ) (m : Queue τ σ) : Except Halt (Queue τ σ) :=
  drain (serve tasks) (round tasks) fuel m

def shutdown (m : Queue τ σ) (fuel : ℕ) : Except Halt (Queue τ σ) :=
  lockedLoop (flush tasks) .STATE_TERMINATED m fuel

end Dispatcher

/-! ## The worker pool -/

namespace Database

/-- What locks `s_taskMutex` first; `asyncQuery` is a call of `asyncTask`. -/
inductive Call (τ : Type*) where
  | asyncTask (task : τ)
  | stopWorkers
  deriving DecidableEq, Repr

/-- What the functions given to `asyncTask` do; an empty one throws. -/
structure Tasks (τ σ : Type*) where
  invoke : τ → Script σ (Call τ)
  destroy : τ → Script σ (Call τ)

variable (tasks : Tasks τ σ)

def asyncTask (task : τ) (m : Queue τ σ) : Except Halt (Queue τ σ) :=
  if m.state ≠ .STATE_RUNNING then .ok m else .ok { m with queue := m.queue ++ [task] }

def stopWorkers (m : Queue τ σ) : Except Halt (Queue τ σ) :=
  .ok { m with state := .STATE_CLOSING }

def serve : Call τ → Queue τ σ → Except Halt (Queue τ σ)
  | .asyncTask task => asyncTask task
  | .stopWorkers => stopWorkers

/-- The body of the loop: what is thrown is caught if it is a `std::exception`, and the function
goes with the end of the round. -/
def round (task : τ) : Script σ (Call τ) := (tasks.invoke task).guarded.seq (tasks.destroy task)

def shutdownWorkers (m : Queue τ σ) (fuel : ℕ) : Except Halt (Queue τ σ) :=
  lockedLoop (drain serve (round tasks)) .STATE_TERMINATED m fuel

end Database

/-- A drain ends with the queue empty, and tries no mutex its thread holds, exactly where each
callback, deletion and `sendAll` that it runs returns and has called nothing of the queue. -/
theorem drains_endEmpty_iff {τ' σ' : Type*} (tasks : Dispatcher.Tasks τ σ)
    (jobs : Database.Tasks τ' σ') :
    (∀ state queue s, EndsEmpty (Dispatcher.shutdown tasks ⟨false, state, queue, s⟩) ↔
      (rounds (Dispatcher.round tasks) queue s).isSome) ∧
    ∀ state queue s, EndsEmpty (Database.shutdownWorkers jobs ⟨false, state, queue, s⟩) ↔
      (rounds (Database.round jobs) queue s).isSome := by
  constructor
  · intro state queue s
    exact lockedDrain_endsEmpty_iff (m := ⟨false, state, queue, s⟩) rfl
  · intro state queue s
    exact lockedDrain_endsEmpty_iff (m := ⟨false, state, queue, s⟩) rfl

/-! ## Nothing is queued afterwards -/

theorem Dispatcher.serve_keeps_empty (tasks : Dispatcher.Tasks τ σ) {c : Dispatcher.Call τ}
    {m u : Queue τ σ} (h : Dispatcher.serve tasks c m = .ok u)
    (hm : m.state ≠ .STATE_RUNNING ∧ m.queue = []) :
    u.state ≠ .STATE_RUNNING ∧ u.queue = [] := by
  cases c with
  | addTask task front =>
    simp only [Dispatcher.serve, Dispatcher.addTask, if_neg hm.1] at h
    apply run_keeps (I := fun state queue => state ≠ .STATE_RUNNING ∧ queue = []) _ h hm
    intro c m u hu hi
    obtain rfl : m = u := by simpa using hu
    exact hi
  | stop =>
    obtain rfl : { m with state := .STATE_CLOSING } = u := by
      simpa [Dispatcher.serve, Dispatcher.stop] using h
    exact ⟨by simp, hm.2⟩

theorem Database.serve_keeps_empty {c : Database.Call τ} {m u : Queue τ σ}
    (h : Database.serve c m = .ok u) (hm : m.state ≠ .STATE_RUNNING ∧ m.queue = []) :
    u.state ≠ .STATE_RUNNING ∧ u.queue = [] := by
  cases c with
  | asyncTask task =>
    obtain rfl : m = u := by simpa [Database.serve, Database.asyncTask, hm.1] using h
    exact hm
  | stopWorkers =>
    obtain rfl : { m with state := .STATE_CLOSING } = u := by
      simpa [Database.serve, Database.stopWorkers] using h
    exact ⟨by simp, hm.2⟩

/-- Whatever is run once the drain has ended, the queue stays empty. -/
theorem Dispatcher.stays_empty (tasks : Dispatcher.Tasks τ σ) {m u v : Queue τ σ} {fuel : ℕ}
    (hu : Dispatcher.shutdown tasks m fuel = .ok u) {p : Script σ (Dispatcher.Call τ)}
    (hv : run (Dispatcher.serve tasks) p u = .ok v) : v.queue = [] := by
  obtain ⟨-, hstate, hqueue⟩ := lockedDrain_ended hu
  have hkept : v.state ≠ .STATE_RUNNING ∧ v.queue = [] :=
    run_keeps (I := fun state queue => state ≠ .STATE_RUNNING ∧ queue = [])
      (Dispatcher.serve_keeps_empty tasks) hv ⟨by simp [hstate], hqueue⟩
  exact hkept.2

theorem Database.stays_empty (tasks : Database.Tasks τ σ) {m u v : Queue τ σ} {fuel : ℕ}
    (hu : Database.shutdownWorkers tasks m fuel = .ok u) {p : Script σ (Database.Call τ)}
    (hv : run Database.serve p u = .ok v) : v.queue = [] := by
  obtain ⟨-, hstate, hqueue⟩ := lockedDrain_ended hu
  have hkept : v.state ≠ .STATE_RUNNING ∧ v.queue = [] :=
    run_keeps (I := fun state queue => state ≠ .STATE_RUNNING ∧ queue = [])
      Database.serve_keeps_empty hv ⟨by simp [hstate], hqueue⟩
  exact hkept.2

end LoginServer.Shutdown
