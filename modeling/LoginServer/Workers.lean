import LoginServer.Scheduler
import LoginServer.Library.Ownership
import Mathlib.Data.Fintype.Basic

/-! # The worker pool of the database

`workerLoop` in any number of threads against any number of calls of `asyncTask`, `stopWorkers` and
`shutdownWorkers`. A step is one action under or beside `s_taskMutex`; a worker that waits goes on
after a notification or spuriously. A worker that has not been started stands at its loop head. -/
namespace LoginServer.Workers

open Runs
open Scheduler (ThreadState)

/-- What is to be run: the query of `asyncQuery`, or the function given to `asyncTask`. An empty
`std::function` is no task. -/
inductive Job (α : Type*) where
  | query (query : String)
  | callback (task : α)
  deriving DecidableEq, Repr

structure Task (α : Type*) where
  serial : ℕ
  job : Job α
  deriving DecidableEq, Repr

inductive Call (α : Type*) where
  | asyncTask (job : Job α)
  | stopWorkers
  | shutdownWorkers
  deriving DecidableEq, Repr

def asyncQuery {α : Type*} (query : String) : Call α := .asyncTask (.query query)

/-- Where one caller is. It holds the mutex from `locked` until it unlocks. -/
inductive CallerPlace (α : Type*) where
  | outside
  | entering (call : Call α)
  | locked (call : Call α)
  | pushed (signal : Bool)
  | signalling
  | closed
  | draining
  | executing (task : Task α)
  | drained
  | notifying
  deriving DecidableEq, Repr

/-- Where `workerLoop` is. It holds the mutex in `locked`, `resumed` and `taken`. -/
inductive Place where
  | loop
  | locking
  | locked
  | waiting
  | woken
  | resumed
  | taken
  | unlocked
  | running
  | exited
  deriving DecidableEq, Repr

/-- A worker with its variable `task`, which outlives a round of the loop. -/
structure Worker (α : Type*) where
  place : Place
  task : Option (Task α)
  deriving DecidableEq, Repr

inductive Thread (n : ℕ) where
  | worker (w : Fin n)
  | caller (i : ℕ)
  deriving DecidableEq, Repr

/-- `terminated` says that some `shutdownWorkers` has executed its `notify_all`. -/
structure State (n : ℕ) (α : Type*) where
  s_taskQueue : List (Task α)
  s_taskMutex : Option (Thread n)
  s_workerState : ThreadState
  workers : Fin n → Worker α
  callers : ℕ → CallerPlace α
  terminated : Bool
  accepted : List (Task α)
  executed : List (Task α)

variable {n : ℕ} {α : Type*}

def startWorkers (n : ℕ) (α : Type*) : State n α :=
  ⟨[], none, .STATE_RUNNING, fun _ => ⟨.loop, none⟩, fun _ => .outside, false, [], []⟩

inductive Event (n : ℕ) (α : Type*) where
  | call (i : ℕ) (call : Call α)
  | callerLock (i : ℕ)
  | enter (i : ℕ)
  | callerUnlock (i : ℕ)
  | notifyOne (i : ℕ) (w : Option (Fin n))
  | drain (i : ℕ)
  | executed (i : ℕ)
  | notifyAll (i : ℕ)
  | test (w : Fin n)
  | lock (w : Fin n)
  | check (w : Fin n)
  | wake (w : Fin n)
  | relock (w : Fin n)
  | take (w : Fin n)
  | unlock (w : Fin n)
  | next (w : Fin n)
  | finish (w : Fin n)
  deriving DecidableEq, Repr

def State.setCaller (s : State n α) (i : ℕ) (p : CallerPlace α) : State n α :=
  { s with callers := Function.update s.callers i p }

def State.setWorker (s : State n α) (w : Fin n) (worker : Worker α) : State n α :=
  { s with workers := Function.update s.workers w worker }

def State.setPlace (s : State n α) (w : Fin n) (p : Place) : State n α :=
  s.setWorker w { s.workers w with place := p }

def Worker.notified (w : Worker α) : Worker α :=
  { w with place := match w.place with | .waiting => .woken | p => p }

/-- The critical section of `asyncTask`. -/
def asyncTask (s : State n α) (i : ℕ) (job : Job α) : State n α :=
  let task : Task α := ⟨s.accepted.length, job⟩
  if s.s_workerState ≠ .STATE_RUNNING then s.setCaller i (.pushed false)
  else { s with
    s_taskQueue := s.s_taskQueue ++ [task]
    accepted := s.accepted ++ [task] }.setCaller i (.pushed true)

/-- What a call does first under the mutex. -/
def enter (s : State n α) (i : ℕ) : Call α → State n α
  | .asyncTask job => asyncTask s i job
  | .stopWorkers => { s with s_workerState := .STATE_CLOSING }.setCaller i .closed
  | .shutdownWorkers => { s with s_workerState := .STATE_TERMINATED }.setCaller i .draining

/-- One round of the loop of `shutdownWorkers`. -/
def drain (s : State n α) (i : ℕ) : State n α :=
  match s.s_taskQueue with
  | [] => s.setCaller i .drained
  | t :: rest => { s with s_taskQueue := rest }.setCaller i (.executing t)

def CallerPlace.released : CallerPlace α → Option (CallerPlace α)
  | .pushed true => some .signalling
  | .pushed false | .closed => some .outside
  | .drained => some .notifying
  | _ => none

/-- The worker takes the first task, if there is one and it is not told to end. -/
def takeTask (s : State n α) (w : Fin n) : State n α :=
  match s.s_taskQueue with
  | [] => s.setPlace w .taken
  | t :: rest =>
    if s.s_workerState ≠ .STATE_TERMINATED then
      { s with s_taskQueue := rest }.setWorker w ⟨.taken, some t⟩
    else s.setPlace w .taken

def step (s : State n α) : Event n α → Option (State n α)
  | .call i call =>
    match s.callers i with
    | .outside => some (s.setCaller i (.entering call))
    | _ => none
  | .callerLock i =>
    match s.callers i, s.s_taskMutex with
    | .entering call, none =>
      some ({ s with s_taskMutex := some (.caller i) }.setCaller i (.locked call))
    | _, _ => none
  | .enter i =>
    match s.callers i with
    | .locked call => some (enter s i call)
    | _ => none
  | .callerUnlock i =>
    (s.callers i).released.map fun p => { s with s_taskMutex := none }.setCaller i p
  | .notifyOne i w =>
    match s.callers i, w with
    | .signalling, some w =>
      if (s.workers w).place = .waiting then some ((s.setPlace w .woken).setCaller i .outside)
      else none
    | .signalling, none =>
      if ∀ w, (s.workers w).place ≠ .waiting then some (s.setCaller i .outside) else none
    | _, _ => none
  | .drain i =>
    match s.callers i with
    | .draining => some (drain s i)
    | _ => none
  | .executed i =>
    match s.callers i with
    | .executing t => some ({ s with executed := s.executed ++ [t] }.setCaller i .draining)
    | _ => none
  | .notifyAll i =>
    match s.callers i with
    | .notifying =>
      some ({ s with workers := fun w => (s.workers w).notified, terminated := true }.setCaller i
        .outside)
    | _ => none
  | .test w =>
    match (s.workers w).place with
    | .loop => some (s.setPlace w (if s.s_workerState = .STATE_TERMINATED then .exited else .locking))
    | _ => none
  | .lock w =>
    match (s.workers w).place, s.s_taskMutex with
    | .locking, none => some ({ s with s_taskMutex := some (.worker w) }.setPlace w .locked)
    | _, _ => none
  | .check w =>
    match (s.workers w).place, s.s_taskQueue with
    | .locked, [] => some ({ s with s_taskMutex := none }.setPlace w .waiting)
    | .locked, _ :: _ => some (s.setPlace w .resumed)
    | _, _ => none
  | .wake w =>
    match (s.workers w).place with
    | .waiting => some (s.setPlace w .woken)
    | _ => none
  | .relock w =>
    match (s.workers w).place, s.s_taskMutex with
    | .woken, none => some ({ s with s_taskMutex := some (.worker w) }.setPlace w .resumed)
    | _, _ => none
  | .take w =>
    match (s.workers w).place with
    | .resumed => some (takeTask s w)
    | _ => none
  | .unlock w =>
    match (s.workers w).place with
    | .taken => some ({ s with s_taskMutex := none }.setPlace w .unlocked)
    | _ => none
  | .next w =>
    match (s.workers w).place with
    | .unlocked => some (s.setPlace w (if (s.workers w).task.isSome then .running else .loop))
    | _ => none
  | .finish w =>
    match s.workers w with
    | ⟨.running, some t⟩ => some ({ s with executed := s.executed ++ [t] }.setWorker w ⟨.loop, none⟩)
    | _ => none

def machine (n : ℕ) (α : Type*) : Machine (State n α) (Event n α) where
  start s := s = startWorkers n α
  step := step

inductive Effect (s : State n α) : Event n α → State n α → Prop where
  | call {i} (call) : s.callers i = .outside → Effect s (.call i call) (s.setCaller i (.entering call))
  | callerLock {i call} : s.callers i = .entering call → s.s_taskMutex = none →
      Effect s (.callerLock i)
        ({ s with s_taskMutex := some (.caller i) }.setCaller i (.locked call))
  | enter {i call} : s.callers i = .locked call → Effect s (.enter i) (enter s i call)
  | callerUnlock {i p} : (s.callers i).released = some p →
      Effect s (.callerUnlock i) ({ s with s_taskMutex := none }.setCaller i p)
  | notifyOne {i w} : s.callers i = .signalling → (s.workers w).place = .waiting →
      Effect s (.notifyOne i (some w)) ((s.setPlace w .woken).setCaller i .outside)
  | notifyNone {i} : s.callers i = .signalling → (∀ w, (s.workers w).place ≠ .waiting) →
      Effect s (.notifyOne i none) (s.setCaller i .outside)
  | drain {i} : s.callers i = .draining → Effect s (.drain i) (drain s i)
  | executed {i t} : s.callers i = .executing t →
      Effect s (.executed i) ({ s with executed := s.executed ++ [t] }.setCaller i .draining)
  | notifyAll {i} : s.callers i = .notifying → Effect s (.notifyAll i)
      ({ s with workers := fun w => (s.workers w).notified, terminated := true }.setCaller i .outside)
  | test {w} : (s.workers w).place = .loop → Effect s (.test w)
      (s.setPlace w (if s.s_workerState = .STATE_TERMINATED then .exited else .locking))
  | lock {w} : (s.workers w).place = .locking → s.s_taskMutex = none → Effect s (.lock w)
      ({ s with s_taskMutex := some (.worker w) }.setPlace w .locked)
  | wait {w} : (s.workers w).place = .locked → s.s_taskQueue = [] →
      Effect s (.check w) ({ s with s_taskMutex := none }.setPlace w .waiting)
  | proceed {w} : (s.workers w).place = .locked → s.s_taskQueue ≠ [] →
      Effect s (.check w) (s.setPlace w .resumed)
  | wake {w} : (s.workers w).place = .waiting → Effect s (.wake w) (s.setPlace w .woken)
  | relock {w} : (s.workers w).place = .woken → s.s_taskMutex = none → Effect s (.relock w)
      ({ s with s_taskMutex := some (.worker w) }.setPlace w .resumed)
  | take {w} : (s.workers w).place = .resumed → Effect s (.take w) (takeTask s w)
  | unlock {w} : (s.workers w).place = .taken →
      Effect s (.unlock w) ({ s with s_taskMutex := none }.setPlace w .unlocked)
  | next {w} : (s.workers w).place = .unlocked → Effect s (.next w)
      (s.setPlace w (if (s.workers w).task.isSome then .running else .loop))
  | finish {w t} : s.workers w = ⟨.running, some t⟩ → Effect s (.finish w)
      ({ s with executed := s.executed ++ [t] }.setWorker w ⟨.loop, none⟩)

theorem step_effect {s u : State n α} {e : Event n α} (h : step s e = some u) : Effect s e u := by
  cases e with
  | callerUnlock i =>
    obtain ⟨p, hp, rfl⟩ := Option.map_eq_some_iff.mp h
    exact .callerUnlock hp
  | notifyOne i w =>
    simp only [step] at h
    split at h
    · split at h <;> cases h
      rename_i hi hw
      exact .notifyOne hi hw
    · split at h <;> cases h
      rename_i hi hw
      exact .notifyNone hi hw
    · cases h
  | check w =>
    simp only [step] at h
    split at h <;> cases h
    · rename_i hw hq
      exact .wait hw hq
    · rename_i hw hq
      exact .proceed hw (by simp [hq])
  | call i call =>
    simp only [step] at h
    split at h <;> cases h
    rename_i hi
    exact .call call hi
  | callerLock i =>
    simp only [step] at h
    split at h <;> cases h
    rename_i hi hm
    exact .callerLock hi hm
  | enter i =>
    simp only [step] at h
    split at h <;> cases h
    rename_i hi
    exact .enter hi
  | drain i =>
    simp only [step] at h
    split at h <;> cases h
    rename_i hi
    exact .drain hi
  | executed i =>
    simp only [step] at h
    split at h <;> cases h
    rename_i hi
    exact .executed hi
  | notifyAll i =>
    simp only [step] at h
    split at h <;> cases h
    rename_i hi
    exact .notifyAll hi
  | test w =>
    simp only [step] at h
    split at h <;> cases h
    rename_i hw
    exact .test hw
  | lock w =>
    simp only [step] at h
    split at h <;> cases h
    rename_i hw hm
    exact .lock hw hm
  | wake w =>
    simp only [step] at h
    split at h <;> cases h
    rename_i hw
    exact .wake hw
  | relock w =>
    simp only [step] at h
    split at h <;> cases h
    rename_i hw hm
    exact .relock hw hm
  | take w =>
    simp only [step] at h
    split at h <;> cases h
    rename_i hw
    exact .take hw
  | unlock w =>
    simp only [step] at h
    split at h <;> cases h
    rename_i hw
    exact .unlock hw
  | next w =>
    simp only [step] at h
    split at h <;> cases h
    rename_i hw
    exact .next hw
  | finish w =>
    simp only [step] at h
    split at h <;> cases h
    rename_i hw
    exact .finish hw

theorem effect_step {s u : State n α} {e : Event n α} (h : Effect s e u) : step s e = some u := by
  cases h with
  | call call hi => simp only [step, hi]
  | callerLock hi hm => simp only [step, hi, hm]
  | enter hi | drain hi | executed hi | notifyAll hi => simp only [step, hi]
  | callerUnlock hp => simp only [step, hp, Option.map_some]
  | notifyOne hi hw => simp only [step, hi, hw, if_true]
  | notifyNone hi hw =>
    simp only [step, hi]
    rw [if_pos hw]
  | test hw | wake hw | take hw | unlock hw | next hw | finish hw => simp only [step, hw]
  | lock hw hm | relock hw hm => simp only [step, hw, hm]
  | wait hw hq => simp only [step, hw, hq]
  | proceed hw hq =>
    obtain ⟨t, rest, hq⟩ := List.exists_cons_of_ne_nil hq
    simp only [step, hw, hq]

end LoginServer.Workers
