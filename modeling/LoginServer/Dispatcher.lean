import LoginServer.Scheduler

/-! # The dispatcher thread and its callers

`tasksThread` against any number of `addTask` calls and `stop`, with the same grain as the
scheduler: a step is one action under or beside `m_taskLock`, and a blocked wait ends by a
notification or spuriously. A task keeps what its callback is as a value of any type.
`Dispatcher::shutdown`, which drains the queue under the lock, is not a step of it. -/
namespace LoginServer.Dispatcher

open Runs
open Scheduler (ThreadState)

structure Task (α : Type*) where
  ptr : ℕ
  m_expiration : Option ℕ
  m_callback : α
  deriving DecidableEq

variable {α : Type*}

/-- `none` is `not_a_date_time`, the expiration of a task made without one and of an event
after `unsetExpiration`. -/
def Task.hasExpired (t : Task α) (now : ℕ) : Bool :=
  match t.m_expiration with
  | none => false
  | some expiration => decide (expiration < now)

/-- Where `tasksThread` is. In `resumed` it holds the lock and has waited if it had to. -/
inductive Place (α : Type*) where
  | loop
  | locking
  | locked
  | blocked
  | notified
  | woken
  | resumed
  | taken (task : Option (Task α))
  | unlocked (task : Option (Task α))
  | running (task : Task α)
  | exited
  deriving DecidableEq

/-- Where one caller is inside `addTask`. -/
inductive CallerPlace (α : Type*) where
  | outside
  | entering (task : Task α) (front : Bool)
  | locked (task : Task α) (front : Bool)
  | pushed (signal : Bool)
  | unlocked (signal : Bool)
  deriving DecidableEq

inductive Owner where
  | dispatcher
  | caller (i : ℕ)
  deriving DecidableEq, Repr

/-- What an outside observer records of a run. -/
inductive Record (α : Type*) where
  | accepted (task : Task α) (front : Bool)
  | refused (task : Task α)
  | removed (task : Task α)
  | executed (task : Task α)
  deriving DecidableEq

structure State (α : Type*) where
  allocated : ℕ
  m_threadState : ThreadState
  m_taskList : List (Task α)
  m_taskLock : Option Owner
  thread : Place α
  callers : ℕ → CallerPlace α
  history : List (Record α)

def initial : State α :=
  ⟨0, .STATE_RUNNING, [], none, .loop, fun _ => .outside, []⟩

inductive Event (α : Type*) where
  | call (i : ℕ) (front : Bool) (m_expiration : Option ℕ) (m_callback : α)
  | callerLock (i : ℕ)
  | push (i : ℕ)
  | callerUnlock (i : ℕ)
  | notify (i : ℕ)
  | stop
  | test
  | lock
  | wait
  | proceed
  | wake
  | relock
  | take
  | unlock
  | next (now : ℕ)
  | finish
  deriving DecidableEq

def State.setCaller (s : State α) (i : ℕ) (p : CallerPlace α) : State α :=
  { s with callers := fun j => if j = i then p else s.callers j }

def State.record (s : State α) (r : Record α) : State α := { s with history := s.history ++ [r] }

/-- The critical section of `addTask`; a task that is not accepted is deleted in it. -/
def addTask (s : State α) (i : ℕ) (t : Task α) (front : Bool) : State α :=
  if s.m_threadState = .STATE_RUNNING then
    ({ s with m_taskList := if front then t :: s.m_taskList else s.m_taskList ++ [t] }.record
      (.accepted t front)).setCaller i (.pushed s.m_taskList.isEmpty)
  else (s.record (.refused t)).setCaller i (.pushed false)

def State.signalled (s : State α) : State α :=
  { s with thread := match s.thread with | .blocked => .notified | p => p }

theorem signalled_thread (s : State α) : s.signalled.thread = s.thread ∨
    s.thread = .blocked ∧ s.signalled.thread = .notified := by
  unfold State.signalled
  cases hs : s.thread <;> simp

/-- The thread takes the first task, if there is one and it is not told to end. -/
def takeTask (s : State α) : State α :=
  match s.m_taskList with
  | [] => { s with thread := .taken none }
  | t :: rest =>
    if s.m_threadState ≠ .STATE_TERMINATED then
      { s.record (.removed t) with m_taskList := rest, thread := .taken (some t) }
    else { s with thread := .taken none }

/-- After the unlock: back to the loop head, or the task is run unless it has expired. -/
def nextTask (s : State α) (now : ℕ) : Option (Task α) → State α
  | none => { s with thread := .loop }
  | some t =>
    if t.hasExpired now then { s with thread := .loop }
    else { s.record (.executed t) with thread := .running t }

def step (s : State α) : Event α → Option (State α)
  | .call i front m_expiration m_callback =>
    match s.callers i with
    | .outside =>
      some ({ s with allocated := s.allocated + 1 }.setCaller i
        (.entering ⟨s.allocated, m_expiration, m_callback⟩ front))
    | _ => none
  | .callerLock i =>
    match s.callers i, s.m_taskLock with
    | .entering t front, none =>
      some ({ s with m_taskLock := some (.caller i) }.setCaller i (.locked t front))
    | _, _ => none
  | .push i =>
    match s.callers i with
    | .locked t front => some (addTask s i t front)
    | _ => none
  | .callerUnlock i =>
    match s.callers i with
    | .pushed signal => some ({ s with m_taskLock := none }.setCaller i (.unlocked signal))
    | _ => none
  | .notify i =>
    match s.callers i with
    | .unlocked true => some (s.signalled.setCaller i .outside)
    | .unlocked false => some (s.setCaller i .outside)
    | _ => none
  | .stop =>
    match s.m_taskLock with
    | none => some { s with m_threadState := .STATE_CLOSING }
    | some _ => none
  | .test =>
    match s.thread with
    | .loop =>
      some { s with thread := if s.m_threadState = .STATE_TERMINATED then .exited else .locking }
    | _ => none
  | .lock =>
    match s.thread, s.m_taskLock with
    | .locking, none => some { s with thread := .locked, m_taskLock := some .dispatcher }
    | _, _ => none
  | .wait =>
    match s.thread, s.m_taskList with
    | .locked, [] => some { s with thread := .blocked, m_taskLock := none }
    | _, _ => none
  | .proceed =>
    match s.thread, s.m_taskList with
    | .locked, _ :: _ => some { s with thread := .resumed }
    | _, _ => none
  | .wake =>
    match s.thread with
    | .blocked | .notified => some { s with thread := .woken }
    | _ => none
  | .relock =>
    match s.thread, s.m_taskLock with
    | .woken, none => some { s with thread := .resumed, m_taskLock := some .dispatcher }
    | _, _ => none
  | .take =>
    match s.thread with
    | .resumed => some (takeTask s)
    | _ => none
  | .unlock =>
    match s.thread with
    | .taken o => some { s with thread := .unlocked o, m_taskLock := none }
    | _ => none
  | .next now =>
    match s.thread with
    | .unlocked o => some (nextTask s now o)
    | _ => none
  | .finish =>
    match s.thread with
    | .running _ => some { s with thread := .loop }
    | _ => none

def machine : Machine (State α) (Event α) where
  start s := s = initial
  step := step

inductive Effect (s : State α) : Event α → State α → Prop where
  | call {i} (front m_expiration m_callback) : s.callers i = .outside →
      Effect s (.call i front m_expiration m_callback)
        ({ s with allocated := s.allocated + 1 }.setCaller i
          (.entering ⟨s.allocated, m_expiration, m_callback⟩ front))
  | callerLock {i t front} : s.callers i = .entering t front → s.m_taskLock = none →
      Effect s (.callerLock i)
        ({ s with m_taskLock := some (.caller i) }.setCaller i (.locked t front))
  | push {i t front} : s.callers i = .locked t front → Effect s (.push i) (addTask s i t front)
  | callerUnlock {i signal} : s.callers i = .pushed signal →
      Effect s (.callerUnlock i) ({ s with m_taskLock := none }.setCaller i (.unlocked signal))
  | notify {i} : s.callers i = .unlocked true →
      Effect s (.notify i) (s.signalled.setCaller i .outside)
  | quiet {i} : s.callers i = .unlocked false → Effect s (.notify i) (s.setCaller i .outside)
  | stop : s.m_taskLock = none → Effect s .stop { s with m_threadState := .STATE_CLOSING }
  | test : s.thread = .loop → Effect s .test
      { s with thread := if s.m_threadState = .STATE_TERMINATED then .exited else .locking }
  | lock : s.thread = .locking → s.m_taskLock = none →
      Effect s .lock { s with thread := .locked, m_taskLock := some .dispatcher }
  | wait : s.thread = .locked → s.m_taskList = [] →
      Effect s .wait { s with thread := .blocked, m_taskLock := none }
  | proceed : s.thread = .locked → s.m_taskList ≠ [] →
      Effect s .proceed { s with thread := .resumed }
  | wake : s.thread = .blocked ∨ s.thread = .notified → Effect s .wake { s with thread := .woken }
  | relock : s.thread = .woken → s.m_taskLock = none →
      Effect s .relock { s with thread := .resumed, m_taskLock := some .dispatcher }
  | take : s.thread = .resumed → Effect s .take (takeTask s)
  | unlock {o} : s.thread = .taken o →
      Effect s .unlock { s with thread := .unlocked o, m_taskLock := none }
  | next {o} (now) : s.thread = .unlocked o → Effect s (.next now) (nextTask s now o)
  | finish {t} : s.thread = .running t → Effect s .finish { s with thread := .loop }

theorem step_effect {s u : State α} {e : Event α} (h : step s e = some u) : Effect s e u := by
  cases e with
  | call i front m_expiration m_callback =>
    simp only [step] at h
    split at h <;> cases h
    rename_i hc
    exact .call front m_expiration m_callback hc
  | callerLock i =>
    simp only [step] at h
    split at h <;> cases h
    rename_i hc hl
    exact .callerLock hc hl
  | push i =>
    simp only [step] at h
    split at h <;> cases h
    rename_i hc
    exact .push hc
  | callerUnlock i =>
    simp only [step] at h
    split at h <;> cases h
    rename_i hc
    exact .callerUnlock hc
  | notify i =>
    simp only [step] at h
    split at h <;> cases h
    · rename_i hc
      exact .notify hc
    · rename_i hc
      exact .quiet hc
  | stop =>
    simp only [step] at h
    split at h <;> cases h
    rename_i hl
    exact .stop hl
  | test =>
    simp only [step] at h
    split at h <;> cases h
    rename_i ht
    exact .test ht
  | lock =>
    simp only [step] at h
    split at h <;> cases h
    rename_i ht hl
    exact .lock ht hl
  | wait =>
    simp only [step] at h
    split at h <;> cases h
    rename_i ht hl
    exact .wait ht hl
  | proceed =>
    simp only [step] at h
    split at h <;> cases h
    rename_i ht hl
    exact .proceed ht (by simp [hl])
  | wake =>
    simp only [step] at h
    split at h <;> cases h
    · rename_i ht
      exact .wake (Or.inl ht)
    · rename_i ht
      exact .wake (Or.inr ht)
  | relock =>
    simp only [step] at h
    split at h <;> cases h
    rename_i ht hl
    exact .relock ht hl
  | take =>
    simp only [step] at h
    split at h <;> cases h
    rename_i ht
    exact .take ht
  | unlock =>
    simp only [step] at h
    split at h <;> cases h
    rename_i ht
    exact .unlock ht
  | next now =>
    simp only [step] at h
    split at h <;> cases h
    rename_i ht
    exact .next now ht
  | finish =>
    simp only [step] at h
    split at h <;> cases h
    rename_i ht
    exact .finish ht

end LoginServer.Dispatcher
