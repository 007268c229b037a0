import LoginServer.Library.Runs
import Mathlib.Data.Finset.Insert
import Mathlib.Data.Finset.Basic

/-! # The scheduler thread and its callers

`schedulerThread` against any number of `addEvent`, `stopEvent`, `stop` and `shutdown` calls.
A step is one action under or beside `m_eventLock`; a blocked wait ends by a notification,
spuriously or, when timed, at its deadline. Times are microseconds of the system clock, which
is taken not to run backwards. The heap of `m_eventList` is a list whose top is any element of
least expiration, as `std::priority_queue` promises. -/
namespace LoginServer.Scheduler

open Runs

def SCHEDULER_MINTICKS : ℕ := 50

/-- `boost::posix_time::milliseconds`, in microseconds. -/
def milliseconds (ms : ℕ) : ℕ := 1000 * ms

inductive ThreadState where
  | STATE_RUNNING | STATE_CLOSING | STATE_TERMINATED
  deriving DecidableEq, Repr

/-- Only `createSchedulerTask` builds a task, so the expiration of every task is fixed by its
creation time and the delay that was asked for. -/
structure SchedulerTask where
  ptr : ℕ
  created : ℕ
  delay : ℕ
  m_eventId : ℕ
  m_expiration : ℕ
  expires : m_expiration = created + milliseconds (max delay SCHEDULER_MINTICKS)
  deriving DecidableEq

def SchedulerTask.getCycle (t : SchedulerTask) : ℕ := t.m_expiration
def SchedulerTask.getEventId (t : SchedulerTask) : ℕ := t.m_eventId
def SchedulerTask.setEventId (t : SchedulerTask) (eventId : ℕ) : SchedulerTask :=
  { t with m_eventId := eventId }

def createSchedulerTask (ptr now delay : ℕ) : SchedulerTask where
  ptr := ptr
  created := now
  delay := delay
  m_eventId := 0
  m_expiration := now + milliseconds (if delay < SCHEDULER_MINTICKS then SCHEDULER_MINTICKS else delay)
  expires := by
    split
    · rw [Nat.max_eq_right (by omega)]
    · rw [Nat.max_eq_left (by omega)]

/-- Which of the two waits `schedulerThread` took; `timed` keeps the deadline it passed. -/
inductive Wait where
  | untimed
  | timed (deadline : ℕ)
  deriving DecidableEq, Repr

/-- Where `schedulerThread` is. In `notified` its wait has been signalled; in `woken` it has
ended with `action` and the lock is not yet taken back. -/
inductive Place where
  | loop
  | locking
  | locked
  | blocked (w : Wait)
  | notified (w : Wait)
  | woken (w : Wait) (action : Bool)
  | resumed (w : Wait) (action : Bool)
  | popped (task : Option (SchedulerTask × Bool))
  | unlocked (task : Option (SchedulerTask × Bool))
  | exited
  | undefined
  deriving DecidableEq

/-- Where one caller is inside `addEvent`. -/
inductive CallerPlace where
  | outside
  | entering (task : SchedulerTask)
  | locked (task : SchedulerTask)
  | pushed (task : SchedulerTask) (signal : Bool)
  | refused (task : SchedulerTask)
  | unlocked (task : SchedulerTask) (signal : Bool)
  | returning (task : SchedulerTask)
  deriving DecidableEq

inductive Owner where
  | scheduler
  | caller (i : ℕ)
  deriving DecidableEq, Repr

/-- What an outside observer records of a run. -/
inductive Record where
  | queued (task : SchedulerTask)
  | returned (ptr eventId : ℕ)
  | stopped (eventId : ℕ) (found : Bool)
  | handed (task : SchedulerTask) (time : ℕ)
  | deleted (ptr : ℕ)
  deriving DecidableEq

structure State where
  now : ℕ
  allocated : ℕ
  m_threadState : ThreadState
  m_lastEvent : ℕ
  m_eventIds : Finset ℕ
  m_eventList : List SchedulerTask
  m_eventLock : Option Owner
  thread : Place
  callers : ℕ → CallerPlace
  history : List Record

def initial (now : ℕ) : State :=
  ⟨now, 0, .STATE_RUNNING, 0, ∅, [], none, .loop, fun _ => .outside, []⟩

/-- `m_eventList.top()`: some element of least expiration. -/
def IsTop (t : SchedulerTask) (l : List SchedulerTask) : Prop :=
  t ∈ l ∧ ∀ u ∈ l, t.getCycle ≤ u.getCycle

instance (t : SchedulerTask) (l : List SchedulerTask) : Decidable (IsTop t l) :=
  inferInstanceAs (Decidable (_ ∧ _))

inductive Event where
  | tick (d : ℕ)
  | call (i delay : ℕ)
  | callerLock (i : ℕ)
  | push (i : ℕ) (signal : Bool)
  | callerUnlock (i : ℕ)
  | notify (i : ℕ)
  | callerReturn (i : ℕ)
  | stopEvent (eventId : ℕ)
  | stop
  | shutdown
  | test
  | lock
  | wait (top : Option SchedulerTask)
  | wake (action : Bool)
  | relock
  | pop (t : SchedulerTask)
  | popEmpty
  | skip
  | unlock
  | finish
  deriving DecidableEq

/-- `timed_wait` answers false only once its deadline is reached; after `wait` the flag keeps
its initial value false. -/
def WaitAnswer (now : ℕ) (action : Bool) : Wait → Prop
  | .untimed => action = false
  | .timed deadline => action = false → deadline ≤ now

instance (now : ℕ) (action : Bool) (w : Wait) : Decidable (WaitAnswer now action w) := by
  cases w <;> simp only [WaitAnswer] <;> infer_instance

/-- `signal = (task == m_eventList.top())` after the push; a tie may fall either way. -/
def SignalAnswer (t : SchedulerTask) (signal : Bool) (l : List SchedulerTask) : Prop :=
  if signal then ∀ u ∈ l, t.getCycle ≤ u.getCycle else ∃ u ∈ l, u.getCycle ≤ t.getCycle

instance (t : SchedulerTask) (signal : Bool) (l : List SchedulerTask) :
    Decidable (SignalAnswer t signal l) := by
  unfold SignalAnswer; split <;> infer_instance

def State.setCaller (s : State) (i : ℕ) (p : CallerPlace) : State :=
  { s with callers := fun j => if j = i then p else s.callers j }

def State.record (s : State) (r : Record) : State := { s with history := s.history ++ [r] }

section Fields

variable (s : State) (i : ℕ) (p : CallerPlace) (r : Record)

@[simp] theorem setCaller_now : (s.setCaller i p).now = s.now := rfl
@[simp] theorem setCaller_threadState : (s.setCaller i p).m_threadState = s.m_threadState := rfl
@[simp] theorem setCaller_eventList : (s.setCaller i p).m_eventList = s.m_eventList := rfl
@[simp] theorem setCaller_thread : (s.setCaller i p).thread = s.thread := rfl
@[simp] theorem setCaller_history : (s.setCaller i p).history = s.history := rfl
@[simp] theorem record_now : (s.record r).now = s.now := rfl
@[simp] theorem record_threadState : (s.record r).m_threadState = s.m_threadState := rfl
@[simp] theorem record_eventList : (s.record r).m_eventList = s.m_eventList := rfl
@[simp] theorem record_thread : (s.record r).thread = s.thread := rfl
@[simp] theorem record_callers : (s.record r).callers = s.callers := rfl
@[simp] theorem record_history : (s.record r).history = s.history ++ [r] := rfl

end Fields

/-- The critical section of `addEvent` in the running branch. -/
def State.enqueue (s : State) (t : SchedulerTask) : State :=
  { s with
    m_eventIds := insert t.getEventId s.m_eventIds
    m_eventList := t :: s.m_eventList }

/-- The fresh id a task without one is given; `m_lastEvent` wraps past 0xFFFFFFFF to 1. -/
def nextEventId (lastEvent : ℕ) : ℕ := (if lastEvent ≥ 0xFFFFFFFF then 0 else lastEvent) + 1

def State.assignId (s : State) (t : SchedulerTask) : State × SchedulerTask :=
  if t.getEventId = 0 then
    ({ s with m_lastEvent := nextEventId s.m_lastEvent }, t.setEventId (nextEventId s.m_lastEvent))
  else (s, t)

def addEventPush (s : State) (i : ℕ) (signal : Bool) (t : SchedulerTask) : Option State :=
  if s.m_threadState = .STATE_RUNNING then
    if SignalAnswer t signal s.m_eventList then
      let (s, t) := s.assignId t
      some (((s.enqueue t).record (.queued t)).setCaller i (.pushed t signal))
    else none
  else if signal then none else some (s.setCaller i (.refused t))

/-- Either the running branch releases the lock after its push, or the other branch releases it
and deletes the task; that call answers 0. -/
def addEventUnlock (s : State) (i : ℕ) : Option State :=
  match s.callers i with
  | .pushed t signal => some ({ s with m_eventLock := none }.setCaller i (.unlocked t signal))
  | .refused t =>
    some (({ s with m_eventLock := none }.record (.deleted t.ptr)).setCaller i .outside)
  | _ => none

/-- `notify_one` reaches the scheduler thread only while it is blocked in one of its waits. -/
def State.signalled (s : State) : State :=
  match s.thread with
  | .blocked w => { s with thread := .notified w }
  | _ => s

def stopEvent (s : State) (eventId : ℕ) : State :=
  if eventId = 0 then s.record (.stopped eventId false)
  else if eventId ∈ s.m_eventIds then
    { s with m_eventIds := s.m_eventIds.erase eventId }.record (.stopped eventId true)
  else s.record (.stopped eventId false)

/-- `top`, `pop` and the search of `m_eventIds`. -/
def popTop (s : State) (t : SchedulerTask) : State :=
  { s with
    m_eventList := s.m_eventList.erase t
    m_eventIds := s.m_eventIds.erase t.getEventId
    thread := .popped (some (t, decide (t.getEventId ∈ s.m_eventIds))) }

/-- After the unlock: nothing was popped, or the task goes to `Dispatcher::addTask`, or it was
stopped and is deleted. -/
def finishLoop (s : State) : Option (SchedulerTask × Bool) → State
  | none => { s with thread := .loop }
  | some (t, true) => { s.record (.handed t s.now) with thread := .loop }
  | some (t, false) => { s.record (.deleted t.ptr) with thread := .loop }

def step (s : State) : Event → Option State
  | .tick d => some { s with now := s.now + d }
  | .call i delay =>
    if s.callers i = .outside then
      some ({ s with allocated := s.allocated + 1 }.setCaller i
        (.entering (createSchedulerTask s.allocated s.now delay)))
    else none
  | .callerLock i =>
    match s.callers i, s.m_eventLock with
    | .entering t, none => some ({ s with m_eventLock := some (.caller i) }.setCaller i (.locked t))
    | _, _ => none
  | .push i signal =>
    match s.callers i with
    | .locked t => addEventPush s i signal t
    | _ => none
  | .callerUnlock i => addEventUnlock s i
  | .notify i =>
    match s.callers i with
    | .unlocked t true => some (s.signalled.setCaller i (.returning t))
    | .unlocked t false => some (s.setCaller i (.returning t))
    | _ => none
  | .callerReturn i =>
    match s.callers i with
    | .returning t => some ((s.record (.returned t.ptr t.getEventId)).setCaller i .outside)
    | _ => none
  | .stopEvent eventId =>
    if eventId = 0 ∨ s.m_eventLock = none then some (stopEvent s eventId) else none
  | .stop =>
    if s.m_eventLock = none then some { s with m_threadState := .STATE_CLOSING } else none
  | .shutdown =>
    if s.m_eventLock = none then
      some { s with m_threadState := .STATE_TERMINATED, m_eventList := [], m_eventIds := ∅ }
    else none
  | .test =>
    if s.thread = .loop then
      some { s with thread := if s.m_threadState = .STATE_TERMINATED then .exited else .locking }
    else none
  | .lock =>
    if s.thread = .locking ∧ s.m_eventLock = none then
      some { s with thread := .locked, m_eventLock := some .scheduler } else none
  | .wait t =>
    match s.thread, t with
    | .locked, none =>
      if s.m_eventList = [] then
        some { s with thread := .blocked .untimed, m_eventLock := none } else none
    | .locked, some t =>
      if IsTop t s.m_eventList then
        some { s with thread := .blocked (.timed t.getCycle), m_eventLock := none } else none
    | _, _ => none
  | .wake action =>
    match s.thread with
    | .blocked w | .notified w =>
      if WaitAnswer s.now action w then some { s with thread := .woken w action } else none
    | _ => none
  | .relock =>
    match s.thread, s.m_eventLock with
    | .woken w action, none =>
      some { s with thread := .resumed w action, m_eventLock := some .scheduler }
    | _, _ => none
  | .pop t =>
    match s.thread with
    | .resumed _ false =>
      if s.m_threadState ≠ .STATE_TERMINATED ∧ IsTop t s.m_eventList then some (popTop s t) else none
    | _ => none
  | .popEmpty =>
    match s.thread with
    | .resumed _ false =>
      if s.m_threadState ≠ .STATE_TERMINATED ∧ s.m_eventList = [] then
        some { s with thread := .undefined } else none
    | _ => none
  | .skip =>
    match s.thread with
    | .resumed _ action =>
      if action = true ∨ s.m_threadState = .STATE_TERMINATED then
        some { s with thread := .popped none } else none
    | _ => none
  | .unlock =>
    match s.thread with
    | .popped o => some { s with thread := .unlocked o, m_eventLock := none }
    | _ => none
  | .finish =>
    match s.thread with
    | .unlocked o => some (finishLoop s o)
    | _ => none

/-- Every run starts with the thread at its loop head, at any time of the clock. -/
def machine : Machine State Event where
  start s := ∃ now, s = initial now
  step := step

end LoginServer.Scheduler
