import LoginServer.Library.Runs
import Mathlib.Data.Int.Notation
import Mathlib.Data.List.Count
import Mathlib.Data.List.Pairwise

/-! # One connection, from accept to release

The handlers of a `Connection`, its protocol object, the dispatcher tasks, scheduler events and
asio operations started for it. A handler that holds `m_connectionLock` is one step; `onStop`
and a timeout handler, which act outside the lock too, are two. What a packet contains, whether
arming throws and what asio reports are arguments of the step, so a run ranges over all of them. -/
namespace LoginServer.Connection

open Runs

inductive ConnectionState where
  | CONNECTION_STATE_OPEN
  | CONNECTION_STATE_REQUEST_CLOSE
  | CONNECTION_STATE_CLOSING
  | CONNECTION_STATE_CLOSED
  deriving DecidableEq, Repr

/-- The classes of asio errors that the handlers tell apart. -/
inductive ErrorCode where
  | operation_aborted
  | closed_remotely
  | other
  deriving DecidableEq, Repr

inductive Read where
  | header | packet
  deriving DecidableEq, Repr

/-- A started `async_wait`. `locked` is a handler whose `weak.lock()` has succeeded. -/
inductive Timer where
  | armed | expired | aborted | locked
  deriving DecidableEq, Repr

inductive Retry where
  | releaseConnection | releaseProtocol
  deriving DecidableEq, Repr

inductive Task where
  | closeConnection | delegate | internalReleaseMessage
  | retry (r : Retry)
  deriving DecidableEq, Repr

/-- How far `ProtocolLogin::delegate` has got on the dispatcher thread. -/
inductive Stage where
  | started | holding | submitted
  deriving DecidableEq, Repr

structure Protocol where
  deleted : Bool
  m_connection : Bool
  m_refCount : ℤ
  deriving DecidableEq, Repr

/-- A pointer is kept as whether it is set; `m_socket` also says whether the socket is open.
`writes` and `queued` count messages, one for each started write and each entry in the pool's
two queues. `delegates` and `stops` count how often `delegate` was enqueued and `onStop` done, and
`unposted` how often `onStop` could not be posted. -/
structure State where
  m_connectionState : ConnectionState
  m_pendingRead : ℤ
  m_pendingWrite : ℤ
  m_readError : Bool
  m_writeError : Bool
  m_receivedFirst : Bool
  m_refCount : ℤ
  m_protocol : Bool
  m_socket : Option Bool
  m_logError : Bool
  FORCE_CLOSE_SLOW_CONNECTION : Bool
  accepted : Bool
  registered : Bool
  protocol : Option Protocol
  reads : List Read
  writes : ℕ
  readTimers : List Timer
  writeTimers : List Timer
  posted : ℕ
  unposted : ℕ
  stopping : Bool
  stops : ℕ
  tasks : List Task
  running : Option Stage
  events : List Retry
  queued : ℕ
  delegates : ℕ
  undefined : Bool

/-- A connection just made by `createConnection`; the two flags are shared or configured. -/
def initial (logError forceClose : Bool) : State where
  m_connectionState := .CONNECTION_STATE_OPEN
  m_pendingRead := 0
  m_pendingWrite := 0
  m_readError := false
  m_writeError := false
  m_receivedFirst := false
  m_refCount := 0
  m_protocol := false
  m_socket := some true
  m_logError := logError
  FORCE_CLOSE_SLOW_CONNECTION := forceClose
  accepted := false
  registered := true
  protocol := none
  reads := []
  writes := 0
  readTimers := []
  writeTimers := []
  posted := 0
  unposted := 0
  stopping := false
  stops := 0
  tasks := []
  running := none
  events := []
  queued := 0
  delegates := 0
  undefined := false

def State.addTask (s : State) (t : Task) : State := { s with tasks := s.tasks ++ [t] }
def State.addTaskFront (s : State) (t : Task) : State := { s with tasks := t :: s.tasks }
def State.addEvent (s : State) (r : Retry) : State := { s with events := s.events ++ [r] }

/-- `cancel()`: a wait that has not expired will report `operation_aborted`. -/
def cancel (l : List Timer) : List Timer :=
  l.map fun t => if t = .armed then .aborted else t

def close (s : State) : State :=
  if s.m_connectionState = .CONNECTION_STATE_CLOSING ∨
      s.m_connectionState = .CONNECTION_STATE_CLOSED ∨
      s.m_connectionState = .CONNECTION_STATE_REQUEST_CLOSE then s
  else { s.addTask .closeConnection with m_connectionState := .CONNECTION_STATE_REQUEST_CLOSE }

def closeSocket (s : State) : State :=
  match s.m_socket with
  | none => { s with undefined := true }
  | some true => { s with m_pendingRead := 0, m_pendingWrite := 0, m_socket := some false }
  | some false => s

/-- `throws` is whether `boost::asio::post` throws: then the handler only logs it. -/
def deleteConnection (s : State) (throws : Bool) : State :=
  if throws then { s with m_logError := false, unposted := s.unposted + 1 }
  else { s with posted := s.posted + 1 }

def releaseConnection (s : State) (throws : Bool) : State :=
  if s.m_refCount ≠ 0 then s.addEvent .releaseConnection else deleteConnection s throws

def deleteProtocolTask (s : State) : State :=
  { s with protocol := s.protocol.map fun p => { p with m_connection := false, deleted := true } }

def releaseProtocol (s : State) : State :=
  if s.protocol.any (fun p => p.m_refCount ≠ 0) then s.addEvent .releaseProtocol
  else deleteProtocolTask s

def setConnection (s : State) (connection : Bool) : State :=
  { s with protocol := s.protocol.map fun p => { p with m_connection := connection } }

def detachProtocol (s : State) : State :=
  if s.m_protocol then { releaseProtocol (setConnection s false) with m_protocol := false } else s

def enterClosing (s : State) : State :=
  { detachProtocol s with m_connectionState := .CONNECTION_STATE_CLOSING }

def finishClose (s : State) (throws : Bool) : State :=
  { releaseConnection (closeSocket s) throws with m_connectionState := .CONNECTION_STATE_CLOSED }

def closeConnection (s : State) (throws : Bool) : State :=
  if s.m_connectionState ≠ .CONNECTION_STATE_REQUEST_CLOSE then s
  else if (enterClosing s).m_pendingWrite = 0 ∨ (enterClosing s).m_writeError = true then
    finishClose (enterClosing s) throws
  else enterClosing s

/-- `onStop` up to its unlock; `stopping` until the manager has forgotten the connection. -/
def onStop (s : State) : State :=
  match s.m_socket with
  | none => { s with undefined := true }
  | some _ => { s with
      readTimers := cancel s.readTimers
      writeTimers := cancel s.writeTimers
      m_socket := none
      stopping := true }

def managerRelease (s : State) : State :=
  { s with registered := false, stopping := false, stops := s.stops + 1 }

/-- Where the `try` block that arms a timer and starts an operation ends. -/
inductive Arm where
  | started | waitThrows | operationThrows
  deriving DecidableEq, Repr

/-- The handler of the read side's `try` blocks: it closes only while errors are still logged. -/
def caught (s : State) : State :=
  if s.m_logError then close { s with m_logError := false } else s

def startRead (s : State) (r : Read) : Arm → State
  | .started =>
    { s with
      m_pendingRead := s.m_pendingRead + 1
      readTimers := cancel s.readTimers ++ [.armed]
      reads := s.reads ++ [r] }
  | .waitThrows =>
    caught { s with m_pendingRead := s.m_pendingRead + 1, readTimers := cancel s.readTimers }
  | .operationThrows =>
    caught { s with
      m_pendingRead := s.m_pendingRead + 1
      readTimers := cancel s.readTimers ++ [.armed] }

def accept (s : State) (a : Arm) : State := startRead { s with accepted := true } .header a

def handleReadError (s : State) (error : Option ErrorCode) : State :=
  { (if error = some .operation_aborted then s else close s) with m_readError := true }

def handleWriteError (s : State) (error : Option ErrorCode) : State :=
  { (if error = some .operation_aborted then s else close s) with m_writeError := true }

/-- `sizeOk` is `0 < size < NETWORK_MAX_SIZE - 16` of the decoded header. -/
def parseHeader (s : State) (error : Option ErrorCode) (sizeOk : Bool) (a : Arm) : State :=
  let s := { s with readTimers := cancel s.readTimers }
  let s := if error.isSome ∨ sizeOk = false then handleReadError s error else s
  if s.m_connectionState ≠ .CONNECTION_STATE_OPEN ∨ s.m_readError = true then close s
  else startRead { s with m_pendingRead := s.m_pendingRead - 1 } .packet a

/-- The message the caller holds goes out of scope: `releaseMessage`. -/
def releaseMessage (s : State) : State := s.addTaskFront .internalReleaseMessage

/-- `ProtocolLogin` gets its message with `autoSend` off; a stopped pool or a null connection
answers nothing. -/
def getOutputMessage (s : State) (pool : Bool) : Option State :=
  if pool = true ∧ s.protocol.any (·.m_connection) then
    some { s with
      m_refCount := s.m_refCount + 1
      protocol := s.protocol.map fun p => { p with m_refCount := p.m_refCount + 1 } }
  else none

def internalReleaseMessage (s : State) : State :=
  { s with
    m_refCount := s.m_refCount - 1
    protocol := s.protocol.map fun p => { p with m_refCount := p.m_refCount - 1 } }

/-- The handler of `internalSend` only logs. A write that did not start lets its message go. -/
def internalSend (s : State) : Arm → State
  | .started =>
    { s with
      m_pendingWrite := s.m_pendingWrite + 1
      writeTimers := cancel s.writeTimers ++ [.armed]
      writes := s.writes + 1 }
  | .waitThrows =>
    releaseMessage { s with
      m_pendingWrite := s.m_pendingWrite + 1
      writeTimers := cancel s.writeTimers
      m_logError := false }
  | .operationThrows =>
    releaseMessage { s with
      m_pendingWrite := s.m_pendingWrite + 1
      writeTimers := cancel s.writeTimers ++ [.armed]
      m_logError := false }

/-- `Connection::send` with the caller's message: it is written, kept by `autoSend` or let go. -/
def send (s : State) (a : Arm) : State :=
  if s.m_connectionState ≠ .CONNECTION_STATE_OPEN ∨ s.m_writeError = true then releaseMessage s
  else if s.m_pendingWrite = 0 then internalSend s a
  else if s.m_pendingWrite > 100 ∧ s.FORCE_CLOSE_SLOW_CONNECTION = true then
    releaseMessage (close s)
  else { s with queued := s.queued + 1 }

/-- `getConnection()->close()` through the protocol object of the running code. -/
def closeThroughProtocol (s : State) : State :=
  match s.protocol with
  | some ⟨false, true, _⟩ => close s
  | _ => { s with undefined := true }

def disconnectClient (s : State) (pool : Bool) (a : Arm) : State :=
  match getOutputMessage s pool with
  | some s => closeThroughProtocol (send s a)
  | none => closeThroughProtocol s

/-- How `ProtocolLogin::onRecvFirstMessage` ends for the first packet. -/
inductive FirstMessage where
  | rsaFailed
  | disconnected (pool : Bool) (a : Arm)
  | dispatched
  deriving DecidableEq, Repr

def onRecvFirstMessage (s : State) : FirstMessage → State
  | .rsaFailed => closeThroughProtocol s
  | .disconnected pool a => disconnectClient s pool a
  | .dispatched => { s.addTask .delegate with delegates := s.delegates + 1 }

/-- What `parsePacket` finds in a packet: whether the packet rate is exceeded, whether
`makeProtocol` answers a protocol, and the fate of a first message. -/
structure Packet where
  tooMany : Bool
  protocolMade : Bool
  first : FirstMessage
  deriving DecidableEq, Repr

def attachProtocol (s : State) : State :=
  { s with protocol := some ⟨false, true, 0⟩, m_protocol := true }

def firstPacket (s : State) (p : Packet) (a : Arm) : State :=
  let s := { s with m_receivedFirst := true }
  if s.m_protocol = false ∧ p.protocolMade = false then close s
  else
    let s := if s.m_protocol then s else attachProtocol s
    startRead (onRecvFirstMessage s p.first) .header a

def parsePacket (s : State) (error : Option ErrorCode) (p : Packet) (a : Arm) : State :=
  let s := { s with readTimers := cancel s.readTimers }
  let s := if error.isSome then handleReadError s error else s
  if s.m_connectionState ≠ .CONNECTION_STATE_OPEN ∨ s.m_readError = true then close s
  else if p.tooMany then close s
  else
    let s := { s with m_pendingRead := s.m_pendingRead - 1 }
    if s.m_receivedFirst = false then firstPacket s p a
    else if s.m_protocol then startRead s .header a
    else { s with undefined := true }

/-- The message of the finished write is let go when the handler returns. -/
def onWrite (s : State) (error : Option ErrorCode) : State :=
  let s := { s with writeTimers := cancel s.writeTimers }
  let s := if error.isSome then handleWriteError s error else s
  if s.m_connectionState ≠ .CONNECTION_STATE_OPEN ∨ s.m_writeError = true then
    releaseMessage (close (closeSocket s))
  else releaseMessage { s with m_pendingWrite := s.m_pendingWrite - 1 }

def onReadTimeout (s : State) : State :=
  if s.m_pendingRead > 0 ∨ s.m_readError = true then close (closeSocket s) else s

def onWriteTimeout (s : State) : State :=
  if s.m_pendingWrite > 0 ∨ s.m_writeError = true then close (closeSocket s) else s

/-- Some `shared_ptr` still owns the connection, so a timer's `weak.lock()` succeeds. -/
def State.alive (s : State) : Prop :=
  s.registered = true ∨ s.stopping = true ∨ s.reads ≠ [] ∨ s.writes ≠ 0 ∨ s.m_refCount ≠ 0 ∨
    Timer.locked ∈ s.readTimers ++ s.writeTimers ∨ s.protocol.any (·.m_connection) = true

instance (s : State) : Decidable s.alive := inferInstanceAs (Decidable (_ ∨ _))

def State.retry (s : State) (throws : Bool) : Retry → State
  | .releaseConnection => releaseConnection s throws
  | .releaseProtocol => releaseProtocol s

/-- The dispatcher runs the task it has just taken; `delegate` goes on in steps of its own. -/
def State.execute (s : State) (throws : Bool) : Task → State
  | .closeConnection => closeConnection s throws
  | .delegate => { s with running := some .started }
  | .internalReleaseMessage => internalReleaseMessage s
  | .retry r => s.retry throws r

inductive Event where
  | accept (a : Arm)
  | parseHeader (error : Option ErrorCode) (sizeOk : Bool) (a : Arm)
  | parsePacket (error : Option ErrorCode) (p : Packet) (a : Arm)
  | onWrite (error : Option ErrorCode)
  | expire (write : Bool)
  | timeout (write : Bool) (t : Timer)
  | close
  | dispatch (throws : Bool)
  | obtain (pool : Bool)
  | submit (a : Arm)
  | delegateClose
  | sendAll (a : Arm)
  | sendAllDrop
  | fire (r : Retry)
  | onStop
  | managerRelease
  | logErrorElsewhere
  deriving DecidableEq, Repr

def State.timers (s : State) (write : Bool) : List Timer :=
  if write then s.writeTimers else s.readTimers

def State.setTimers (s : State) (write : Bool) (l : List Timer) : State :=
  if write then { s with writeTimers := l } else { s with readTimers := l }

/-- One timer handler: an aborted one returns, an expired one takes its `shared_ptr` if it can,
and one that has it enters `onReadTimeout` or `onWriteTimeout`. -/
def timeoutHandler (s : State) (write : Bool) (t : Timer) : Option State :=
  let rest := (s.timers write).erase t
  match t with
  | .armed => none
  | .aborted => some (s.setTimers write rest)
  | .expired => some (s.setTimers write (if s.alive then rest ++ [.locked] else rest))
  | .locked =>
    let s := s.setTimers write rest
    some (if write then onWriteTimeout s else onReadTimeout s)

/-- The steps inside `delegate`: it gets its one message, sends it and closes, or closes at
once when the pool answers nothing. -/
def delegateStep (s : State) (stage : Stage) : Event → Option State
  | .obtain pool =>
    if stage ≠ .started then none
    else match getOutputMessage s pool with
      | some s => some { s with running := some .holding }
      | none => some { s with running := some .submitted }
  | .submit a => if stage = .holding then some { send s a with running := some .submitted } else none
  | .delegateClose =>
    if stage = .submitted then some { closeThroughProtocol s with running := none } else none
  | _ => none

def liveStep (s : State) : Event → Option State
  | .accept a => if s.accepted then none else some (accept s a)
  | .parseHeader error sizeOk a =>
    if .header ∈ s.reads then
      some (parseHeader { s with reads := s.reads.erase .header } error sizeOk a) else none
  | .parsePacket error p a =>
    if .packet ∈ s.reads then
      some (parsePacket { s with reads := s.reads.erase .packet } error p a) else none
  | .onWrite error =>
    if s.writes = 0 then none else some (onWrite { s with writes := s.writes - 1 } error)
  | .expire write =>
    some (s.setTimers write ((s.timers write).map fun t => if t = .armed then .expired else t))
  | .timeout write t => if t ∈ s.timers write then timeoutHandler s write t else none
  | .close => some (close s)
  | .dispatch throws =>
    match s.running, s.tasks with
    | none, t :: rest => some ({ s with tasks := rest }.execute throws t)
    | _, _ => none
  | .sendAll a =>
    if s.running = none ∧ s.queued ≠ 0 then some (send { s with queued := s.queued - 1 } a) else none
  | .sendAllDrop =>
    if s.running = none ∧ s.queued ≠ 0 then
      some (releaseMessage { s with queued := s.queued - 1 }) else none
  | .fire r =>
    if r ∈ s.events then
      some ({ s with events := s.events.erase r }.addTaskFront (.retry r)) else none
  | .onStop => if s.posted = 0 then none else some (onStop { s with posted := s.posted - 1 })
  | .managerRelease => if s.stopping then some (managerRelease s) else none
  | .logErrorElsewhere => some { s with m_logError := false }
  | e => s.running.bind fun stage => delegateStep s stage e

/-- Nothing is said about what follows the use of a null pointer. -/
def step (s : State) (e : Event) : Option State := if s.undefined then none else liveStep s e

def machine : Machine State Event where
  start s := ∃ logError forceClose, s = initial logError forceClose
  step := step

structure Quiescent (s : State) : Prop where
  reads : s.reads = []
  writes : s.writes = 0
  readTimers : s.readTimers = []
  writeTimers : s.writeTimers = []
  tasks : s.tasks = []
  running : s.running = none
  events : s.events = []
  posted : s.posted = 0
  stopping : s.stopping = false

end LoginServer.Connection
