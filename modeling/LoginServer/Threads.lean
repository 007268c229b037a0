import LoginServer.Library.Locks
import LoginServer.WriteSide
import Mathlib.Data.Fintype.Sum
import Mathlib.Tactic.DeriveFintype

/-! # The threads of the running server and their mutexes

Every function of the running server that takes a mutex, as the instructions it stands for, in
the order of the source. `n` service threads run the handlers of any number of connections, the
dispatcher its tasks and the scheduler its events. A handler may run at any time; only `onWrite`
needs a started write. What a packet contains, what asio and the database report, which event is
due and how a wait ends are choices of the environment. -/
namespace LoginServer.Threads

open Locks Runs
open Connection (ErrorCode Arm)

inductive Mutex where
  | m_connectionLock (c : ℕ)
  | m_outputPoolLock
  | m_connectionManagerLock
  | m_taskLock
  | m_eventLock
  deriving DecidableEq, Repr

/-- `boost::recursive_mutex`; the other two are `boost::mutex`. -/
def Mutex.recursive : Mutex → Bool
  | .m_connectionLock _ | .m_outputPoolLock | .m_connectionManagerLock => true
  | .m_taskLock | .m_eventLock => false

/-- What the protocol of a connection asked for, with what its pointers count. A message is only
ever configured for the protocol and the connection of one number. -/
structure Message where
  ptr : ℕ
  m_connection : ℕ
  m_frame : UInt64
  deriving DecidableEq, Repr

inductive Task where
  | closeConnection (c : ℕ)
  | delegate (c : ℕ)
  | internalReleaseMessage (msg : Message)
  | releaseConnection (c : ℕ)
  | releaseProtocol (c : ℕ)
  | services
  | motdReloadTask
  deriving DecidableEq, Repr

structure Peer where
  write : WriteSide.State
  m_pendingRead : ℤ
  m_readError : Bool
  m_receivedFirst : Bool
  m_protocol : Bool
  m_refCount : ℤ
  protocol : Option Connection.Protocol
  deriving DecidableEq

structure State where
  peers : ℕ → Peer
  m_logError : Bool
  FORCE_CLOSE_SLOW_CONNECTION : Bool
  m_frameTime : UInt64
  m_shutdown : Bool
  m_addQueue : List Message
  m_autoSend : List Message
  handed : ℕ
  pointers : ℕ → ℕ
  writing : List Message
  m_taskList : List Task
  m_eventList : List Task
  m_connections : List ℕ
  created : ℕ

def initialPeer : Peer := ⟨WriteSide.initial, 0, false, false, false, 0, none⟩

def initialState (time : UInt64) (logError forceClose : Bool) : State where
  peers := fun _ => initialPeer
  m_logError := logError
  FORCE_CLOSE_SLOW_CONNECTION := forceClose
  m_frameTime := time
  m_shutdown := false
  m_addQueue := []
  m_autoSend := []
  handed := 0
  pointers := fun _ => 0
  writing := []
  m_taskList := []
  m_eventList := [.motdReloadTask]
  m_connections := []
  created := 0

def State.setPeer (s : State) (c : ℕ) (f : Peer → Peer) : State :=
  { s with peers := fun x => if x = c then f (s.peers x) else s.peers x }

def State.setWrite (s : State) (c : ℕ) (f : WriteSide.State → WriteSide.State) : State :=
  s.setPeer c fun peer => { peer with write := f peer.write }

def State.setPointers (s : State) (msg : Message) (f : ℕ → ℕ) : State :=
  { s with pointers := fun x => if x = msg.ptr then f (s.pointers x) else s.pointers x }

/-- How `onRecvFirstMessage` ends: the RSA block is bad, the version or a signature is refused,
or the attempts of the address are looked at. -/
inductive FirstMessage where
  | rsaFailed
  | rejected
  | checked (isDisabled : Bool)
  deriving DecidableEq, Repr

structure Packet where
  tooMany : Bool
  protocolMade : Bool
  first : FirstMessage
  deriving DecidableEq, Repr

/-- How `ProtocolLogin::delegate` ends: without an attempt counted, with a failed one, served. -/
inductive Login where
  | refused | failed | served
  deriving DecidableEq, Repr

/-- Where the pointer `output` ends: with the function, or with a block before the close. -/
inductive Scope where
  | function | block
  deriving DecidableEq, Repr

inductive Handler where
  | handle (accepted : Bool)
  | handleError
  | parseHeader (c : ℕ) (error : Option ErrorCode) (sizeOk : Bool)
  | parsePacket (c : ℕ) (error : Option ErrorCode) (p : Packet)
  | onWrite (msg : Message) (error : Option ErrorCode)
  | onReadTimeout (c : ℕ)
  | onWriteTimeout (c : ℕ)
  | onStop (c : ℕ)
  | stop
  deriving DecidableEq, Repr

inductive Action where
  | serve
  | tasksThread
  | schedulerThread
  | createConnection
  | eraseConnection (c : ℕ)
  | startRead (c : ℕ)
  | close (c : ℕ)
  | closeSocket (c : ℕ)
  | setReadError (c : ℕ)
  | setWriteError (c : ℕ)
  | checkHeader (c : ℕ)
  | checkPacket (c : ℕ) (p : Packet)
  | getOutputMessage (c : ℕ) (scope : Scope)
  | configureOutputMessage (c : ℕ) (scope : Scope)
  | closeThroughProtocol (c : ℕ)
  | send (msg : Message)
  | autoSend (msg : Message)
  | drop (msg : Message)
  | checkWrite (c : ℕ)
  | onReadTimeout (c : ℕ)
  | onWriteTimeout (c : ℕ)
  | onStop (c : ℕ)
  | addTask (t : Task) (front : Bool)
  | addEvent (t : Task)
  | awaitTask
  | takeTask
  | startExecutionFrame
  | execute (t : Task)
  | closeConnection (c : ℕ)
  | closing (c : ℕ)
  | closed (c : ℕ)
  | releaseProtocol (c : ℕ)
  | releaseConnection (c : ℕ)
  | unRef (msg : Message)
  | sendAll
  | sendNext (frameTime : UInt64)
  | eraseNext
  | takeEvent
  deriving DecidableEq, Repr

/-- What the environment decides, whichever action it is asked by: the handler, the end of
`delegate`, the time, how a read or a write starts, whether a port fails to open, the event that
is due, whether it was stopped, and whether its wait ended by a signal. -/
structure Choice where
  handler : Handler := .stop
  login : Login := .served
  time : UInt64 := 0
  arm : Arm := .started
  failed : Bool := false
  due : ℕ := 0
  stopped : Bool := false
  signalled : Bool := false

/-! ## The functions -/

abbrev Code := List (Instr Mutex Action)

def locked (l : Mutex) (code : Code) : Code := .lock l :: code ++ [.unlock l]

def addTask (t : Task) (front : Bool) : Code := locked .m_taskLock [.act (.addTask t front)]

def addEvent (t : Task) : Code := locked .m_eventLock [.act (.addEvent t)]

def close (c : ℕ) : Code := locked (.m_connectionLock c) [.act (.close c)]

def closeSocket (c : ℕ) : Code := locked (.m_connectionLock c) [.act (.closeSocket c)]

/-- Both error handlers close unless the operation was aborted, and then set their flag. -/
def handleError (c : ℕ) (error : Option ErrorCode) (set : Action) : Code :=
  locked (.m_connectionLock c)
    ((if error = some .operation_aborted then [] else close c) ++ [.act set])

def handleReadError (c : ℕ) (error : Option ErrorCode) : Code :=
  handleError c error (.setReadError c)

def handleWriteError (c : ℕ) (error : Option ErrorCode) : Code :=
  handleError c error (.setWriteError c)

def parseHeader (c : ℕ) (error : Option ErrorCode) (sizeOk : Bool) : Code :=
  locked (.m_connectionLock c)
    ((if error.isSome ∨ sizeOk = false then handleReadError c error else []) ++
      [.act (.checkHeader c)])

def parsePacket (c : ℕ) (error : Option ErrorCode) (p : Packet) : Code :=
  locked (.m_connectionLock c)
    ((if error.isSome then handleReadError c error else []) ++ [.act (.checkPacket c p)])

def disconnectClient (c : ℕ) : Code := [.act (.getOutputMessage c .function)]

def onRecvFirstMessage (c : ℕ) : FirstMessage → Code
  | .rsaFailed => [.act (.closeThroughProtocol c)]
  | .rejected => disconnectClient c
  | .checked isDisabled =>
    locked .m_connectionManagerLock [] ++
      if isDisabled then disconnectClient c else addTask (.delegate c) false

/-- The manager is locked by `addAttempt`. -/
def delegate (c : ℕ) : Login → Code
  | .refused => disconnectClient c
  | .failed => locked .m_connectionManagerLock [] ++ disconnectClient c
  | .served => locked .m_connectionManagerLock [] ++ [.act (.getOutputMessage c .block)]

/-- `OutputMessagePool::send` of a message got with `autoSend` off, so its state, read under the
lock, lets it go on to `Connection::send`, which ends with the unlock. -/
def poolSend (msg : Message) : Code :=
  locked .m_outputPoolLock [] ++ [.lock (.m_connectionLock msg.m_connection), .act (.send msg)]

def finishOutput (msg : Message) : Scope → Code
  | .function => [.act (.closeThroughProtocol msg.m_connection), .act (.drop msg)]
  | .block => [.act (.drop msg), .act (.closeThroughProtocol msg.m_connection)]

/-- The pointer that the handler keeps goes after it has run. -/
def onWrite (msg : Message) (error : Option ErrorCode) : Code :=
  locked (.m_connectionLock msg.m_connection)
    ((if error.isSome then handleWriteError msg.m_connection error else []) ++
      [.act (.checkWrite msg.m_connection)]) ++ [.act (.drop msg)]

def ConnectionManager.releaseConnection (c : ℕ) : Code :=
  locked .m_connectionManagerLock [.act (.eraseConnection c)]

def onStop (c : ℕ) : Code :=
  locked (.m_connectionLock c) [.act (.onStop c)] ++ ConnectionManager.releaseConnection c

def Handler.code : Handler → Code
  | .handle accepted =>
    locked .m_connectionManagerLock [] ++
      if accepted then [.lock .m_connectionManagerLock, .act .createConnection] else []
  | .handleError => addEvent .services
  | .parseHeader c error sizeOk => Threads.parseHeader c error sizeOk
  | .parsePacket c error p => Threads.parsePacket c error p
  | .onWrite msg error => Threads.onWrite msg error
  | .onReadTimeout c => locked (.m_connectionLock c) [.act (.onReadTimeout c)]
  | .onWriteTimeout c => locked (.m_connectionLock c) [.act (.onWriteTimeout c)]
  | .onStop c => Threads.onStop c
  | .stop => []

def sendAll : Code := locked .m_outputPoolLock [.act .sendAll]

def Task.code (failed : Bool) (login : Login) : Task → Code
  | .closeConnection c => locked (.m_connectionLock c) [.act (.closeConnection c)]
  | .delegate c => Threads.delegate c login
  | .internalReleaseMessage msg => .act (.unRef msg) :: locked .m_outputPoolLock []
  | .releaseConnection c => [.act (.releaseConnection c)]
  | .releaseProtocol c => [.act (.releaseProtocol c)]
  | .services => if failed then addEvent .services else []
  | .motdReloadTask => addEvent .motdReloadTask

/-! ## The actions -/

def isClosed (w : WriteSide.State) : Prop :=
  w.m_connectionState = .CONNECTION_STATE_CLOSING ∨ w.m_connectionState = .CONNECTION_STATE_CLOSED ∨
    w.m_connectionState = .CONNECTION_STATE_REQUEST_CLOSE

instance (w : WriteSide.State) : Decidable (isClosed w) := inferInstanceAs (Decidable (_ ∨ _))

/-- The handler starts; a write must be one of the started ones. -/
def State.begin (s : State) : Handler → Option State
  | .onWrite msg _ => if msg ∈ s.writing then some { s with writing := s.writing.erase msg } else none
  | .stop => some { s with m_shutdown := true }
  | _ => some s

def State.readStarted (s : State) (c : ℕ) : State :=
  s.setPeer c fun peer => { peer with m_pendingRead := peer.m_pendingRead + 1 }

def State.readDone (s : State) (c : ℕ) : State :=
  s.setPeer c fun peer => { peer with m_pendingRead := peer.m_pendingRead - 1 }

def startRead (s : State) (c : ℕ) (a : Arm) : State × Code :=
  if a = .started ∨ s.m_logError = false then (s.readStarted c, [])
  else ({ s.readStarted c with m_logError := false }, close c)

def firstPacket (s : State) (c : ℕ) (p : Packet) : State × Code :=
  let s := s.setPeer c fun peer => { peer with m_receivedFirst := true }
  if (s.peers c).m_protocol = false ∧ p.protocolMade = false then (s, close c)
  else
    (if (s.peers c).m_protocol then s
      else s.setPeer c fun peer =>
        { peer with m_protocol := true, protocol := some ⟨false, true, 0⟩ },
      onRecvFirstMessage c p.first ++ [.act (.startRead c)])

def checkPacket (s : State) (c : ℕ) (p : Packet) : Option (State × Code) :=
  let peer := s.peers c
  if peer.write.m_connectionState ≠ .CONNECTION_STATE_OPEN ∨ peer.m_readError = true ∨
      p.tooMany = true then some (s, close c)
  else if peer.m_receivedFirst = false then some (firstPacket (s.readDone c) c p)
  else if peer.m_protocol then some (s.readDone c, [.act (.startRead c)])
  else none

/-- The message is configured for the protocol and its connection, and one pointer is handed out;
a deleted protocol has no next state. -/
def configureOutputMessage (s : State) (c : ℕ) (scope : Scope) : Option (State × Code) :=
  match (s.peers c).protocol with
  | some ⟨false, true, _⟩ =>
    let msg : Message := ⟨s.handed, c, s.m_frameTime⟩
    let s := s.setPeer c fun peer => { peer with
      m_refCount := peer.m_refCount + 1
      protocol := peer.protocol.map fun p => { p with m_refCount := p.m_refCount + 1 } }
    some ({ s.setPointers msg fun _ => 1 with handed := s.handed + 1 },
      .unlock .m_outputPoolLock :: poolSend msg ++ finishOutput msg scope)
  | some ⟨false, false, _⟩ =>
    some (s, [.unlock .m_outputPoolLock, .act (.closeThroughProtocol c)])
  | _ => none

/-- `Connection::send` under its lock, with the unlock it ends with. -/
def send (s : State) (msg : Message) (a : Arm) : State × Code :=
  let c := msg.m_connection
  match WriteSide.sending (s.peers c).write s.FORCE_CLOSE_SLOW_CONNECTION with
  | .refused => (s, [.unlock (.m_connectionLock c)])
  | .written =>
    let s := s.setWrite c fun w => WriteSide.send w s.FORCE_CLOSE_SLOW_CONNECTION
    (if a = .started then { s.setPointers msg (· + 1) with writing := msg :: s.writing } else s,
      [.unlock (.m_connectionLock c)])
  | .forced => (s, close c ++ [.unlock (.m_connectionLock c)])
  | .queued => (s, locked .m_outputPoolLock [.act (.autoSend msg)] ++ [.unlock (.m_connectionLock c)])

/-- The last pointer of a message goes: `releaseMessage`. -/
def drop (s : State) (msg : Message) : State × Code :=
  let s := s.setPointers msg (· - 1)
  (s, if s.pointers msg.ptr = 0 then addTask (.internalReleaseMessage msg) true else [])

def closeThroughProtocol (s : State) (c : ℕ) : Option (State × Code) :=
  match (s.peers c).protocol with
  | some ⟨false, true, _⟩ => some (s, close c)
  | _ => none

def closeConnection (s : State) (c : ℕ) : State × Code :=
  if (s.peers c).write.m_connectionState ≠ .CONNECTION_STATE_REQUEST_CLOSE then (s, [])
  else if (s.peers c).m_protocol then
    (s.setPeer c fun peer => { peer with
      protocol := peer.protocol.map fun p => { p with m_connection := false } },
      [.act (.releaseProtocol c), .act (.closing c)])
  else (s, [.act (.closing c)])

def closing (s : State) (c : ℕ) : State × Code :=
  let write := (s.peers c).write
  (s.setPeer c fun peer => { peer with
    m_protocol := false
    write := { peer.write with m_connectionState := .CONNECTION_STATE_CLOSING } },
    if write.m_pendingWrite = 0 ∨ write.m_writeError = true then
      closeSocket c ++ [.act (.releaseConnection c), .act (.closed c)]
    else [])

def releaseProtocol (s : State) (c : ℕ) : State × Code :=
  if (s.peers c).protocol.any fun p => p.m_refCount > 0 then (s, addEvent (.releaseProtocol c))
  else (s.setPeer c fun peer => { peer with
    protocol := peer.protocol.map fun p => { p with m_connection := false, deleted := true } }, [])

def unRef (s : State) (msg : Message) : State :=
  s.setPeer msg.m_connection fun peer => { peer with
    m_refCount := peer.m_refCount - 1
    protocol := peer.protocol.map fun p => { p with m_refCount := p.m_refCount - 1 } }

/-- One round of the first loop of `sendAll`. -/
def requeue (dropTime frameTime : UInt64) (s : State) (msg : Message) : State :=
  if msg.m_frame ≥ dropTime then
    let s := s.setPointers msg (· + 1)
    if frameTime > msg.m_frame then { s with m_autoSend := msg :: s.m_autoSend }
    else { s with m_autoSend := s.m_autoSend ++ [msg] }
  else s

/-- The first loop of `sendAll`; the pointers of `m_addQueue` go when it is cleared. -/
def beginSendAll (s : State) : State × Code :=
  let frameTime := s.m_frameTime - 10
  ({ s.m_addQueue.foldl (requeue (s.m_frameTime - 10000) frameTime) s with m_addQueue := [] },
    (s.m_addQueue.map fun msg => .act (.drop msg)) ++ [.act (.sendNext frameTime)])

/-- A round of the second loop. -/
def sendNext (s : State) (frameTime : UInt64) : Code :=
  match s.m_autoSend with
  | [] => []
  | msg :: _ =>
    if frameTime ≤ msg.m_frame then []
    else [.lock (.m_connectionLock msg.m_connection), .act (.send msg), .act .eraseNext,
      .act (.sendNext frameTime)]

def eraseNext (s : State) : State × Code :=
  match s.m_autoSend with
  | [] => (s, [])
  | msg :: rest => ({ s with m_autoSend := rest }, [.act (.drop msg)])

/-- A task that is taken runs between `startExecutionFrame` and `sendAll`. -/
def takeTask (s : State) : State × Code :=
  match s.m_taskList with
  | [] => (s, [.unlock .m_taskLock, .act .tasksThread])
  | t :: rest =>
    ({ s with m_taskList := rest },
      [.unlock .m_taskLock, .act .startExecutionFrame, .act (.execute t)] ++ sendAll ++
        [.act .tasksThread])

/-- What the scheduler does once its wait is over: after a signal it waits anew, else the event
that is due goes to the dispatcher unless it was stopped. -/
def takeEvent (s : State) (i : Choice) : Option (State × Code) :=
  if i.signalled then some (s, [.unlock .m_eventLock, .act .schedulerThread])
  else match s.m_eventList[i.due]? with
    | none => none
    | some t =>
      some ({ s with m_eventList := s.m_eventList.eraseIdx i.due },
        .unlock .m_eventLock :: (if i.stopped then [] else addTask t true) ++
          [.act .schedulerThread])

def exec (i : Choice) (s : State) : Action → Option (State × Code)
  | .serve => (s.begin i.handler).map fun s => (s, i.handler.code ++ [.act .serve])
  | .tasksThread => some (s, [.lock .m_taskLock, .act .awaitTask])
  | .schedulerThread =>
    -- both waits give the mutex back and take it again
    some (s, [.lock .m_eventLock, .unlock .m_eventLock, .lock .m_eventLock, .act .takeEvent])
  | .createConnection =>
    some ({ s with m_connections := s.m_connections ++ [s.created], created := s.created + 1 },
      [.unlock .m_connectionManagerLock, .act (.startRead s.created)])
  | .eraseConnection c => some ({ s with m_connections := s.m_connections.erase c }, [])
  | .startRead c => some (startRead s c i.arm)
  | .close c =>
    if isClosed (s.peers c).write then some (s, [])
    else some (s.setWrite c WriteSide.close, addTask (.closeConnection c) false)
  | .closeSocket c =>
    some (s.setPeer c fun peer => { peer with
      m_pendingRead := if peer.write.socketOpen then 0 else peer.m_pendingRead
      write := WriteSide.closeSocket peer.write }, [])
  | .setReadError c => some (s.setPeer c fun peer => { peer with m_readError := true }, [])
  | .setWriteError c => some (s.setWrite c fun w => { w with m_writeError := true }, [])
  | .checkHeader c =>
    if (s.peers c).write.m_connectionState ≠ .CONNECTION_STATE_OPEN ∨
        (s.peers c).m_readError = true then some (s, close c)
    else some (s.readDone c, [.act (.startRead c)])
  | .checkPacket c p => checkPacket s c p
  | .getOutputMessage c scope =>
    some (s, if s.m_shutdown then [.act (.closeThroughProtocol c)]
      else [.lock .m_outputPoolLock, .act (.configureOutputMessage c scope)])
  | .configureOutputMessage c scope => configureOutputMessage s c scope
  | .closeThroughProtocol c => closeThroughProtocol s c
  | .send msg => some (send s msg i.arm)
  | .autoSend msg =>
    some ({ s.setPointers msg (· + 1) with m_addQueue := s.m_addQueue ++ [msg] }, [])
  | .drop msg => some (drop s msg)
  | .checkWrite c =>
    if (s.peers c).write.m_connectionState ≠ .CONNECTION_STATE_OPEN ∨
        (s.peers c).write.m_writeError = true then some (s, closeSocket c ++ close c)
    else some (s.setWrite c fun w => { w with m_pendingWrite := w.m_pendingWrite - 1 }, [])
  | .onReadTimeout c =>
    some (s, if (s.peers c).m_pendingRead > 0 ∨ (s.peers c).m_readError = true then
      closeSocket c ++ close c else [])
  | .onWriteTimeout c =>
    some (s, if (s.peers c).write.m_pendingWrite > 0 ∨ (s.peers c).write.m_writeError = true then
      closeSocket c ++ close c else [])
  | .onStop c => some (s.setWrite c fun w => { w with socketOpen := false }, [])
  | .addTask t front =>
    some ({ s with m_taskList := if front then t :: s.m_taskList else s.m_taskList ++ [t] }, [])
  | .addEvent t => some ({ s with m_eventList := s.m_eventList ++ [t] }, [])
  | .awaitTask =>
    -- the wait for a task gives the mutex back and takes it again
    some (s, if s.m_taskList = [] then [.unlock .m_taskLock, .lock .m_taskLock, .act .takeTask]
      else [.act .takeTask])
  | .takeTask => some (takeTask s)
  | .startExecutionFrame => some ({ s with m_frameTime := i.time, m_shutdown := false }, [])
  | .execute t => some (s, t.code i.failed i.login)
  | .closeConnection c => some (closeConnection s c)
  | .closing c => some (closing s c)
  | .closed c =>
    some (s.setWrite c fun w => { w with m_connectionState := .CONNECTION_STATE_CLOSED }, [])
  | .releaseProtocol c => some (releaseProtocol s c)
  | .releaseConnection c =>
    some (s, if (s.peers c).m_refCount > 0 then addEvent (.releaseConnection c) else [])
  | .unRef msg => some (unRef s msg, [])
  | .sendAll => some (beginSendAll s)
  | .sendNext frameTime => some (s, sendNext s frameTime)
  | .eraseNext => some (eraseNext s)
  | .takeEvent => takeEvent s i

def program : Program Mutex Action State Choice := ⟨Mutex.recursive, exec⟩

/-! ## The server -/

inductive Thread (n : ℕ) where
  | service (i : Fin n)
  | dispatcher
  | scheduler
  deriving DecidableEq, Fintype

abbrev Server (n : ℕ) := Config (Thread n) Mutex Action State

def Thread.code {n : ℕ} : Thread n → Code
  | .service _ => [.act .serve]
  | .dispatcher => [.act .tasksThread]
  | .scheduler => [.act .schedulerThread]

def initial (n : ℕ) (time : UInt64) (logError forceClose : Bool) : Server n where
  shared := initialState time logError forceClose
  held := fun _ => []
  code := Thread.code

def server (n : ℕ) : Machine (Server n) (Thread n × Choice) :=
  machine program fun s => ∃ time logError forceClose, s = initial n time logError forceClose

end LoginServer.Threads
