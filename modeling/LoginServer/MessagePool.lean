import LoginServer.WriteSide

/-! # The pool of output messages

`outputmessage.cpp` under any number of callers, protocols and connections. A shared pointer is an
entry of the list of its owner: a caller, a call of `send`, one of the pool's two queues, or a
started write; when the last one goes the message waits for its release task. A step is one
critical section, and `sendAll`, which keeps the pool lock for its whole run, is one step up to
its second loop and one for each message of that loop. -/
namespace LoginServer.MessagePool

open Runs
open Connection (ErrorCode Arm)

def OUTPUT_POOL_SIZE : ℕ := 100

inductive OutputMessageState where
  | STATE_FREE
  | STATE_ALLOCATED
  | STATE_ALLOCATED_NO_AUTOSEND
  deriving DecidableEq, Repr

/-- `serial` numbers the times a message is handed out, and `submitted` says whether it has been
given to `send` or to the queues since. -/
structure Message where
  m_protocol : Option ℕ
  m_connection : Option ℕ
  m_state : OutputMessageState
  m_frame : UInt64
  serial : ℕ
  submitted : Bool
  deriving DecidableEq, Repr

/-- A reference stands for a message in memory, so the 32 bits of a count are never used up. -/
structure Protocol where
  m_connection : Option ℕ
  m_refCount : ℤ
  deleted : Bool
  deriving DecidableEq, Repr

structure Peer where
  write : WriteSide.State
  m_refCount : ℤ
  deleted : Bool
  deriving DecidableEq, Repr

inductive Framing where
  | direct | refused | dropped
  deriving DecidableEq, Repr

inductive Record where
  | framed (serial : ℕ) (why : Framing)
  | written (serial : ℕ)
  deriving DecidableEq, Repr

/-- `configured` lists the messages with the protocol and connection they were configured for and
that have not been through `internalReleaseMessage`. -/
structure State where
  m_outputMessages : List ℕ
  m_autoSend : List ℕ
  m_addQueue : List ℕ
  m_frameTime : UInt64
  m_shutdown : Bool
  FORCE_CLOSE_SLOW_CONNECTION : Bool
  messages : ℕ → Message
  allocated : ℕ
  protocols : ℕ → Protocol
  peers : ℕ → Peer
  held : List ℕ
  sending : List ℕ
  writing : List ℕ
  frameTime : Option UInt64
  releases : List ℕ
  handed : ℕ
  configured : List (ℕ × ℕ × ℕ)
  history : List Record

def Message.free (m : Message) : Message :=
  { m with m_protocol := none, m_connection := none, m_state := .STATE_FREE, m_frame := 0 }

def initial (time : UInt64) (forceClose : Bool) : State where
  m_outputMessages := List.range OUTPUT_POOL_SIZE
  m_autoSend := []
  m_addQueue := []
  m_frameTime := time
  m_shutdown := false
  FORCE_CLOSE_SLOW_CONNECTION := forceClose
  messages := fun _ => ⟨none, none, .STATE_FREE, 0, 0, false⟩
  allocated := OUTPUT_POOL_SIZE
  protocols := fun _ => ⟨none, 0, false⟩
  peers := fun _ => ⟨WriteSide.initial, 0, false⟩
  held := []
  sending := []
  writing := []
  frameTime := none
  releases := []
  handed := 0
  configured := []
  history := []

def State.setMessage (s : State) (m : ℕ) (f : Message → Message) : State :=
  { s with messages := fun x => if x = m then f (s.messages x) else s.messages x }

def State.setProtocol (s : State) (p : ℕ) (f : Protocol → Protocol) : State :=
  { s with protocols := fun x => if x = p then f (s.protocols x) else s.protocols x }

def State.setPeer (s : State) (c : ℕ) (f : Peer → Peer) : State :=
  { s with peers := fun x => if x = c then f (s.peers x) else s.peers x }

def State.setWrite (s : State) (c : ℕ) (f : WriteSide.State → WriteSide.State) : State :=
  s.setPeer c fun peer => { peer with write := f peer.write }

def State.record (s : State) (r : Record) : State := { s with history := s.history ++ [r] }

def ptrs (s : State) : List ℕ := s.held ++ s.sending ++ s.m_addQueue ++ s.m_autoSend ++ s.writing

/-- A shared pointer has gone; the last one leaves a release task. -/
def State.dropped (s : State) (m : ℕ) : State :=
  if m ∈ ptrs s then s else { s with releases := m :: s.releases }

def configureOutputMessage (s : State) (m p c : ℕ) (autoSend : Bool) : State :=
  let s := s.setMessage m fun _ => {
    m_protocol := some p
    m_connection := some c
    m_state := if autoSend then .STATE_ALLOCATED else .STATE_ALLOCATED_NO_AUTOSEND
    m_frame := s.m_frameTime
    serial := s.handed
    submitted := autoSend }
  let s := s.setProtocol p fun protocol => { protocol with m_refCount := protocol.m_refCount + 1 }
  let s := s.setPeer c fun peer => { peer with m_refCount := peer.m_refCount + 1 }
  { s with
    m_autoSend := if autoSend then s.m_autoSend ++ [m] else s.m_autoSend
    handed := s.handed + 1
    configured := (m, p, c) :: s.configured }

/-- A message is made when the list is empty; `back()` is handed out. -/
def State.refill (s : State) : State :=
  if s.m_outputMessages = [] then
    { s with m_outputMessages := [s.allocated], allocated := s.allocated + 1 } else s

def getOutputMessage (s : State) (p : ℕ) (autoSend : Bool) : Option State :=
  if s.m_shutdown then none
  else match (s.protocols p).m_connection, s.refill.m_outputMessages.getLast? with
    | some c, some m =>
      some (configureOutputMessage { s.refill with
        m_outputMessages := s.refill.m_outputMessages.dropLast
        held := m :: s.held } m p c autoSend)
    | _, _ => none

/-- `Protocol::onSendMessage`, where the message has a protocol. -/
def onSendMessage (s : State) (m : ℕ) (why : Framing) : State :=
  match (s.messages m).m_protocol with
  | none => s
  | some _ => s.record (.framed (s.messages m).serial why)

/-- The write half changes before the operation is started, which may throw. -/
def internalSend (s : State) (m : ℕ) : Arm → State
  | .started => { s.record (.written (s.messages m).serial) with writing := m :: s.writing }
  | .waitThrows | .operationThrows => s

def sendingOf (s : State) (c : ℕ) : WriteSide.Sending :=
  WriteSide.sending (s.peers c).write s.FORCE_CLOSE_SLOW_CONNECTION

/-- `Connection::send`, and whether it answers `true`. -/
def connectionSend (s : State) (c m : ℕ) (a : Arm) : Bool × State :=
  let u := s.setWrite c fun w => WriteSide.send w s.FORCE_CLOSE_SLOW_CONNECTION
  match sendingOf s c with
  | .refused => (false, s)
  | .written => (true, internalSend (onSendMessage u m .direct) m a)
  | .forced => (true, u)
  | .queued => (true, { s with m_addQueue := s.m_addQueue ++ [m] })

/-- A message with a connection is sent, or framed when the connection refuses it. -/
def transmit (s : State) (m : ℕ) (a : Arm) : State :=
  match (s.messages m).m_connection with
  | none => s
  | some c =>
    match connectionSend s c m a with
    | (true, s) => s
    | (false, s) => onSendMessage s m .refused

/-- One round of the first loop of `sendAll`. -/
def requeue (dropTime frameTime : UInt64) (s : State) (m : ℕ) : State :=
  let frame := (s.messages m).m_frame
  if frame ≥ dropTime then
    let s := s.setMessage m fun msg => { msg with m_state := .STATE_ALLOCATED }
    if frameTime > frame then { s with m_autoSend := m :: s.m_autoSend }
    else { s with m_autoSend := s.m_autoSend ++ [m] }
  else onSendMessage s m .dropped

/-- `m_addQueue.clear()`, one pointer after the other. -/
def clearAddQueue (s : State) : List ℕ → State
  | [] => { s with m_addQueue := [] }
  | m :: rest => clearAddQueue ({ s with m_addQueue := rest }.dropped m) rest

/-- `sendAll` up to its second loop. -/
def beginSendAll (s : State) : State :=
  let frameTime := s.m_frameTime - 10
  let s := s.m_addQueue.foldl (requeue (s.m_frameTime - 10000) frameTime) s
  { clearAddQueue s s.m_addQueue with frameTime := some frameTime }

def internalReleaseMessage (s : State) (m : ℕ) : State :=
  let s := match (s.messages m).m_protocol with
    | none => s
    | some p => s.setProtocol p fun protocol => { protocol with m_refCount := protocol.m_refCount - 1 }
  let s := match (s.messages m).m_connection with
    | none => s
    | some c => s.setPeer c fun peer => { peer with m_refCount := peer.m_refCount - 1 }
  { s.setMessage m Message.free with
    m_outputMessages := s.m_outputMessages ++ [m]
    releases := s.releases.erase m
    configured := s.configured.filter fun entry => entry.1 ≠ m }

/-- `releaseProtocol`: rescheduled while there are references, else `deleteProtocolTask`. -/
def releaseProtocol (s : State) (p : ℕ) : State :=
  if (s.protocols p).m_refCount > 0 then s
  else s.setProtocol p fun protocol => { protocol with m_connection := none, deleted := true }

/-- `releaseConnection`: rescheduled while there are references, else `deleteConnection`. -/
def releaseConnection (s : State) (c : ℕ) : State :=
  if (s.peers c).m_refCount > 0 then s else s.setPeer c fun peer => { peer with deleted := true }

inductive PeerEvent where
  | close | closeConnection | closeSocket
  deriving DecidableEq, Repr

def PeerEvent.apply : PeerEvent → WriteSide.State → WriteSide.State
  | .close, w => WriteSide.close w
  | .closeConnection, w => WriteSide.closeConnection w
  | .closeSocket, w => WriteSide.close (WriteSide.closeSocket w)

inductive Event where
  | getOutputMessage (p : ℕ) (autoSend : Bool)
  | copy (m : ℕ)
  | drop (m : ℕ)
  | send (m : ℕ)
  | transmit (m : ℕ) (a : Arm)
  | autoSend (m : ℕ)
  | startExecutionFrame (time : UInt64)
  | stop
  | sendAll
  | sendNext (m : ℕ) (a : Arm)
  | sendAllEnd
  | onWrite (m : ℕ) (error : Option ErrorCode)
  | peer (c : ℕ) (e : PeerEvent)
  | setConnection (p : ℕ) (connection : Option ℕ)
  | releaseProtocol (p : ℕ)
  | releaseConnection (c : ℕ)
  | internalReleaseMessage (m : ℕ)
  deriving DecidableEq, Repr

/-- `send` goes on for a message that is not sent automatically. -/
def beginSend (s : State) (m : ℕ) : State :=
  if (s.messages m).m_state ≠ .STATE_ALLOCATED_NO_AUTOSEND then s
  else { s.setMessage m fun msg => { msg with submitted := true } with sending := m :: s.sending }

def autoSend (s : State) (m : ℕ) : State :=
  { s.setMessage m fun msg => { msg with submitted := true } with m_addQueue := s.m_addQueue ++ [m] }

/-- While `sendAll` runs, nobody else gets the pool lock, which `send` needs inside the connection
lock when a message is to be queued. -/
def step (s : State) : Event → Option State
  | .getOutputMessage p autoSend =>
    if s.frameTime = none ∧ (s.protocols p).deleted = false then getOutputMessage s p autoSend
    else none
  | .copy m => if m ∈ s.held then some { s with held := m :: s.held } else none
  | .drop m => if m ∈ s.held then some ({ s with held := s.held.erase m }.dropped m) else none
  | .send m => if m ∈ s.held ∧ s.frameTime = none then some (beginSend s m) else none
  | .transmit m a =>
    if m ∈ s.sending ∧ (s.frameTime = none ∨
        ∀ c ∈ (s.messages m).m_connection, sendingOf s c ≠ .queued) then
      some ({ transmit s m a with sending := s.sending.erase m }.dropped m) else none
  | .autoSend m => if m ∈ s.held ∧ s.frameTime = none then some (autoSend s m) else none
  | .startExecutionFrame time =>
    if s.frameTime = none then some { s with m_frameTime := time, m_shutdown := false } else none
  | .stop => some { s with m_shutdown := true }
  | .sendAll => if s.frameTime = none then some (beginSendAll s) else none
  | .sendNext m a =>
    match s.frameTime, s.m_autoSend with
    | some frameTime, x :: rest =>
      if x = m ∧ frameTime > (s.messages m).m_frame then
        some ({ transmit s m a with m_autoSend := rest }.dropped m) else none
    | _, _ => none
  | .sendAllEnd =>
    match s.frameTime with
    | some frameTime =>
      if ∀ m ∈ s.m_autoSend.head?, frameTime ≤ (s.messages m).m_frame then
        some { s with frameTime := none } else none
    | none => none
  | .onWrite m error =>
    match (s.messages m).m_connection with
    | some c =>
      if m ∈ s.writing then
        some ({ s.setWrite c fun w => WriteSide.onWrite w error with
          writing := s.writing.erase m }.dropped m) else none
    | none => none
  | .peer c e => some (s.setWrite c e.apply)
  | .setConnection p connection =>
    if (s.protocols p).deleted = false then
      some (s.setProtocol p fun protocol => { protocol with m_connection := connection }) else none
  | .releaseProtocol p =>
    if (s.protocols p).deleted = false then some (releaseProtocol s p) else none
  | .releaseConnection c => some (releaseConnection s c)
  | .internalReleaseMessage m =>
    if m ∈ s.releases ∧ s.frameTime = none then some (internalReleaseMessage s m) else none

def machine : Machine State Event where
  start s := ∃ time forceClose, s = initial time forceClose
  step := step

end LoginServer.MessagePool
