import LoginServer.Library.Runs
import Mathlib.Logic.Function.Basic

/-! # The acceptors of a service port

`open` binds a list of addresses and schedules a retry of the ones that failed; `handle` tears
the port down on an accept error and schedules its restart. The flag `m_logError` is shared by
all ports of the process. What the network answers comes with the event: the outcome of each
bind, and whether `async_accept` throws. The connection that a successful accept hands over is
not part of the port. -/
namespace LoginServer.Server

open Runs

/-- `boost::asio::ip::address`; a default constructed one is the unspecified IPv4 address. -/
inductive IPAddress where
  | v4 (bytes : UInt32)
  | v6 (bytes : BitVec 128) (scope : UInt32)
  deriving DecidableEq, Repr

instance : Inhabited IPAddress := ⟨.v4 0⟩

/-- `std::map<Acceptor_ptr, IPAddress>`; an acceptor is the number of its allocation. -/
abbrev AcceptorVec := List (ℕ × IPAddress)

namespace AcceptorVec

def assign (v : AcceptorVec) (acceptor : ℕ) (ip : IPAddress) : AcceptorVec :=
  (acceptor, ip) :: v.filter fun it => it.1 ≠ acceptor

/-- `operator[]`: an absent key is inserted with a default value. -/
def index (v : AcceptorVec) (acceptor : ℕ) : AcceptorVec × IPAddress :=
  match v.lookup acceptor with
  | some ip => (v, ip)
  | none => (v.assign acceptor default, default)

def addresses (v : AcceptorVec) : List IPAddress := v.map Prod.snd

end AcceptorVec

structure ServicePort where
  /-- `isSingleSocket()` of each service. -/
  m_services : List Bool
  m_acceptors : AcceptorVec
  m_serverPort : UInt16
  m_pendingStart : Bool

/-- A scheduled call of the static `services`, or of `service`, on one port. -/
inductive Restart where
  | services (port : ℕ) (ips : List IPAddress) (serverPort : UInt16)
  | service (port : ℕ) (ip : IPAddress) (serverPort : UInt16)
  deriving DecidableEq

def Restart.port : Restart → ℕ
  | .services port .. | .service port .. => port

def Restart.serverPort : Restart → UInt16
  | .services _ _ serverPort | .service _ _ serverPort => serverPort

def Restart.ips : Restart → List IPAddress
  | .services _ ips _ => ips
  | .service _ ip _ => [ip]

structure Opened where
  port : ℕ
  ips : List IPAddress
  listening : List IPAddress
  retry : List IPAddress
  m_pendingStart : Bool

structure State where
  m_logError : Bool
  ports : ℕ → ServicePort
  isOpen : ℕ → Bool
  /-- Acceptors allocated so far. -/
  allocated : ℕ
  /-- Outstanding `async_accept`s: the port and the acceptor. -/
  accepts : List (ℕ × ℕ)
  events : List Restart
  opened : List Opened

def initial : State where
  m_logError := true
  ports _ := ⟨[], [], 0, false⟩
  isOpen _ := false
  allocated := 0
  accepts := []
  events := []
  opened := []

def State.setPort (s : State) (p : ℕ) (f : ServicePort → ServicePort) : State :=
  { s with ports := Function.update s.ports p (f (s.ports p)) }

def State.allocate (s : State) : State :=
  { s with
    allocated := s.allocated + 1
    isOpen := Function.update s.isOpen s.allocated true }

def State.assign (s : State) (p acceptor : ℕ) (ip : IPAddress) : State :=
  s.setPort p fun service =>
    { service with m_acceptors := service.m_acceptors.assign acceptor ip }

def add (service : ServicePort) (isSingleSocket : Bool) : ServicePort :=
  if service.m_services.any id then service
  else { service with m_services := service.m_services ++ [isSingleSocket] }

/-- `async_accept` may throw, which is logged once in the life of the process. -/
def accept (s : State) (p acceptor : ℕ) (throws : Bool) : State :=
  if throws then { s with m_logError := false }
  else { s with accepts := (p, acceptor) :: s.accepts }

/-- Making the acceptor fails, or it listens and then `async_accept` may throw. -/
inductive Bind where
  | failed
  | listening (throws : Bool)
  deriving DecidableEq, Repr

/-- The loop of `open` between two addresses. -/
structure Loop where
  state : State
  error : Bool
  pendingIps : List IPAddress

def openNext (p : ℕ) (l : Loop) : IPAddress × Bind → Loop
  | (ip, .failed) =>
    if l.state.m_logError then
      { l with
        pendingIps := l.pendingIps ++ [ip]
        error := true }
    else l
  | (ip, .listening throws) =>
    let tmp := l.state.allocated
    { l with state := (accept l.state.allocate p tmp throws).assign p tmp ip }

def openBegin (s : State) (p : ℕ) (port : UInt16) : State :=
  s.setPort p fun service => { service with m_pendingStart := false, m_serverPort := port }

def openLoop (s : State) (p : ℕ) (binds : List (IPAddress × Bind)) : Loop :=
  binds.foldl (openNext p) ⟨s, false, []⟩

def openEnd (l : Loop) (p : ℕ) : State :=
  if l.error then
    { l.state.setPort p fun service => { service with m_pendingStart := true } with
      m_logError := false
      events := .services p l.pendingIps (l.state.ports p).m_serverPort :: l.state.events }
  else l.state

def openRecord (l : Loop) (p : ℕ) (ips : List IPAddress) : Opened where
  port := p
  ips := ips
  listening := ((openEnd l p).ports p).m_acceptors.addresses
  retry := if l.error then l.pendingIps else []
  m_pendingStart := ((openEnd l p).ports p).m_pendingStart

/-- `open(ips, port)`, where the addresses come with what becomes of them. -/
def openPort (s : State) (p : ℕ) (binds : List (IPAddress × Bind)) (port : UInt16) : State :=
  let l := openLoop (openBegin s p port) p binds
  { openEnd l p with opened := openRecord l p (binds.map Prod.fst) :: (openEnd l p).opened }

def close (s : State) (p : ℕ) : State :=
  { s.setPort p fun service => { service with m_acceptors := [] } with
    isOpen := fun acceptor =>
      s.isOpen acceptor && !(s.ports p).m_acceptors.any fun it => it.1 = acceptor }

inductive Completion where
  | accepted (throws : Bool)
  | operation_aborted
  | error
  deriving DecidableEq, Repr

def handleError (s : State) (p acceptor : ℕ) : State :=
  let closed := close s p
  if (closed.ports p).m_pendingStart then closed
  else
    let (m_acceptors, ip) := (closed.ports p).m_acceptors.index acceptor
    { closed.setPort p fun service =>
        { service with m_pendingStart := true, m_acceptors := m_acceptors } with
      events := .service p ip (closed.ports p).m_serverPort :: closed.events }

def handle (s : State) (p acceptor : ℕ) : Completion → State
  | .accepted throws =>
    if (s.ports p).m_services.isEmpty then s else accept s p acceptor throws
  | .operation_aborted => s
  | .error => handleError s p acceptor

inductive Event where
  | add (p : ℕ) (isSingleSocket : Bool)
  | openPort (p : ℕ) (binds : List (IPAddress × Bind)) (port : UInt16)
  /-- The scheduler runs a restart, and its binds have these outcomes. -/
  | restart (r : Restart) (outcomes : List Bind)
  | handle (p acceptor : ℕ) (completion : Completion)
  | close (p : ℕ)

def step (s : State) : Event → Option State
  | .add p isSingleSocket => some (s.setPort p fun service => add service isSingleSocket)
  | .openPort p binds port => some (openPort s p binds port)
  | .restart r outcomes =>
    if r ∈ s.events ∧ outcomes.length = r.ips.length then
      some (openPort { s with events := s.events.erase r } r.port (r.ips.zip outcomes) r.serverPort)
    else none
  | .handle p acceptor completion =>
    if (p, acceptor) ∈ s.accepts then
      some (handle { s with accepts := s.accepts.erase (p, acceptor) } p acceptor completion)
    else none
  | .close p => some (close s p)

def machine : Machine State Event where
  start s := s = initial
  step := step

end LoginServer.Server
