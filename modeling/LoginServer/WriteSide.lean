import LoginServer.Connection

/-! # The sending half of a connection

What `Connection::send` reads and writes, for a system of many connections. Each function is the
projection of the one in the model of a whole connection. -/
namespace LoginServer.WriteSide

open Connection (ConnectionState ErrorCode)

structure State where
  m_connectionState : ConnectionState
  m_pendingWrite : ℤ
  m_writeError : Bool
  socketOpen : Bool
  deriving DecidableEq, Repr

def initial : State := ⟨.CONNECTION_STATE_OPEN, 0, false, true⟩

def close (w : State) : State :=
  if w.m_connectionState = .CONNECTION_STATE_CLOSING ∨
      w.m_connectionState = .CONNECTION_STATE_CLOSED ∨
      w.m_connectionState = .CONNECTION_STATE_REQUEST_CLOSE then w
  else { w with m_connectionState := .CONNECTION_STATE_REQUEST_CLOSE }

theorem close_pendingWrite (w : State) : (close w).m_pendingWrite = w.m_pendingWrite := by
  rw [close]
  split <;> rfl

def closeSocket (w : State) : State :=
  if w.socketOpen then { w with m_pendingWrite := 0, socketOpen := false } else w

/-- Where `Connection::send` ends: `false`, a write, the end of a slow connection, the queue. -/
inductive Sending where
  | refused | written | forced | queued
  deriving DecidableEq, Repr

def sending (w : State) (FORCE_CLOSE_SLOW_CONNECTION : Bool) : Sending :=
  if w.m_connectionState ≠ .CONNECTION_STATE_OPEN ∨ w.m_writeError = true then .refused
  else if w.m_pendingWrite = 0 then .written
  else if w.m_pendingWrite > 100 ∧ FORCE_CLOSE_SLOW_CONNECTION = true then .forced
  else .queued

def send (w : State) (FORCE_CLOSE_SLOW_CONNECTION : Bool) : State :=
  match sending w FORCE_CLOSE_SLOW_CONNECTION with
  | .refused | .queued => w
  | .written => { w with m_pendingWrite := w.m_pendingWrite + 1 }
  | .forced => close w

def handleWriteError (w : State) (error : Option ErrorCode) : State :=
  { (if error = some .operation_aborted then w else close w) with m_writeError := true }

def onWrite (w : State) (error : Option ErrorCode) : State :=
  let w := if error.isSome then handleWriteError w error else w
  if w.m_connectionState ≠ .CONNECTION_STATE_OPEN ∨ w.m_writeError = true then
    close (closeSocket w)
  else { w with m_pendingWrite := w.m_pendingWrite - 1 }

def closeConnection (w : State) : State :=
  if w.m_connectionState ≠ .CONNECTION_STATE_REQUEST_CLOSE then w
  else if w.m_pendingWrite = 0 ∨ w.m_writeError = true then
    { closeSocket w with m_connectionState := .CONNECTION_STATE_CLOSED }
  else { w with m_connectionState := .CONNECTION_STATE_CLOSING }

/-- A deleted socket counts as closed. -/
def ofConnection (s : Connection.State) : State :=
  ⟨s.m_connectionState, s.m_pendingWrite, s.m_writeError, s.m_socket = some true⟩

theorem ofConnection_close (s : Connection.State) :
    ofConnection (Connection.close s) = close (ofConnection s) := by
  have hc : (ofConnection s).m_connectionState = s.m_connectionState := rfl
  rw [Connection.close, close, hc]
  split <;> rfl

theorem ofConnection_closeSocket (s : Connection.State) :
    ofConnection (Connection.closeSocket s) = closeSocket (ofConnection s) := by
  rw [Connection.closeSocket, closeSocket]
  split
  · rename_i hm
    simp [ofConnection, hm]
  · rename_i hm
    simp [ofConnection, hm]
  · rename_i hm
    simp [ofConnection, hm]

theorem ofConnection_handleWriteError (s : Connection.State) (error : Option ErrorCode) :
    ofConnection (Connection.handleWriteError s error) =
      handleWriteError (ofConnection s) error := by
  rw [Connection.handleWriteError, handleWriteError, ← ofConnection_close]
  split <;> rfl

theorem ofConnection_onWrite (s : Connection.State) (error : Option ErrorCode) :
    ofConnection (Connection.onWrite s error) = onWrite (ofConnection s) error := by
  have hs : ofConnection s =
      ofConnection { s with writeTimers := Connection.cancel s.writeTimers } := rfl
  unfold Connection.onWrite onWrite
  rw [hs]
  generalize { s with writeTimers := Connection.cancel s.writeTimers } = s
  have he : (if error.isSome then handleWriteError (ofConnection s) error else ofConnection s) =
      ofConnection (if error.isSome then Connection.handleWriteError s error else s) := by
    rw [← ofConnection_handleWriteError]
    split <;> rfl
  dsimp only
  rw [he]
  generalize (if error.isSome then Connection.handleWriteError s error else s) = s
  have hst : (ofConnection s).m_connectionState = s.m_connectionState := rfl
  have hwe : (ofConnection s).m_writeError = s.m_writeError := rfl
  rw [hst, hwe, ← ofConnection_closeSocket, ← ofConnection_close]
  split <;> rfl

theorem ofConnection_send (s : Connection.State) (a : Connection.Arm) :
    ofConnection (Connection.send s a) =
      send (ofConnection s) s.FORCE_CLOSE_SLOW_CONNECTION := by
  have hst : (ofConnection s).m_connectionState = s.m_connectionState := rfl
  have hwe : (ofConnection s).m_writeError = s.m_writeError := rfl
  have hpw : (ofConnection s).m_pendingWrite = s.m_pendingWrite := rfl
  rw [Connection.send, send, sending, hst, hwe, hpw]
  split
  · rfl
  · split
    · cases a <;> rfl
    · split
      · exact ofConnection_close s
      · rfl

theorem ofConnection_detach (s : Connection.State) :
    ofConnection (Connection.detachProtocol s) = ofConnection s := by
  rw [Connection.detachProtocol, Connection.releaseProtocol]
  split
  · split <;> rfl
  · rfl

theorem ofConnection_releaseConnection (s : Connection.State) (throws : Bool) :
    ofConnection (Connection.releaseConnection s throws) = ofConnection s := by
  unfold Connection.releaseConnection Connection.deleteConnection
  split
  · rfl
  · split <;> rfl

theorem ofConnection_closeConnection (s : Connection.State) (throws : Bool) :
    ofConnection (Connection.closeConnection s throws) = closeConnection (ofConnection s) := by
  have hd := ofConnection_detach s
  have hst : (ofConnection s).m_connectionState = s.m_connectionState := rfl
  have hpw : (Connection.enterClosing s).m_pendingWrite = (ofConnection s).m_pendingWrite :=
    congrArg State.m_pendingWrite hd
  have hwe : (Connection.enterClosing s).m_writeError = (ofConnection s).m_writeError :=
    congrArg State.m_writeError hd
  have hen : ofConnection (Connection.enterClosing s) =
      { ofConnection s with m_connectionState := .CONNECTION_STATE_CLOSING } := by
    rw [← hd]
    rfl
  rw [Connection.closeConnection, closeConnection, hst, hpw, hwe]
  split
  · rfl
  · split
    · have hf : ofConnection (Connection.finishClose (Connection.enterClosing s) throws) =
          { ofConnection (Connection.releaseConnection (Connection.closeSocket
            (Connection.enterClosing s)) throws) with
            m_connectionState := .CONNECTION_STATE_CLOSED } := rfl
      rw [hf, ofConnection_releaseConnection, ofConnection_closeSocket, hen, closeSocket,
        closeSocket]
      dsimp only
      split <;> rfl
    · exact hen

end LoginServer.WriteSide
