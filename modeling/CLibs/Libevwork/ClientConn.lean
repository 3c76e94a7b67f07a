import CLibs.General.Runs
import CLibs.Libevwork.DataHandler
import CLibs.Libevwork.Socket

/-!
# Connections of `libevwork_full`

`CClientConn` with its two buffers taken as byte queues, and its place in the event
loop's set of handles. The functions that call back into the application are cut
at the call, so that `sendBin` may come at any time between the pieces. Peer
address, timeouts and log output are left out.
-/

set_option autoImplicit false
set_option linter.style.nameCheck false

namespace CLibs.Libevwork

open General

def maxInputSize : Nat := 8 * 1024 * 1024

def maxOutputSize : Nat := 8 * 1024 * 1024

/-- Where the connection stands: between two events, in the callback `onConnected`
of `__onWrite`, or in the callback `onData` of `__onRead`. -/
inductive Phase where
  | idle
  | onConnected
  | onData
  deriving DecidableEq

structure CClientConn where
  connected : Bool
  input : List UInt8 := []
  output : List UInt8 := []
  timerNoDataStart : Bool := false
  timerDestroyStart : Bool := false
  /-- `m_hRead` is in the loop's set of handles. -/
  hRead : Bool := false
  /-- `m_hWrite` is in the loop's set of handles. -/
  hWrite : Bool := false
  alive : Bool := true
  phase : Phase := .idle
  /-- The bytes the kernel took. -/
  wire : List UInt8 := []
  /-- The data of the calls of `sendBin` that returned true. -/
  accepted : List (List UInt8) := []

namespace CClientConn

/-- `CClientConn(strPeerIp, uPeerPort16)`. -/
def connecting : CClientConn := { connected := false, hWrite := true }

/-- `CClientConn(fd, strPeerIp, uPeerPort16)`. -/
def incoming : CClientConn := { connected := true, hRead := true, timerNoDataStart := true }

/-- `__willFreeMyself` with the destructor. -/
def __willFreeMyself (conn : CClientConn) : CClientConn :=
  { conn with
    hRead := false
    hWrite := false
    timerNoDataStart := false
    timerDestroyStart := false
    alive := false }

def __initTimerDestry (conn : CClientConn) : CClientConn :=
  { conn with timerDestroyStart := true }

/-- `none` is the exception. -/
def __appendBuffer (conn : CClientConn) (pData : List UInt8) : Option CClientConn :=
  if maxOutputSize < conn.output.length + pData.length then none
  else some { conn with output := conn.output ++ pData }

/-- `none` is the exception. -/
def __sendData (conn : CClientConn) (answers : List SendAnswer) (pData : List UInt8) :
    CClientConn × Option Nat :=
  let sent := sendLoop pData.length answers 0
  let conn := { conn with wire := conn.wire ++ pData.take sent.total }
  match sent.ending with
  | .failed => (conn, none)
  | _ => (conn, some sent.total)

/-- The flag tells that nothing was thrown. -/
def __sendBuffer (conn : CClientConn) (answers : List SendAnswer) : CClientConn × Bool :=
  if 0 < conn.output.length then
    match conn.__sendData answers conn.output with
    | (conn, none) => (conn, false)
    | (conn, some total) =>
        let nSendBytes := int32 total
        if 0 < nSendBytes then
          ({ conn with output := conn.output.drop nSendBytes.toNat }, true)
        else (conn, true)
  else (conn, true)

/-- The exception handler of `sendBin`. -/
def delayFree (conn : CClientConn) : CClientConn × Bool := (conn.__initTimerDestry, false)

def sendBin (conn : CClientConn) (answers : List SendAnswer) (pData : List UInt8) :
    CClientConn × Bool :=
  if conn.connected = false then
    match conn.__appendBuffer pData with
    | none => conn.delayFree
    | some conn => (conn, true)
  else if conn.output.length = 0 then
    match conn.__sendData answers pData with
    | (conn, none) => conn.delayFree
    | (conn, some uBytesSend) =>
        if uBytesSend < pData.length then
          match conn.__appendBuffer (pData.drop uBytesSend) with
          | none => conn.delayFree
          | some conn => ({ conn with hWrite := true }, true)
        else (conn, true)
  else
    match conn.__appendBuffer pData with
    | none => conn.delayFree
    | some conn => (conn, true)

/-- A call of `sendBin`, with its result noted. -/
def send (conn : CClientConn) (answers : List SendAnswer) (pData : List UInt8) : CClientConn :=
  match conn.sendBin answers pData with
  | (conn, true) => { conn with accepted := conn.accepted ++ [pData] }
  | (conn, false) => conn

/-- The end of `__onWrite`, after a possible `onConnected`. -/
def __onWriteRest (conn : CClientConn) (answers : List SendAnswer) : CClientConn :=
  match conn.__sendBuffer answers with
  | (conn, false) => conn.__willFreeMyself
  | (conn, true) =>
      if conn.output.length = 0 then { conn with phase := .idle, hWrite := false }
      else { conn with phase := .idle }

/-- `__onWrite`, up to a possible `onConnected`. `soError` is the error that
`getsockopt` reports. -/
def __onWrite (conn : CClientConn) (soError : Bool) (answers : List SendAnswer) : CClientConn :=
  if conn.connected then conn.__onWriteRest answers
  else if soError then conn.__willFreeMyself
  else
    { conn with
      connected := true
      hRead := true
      timerNoDataStart := true
      phase := .onConnected }

/-- The loop of `__onRead`. Each call of `__recvData` is given the room that the
input buffer has, and the answers of `::recv`. The flag tells that nothing was
thrown. -/
def readLoop (conn : CClientConn) : List (Nat × List RecvAnswer) → CClientConn × Bool
  | [] => (conn, true)
  | (uFreeSize, answers) :: rounds =>
      match (recvLoop uFreeSize answers []).1 with
      | none => (conn, false)
      | some bytes =>
          if 0 < bytes.length ∧ maxInputSize < conn.input.length + bytes.length then (conn, false)
          else
            let conn := { conn with input := conn.input ++ bytes }
            if bytes.length < uFreeSize then (conn, true) else readLoop conn rounds

/-- `__onRead`, up to `onData`. -/
def __onRead (conn : CClientConn) (rounds : List (Nat × List RecvAnswer)) : CClientConn :=
  match conn.readLoop rounds with
  | (conn, false) => conn.__willFreeMyself
  | (conn, true) => if 0 < conn.input.length then { conn with phase := .onData } else conn

/-- The end of `__onRead`, after `onData` returned `nRetSize`. -/
def __onReadRest (conn : CClientConn) (nRetSize : Int) : CClientConn :=
  if nRetSize < 0 then conn.__willFreeMyself
  else if 0 < nRetSize then
    { conn with input := conn.input.drop nRetSize.toNat, phase := .idle }
  else { conn with phase := .idle }

end CClientConn

/-- What happens to a connection. -/
inductive ConnOp where
  | sendBin (answers : List SendAnswer) (pData : List UInt8)
  | writable (soError : Bool) (answers : List SendAnswer)
  | onConnectedReturns (answers : List SendAnswer)
  | readable (rounds : List (Nat × List RecvAnswer))
  | onDataReturns (nRetSize : Int)
  | timeout

namespace ConnOp

/-- The connection after a step, if the step is possible. -/
def apply (conn : CClientConn) : ConnOp → Option CClientConn
  | .sendBin answers pData => if conn.alive then some (conn.send answers pData) else none
  | .writable soError answers =>
      if conn.alive ∧ conn.phase = .idle ∧ conn.hWrite then some (conn.__onWrite soError answers)
      else none
  | .onConnectedReturns answers =>
      if conn.alive ∧ conn.phase = .onConnected then some (conn.__onWriteRest answers) else none
  | .readable rounds =>
      if conn.alive ∧ conn.phase = .idle ∧ conn.hRead then some (conn.__onRead rounds) else none
  | .onDataReturns nRetSize =>
      if conn.alive ∧ conn.phase = .onData then some (conn.__onReadRest nRetSize) else none
  | .timeout => if conn.alive ∧ conn.phase = .idle then some conn.__willFreeMyself else none

end ConnOp

/-- The life of one connection. -/
def connSystem : System CClientConn ConnOp where
  start conn := conn = .connecting ∨ conn = .incoming
  step conn op next := op.apply conn = some next

end CLibs.Libevwork
