import CLibs.General.Runs
import CLibs.Libevwork.DataHandler

/-!
# The worker pool

`CAsyncDataHandler`, `CThreadWorker` and `TRequestQueue` of `pbmfc` and of `jsmfc`,
which are the same but for their log messages. Every iteration of a loop of the
event-loop thread, and every `pop`, dispatch and `delete` of a worker, is a step of
its own. Requests and workers are numbered in the order in which they are made, and
numbers are not used again.
-/

set_option autoImplicit false
set_option linter.style.nameCheck false

namespace CLibs.Libevwork

open General

structure SRequestWrap where
  pRequest : Option Nat
  pConn : Option Nat
deriving DecidableEq

/-- What `SRequestWrap()` makes. -/
def SRequestWrap.null : SRequestWrap := ⟨none, none⟩

/-- Where a worker is in `runLoop`. -/
inductive CThreadWorker where
  | popping
  | dispatching (pRequest : Nat) (pConn : Option Nat)
  | deleting (pRequest : Nat)
  | ended
deriving DecidableEq

/-- What the event-loop thread is doing: the loops of `__createThreadWorker` and of
`__destroyThreadWorker` with their counters. -/
inductive LoopThread where
  | running
  | creating (i : UInt32)
  | pushing (i : UInt32)
  | joining (iter : Nat)
  | returned
deriving DecidableEq

/-- What is recorded of a run. A dispatch records what it finds at its pointer. -/
inductive PoolEvent where
  | push (reqWrap : SRequestWrap)
  | pop (worker : Nat) (reqWrap : SRequestWrap)
  | dispatch (worker pRequest : Nat) (pConn : Option Nat) (found : Option Request)
  | delete (worker pRequest : Nat)

structure CAsyncDataHandler where
  requestQueue : List SRequestWrap := []
  uWorkerCount : UInt32 := 20
  vecWorker : List Nat := []
  /-- The workers that were started, by their numbers. -/
  workers : List CThreadWorker := []
  /-- The requests that were made, by their numbers, and the ones deleted since. -/
  requests : List Request := []
  deleted : List Nat := []
  thread : LoopThread := .running
  log : List PoolEvent := []

inductive PoolAct where
  | setWorkerCount (uCount : UInt32)
  | setWorking
  | makeRequest (pPacket : List UInt8) (uPktLen : UInt32)
  | destroy
  /-- The next iteration of the loop that the event-loop thread is in. -/
  | loop
  /-- The next step of a worker. -/
  | work (worker : Nat)

namespace CAsyncDataHandler

def push (s : CAsyncDataHandler) (reqWrap : SRequestWrap) : CAsyncDataHandler :=
  { s with
    requestQueue := s.requestQueue ++ [reqWrap]
    log := s.log ++ [.push reqWrap] }

/-- The request that a packet is copied to. -/
def request (mfc : Mfc) (pPacket : List UInt8) (uPktLen : UInt32) : Request :=
  Request.parseHeader mfc { pData := pPacket.take uPktLen.toNat, uSize := uPktLen }

def __makeRequest (mfc : Mfc) (s : CAsyncDataHandler) (pPacket : List UInt8)
    (uPktLen : UInt32) : CAsyncDataHandler :=
  push { s with requests := s.requests ++ [request mfc pPacket uPktLen] }
    { pRequest := some s.requests.length, pConn := none }

def find (s : CAsyncDataHandler) (pRequest : Nat) : Option Request :=
  if pRequest ∈ s.deleted then none else s.requests[pRequest]?

/-- One iteration of a loop of the event-loop thread. Joining a worker waits for
its end. -/
def loop (s : CAsyncDataHandler) : Option CAsyncDataHandler :=
  match s.thread with
  | .running => none
  | .creating i =>
      if i < s.uWorkerCount then
        some { s with
          workers := s.workers ++ [.popping]
          vecWorker := s.vecWorker ++ [s.workers.length]
          thread := .creating (i + 1) }
      else some { s with thread := .running }
  | .pushing i =>
      if i.toNat < s.vecWorker.length then some { s.push .null with thread := .pushing (i + 1) }
      else some { s with thread := .joining 0 }
  | .joining iter =>
      match s.vecWorker[iter]? with
      | none => some { s with vecWorker := [], thread := .returned }
      | some worker =>
          if s.workers[worker]? = some .ended then some { s with thread := .joining (iter + 1) }
          else none
  | .returned => none

/-- One step of `runLoop`. An exception of the dispatch is caught. -/
def work (s : CAsyncDataHandler) (worker : Nat) : Option CAsyncDataHandler :=
  match s.workers[worker]? with
  | none => none
  | some .popping =>
      match s.requestQueue with
      | [] => none
      | reqWrap :: rest =>
          let next := match reqWrap.pRequest with
            | none => .ended
            | some pRequest => .dispatching pRequest reqWrap.pConn
          some { s with
            requestQueue := rest
            workers := s.workers.set worker next
            log := s.log ++ [.pop worker reqWrap] }
  | some (.dispatching pRequest pConn) =>
      some { s with
        workers := s.workers.set worker (.deleting pRequest)
        log := s.log ++ [.dispatch worker pRequest pConn (s.find pRequest)] }
  | some (.deleting pRequest) =>
      some { s with
        deleted := s.deleted ++ [pRequest]
        workers := s.workers.set worker .popping
        log := s.log ++ [.delete worker pRequest] }
  | some .ended => none

end CAsyncDataHandler

/-- The event-loop thread calls the handler while it is in none of its loops. -/
def PoolAct.apply (mfc : Mfc) (s : CAsyncDataHandler) : PoolAct → Option CAsyncDataHandler
  | .setWorkerCount uCount =>
      if s.thread = .running then some { s with uWorkerCount := uCount } else none
  | .setWorking => if s.thread = .running then some { s with thread := .creating 0 } else none
  | .makeRequest pPacket uPktLen =>
      if s.thread = .running then some (s.__makeRequest mfc pPacket uPktLen) else none
  | .destroy => if s.thread = .running then some { s with thread := .pushing 0 } else none
  | .loop => s.loop
  | .work worker => s.work worker

def poolSystem (mfc : Mfc) : System CAsyncDataHandler PoolAct where
  start s := s = {}
  step s act next := act.apply mfc s = some next

end CLibs.Libevwork
