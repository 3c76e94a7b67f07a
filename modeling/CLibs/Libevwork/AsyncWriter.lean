import CLibs.General.Runs
import Mathlib.Logic.Function.Basic
import Mathlib.Tactic.Ring

/-!
# The asynchronous writer

`CAsyncWriter` and `CThreadWriter` of `libevwork_full`, with the threads that send
and the event loop that flushes. A thread makes at most one `CThreadWriter`, which
is named after it and deleted when it ends. `CThreadWriter::send` and
`CThreadWriter::flush` hold the writer's lock and are one step each; `flush` of the
asynchronous writer is not, and neither is `__flushReal`.
-/

set_option autoImplicit false
set_option linter.style.nameCheck false

namespace CLibs.Libevwork

open General

structure SPacket where
  strIp : String
  uPort : UInt16
  strPacket : List UInt8
deriving DecidableEq

/-- Where a thread is: in no call, before `CThreadWriter::send`, in `flush` before the
write to the event descriptor or before the flag is set, or at its end. -/
inductive ThreadPhase where
  | idle
  | sending (packet : SPacket)
  | writing
  | setting
  | exited
deriving DecidableEq

structure SenderThread where
  phase : ThreadPhase := .idle
  /-- `m_vecPacket` of the thread's `CThreadWriter`, if it has one. -/
  writer : Option (List SPacket) := none
  /-- What the thread has sent. -/
  sent : List SPacket := []
  /-- How much it had sent when its last `flush` returned. -/
  flushed : Nat := 0

/-- Where the event loop is: outside the writer, before it gets the lock of the
vector, or at an entry of the vector. A deleted entry is the end of it. -/
inductive FlushLoop where
  | idle
  | locking
  | flushing (iter : Nat)
  | crashed
deriving DecidableEq

structure CAsyncWriter where
  bFlushing : Bool := false
  /-- The counter of the event descriptor. -/
  fdFlush : Nat := 0
  vecpThreadWriter : List Nat := []
  threads : Nat → SenderThread := fun _ => {}
  loop : FlushLoop := .idle
  /-- The calls of `CWriter::send`, each with the thread whose writer made it. -/
  delivered : List (Nat × SPacket) := []

/-- A write to a non-blocking event descriptor, whose counter stays below `2 ^ 64 - 1`. -/
def eventfdWrite (counter u : Nat) : Nat :=
  if u ≤ 2 ^ 64 - 2 - counter then u + counter else counter

inductive WriterAct where
  | send (thread : Nat) (strIp : String) (uPort : UInt16) (pData : List UInt8)
  | enqueue (thread : Nat)
  | flush (thread : Nat)
  | write (thread : Nat)
  | set (thread : Nat)
  | exit (thread : Nat)
  /-- The event descriptor wakes the event loop. -/
  | onRead
  /-- The timer does. -/
  | onHandlerFlush
  /-- The next step of `__flushReal`. -/
  | flushReal

namespace CAsyncWriter

def setThread (s : CAsyncWriter) (thread : Nat) (state : SenderThread) : CAsyncWriter :=
  { s with threads := Function.update s.threads thread state }

/-- The first half of `send`: `__getThreadWriter`, which waits for the lock of the
vector where it makes a writer. -/
def __getThreadWriter (s : CAsyncWriter) (thread : Nat) (packet : SPacket) :
    Option CAsyncWriter :=
  let state := s.threads thread
  match state.writer, s.loop with
  | some _, _ => some (s.setThread thread { state with phase := .sending packet })
  | none, .flushing _ => none
  | none, .crashed => none
  | none, _ =>
      some { s.setThread thread { state with phase := .sending packet, writer := some [] } with
        vecpThreadWriter := s.vecpThreadWriter ++ [thread] }

/-- The test of `m_bFlushing` in `flush`. -/
def flush (s : CAsyncWriter) (thread : Nat) : CAsyncWriter :=
  let state := s.threads thread
  if s.bFlushing then s.setThread thread { state with flushed := state.sent.length }
  else s.setThread thread { state with phase := .writing }

def __onRead (s : CAsyncWriter) : CAsyncWriter :=
  if s.fdFlush = 0 then s else { s with fdFlush := 0, loop := .locking }

/-- A step of `__flushReal`: the lock is taken, the next writer of the vector is
flushed, or the flag is cleared and the lock released. -/
def __flushReal (s : CAsyncWriter) : Option CAsyncWriter :=
  match s.loop with
  | .idle => none
  | .locking => some { s with loop := .flushing 0 }
  | .flushing iter =>
      match s.vecpThreadWriter[iter]? with
      | none => some { s with bFlushing := false, loop := .idle }
      | some thread =>
          match (s.threads thread).writer with
          | none => some { s with loop := .crashed }
          | some vecPacket =>
              some { s.setThread thread { s.threads thread with writer := some [] } with
                loop := .flushing (iter + 1)
                delivered := s.delivered ++ vecPacket.map fun packet => (thread, packet) }
  | .crashed => none

end CAsyncWriter

/-- What a thread or the event loop does next, if it can. -/
def WriterAct.apply (s : CAsyncWriter) : WriterAct → Option CAsyncWriter
  | .send thread strIp uPort pData =>
      if (s.threads thread).phase = .idle then
        s.__getThreadWriter thread { strIp := strIp, uPort := uPort, strPacket := pData }
      else none
  | .enqueue thread =>
      let state := s.threads thread
      match state.phase, state.writer with
      | .sending packet, some vecPacket =>
          some (s.setThread thread { state with
            phase := .idle
            writer := some (vecPacket ++ [packet])
            sent := state.sent ++ [packet] })
      | _, _ => none
  | .flush thread => if (s.threads thread).phase = .idle then some (s.flush thread) else none
  | .write thread =>
      let state := s.threads thread
      if state.phase = .writing then
        some { s.setThread thread { state with phase := .setting } with
          fdFlush := eventfdWrite s.fdFlush 0x11111111 }
      else none
  | .set thread =>
      let state := s.threads thread
      if state.phase = .setting then
        some { s.setThread thread { state with phase := .idle, flushed := state.sent.length } with
          bFlushing := true }
      else none
  | .exit thread =>
      let state := s.threads thread
      if state.phase = .idle then
        some (s.setThread thread { state with phase := .exited, writer := none })
      else none
  | .onRead => if s.loop = .idle then some s.__onRead else none
  | .onHandlerFlush => if s.loop = .idle then some { s with loop := .locking } else none
  | .flushReal => s.__flushReal

def writerSystem : System CAsyncWriter WriterAct where
  start s := s = {}
  step s act next := act.apply s = some next

end CLibs.Libevwork
