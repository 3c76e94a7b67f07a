import CLibs.LibevworkUsing.JsonData
import CLibs.Libevwork.Socket

/-!
# Connections of `libevwork_using`

`CClientConn` with its two strings, its flags and its place in the event loop's set
of handles. `delete this` clears `alive`; whatever touches the connection after
that is recorded. Peer address, timeouts and log output are left out.
-/

set_option autoImplicit false
set_option linter.style.nameCheck false

namespace CLibs.LibevworkUsing

open General Libevwork

def maxInputSize : Nat := 8 * 1024 * 1024

def maxOutputSize : Nat := 8 * 1024 * 1024

def readBuffSize : Nat := 8 * 1024

structure CClientConn where
  connected : Bool
  strInput : List UInt8 := []
  strOutput : List UInt8 := []
  timerNoDataStart : Bool := false
  timerDestroyStart : Bool := false
  wevRegisted : Bool := false
  /-- `m_hRead` is in the loop's set of handles. -/
  hRead : Bool := false
  /-- `m_hWrite` is in the loop's set of handles. -/
  hWrite : Bool := false
  alive : Bool := true

/-- `CClientConn::~CClientConn`. -/
def CClientConn.delete (conn : CClientConn) : CClientConn :=
  { conn with
    hRead := false
    hWrite := if conn.wevRegisted then false else conn.hWrite
    timerNoDataStart := false
    timerDestroyStart := false
    alive := false }

/-- A connection among the things it works with: the data handler, the answers of
`::send` to come, what the kernel took so far, and what the handlers of the
requests to come will send. -/
structure Env where
  conn : CClientConn
  data : CJsonData := {}
  sends : List SendAnswer := []
  wire : List UInt8 := []
  handlers : List (List (List UInt8)) := []
  /-- The connection was used after it was freed. -/
  misused : Bool := false

namespace Env

def __willFreeMyself (env : Env) : Env :=
  if env.conn.alive then { env with conn := env.conn.delete } else { env with misused := true }

def __initTimerDestry (env : Env) : Env :=
  { env with conn := { env.conn with timerDestroyStart := true } }

def __initTimerNoData (env : Env) : Env :=
  { env with conn := { env.conn with timerNoDataStart := true } }

/-- `none` is the exception. -/
def __appendBuffer (env : Env) (pData : List UInt8) : Option Env :=
  if maxOutputSize < env.conn.strOutput.length + pData.length then none
  else some { env with conn := { env.conn with strOutput := env.conn.strOutput ++ pData } }

/-- `none` is the exception. -/
def __sendData (env : Env) (pData : List UInt8) : Env × Option Nat :=
  let sent := sendLoop pData.length env.sends 0
  let env := { env with sends := sent.answers, wire := env.wire ++ pData.take sent.total }
  match sent.ending with
  | .complete => (env, some sent.total)
  | .again =>
      ({ env with conn := { env.conn with hWrite := true, wevRegisted := true } },
        some sent.total)
  | .failed => (env, none)

/-- The flag tells that nothing was thrown. -/
def __sendBuffer (env : Env) : Env × Bool :=
  if env.conn.strOutput = [] then (env, true)
  else
    match env.__sendData env.conn.strOutput with
    | (env, none) => (env, false)
    | (env, some total) =>
        let nSendBytes := int32 total
        if 0 < nSendBytes then
          ({ env with conn :=
            { env.conn with strOutput := env.conn.strOutput.drop nSendBytes.toNat } }, true)
        else (env, true)

def sendBin (env : Env) (pData : List UInt8) : Env × Bool :=
  if env.conn.alive = false then ({ env with misused := true }, false)
  else
    match env.__appendBuffer pData with
    | none => (env.__initTimerDestry, false)
    | some env =>
        if env.conn.connected then
          match env.__sendBuffer with
          | (env, false) => (env.__willFreeMyself, false)
          | (env, true) => (env, true)
        else (env, true)

/-- A callback that calls `sendBin` with the given data. -/
def sendAll (env : Env) (calls : List (List UInt8)) : Env :=
  calls.foldl (fun env pData => (env.sendBin pData).1) env

/-- The application: each request is served by the next handler. -/
def application (Value : Type) : Application Env Value where
  dispatch env _ :=
    { env with handlers := env.handlers.tail }.sendAll (env.handlers.headD [])
  alive env := env.conn.alive

/-- The loop of `__onRead`. The flag tells that the connection was not closed. -/
def readLoop (env : Env) : List RecvAnswer → Env × Bool
  | [] => (env, true)
  | answer :: recvs =>
      match (recvLoop readBuffSize (answer :: recvs) []).1 with
      | none => (env.__willFreeMyself, false)
      | some bytes =>
          if 0 < bytes.length ∧ maxInputSize < env.conn.strInput.length + bytes.length then
            (env.__willFreeMyself, false)
          else
            let env := { env with conn := { env.conn with strInput := env.conn.strInput ++ bytes } }
            if bytes.length < readBuffSize then (env, true)
            else readLoop env (recvLoop readBuffSize (answer :: recvs) []).2
termination_by recvs => recvWeight recvs
decreasing_by exact recvLoop_weight_lt (by decide) answer recvs

variable {Value : Type}

/-- The end of `__onRead`: the data event and what follows from its result. -/
def handleInput (json : Jsoncpp Value) (env : Env) : Env :=
  if env.conn.strInput = [] then env
  else
    let received := env.data.onData json (application Value) env env.conn.strInput
    let env := { received.world with data := received.handler }
    match received.ending with
    | .returned nRetSize =>
        if nRetSize < 0 then env.__willFreeMyself
        else if 0 < nRetSize then
          if env.conn.alive then
            { env with conn :=
              { env.conn with strInput := env.conn.strInput.drop nRetSize.toNat } }
          else { env with misused := true }
        else env
    | .freed => { env with misused := true }
    | .overrun => env
    | .spins => env

def __onRead (json : Jsoncpp Value) (env : Env) (recvs : List RecvAnswer) : Env :=
  match env.readLoop recvs with
  | (env, false) => env
  | (env, true) => env.handleInput json

/-- `__onWrite`. `soError` is the error `getsockopt` reports, `calls` what the
callback `onConnected` sends. -/
def __onWrite (env : Env) (soError : Bool) (calls : List (List UInt8)) : Env :=
  if env.conn.connected = false ∧ soError then env.__willFreeMyself
  else
    let env :=
      if env.conn.connected then env
      else
        { env with conn := { env.conn with connected := true, hRead := true } }
          |>.__initTimerNoData |>.sendAll calls
    if env.conn.alive = false then { env with misused := true }
    else
      match env.__sendBuffer with
      | (env, false) => env.__willFreeMyself
      | (env, true) =>
          if env.conn.strOutput = [] then
            { env with conn := { env.conn with hWrite := false, wevRegisted := false } }
          else env

/-! ## What sending does -/

/-- The effect of `__sendBuffer`: `after` differs from `before` in the output, the
write handle and the answers still to come. A hard error is thrown; otherwise
output that is left over is watched. -/
structure Flushed (before after : Env) (returned : Bool) : Prop where
  frame : after =
    { before with
      conn := { before.conn with
        strOutput := after.conn.strOutput
        hWrite := after.conn.hWrite
        wevRegisted := after.conn.wevRegisted }
      sends := after.sends
      wire := after.wire }
  used : ∃ used, before.sends = used ++ after.sends ∧ (.failed ∈ used ↔ returned = false)
  shorter : after.conn.strOutput.length ≤ before.conn.strOutput.length
  watched : returned = true → after.conn.strOutput = [] ∨ after.conn.hWrite = true
  handle : (after.conn.hWrite = before.conn.hWrite ∧
      after.conn.wevRegisted = before.conn.wevRegisted) ∨
    (after.conn.hWrite = true ∧ after.conn.wevRegisted = true)

private theorem __sendBuffer_of_sent {env after : Env} {total : Nat}
    (small : env.conn.strOutput.length ≤ maxOutputSize) (some : env.conn.strOutput ≠ [])
    (sent : env.__sendData env.conn.strOutput = (after, Option.some total))
    (le : total ≤ env.conn.strOutput.length) :
    env.__sendBuffer =
      ({ after with conn :=
        { after.conn with strOutput := after.conn.strOutput.drop total } }, true) := by
  have limit : maxOutputSize < 2 ^ 31 := by decide
  have nSendBytes : int32 (total : Int) = total := Int.bmod_eq_of_le (by omega) (by omega)
  rw [__sendBuffer, if_neg some, sent]
  dsimp only
  rw [nSendBytes, Int.toNat_natCast]
  split_ifs with positive
  · rfl
  · have zero : total = 0 := by omega
    rw [zero, List.drop_zero]

theorem __sendBuffer_flushed {env : Env} (small : env.conn.strOutput.length ≤ maxOutputSize) :
    Flushed env env.__sendBuffer.1 env.__sendBuffer.2 := by
  by_cases empty : env.conn.strOutput = []
  · rw [__sendBuffer, if_pos empty]
    exact ⟨rfl, ⟨[], rfl, by simp⟩, le_refl _, fun _ => .inl empty, .inl ⟨rfl, rfl⟩⟩
  · have le := sendLoop_total_le env.sends (Nat.zero_le env.conn.strOutput.length)
    have complete := sendLoop_complete_iff env.sends (Nat.zero_le env.conn.strOutput.length)
    obtain ⟨used, split, failed⟩ := sendLoop_used env.conn.strOutput.length env.sends 0
    cases ending : (sendLoop env.conn.strOutput.length env.sends 0).ending with
    | complete =>
        rw [__sendBuffer_of_sent small empty (by rw [__sendData]; dsimp only; rw [ending]) le]
        refine ⟨rfl, ⟨used, split, by simp [failed, ending]⟩, by simp, ?_, .inl ⟨rfl, rfl⟩⟩
        intro _
        left
        dsimp only
        rw [(complete.mp ending).1, List.drop_length]
    | again =>
        rw [__sendBuffer_of_sent small empty (by rw [__sendData]; dsimp only; rw [ending]) le]
        exact ⟨rfl, ⟨used, split, by simp [failed, ending]⟩, by simp, fun _ => .inr rfl,
          .inr ⟨rfl, rfl⟩⟩
    | failed =>
        have thrown : env.__sendBuffer =
            ({ env with
              sends := (sendLoop env.conn.strOutput.length env.sends 0).answers
              wire := env.wire ++ env.conn.strOutput.take
                (sendLoop env.conn.strOutput.length env.sends 0).total }, false) := by
          rw [__sendBuffer, if_neg empty, __sendData]
          dsimp only
          rw [ending]
        rw [thrown]
        exact ⟨rfl, ⟨used, split, by simp [failed, ending]⟩, le_refl _, by simp,
          .inl ⟨rfl, rfl⟩⟩

def queued (env : Env) (pData : List UInt8) : Env :=
  { env with conn := { env.conn with strOutput := env.conn.strOutput ++ pData } }

/-- Everything `sendBin` can do. -/
inductive SendBin (env : Env) (pData : List UInt8) : Env × Bool → Prop where
  | freed : env.conn.alive = false → SendBin env pData ({ env with misused := true }, false)
  | overflow : env.conn.alive = true →
      maxOutputSize < env.conn.strOutput.length + pData.length →
      SendBin env pData (env.__initTimerDestry, false)
  | waits : env.conn.alive = true → env.conn.connected = false →
      (env.queued pData).conn.strOutput.length ≤ maxOutputSize →
      SendBin env pData (env.queued pData, true)
  | sent {after : Env} : env.conn.alive = true → env.conn.connected = true →
      (env.queued pData).conn.strOutput.length ≤ maxOutputSize →
      Flushed (env.queued pData) after true → SendBin env pData (after, true)
  | failed {after : Env} : env.conn.alive = true → env.conn.connected = true →
      (env.queued pData).conn.strOutput.length ≤ maxOutputSize →
      Flushed (env.queued pData) after false → SendBin env pData (after.__willFreeMyself, false)

theorem sendBin_cases (env : Env) (pData : List UInt8) : SendBin env pData (env.sendBin pData) := by
  unfold sendBin
  by_cases dead : env.conn.alive = false
  · rw [if_pos dead]
    exact .freed dead
  rw [if_neg dead]
  have alive : env.conn.alive = true := by simpa using dead
  unfold __appendBuffer
  by_cases large : maxOutputSize < env.conn.strOutput.length + pData.length
  · rw [if_pos large]
    exact .overflow alive large
  rw [if_neg large]
  have small : (env.queued pData).conn.strOutput.length ≤ maxOutputSize := by
    simp only [queued, List.length_append]
    omega
  change SendBin env pData (if (env.queued pData).conn.connected then _ else _)
  by_cases connected : env.conn.connected = true
  · have flushed := __sendBuffer_flushed small
    rw [if_pos (show (env.queued pData).conn.connected = true from connected)]
    change SendBin env pData (match (env.queued pData).__sendBuffer with
      | (env, false) => (env.__willFreeMyself, false)
      | (env, true) => (env, true))
    cases result : (env.queued pData).__sendBuffer with
    | mk after returned =>
        rw [result] at flushed
        cases returned with
        | true => exact .sent alive connected small flushed
        | false => exact .failed alive connected small flushed
  · rw [if_neg (show ¬ (env.queued pData).conn.connected = true from connected)]
    exact .waits alive (by simpa using connected) small

end Env

end CLibs.LibevworkUsing
