import CLibs.Libevwork.ClientOutput
import CLibs.LibevworkUsing.ClientConn

/-!
# Pending output is watched

The life of a connection of `libevwork_using` as a run, and when its write handle is
registered: always while output is pending, and exactly when `m_wevRegisted` says so.
-/

set_option autoImplicit false
set_option linter.style.nameCheck false

namespace CLibs.LibevworkUsing

open General Libevwork

/-- What happens to a connection, with the answers of `::send` during the step. -/
inductive EnvOp where
  | sendBin (sends : List SendAnswer) (pData : List UInt8)
  | readable (recvs : List RecvAnswer) (sends : List SendAnswer)
      (handlers : List (List (List UInt8)))
  | writable (soError : Bool) (sends : List SendAnswer) (calls : List (List UInt8))
  | close

variable {Value : Type}

/-- The connection after a step, if the step is possible. -/
def EnvOp.apply (json : Jsoncpp Value) (env : Env) : EnvOp → Option Env
  | .sendBin sends pData =>
      if env.conn.alive then some ({ env with sends := sends }.sendBin pData).1 else none
  | .readable recvs sends handlers =>
      if env.conn.alive ∧ env.conn.hRead then
        some ({ env with sends := sends, handlers := handlers }.__onRead json recvs)
      else none
  | .writable soError sends calls =>
      if env.conn.alive ∧ env.conn.hWrite then
        some ({ env with sends := sends }.__onWrite soError calls)
      else none
  | .close => if env.conn.alive then some env.__willFreeMyself else none

/-- `CClientConn(strPeerIp, uPeerPort16)`. -/
def CClientConn.connecting : CClientConn :=
  { connected := false, hWrite := true, wevRegisted := true }

/-- `CClientConn(fd, strPeerIp, uPeerPort16)`. -/
def CClientConn.incoming : CClientConn :=
  { connected := true, hRead := true, timerNoDataStart := true }

/-- The life of one connection. -/
def envSystem (json : Jsoncpp Value) : System Env EnvOp where
  start env := env.conn = .connecting ∨ env.conn = .incoming
  step env op next := op.apply json env = some next

/-- A property of worlds that every dispatch keeps holds when `onData` ends. -/
theorem CJsonData.onDataFrom_keeps {World : Type} (json : Jsoncpp Value)
    (app : Application World Value) {keeps : World → Prop}
    (step : ∀ world value, keeps world → keeps (app.dispatch world value))
    (handler : CJsonData) (world : World) (pData : List UInt8) (offset : Nat) (nProcessed : Int)
    (start : keeps world) :
    keeps (handler.onDataFrom json app world pData offset nProcessed).world := by
  fun_induction CJsonData.onDataFrom json app handler world pData offset nProcessed with
  | case1 => exact start
  | case2 => exact start
  | case3 => exact start
  | case4 => exact start
  | case5 => exact start
  | case6 => exact start
  | case7 => exact start
  | case8 => exact step _ _ start
  | case9 handler world pData offset nProcessed _ _ _ _ _ _ _ _ _ _ _ _ _ ih =>
      exact ih (step _ _ start)

namespace Env

/-- As long as the connection lives, pending output is watched and the flag agrees
with the loop; a freed connection leaves no handle behind. -/
structure Watched (env : Env) : Prop where
  output : env.conn.strOutput.length ≤ maxOutputSize
  pending : env.conn.alive = true → env.conn.connected = false ∨ env.conn.strOutput ≠ [] →
    env.conn.hWrite = true
  registered : env.conn.alive = true → env.conn.wevRegisted = env.conn.hWrite
  freed : env.conn.alive = false → env.conn.hWrite = false

theorem Watched.of_conn {env after : Env} (watched : env.Watched) (same : after.conn = env.conn) :
    after.Watched := by
  refine ⟨?_, ?_, ?_, ?_⟩
  · rw [same]
    exact watched.output
  · rw [same]
    exact watched.pending
  · rw [same]
    exact watched.registered
  · rw [same]
    exact watched.freed

/-- The destructor removes the write handle if the flag agrees with the loop. -/
theorem Watched.willFreeMyself {env : Env} (output : env.conn.strOutput.length ≤ maxOutputSize)
    (alive : env.conn.alive = true) (registered : env.conn.wevRegisted = env.conn.hWrite) :
    env.__willFreeMyself.Watched := by
  rw [__willFreeMyself, if_pos alive]
  refine ⟨output, ?_, ?_, ?_⟩
  · intro living
    simp [CClientConn.delete] at living
  · intro living
    simp [CClientConn.delete] at living
  · intro _
    simp [CClientConn.delete, registered]

theorem Flushed.alive {before after : Env} {returned : Bool}
    (flushed : Flushed before after returned) : after.conn.alive = before.conn.alive := by
  rw [flushed.frame]

theorem Flushed.connected {before after : Env} {returned : Bool}
    (flushed : Flushed before after returned) :
    after.conn.connected = before.conn.connected := by
  rw [flushed.frame]

theorem Flushed.registered {before after : Env} {returned : Bool}
    (flushed : Flushed before after returned)
    (registered : before.conn.wevRegisted = before.conn.hWrite) :
    after.conn.wevRegisted = after.conn.hWrite := by
  rcases flushed.handle with ⟨hWrite, wevRegisted⟩ | ⟨hWrite, wevRegisted⟩
  · rw [hWrite, wevRegisted, registered]
  · rw [hWrite, wevRegisted]

theorem Watched.sendBin {env : Env} (watched : env.Watched) (pData : List UInt8) :
    (env.sendBin pData).1.Watched := by
  have effect := sendBin_cases env pData
  generalize env.sendBin pData = result at effect ⊢
  cases effect with
  | freed _ => exact watched.of_conn rfl
  | overflow _ _ => exact ⟨watched.output, watched.pending, watched.registered, watched.freed⟩
  | waits _ waiting small =>
      exact ⟨small, fun alive _ => watched.pending alive (.inl waiting), watched.registered,
        watched.freed⟩
  | sent alive connected small flushed =>
      refine ⟨le_trans flushed.shorter small, ?_, ?_, ?_⟩
      · intro _ pending
        rcases pending with waiting | more
        · rw [flushed.connected] at waiting
          simp [queued, connected] at waiting
        · exact (flushed.watched rfl).resolve_left more
      · intro _
        exact flushed.registered (watched.registered alive)
      · intro dead
        rw [flushed.alive] at dead
        simp [queued, alive] at dead
  | failed alive _ small flushed =>
      exact .willFreeMyself (le_trans flushed.shorter small) (flushed.alive.trans alive)
        (flushed.registered (watched.registered alive))

theorem Watched.sendAll {env : Env} (watched : env.Watched) (calls : List (List UInt8)) :
    (env.sendAll calls).Watched := by
  induction calls generalizing env with
  | nil => exact watched
  | cons pData calls ih => exact ih (watched.sendBin pData)

theorem Watched.dispatch {env : Env} (watched : env.Watched) (value : Value) :
    ((application Value).dispatch env value).Watched := by
  have popped : ({ env with handlers := env.handlers.tail } : Env).Watched := watched.of_conn rfl
  exact popped.sendAll (env.handlers.headD [])

theorem Watched.free {env : Env} (watched : env.Watched) : env.__willFreeMyself.Watched := by
  by_cases alive : env.conn.alive = true
  · exact .willFreeMyself watched.output alive (watched.registered alive)
  · rw [__willFreeMyself, if_neg alive]
    exact watched.of_conn rfl

theorem Watched.readLoop {env : Env} (watched : env.Watched) (recvs : List RecvAnswer) :
    (env.readLoop recvs).1.Watched := by
  induction env, recvs using readLoop.induct with
  | case1 env =>
      rw [Env.readLoop]
      exact watched
  | case2 env answer recvs closed =>
      rw [Env.readLoop, closed]
      exact watched.free
  | case3 env answer recvs bytes got overflow =>
      rw [Env.readLoop, got]
      dsimp only
      rw [if_pos overflow]
      exact watched.free
  | case4 env answer recvs bytes got fits last =>
      rw [Env.readLoop, got]
      dsimp only
      rw [if_neg fits, if_pos last]
      exact ⟨watched.output, watched.pending, watched.registered, watched.freed⟩
  | case5 env answer recvs bytes got fits _ more ih =>
      rw [Env.readLoop, got]
      dsimp only
      rw [if_neg fits, if_neg more]
      exact ih ⟨watched.output, watched.pending, watched.registered, watched.freed⟩

theorem Watched.onRead {env : Env} (watched : env.Watched) (json : Jsoncpp Value)
    (recvs : List RecvAnswer) : (env.__onRead json recvs).Watched := by
  have read := watched.readLoop recvs
  unfold __onRead
  cases result : env.readLoop recvs with
  | mk after opened =>
      rw [result] at read
      cases opened with
      | false => exact read
      | true =>
          dsimp only at read ⊢
          unfold handleInput
          split_ifs with empty
          · exact read
          have handled : (after.data.onData json (application Value) after
              after.conn.strInput).world.Watched :=
            CJsonData.onDataFrom_keeps json (application Value)
              (fun _ value watched => watched.dispatch value) _ _ _ _ _ read
          generalize after.data.onData json (application Value) after after.conn.strInput =
            received at handled
          dsimp only
          have kept : ({ received.world with data := received.handler } : Env).Watched :=
            handled.of_conn rfl
          cases received.ending with
          | returned n =>
              dsimp only
              split_ifs
              · exact kept.free
              · exact ⟨kept.output, kept.pending, kept.registered, kept.freed⟩
              · exact kept.of_conn rfl
              · exact kept
          | freed => exact kept.of_conn rfl
          | overrun => exact kept
          | spins => exact kept

theorem sendBin_connected (env : Env) (pData : List UInt8) :
    (env.sendBin pData).1.conn.connected = env.conn.connected := by
  have effect := sendBin_cases env pData
  generalize env.sendBin pData = result at effect ⊢
  cases effect with
  | freed _ => rfl
  | overflow _ _ => rfl
  | waits _ _ _ => rfl
  | sent _ _ _ flushed => exact flushed.connected
  | failed alive _ _ flushed =>
      rw [__willFreeMyself, if_pos (flushed.alive.trans alive)]
      exact flushed.connected

theorem sendAll_connected (env : Env) (calls : List (List UInt8)) :
    (env.sendAll calls).conn.connected = env.conn.connected := by
  induction calls generalizing env with
  | nil => rfl
  | cons pData calls ih => exact (ih _).trans (sendBin_connected env pData)

theorem Watched.drain {env : Env} (watched : env.Watched) (connected : env.conn.connected = true) :
    (if env.conn.alive = false then { env with misused := true }
      else match env.__sendBuffer with
        | (env, false) => env.__willFreeMyself
        | (env, true) =>
            if env.conn.strOutput = [] then
              { env with conn := { env.conn with hWrite := false, wevRegisted := false } }
            else env).Watched := by
  by_cases dead : env.conn.alive = false
  · rw [if_pos dead]
    exact watched.of_conn rfl
  rw [if_neg dead]
  have alive : env.conn.alive = true := by simpa using dead
  have flushed := __sendBuffer_flushed watched.output
  have registered := flushed.registered (watched.registered alive)
  have output := le_trans flushed.shorter watched.output
  have living := flushed.alive.trans alive
  have still := flushed.connected.trans connected
  cases result : env.__sendBuffer with
  | mk after returned =>
      rw [result] at flushed registered output living still
      dsimp only at registered output living still
      cases returned with
      | false => exact .willFreeMyself output living registered
      | true =>
          dsimp only
          split_ifs with empty
          · refine ⟨output, ?_, fun _ => rfl, fun _ => rfl⟩
            intro _ pending
            simp [still, empty] at pending
          · refine ⟨output, fun _ _ => ?_, fun _ => registered, ?_⟩
            · exact (flushed.watched rfl).resolve_left empty
            · simp [living]

theorem Watched.onWrite {env : Env} (watched : env.Watched) (soError : Bool)
    (calls : List (List UInt8)) : (env.__onWrite soError calls).Watched := by
  unfold __onWrite
  by_cases failed : env.conn.connected = false ∧ soError = true
  · rw [if_pos failed]
    exact watched.free
  rw [if_neg failed]
  by_cases connected : env.conn.connected = true
  · rw [if_pos connected]
    exact watched.drain connected
  · rw [if_neg connected]
    have waiting : env.conn.connected = false := by simpa using connected
    have opened : ({ env with conn := { env.conn with
        connected := true, hRead := true } } : Env).__initTimerNoData.Watched :=
      ⟨watched.output, fun alive _ => watched.pending alive (.inl waiting), watched.registered,
        watched.freed⟩
    exact (opened.sendAll calls).drain (sendAll_connected _ calls)

theorem Watched.step {env next : Env} (watched : env.Watched) (json : Jsoncpp Value) {op : EnvOp}
    (taken : op.apply json env = some next) : next.Watched := by
  cases op with
  | sendBin sends pData =>
      simp only [EnvOp.apply, Option.ite_none_right_eq_some, Option.some.injEq] at taken
      have start : ({ env with sends := sends } : Env).Watched := watched.of_conn rfl
      rw [← taken.2]
      exact start.sendBin pData
  | readable recvs sends handlers =>
      simp only [EnvOp.apply, Option.ite_none_right_eq_some, Option.some.injEq] at taken
      have start : ({ env with sends := sends, handlers := handlers } : Env).Watched :=
        watched.of_conn rfl
      rw [← taken.2]
      exact start.onRead json recvs
  | writable soError sends calls =>
      simp only [EnvOp.apply, Option.ite_none_right_eq_some, Option.some.injEq] at taken
      have start : ({ env with sends := sends } : Env).Watched := watched.of_conn rfl
      rw [← taken.2]
      exact start.onWrite soError calls
  | close =>
      simp only [EnvOp.apply, Option.ite_none_right_eq_some, Option.some.injEq] at taken
      rw [← taken.2]
      exact watched.free

theorem watched_of_run {json : Jsoncpp Value} {ops : List EnvOp} {env : Env}
    (run : (envSystem json).Run ops env) : env.Watched := by
  refine run.invariant Watched ?_ ?_
  · rintro first (same | same)
    · refine ⟨?_, ?_, ?_, ?_⟩ <;> rw [same] <;> decide
    · refine ⟨?_, ?_, ?_, ?_⟩ <;> rw [same] <;> decide
  · intro before op after watched taken
    exact watched.step json taken

end Env

/-- Between events, a live connection of `libevwork_full` has its write handle in
the loop exactly while it connects or has output. One of `libevwork_using` has it
there at least then, and its flag always tells; freed, it leaves no handle behind. -/
theorem pending_output_watched (json : Jsoncpp Value) :
    (∀ (ops : List ConnOp) (conn : Libevwork.CClientConn), connSystem.Run ops conn →
      conn.alive = true → conn.phase = .idle →
      (conn.hWrite = true ↔ conn.connected = false ∨ conn.output ≠ [])) ∧
    ∀ (ops : List EnvOp) (env : Env), (envSystem json).Run ops env →
      (env.conn.alive = true →
        (env.conn.connected = false ∨ env.conn.strOutput ≠ [] → env.conn.hWrite = true) ∧
        (env.conn.wevRegisted = true ↔ env.conn.hWrite = true)) ∧
      (env.conn.alive = false → env.conn.hWrite = false) := by
  constructor
  · intro ops conn run alive idle
    exact (Libevwork.CClientConn.watched_of_run run alive).settled (by simp [idle])
  · intro ops env run
    have watched := Env.watched_of_run run
    refine ⟨fun alive => ⟨watched.pending alive, ?_⟩, watched.freed⟩
    rw [watched.registered alive]

/-- Two bytes, of which the kernel takes one. -/
theorem pending_output_watched_twoBytes :
    (Libevwork.CClientConn.incoming.send [.took 1, .again] [1, 2]).hWrite = true := by
  have opened : connSystem.Run [] .incoming := .start (.inr rfl)
  have run : connSystem.Run ([] ++ [.sendBin [.took 1, .again] [1, 2]])
      (Libevwork.CClientConn.incoming.send [.took 1, .again] [1, 2]) := .step opened rfl
  exact ((pending_output_watched (⟨fun _ => [], fun _ => none⟩ : Jsoncpp Unit)).1 _ _ run
    rfl rfl).mpr (.inr (by decide))

end CLibs.LibevworkUsing
