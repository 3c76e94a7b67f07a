import CLibs.LibevworkUsing.ClientConn
import CLibs.LibevworkUsing.JsonSafety

/-!
# The lifetime of a connection

`sendBin` frees the connection at once when `::send` fails. During a read event the
request handler that called it, the loop of `CJsonData::onData` and the end of
`__onRead` all go on with the freed connection.
-/

set_option autoImplicit false

namespace CLibs.LibevworkUsing

open General Libevwork

namespace Env

/-- Both strings are within the sizes that are checked before anything is appended. -/
structure Bounded (env : Env) : Prop where
  input : env.conn.strInput.length ≤ maxInputSize
  output : env.conn.strOutput.length ≤ maxOutputSize

/-- From `before` to `after` some answers of `::send` were used. The connection is
freed by a hard error among them, and by nothing else, and it is misused only once
it is freed. -/
structure Served (before after : Env) : Prop where
  used : ∃ used, before.sends = used ++ after.sends ∧
    (after.conn.alive = false ↔ before.conn.alive = false ∨ .failed ∈ used)
  misused : after.misused = true → before.misused = true ∨ after.conn.alive = false
  output : after.conn.strOutput.length ≤ maxOutputSize

theorem Served.of_same {before after : Env} (sends : before.sends = after.sends)
    (alive : after.conn.alive = before.conn.alive) (misused : after.misused = before.misused)
    (output : after.conn.strOutput.length ≤ maxOutputSize) : Served before after :=
  ⟨⟨[], sends, by simp [alive]⟩, by simp +contextual [misused], output⟩

theorem Served.trans {first second third : Env} (before : Served first second)
    (after : Served second third) : Served first third := by
  obtain ⟨used, split, freed⟩ := before.used
  obtain ⟨used', split', freed'⟩ := after.used
  refine ⟨⟨used ++ used', by rw [split, split', List.append_assoc], ?_⟩, ?_, after.output⟩
  · rw [freed', freed, List.mem_append, or_assoc]
  · intro misused
    rcases after.misused misused with earlier | now
    · rcases before.misused earlier with start | dead
      · exact .inl start
      · exact .inr (freed'.mpr (.inl dead))
    · exact .inr now

theorem sendBin_served {env : Env} (output : env.conn.strOutput.length ≤ maxOutputSize)
    (pData : List UInt8) : Served env (env.sendBin pData).1 := by
  have effect := sendBin_cases env pData
  cases result : env.sendBin pData with
  | mk after returned =>
      rw [result] at effect
      dsimp only
      cases effect with
      | freed dead => exact ⟨⟨[], rfl, by simp⟩, fun _ => .inr dead, output⟩
      | overflow _ _ => exact .of_same rfl rfl rfl output
      | waits _ _ small => exact .of_same rfl rfl rfl small
      | sent alive _ small flushed =>
          obtain ⟨used, split, failed⟩ := flushed.used
          rw [flushed.frame]
          refine ⟨⟨used, split, ?_⟩, fun misused => .inl misused, ?_⟩
          · simp [failed, queued]
          · exact le_trans flushed.shorter small
      | @failed after alive _ small flushed =>
          obtain ⟨used, split, failed⟩ := flushed.used
          have living : after.conn.alive = true := by
            rw [flushed.frame]
            exact alive
          rw [__willFreeMyself, if_pos living]
          refine ⟨⟨used, split, ?_⟩, fun _ => .inr rfl, le_trans flushed.shorter small⟩
          simp [CClientConn.delete, failed]

theorem sendAll_served (calls : List (List UInt8)) {env : Env}
    (output : env.conn.strOutput.length ≤ maxOutputSize) : Served env (env.sendAll calls) := by
  induction calls generalizing env with
  | nil => exact .of_same rfl rfl rfl output
  | cons pData calls ih =>
      have first := sendBin_served output pData
      exact first.trans (ih first.output)

theorem dispatch_served {Value : Type} (value : Value) {env : Env}
    (output : env.conn.strOutput.length ≤ maxOutputSize) :
    Served env ((application Value).dispatch env value) := by
  have popped : Served env { env with handlers := env.handlers.tail } :=
    .of_same rfl rfl rfl output
  exact popped.trans (sendAll_served (env.handlers.headD []) output)

/-! ## The loop of `onData` -/

/-- What the loop of `onData` leaves behind: it is stopped by a freed connection, or
it returns the size of at least one packet. -/
structure Handled {Value : Type} (before : Env) (received : Received Env Value) : Prop where
  served : Served before received.world
  freed : received.ending = .freed → received.world.conn.alive = false
  dead : received.world.conn.alive = false →
    received.ending = .freed ∨ ∃ n : Int, 0 < n ∧ received.ending = .returned n

theorem Handled.of_alive {Value : Type} {env : Env} {received : Received Env Value}
    (alive : env.conn.alive = true) (output : env.conn.strOutput.length ≤ maxOutputSize)
    (same : received.world = env) (ending : received.ending ≠ .freed) : Handled env received := by
  refine ⟨?_, fun freed => absurd freed ending, ?_⟩
  · rw [same]
    exact .of_same rfl rfl rfl output
  · intro dead
    rw [same, alive] at dead
    cases dead

theorem onDataFrom_handled {Value : Type} (json : Jsoncpp Value) (length : Nat) :
    ∀ (handler : CJsonData) (env : Env) (pData : List UInt8) (offset nProcessed : Nat),
    pData.length = length → nProcessed + length < 2 ^ 31 →
    env.conn.strOutput.length ≤ maxOutputSize → (env.conn.alive = true ∨ 0 < nProcessed) →
    Handled env (handler.onDataFrom json (application Value) env pData offset nProcessed) := by
  induction length using Nat.strongRecOn with
  | ind length ih =>
      intro handler env pData offset nProcessed same small output progress
      by_cases short : pData.length < 4
      · rw [CJsonData.onDataFrom_short _ _ short]
        refine ⟨.of_same rfl rfl rfl output, by simp, ?_⟩
        intro dead
        right
        refine ⟨nProcessed, ?_, rfl⟩
        rcases progress with alive | positive
        · rw [show env.conn.alive = false from dead] at alive
          cases alive
        · exact_mod_cast positive
      rw [not_lt] at short
      by_cases dead : env.conn.alive = false
      · rw [CJsonData.onDataFrom_freed _ _ short dead]
        exact ⟨.of_same rfl rfl rfl output, fun _ => dead, fun _ => .inl rfl⟩
      have alive : env.conn.alive = true := by simpa using dead
      by_cases refused : handler.refuses (Header.peekLen pData) = true
      · rw [CJsonData.onDataFrom_refused _ _ short alive refused]
        exact .of_alive alive output rfl (by simp)
      by_cases wraps : 2 ^ 32 ≤ 4 + lenField pData
      · rw [CJsonData.onDataFrom_overrun _ _ short alive refused wraps (by omega)]
        exact .of_alive alive output rfl (by simp)
      by_cases incomplete : pData.length < 4 + lenField pData
      · rw [CJsonData.onDataFrom_partial _ _ short alive refused (by omega) incomplete]
        exact .of_alive alive output rfl (by simp)
      rw [not_lt] at incomplete
      cases parsed : Jpacket.parse json (Memory.read pData 4 (lenField pData)) with
      | none =>
          rw [CJsonData.onDataFrom_garbage _ _ short alive refused incomplete parsed]
          exact .of_alive alive output rfl (by simp)
      | some value =>
          have dropped : (pData.drop (4 + lenField pData)).length =
              length - (4 + lenField pData) := by
            rw [List.length_drop, same]
          have first := dispatch_served value output
          have rest := ih _ (by omega) (handler.counted (Header.peekLen pData))
            ((application Value).dispatch env value) _ (offset + (4 + lenField pData))
            (nProcessed + (4 + lenField pData)) dropped (by omega) first.output (.inr (by omega))
          rw [CJsonData.onDataFrom_packet _ _ short alive refused incomplete (by omega) parsed,
            int32_add (by omega)]
          exact ⟨first.trans rest.served, rest.freed, rest.dead⟩

theorem onData_handled {Value : Type} (json : Jsoncpp Value) {env : Env}
    (alive : env.conn.alive = true) (bounded : env.Bounded) :
    Handled env (env.data.onData json (application Value) env env.conn.strInput) := by
  have limit : maxInputSize < 2 ^ 31 := by decide
  have input := bounded.input
  exact onDataFrom_handled json env.conn.strInput.length env.data env env.conn.strInput
    0 0 rfl (by omega) bounded.output (.inl alive)

/-! ## The whole event -/

/-- From `before` to `after` the connection was misused exactly if `::send` answered
with a hard error. -/
def MisusedByFailure (before after : Env) : Prop :=
  ∃ used, before.sends = used ++ after.sends ∧ (after.misused = true ↔ .failed ∈ used)

/-- The end of `__onRead` uses the connection once more when the loop has returned. -/
theorem handleInput_misused {Value : Type} (json : Jsoncpp Value) {env : Env}
    (alive : env.conn.alive = true) (clean : env.misused = false) (bounded : env.Bounded) :
    MisusedByFailure env (env.handleInput json) := by
  unfold handleInput
  by_cases empty : env.conn.strInput = []
  · rw [if_pos empty]
    exact ⟨[], rfl, by simp [clean]⟩
  rw [if_neg empty]
  have handled := onData_handled json alive bounded
  generalize env.data.onData json (application Value) env env.conn.strInput = received at handled
  obtain ⟨used, split, freed⟩ := handled.served.used
  rw [alive] at freed
  have intact : received.world.conn.alive = true → received.world.misused = false := by
    intro living
    by_contra misused
    rcases handled.served.misused (by simpa using misused) with before | dead
    · rw [clean] at before
      cases before
    · rw [living] at dead
      cases dead
  dsimp only
  by_cases living : received.world.conn.alive = true
  · have kept := intact living
    have noFailure : .failed ∉ used := by simpa [living] using freed
    cases ending : received.ending with
    | returned n =>
        dsimp only
        unfold __willFreeMyself
        split_ifs <;> exact ⟨used, split, by simp [kept, noFailure]⟩
    | freed =>
        have dead := handled.freed ending
        rw [living] at dead
        cases dead
    | overrun => exact ⟨used, split, by simp [kept, noFailure]⟩
    | spins => exact ⟨used, split, by simp [kept, noFailure]⟩
  · have dead : received.world.conn.alive = false := by simpa using living
    have failure : .failed ∈ used := by simpa [dead] using freed
    rcases handled.dead dead with ending | ⟨n, positive, ending⟩
    · rw [ending]
      exact ⟨used, split, by simp [failure]⟩
    · rw [ending]
      dsimp only
      rw [if_neg (by omega), if_pos positive, if_neg (by simp [dead])]
      exact ⟨used, split, by simp [failure]⟩

theorem readLoop_cases (recvs : List RecvAnswer) {env : Env} (alive : env.conn.alive = true)
    (bounded : env.Bounded) :
    ((env.readLoop recvs).2 = false ∧ (env.readLoop recvs).1.sends = env.sends ∧
        (env.readLoop recvs).1.misused = env.misused) ∨
      ((env.readLoop recvs).2 = true ∧ (env.readLoop recvs).1.conn.alive = true ∧
        (env.readLoop recvs).1.Bounded ∧ (env.readLoop recvs).1.sends = env.sends ∧
        (env.readLoop recvs).1.misused = env.misused) := by
  induction env, recvs using readLoop.induct with
  | case1 env =>
      rw [readLoop]
      exact .inr ⟨rfl, alive, bounded, rfl, rfl⟩
  | case2 env answer recvs closed =>
      rw [readLoop, closed]
      dsimp only
      rw [__willFreeMyself, if_pos alive]
      exact .inl ⟨rfl, rfl, rfl⟩
  | case3 env answer recvs bytes got overflow =>
      rw [readLoop, got]
      dsimp only
      rw [if_pos overflow, __willFreeMyself, if_pos alive]
      exact .inl ⟨rfl, rfl, rfl⟩
  | case4 env answer recvs bytes got fits last =>
      have input := bounded.input
      rw [readLoop, got]
      dsimp only
      rw [if_neg fits, if_pos last]
      refine .inr ⟨rfl, alive, ⟨?_, bounded.output⟩, rfl, rfl⟩
      simp only [List.length_append]
      omega
  | case5 env answer recvs bytes got fits _ more ih =>
      have input := bounded.input
      rw [readLoop, got]
      dsimp only
      rw [if_neg fits, if_neg more]
      have grown : (env.conn.strInput ++ bytes).length ≤ maxInputSize := by
        rw [List.length_append]
        omega
      exact ih alive ⟨grown, bounded.output⟩

/-- During a read event the connection is used after it was freed exactly if one of
the answers `::send` gives to the request handlers is a hard error. The answers
listed are those the event asks for. -/
theorem onRead_misused_iff {Value : Type} (json : Jsoncpp Value) (env : Env)
    (recvs : List RecvAnswer) (alive : env.conn.alive = true) (clean : env.misused = false)
    (bounded : env.Bounded) (asked : (env.__onRead json recvs).sends = []) :
    (env.__onRead json recvs).misused = false ↔ .failed ∉ env.sends := by
  unfold __onRead at asked ⊢
  have loop := readLoop_cases recvs alive bounded
  cases result : env.readLoop recvs with
  | mk after opened =>
      rw [result] at loop asked
      rcases loop with ⟨rfl, sends, misused⟩ | ⟨rfl, alive', bounded', sends, misused⟩
      · dsimp only at asked sends misused ⊢
        rw [misused, clean, ← sends, asked]
        simp
      · dsimp only at asked alive' bounded' sends misused ⊢
        obtain ⟨used, split, failure⟩ :=
          handleInput_misused json alive' (misused.trans clean) bounded'
        rw [asked, List.append_nil, sends] at split
        rw [split, ← failure]
        simp

/-- A connection with a request for `7` in its input, whose handler answers with one
byte. -/
def sevenRequested (sends : List SendAnswer) : Env where
  conn := { connected := true, strInput := [2, 0, 0, 0, 39, 26], hRead := true }
  sends := sends
  handlers := [[[1]]]

private theorem sevenRequested_onRead (sends : List SendAnswer) :
    (sevenRequested sends).__onRead digitJson [] =
      let env := { (application (Fin 10)).dispatch (sevenRequested sends) 7 with
        data := ({} : CJsonData).counted 2 }
      if env.conn.alive then { env with conn := { env.conn with
        strInput := env.conn.strInput.drop 6 } }
      else { env with misused := true } := by
  have call : (sevenRequested sends).data.onData digitJson (application (Fin 10))
      (sevenRequested sends) (sevenRequested sends).conn.strInput =
        ⟨({} : CJsonData).counted 2, (application (Fin 10)).dispatch (sevenRequested sends) 7,
          [⟨0, 2, some 7⟩], .returned 6⟩ := by
    have admitted : ¬ ({} : CJsonData).refuses (Header.peekLen [2, 0, 0, 0, 39, 26]) = true := by
      decide
    have complete : 4 + lenField [2, 0, 0, 0, 39, 26] ≤ [2, 0, 0, 0, 39, 26].length := by decide
    have parsed : Jpacket.parse digitJson
        (Memory.read [2, 0, 0, 0, 39, 26] 4 (lenField [2, 0, 0, 0, 39, 26])) = some 7 := by
      decide
    have rest : ([2, 0, 0, 0, 39, 26].drop (4 + lenField [2, 0, 0, 0, 39, 26])).length < 4 := by
      decide
    have counted : int32 (0 + int32 (4 + lenField [2, 0, 0, 0, 39, 26] : Nat)) = 6 := by decide
    have len : Header.peekLen [2, 0, 0, 0, 39, 26] = 2 := by decide
    refine (CJsonData.onDataFrom_packet 0 0 (by decide) rfl admitted complete (by decide)
      parsed).trans ?_
    rw [CJsonData.onDataFrom_short _ _ rest, counted, len]
  rw [__onRead, readLoop]
  dsimp only
  rw [handleInput, if_neg (by simp [sevenRequested])]
  dsimp only
  rw [call]
  rfl

/-- The kernel takes the byte. -/
theorem onRead_misused_iff_seven :
    ((sevenRequested [.took 1]).__onRead digitJson []).misused = false :=
  (onRead_misused_iff digitJson (sevenRequested [.took 1]) [] rfl rfl ⟨by decide, by decide⟩
    (by rw [sevenRequested_onRead]; decide)).mpr (by decide)

/-- `::send` fails: `__onRead` erases the input of the freed connection. -/
theorem not_onRead_clean :
    ¬ ((sevenRequested [.failed]).__onRead digitJson []).misused = false := by
  rw [sevenRequested_onRead]
  decide

end Env

end CLibs.LibevworkUsing
