import CLibs.Libevwork.ClientConn
import Mathlib.Tactic

/-!
# The output of a connection

What the kernel takes from a connection of `libevwork_full`, and when its write
handle is registered. Both follow from what one call of `sendBin` and one call of
`__sendBuffer` can do.
-/

set_option autoImplicit false
set_option linter.style.nameCheck false

namespace CLibs.Libevwork

open General

namespace CClientConn

/-- Everything a call of `sendBin` can do to the connection. -/
inductive Sends (conn : CClientConn) (answers : List SendAnswer) (pData : List UInt8) :
    CClientConn → Prop where
  | queued : conn.connected = false ∨ conn.output ≠ [] →
      conn.output.length + pData.length ≤ maxOutputSize →
      Sends conn answers pData
        { conn with output := conn.output ++ pData, accepted := conn.accepted ++ [pData] }
  | overflow : conn.connected = false ∨ conn.output ≠ [] →
      maxOutputSize < conn.output.length + pData.length →
      Sends conn answers pData { conn with timerDestroyStart := true }
  | direct : conn.connected = true → conn.output = [] →
      (sendLoop pData.length answers 0).total = pData.length →
      Sends conn answers pData
        { conn with wire := conn.wire ++ pData, accepted := conn.accepted ++ [pData] }
  | partly {total : Nat} : conn.connected = true → conn.output = [] →
      (sendLoop pData.length answers 0).total = total → total < pData.length →
      pData.length ≤ total + maxOutputSize →
      Sends conn answers pData
        { conn with
          wire := conn.wire ++ pData.take total
          output := pData.drop total
          hWrite := true
          accepted := conn.accepted ++ [pData] }
  | cutOff {total : Nat} : conn.connected = true → conn.output = [] →
      (sendLoop pData.length answers 0).total = total → total + maxOutputSize < pData.length →
      Sends conn answers pData
        { conn with wire := conn.wire ++ pData.take total, timerDestroyStart := true }
  | failed {total : Nat} : conn.connected = true → conn.output = [] → .failed ∈ answers →
      Sends conn answers pData
        { conn with wire := conn.wire ++ pData.take total, timerDestroyStart := true }

theorem mem_of_sendLoop_failed {size : Nat} {answers : List SendAnswer} {total : Nat}
    (failed : (sendLoop size answers total).ending = .failed) : .failed ∈ answers := by
  obtain ⟨used, split, iff⟩ := sendLoop_used size answers total
  rw [split]
  exact List.mem_append_left _ (iff.mpr failed)

theorem __sendData_eq (conn : CClientConn) (answers : List SendAnswer) (pData : List UInt8) :
    conn.__sendData answers pData =
      ({ conn with wire := conn.wire ++ pData.take (sendLoop pData.length answers 0).total },
        if (sendLoop pData.length answers 0).ending = .failed then none
        else some (sendLoop pData.length answers 0).total) := by
  rw [__sendData]
  cases (sendLoop pData.length answers 0).ending with
  | complete => rfl
  | again => rfl
  | failed => rfl

/-- `__appendBuffer` and what `sendBin` makes of its exception. -/
private theorem send_append {conn : CClientConn} {answers : List SendAnswer} {pData : List UInt8}
    (waits : conn.connected = false ∨ conn.output ≠ []) :
    Sends conn answers pData (conn.send answers pData) := by
  have same : conn.sendBin answers pData =
      if maxOutputSize < conn.output.length + pData.length then conn.delayFree
      else ({ conn with output := conn.output ++ pData }, true) := by
    rw [sendBin, __appendBuffer]
    rcases waits with waiting | pending
    · rw [if_pos waiting]
      split_ifs <;> rfl
    · rw [if_neg (show ¬ conn.output.length = 0 by simpa using pending)]
      split_ifs <;> rfl
  rw [send, same]
  by_cases large : maxOutputSize < conn.output.length + pData.length
  · rw [if_pos large]
    exact .overflow waits large
  · rw [if_neg large]
    exact .queued waits (by omega)

private theorem send_direct {conn : CClientConn} (answers : List SendAnswer) (pData : List UInt8)
    (connected : conn.connected = true) (empty : conn.output = []) :
    Sends conn answers pData (conn.send answers pData) := by
  have le := sendLoop_total_le answers (Nat.zero_le pData.length)
  rw [send, sendBin, if_neg (by simp [connected]), if_pos (by simp [empty]), __sendData_eq]
  by_cases failed : (sendLoop pData.length answers 0).ending = .failed
  · rw [if_pos failed]
    exact .failed connected empty (mem_of_sendLoop_failed failed)
  rw [if_neg failed]
  dsimp only
  by_cases partly : (sendLoop pData.length answers 0).total < pData.length
  · rw [if_pos partly, __appendBuffer]
    dsimp only
    have none : conn.output.length = 0 := by simp [empty]
    rw [List.length_drop, none]
    by_cases large : maxOutputSize < 0 + (pData.length - (sendLoop pData.length answers 0).total)
    · have cut : (sendLoop pData.length answers 0).total + maxOutputSize < pData.length := by omega
      rw [if_pos large]
      exact .cutOff connected empty rfl cut
    · have fits : pData.length ≤ (sendLoop pData.length answers 0).total + maxOutputSize := by
        omega
      have rest : conn.output ++ pData.drop (sendLoop pData.length answers 0).total =
          pData.drop (sendLoop pData.length answers 0).total := by
        rw [empty, List.nil_append]
      rw [if_neg large, rest]
      exact .partly connected empty rfl partly fits
  · have whole : (sendLoop pData.length answers 0).total = pData.length := by omega
    rw [if_neg partly, whole, List.take_length]
    exact .direct connected empty whole

theorem send_cases (conn : CClientConn) (answers : List SendAnswer) (pData : List UInt8) :
    Sends conn answers pData (conn.send answers pData) := by
  by_cases waits : conn.connected = false ∨ conn.output ≠ []
  · exact send_append waits
  · rw [not_or, not_not] at waits
    exact send_direct answers pData (by simpa using waits.1) waits.2

/-- Everything `__sendBuffer` can do to the connection. -/
inductive Drains (conn : CClientConn) (answers : List SendAnswer) : CClientConn × Bool → Prop where
  | sent {total : Nat} : total ≤ conn.output.length →
      Drains conn answers
        ({ conn with
          wire := conn.wire ++ conn.output.take total
          output := conn.output.drop total }, true)
  | failed {total : Nat} : .failed ∈ answers →
      Drains conn answers ({ conn with wire := conn.wire ++ conn.output.take total }, false)

theorem __sendBuffer_cases {conn : CClientConn} (answers : List SendAnswer)
    (small : conn.output.length ≤ maxOutputSize) :
    Drains conn answers (conn.__sendBuffer answers) := by
  have limit : maxOutputSize < 2 ^ 31 := by decide
  have le := sendLoop_total_le answers (Nat.zero_le conn.output.length)
  have nSendBytes : int32 ((sendLoop conn.output.length answers 0).total : Int) =
      (sendLoop conn.output.length answers 0).total := Int.bmod_eq_of_le (by omega) (by omega)
  rw [__sendBuffer]
  by_cases some : 0 < conn.output.length
  · rw [if_pos some, __sendData_eq]
    by_cases failed : (sendLoop conn.output.length answers 0).ending = .failed
    · rw [if_pos failed]
      exact .failed (mem_of_sendLoop_failed failed)
    · rw [if_neg failed]
      dsimp only
      rw [nSendBytes, Int.toNat_natCast]
      have drains : Drains conn answers _ := .sent le
      split_ifs with positive
      · exact drains
      · have zero : (sendLoop conn.output.length answers 0).total = 0 := by omega
        rw [zero] at drains ⊢
        rwa [List.drop_zero] at drains
  · rw [if_neg some]
    have drains : Drains conn answers _ := .sent (Nat.zero_le _)
    rwa [List.take_zero, List.append_nil, List.drop_zero] at drains

theorem readLoop_frame (rounds : List (Nat × List RecvAnswer)) (conn : CClientConn) :
    ∃ input, (conn.readLoop rounds).1 = { conn with input := input } := by
  induction rounds generalizing conn with
  | nil => exact ⟨conn.input, rfl⟩
  | cons round rounds ih =>
      rcases round with ⟨uFreeSize, answers⟩
      rw [readLoop]
      cases (recvLoop uFreeSize answers []).1 with
      | none => exact ⟨conn.input, rfl⟩
      | some bytes =>
          dsimp only
          split_ifs
          · exact ⟨conn.input, rfl⟩
          · exact ⟨_, rfl⟩
          · obtain ⟨input, same⟩ := ih { conn with input := conn.input ++ bytes }
            exact ⟨input, same⟩

/-- Everything a step can do to the connection. -/
inductive Effect (conn : CClientConn) : ConnOp → CClientConn → Prop where
  | sends {answers : List SendAnswer} {pData : List UInt8} {next : CClientConn} :
      Sends conn answers pData next → Effect conn (.sendBin answers pData) next
  | connects {soError : Bool} {answers : List SendAnswer} : conn.connected = false →
      conn.hWrite = true →
      Effect conn (.writable soError answers)
        { conn with
          connected := true
          hRead := true
          timerNoDataStart := true
          phase := .onConnected }
  | drains {soError : Bool} {answers : List SendAnswer} : conn.connected = true →
      conn.hWrite = true → Effect conn (.writable soError answers) (conn.__onWriteRest answers)
  | returns {answers : List SendAnswer} : conn.phase = .onConnected →
      Effect conn (.onConnectedReturns answers) (conn.__onWriteRest answers)
  | reads {rounds : List (Nat × List RecvAnswer)} (input : List UInt8) : conn.phase = .idle →
      Effect conn (.readable rounds) { conn with input := input }
  | gives {rounds : List (Nat × List RecvAnswer)} (input : List UInt8) : conn.phase = .idle →
      Effect conn (.readable rounds) { conn with input := input, phase := .onData }
  | consumes {nRetSize : Int} (input : List UInt8) : conn.phase = .onData →
      Effect conn (.onDataReturns nRetSize) { conn with input := input, phase := .idle }
  | frees (op : ConnOp) (input : List UInt8) :
      Effect conn op ({ conn with input := input } : CClientConn).__willFreeMyself

theorem __onRead_effect {conn : CClientConn} (idle : conn.phase = .idle)
    (rounds : List (Nat × List RecvAnswer)) :
    Effect conn (.readable rounds) (conn.__onRead rounds) := by
  obtain ⟨input, same⟩ := readLoop_frame rounds conn
  rw [__onRead]
  cases result : conn.readLoop rounds with
  | mk after returned =>
      rw [result] at same
      dsimp only at same
      subst same
      cases returned with
      | false => exact .frees _ input
      | true =>
          dsimp only
          split_ifs
          · exact .gives input idle
          · exact .reads input idle

theorem apply_effect {conn next : CClientConn} {op : ConnOp} (taken : op.apply conn = some next) :
    conn.alive = true ∧ Effect conn op next := by
  cases op with
  | sendBin answers pData =>
      simp only [ConnOp.apply, Option.ite_none_right_eq_some, Option.some.injEq] at taken
      obtain ⟨alive, rfl⟩ := taken
      exact ⟨alive, .sends (send_cases conn answers pData)⟩
  | writable soError answers =>
      simp only [ConnOp.apply, Option.ite_none_right_eq_some, Option.some.injEq] at taken
      obtain ⟨⟨alive, _, hWrite⟩, rfl⟩ := taken
      refine ⟨alive, ?_⟩
      rw [__onWrite]
      split_ifs with connected
      · exact .drains connected hWrite
      · exact .frees _ conn.input
      · exact .connects (by simpa using connected) hWrite
  | onConnectedReturns answers =>
      simp only [ConnOp.apply, Option.ite_none_right_eq_some, Option.some.injEq] at taken
      obtain ⟨⟨alive, phase⟩, rfl⟩ := taken
      exact ⟨alive, .returns phase⟩
  | readable rounds =>
      simp only [ConnOp.apply, Option.ite_none_right_eq_some, Option.some.injEq] at taken
      obtain ⟨⟨alive, idle, _⟩, rfl⟩ := taken
      exact ⟨alive, __onRead_effect idle rounds⟩
  | onDataReturns nRetSize =>
      simp only [ConnOp.apply, Option.ite_none_right_eq_some, Option.some.injEq] at taken
      obtain ⟨⟨alive, phase⟩, rfl⟩ := taken
      refine ⟨alive, ?_⟩
      rw [__onReadRest]
      split_ifs
      · exact .frees _ conn.input
      · exact .consumes _ phase
      · exact .consumes conn.input phase
  | timeout =>
      simp only [ConnOp.apply, Option.ite_none_right_eq_some, Option.some.injEq] at taken
      obtain ⟨⟨alive, _⟩, rfl⟩ := taken
      exact ⟨alive, .frees _ conn.input⟩

end CClientConn

/-! ## The bytes on the wire -/

/-- No answer of `::send` in the step is a hard error. -/
def ConnOp.Soft : ConnOp → Prop
  | .sendBin answers _ => .failed ∉ answers
  | .writable _ answers => .failed ∉ answers
  | .onConnectedReturns answers => .failed ∉ answers
  | _ => True

/-- `sendBin` on a connection without pending output: the kernel takes nothing of
the data, or what it leaves fits the buffer. -/
def ConnOp.Fits (conn : CClientConn) : ConnOp → Prop
  | .sendBin answers pData => conn.connected = true → conn.output = [] →
      (sendLoop pData.length answers 0).total = 0 ∨
        pData.length ≤ (sendLoop pData.length answers 0).total + maxOutputSize
  | _ => True

namespace CClientConn

/-- The bytes that were accepted for sending are on the wire or in the buffer. -/
structure Streams (conn : CClientConn) : Prop where
  split : conn.wire ++ conn.output = conn.accepted.flatten
  small : conn.output.length ≤ maxOutputSize

theorem Streams.send {conn next : CClientConn} (streams : conn.Streams)
    {answers : List SendAnswer} {pData : List UInt8} (soft : .failed ∉ answers)
    (fits : (ConnOp.sendBin answers pData).Fits conn) (effect : Sends conn answers pData next) :
    next.Streams := by
  have split := streams.split
  cases effect with
  | queued _ room =>
      refine ⟨?_, ?_⟩
      · simp only [List.flatten_append, List.flatten_singleton, ← split, List.append_assoc]
      · simpa using room
  | overflow _ _ => exact ⟨split, streams.small⟩
  | direct _ empty _ =>
      refine ⟨?_, streams.small⟩
      simp only [List.flatten_append, List.flatten_singleton, ← split, empty, List.append_nil]
  | @partly total _ empty _ _ room =>
      refine ⟨?_, ?_⟩
      · simp only [List.flatten_append, List.flatten_singleton, ← split, empty, List.append_nil,
          List.append_assoc, List.take_append_drop]
      · rw [List.length_drop]
        omega
  | @cutOff total connected empty taken cut =>
      have none : total = 0 := by
        rcases fits connected empty with none | room
        · exact taken.symm.trans none
        · omega
      refine ⟨?_, streams.small⟩
      rw [none, List.take_zero, List.append_nil, split]
  | failed _ _ failed => exact absurd failed soft

theorem Streams.onWriteRest {conn : CClientConn} (streams : conn.Streams)
    {answers : List SendAnswer} (soft : .failed ∉ answers) :
    (conn.__onWriteRest answers).Streams := by
  have effect := __sendBuffer_cases answers streams.small
  rw [__onWriteRest]
  generalize conn.__sendBuffer answers = result at effect ⊢
  cases effect with
  | @sent total _ =>
      have drained : (conn.wire ++ conn.output.take total) ++ conn.output.drop total =
          conn.accepted.flatten := by
        rw [List.append_assoc, List.take_append_drop, streams.split]
      have shorter : (conn.output.drop total).length ≤ maxOutputSize := by
        have := streams.small
        rw [List.length_drop]
        omega
      dsimp only
      split_ifs
      · exact ⟨drained, shorter⟩
      · exact ⟨drained, shorter⟩
  | failed failed => exact absurd failed soft

theorem Streams.step {conn next : CClientConn} (streams : conn.Streams) {op : ConnOp}
    (soft : op.Soft) (fits : op.Fits conn) (taken : op.apply conn = some next) :
    next.Streams := by
  cases (apply_effect taken).2 with
  | sends effect => exact streams.send soft fits effect
  | connects _ _ => exact ⟨streams.split, streams.small⟩
  | drains _ _ => exact streams.onWriteRest soft
  | returns _ => exact streams.onWriteRest soft
  | reads _ _ => exact ⟨streams.split, streams.small⟩
  | gives _ _ => exact ⟨streams.split, streams.small⟩
  | consumes _ _ => exact ⟨streams.split, streams.small⟩
  | frees _ _ => exact ⟨streams.split, streams.small⟩

end CClientConn

/-- The life of a connection with a kernel that reports no hard error. -/
def softSystem : System CClientConn ConnOp := connSystem.restrict fun _ op => op.Soft

/-- As long as no direct send leaves more than the buffer takes, the wire always
carries a beginning of the accepted data, in the order of the calls. -/
theorem wire_prefix_accepted {ops : List ConnOp} {conn : CClientConn}
    (run : (softSystem.restrict fun conn op => op.Fits conn).Run ops conn) :
    conn.wire <+: conn.accepted.flatten := by
  have streams : conn.Streams := by
    refine run.invariant CClientConn.Streams ?_ ?_
    · rintro first (rfl | rfl)
      · exact ⟨rfl, Nat.zero_le _⟩
      · exact ⟨rfl, Nat.zero_le _⟩
    · rintro before op after streams ⟨fits, soft, taken⟩
      exact streams.step soft fits taken
  exact ⟨conn.output, streams.split⟩

/-- Three bytes, of which the kernel takes one. -/
theorem wire_prefix_accepted_threeBytes :
    (CClientConn.incoming.send [.took 1, .again] [1, 2, 3]).wire <+:
      (CClientConn.incoming.send [.took 1, .again] [1, 2, 3]).accepted.flatten := by
  have soft : (ConnOp.sendBin [.took 1, .again] [1, 2, 3]).Soft := by simp [ConnOp.Soft]
  have fits : (ConnOp.sendBin [.took 1, .again] [1, 2, 3]).Fits .incoming :=
    fun _ _ => .inr (by decide)
  exact wire_prefix_accepted (.step (.start (.inr rfl)) ⟨fits, soft, rfl⟩)

/-- The kernel takes one byte of data that is two bytes larger than the buffer may
get: `sendBin` returns false with the byte on the wire. -/
theorem not_wire_prefix_accepted :
    ¬ ∀ (ops : List ConnOp) (conn : CClientConn), softSystem.Run ops conn →
      conn.wire <+: conn.accepted.flatten := by
  intro always
  have soft : (ConnOp.sendBin [.took 1, .again] (List.replicate (maxOutputSize + 2) 0)).Soft := by
    simp [ConnOp.Soft]
  have total : (sendLoop (List.replicate (maxOutputSize + 2) (0 : UInt8)).length
      [.took 1, .again] 0).total = 1 := by
    rw [List.length_replicate]
    rfl
  have holds := always _ _ (.step (.start (.inr rfl)) ⟨soft, rfl⟩)
  have effect := CClientConn.send_cases .incoming [.took 1, .again]
    (List.replicate (maxOutputSize + 2) 0)
  generalize CClientConn.send .incoming [.took 1, .again]
    (List.replicate (maxOutputSize + 2) 0) = after at effect holds
  cases effect with
  | queued waits _ => simp [CClientConn.incoming] at waits
  | overflow waits _ => simp [CClientConn.incoming] at waits
  | direct _ _ whole =>
      rw [total, List.length_replicate] at whole
      exact absurd whole (by decide)
  | partly _ _ taken _ room =>
      rw [total] at taken
      rw [List.length_replicate, ← taken] at room
      exact absurd room (by decide)
  | cutOff _ _ taken _ =>
      rw [total] at taken
      rw [← taken] at holds
      simp [CClientConn.incoming] at holds
  | failed _ _ failed => simp at failed

/-! ## The write handle -/

namespace CClientConn

/-- While `onConnected` runs, the write handle is still registered; otherwise it is
registered exactly as long as there is something to wait for. -/
structure Watched (conn : CClientConn) : Prop where
  small : conn.output.length ≤ maxOutputSize
  callback : conn.phase = .onConnected → conn.connected = true ∧ conn.hWrite = true
  settled : conn.phase ≠ .onConnected →
    (conn.hWrite = true ↔ conn.connected = false ∨ conn.output ≠ [])

theorem Watched.sends {conn next : CClientConn} (watched : conn.Watched)
    {answers : List SendAnswer} {pData : List UInt8} (effect : Sends conn answers pData next) :
    next.Watched := by
  cases effect with
  | queued waits room =>
      refine ⟨by simpa using room, watched.callback, ?_⟩
      intro settled
      have before := watched.settled settled
      constructor
      · rintro -
        rcases waits with waiting | pending
        · exact .inl waiting
        · exact .inr (by simp [pending])
      · rintro -
        exact before.mpr waits
  | overflow _ _ => exact ⟨watched.small, watched.callback, watched.settled⟩
  | direct _ _ _ => exact ⟨watched.small, watched.callback, watched.settled⟩
  | @partly total connected empty _ more room =>
      refine ⟨?_, fun _ => ⟨connected, rfl⟩, ?_⟩
      · rw [List.length_drop]
        omega
      · intro _
        have rest : pData.drop total ≠ [] := by simpa using more
        simp [rest]
  | cutOff _ _ _ _ => exact ⟨watched.small, watched.callback, watched.settled⟩
  | failed _ _ _ => exact ⟨watched.small, watched.callback, watched.settled⟩

theorem Watched.drains {conn : CClientConn} (watched : conn.Watched)
    (connected : conn.connected = true) (hWrite : conn.hWrite = true)
    (answers : List SendAnswer) :
    (conn.__onWriteRest answers).alive = true → (conn.__onWriteRest answers).Watched := by
  have effect := __sendBuffer_cases answers watched.small
  rw [__onWriteRest]
  generalize conn.__sendBuffer answers = result at effect ⊢
  cases effect with
  | @sent total _ =>
      have shorter : (conn.output.drop total).length ≤ maxOutputSize := by
        have := watched.small
        rw [List.length_drop]
        omega
      dsimp only
      intro _
      split_ifs with empty
      · have none : conn.output.drop total = [] := List.length_eq_zero_iff.mp empty
        exact ⟨shorter, by simp, by simp [connected, none]⟩
      · have some : conn.output.drop total ≠ [] := fun none => empty (by rw [none]; rfl)
        exact ⟨shorter, by simp, by simp [hWrite, some]⟩
  | failed failed =>
      intro alive
      simp [__willFreeMyself] at alive

theorem Watched.step {conn next : CClientConn} (watched : conn.alive = true → conn.Watched)
    {op : ConnOp} (taken : op.apply conn = some next) (alive : next.alive = true) :
    next.Watched := by
  obtain ⟨before, effect⟩ := apply_effect taken
  have watched := watched before
  cases effect with
  | sends effect => exact watched.sends effect
  | connects _ hWrite => exact ⟨watched.small, fun _ => ⟨rfl, hWrite⟩, fun other => absurd rfl other⟩
  | drains connected hWrite => exact watched.drains connected hWrite _ alive
  | returns phase =>
      obtain ⟨connected, hWrite⟩ := watched.callback phase
      exact watched.drains connected hWrite _ alive
  | reads _ _ => exact ⟨watched.small, watched.callback, watched.settled⟩
  | gives _ idle => exact ⟨watched.small, by simp, fun _ => watched.settled (by simp [idle])⟩
  | consumes _ phase => exact ⟨watched.small, by simp, fun _ => watched.settled (by simp [phase])⟩
  | frees _ _ => simp [__willFreeMyself] at alive

theorem watched_of_run {ops : List ConnOp} {conn : CClientConn} (run : connSystem.Run ops conn)
    (alive : conn.alive = true) : conn.Watched := by
  refine run.invariant (fun conn => conn.alive = true → conn.Watched) ?_ ?_ alive
  · rintro first (rfl | rfl) _
    · exact ⟨Nat.zero_le _, by decide, by decide⟩
    · exact ⟨Nat.zero_le _, by decide, by decide⟩
  · intro before op after watched taken alive
    exact Watched.step watched taken alive

end CClientConn

end CLibs.Libevwork
