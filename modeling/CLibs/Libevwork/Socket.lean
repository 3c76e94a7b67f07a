import Mathlib.Data.List.Basic
import Mathlib.Tactic.Ring

/-!
# Sockets

What the kernel answers to `::send` and `::recv` on a non-blocking socket, and the
loops of `__sendData` and `__recvData`, which both versions of `CClientConn` have
in common. A list of answers holds the answers to the calls to come, in order; an
answer that is missing counts as `EAGAIN`.
-/

set_option autoImplicit false

namespace CLibs.Libevwork

/-- The answers to `::send`. The kernel never takes more than it was offered. -/
inductive SendAnswer where
  | took (count : Nat)
  | interrupted
  | again
  | failed
  deriving DecidableEq

inductive SendEnd where
  | complete
  | again
  | failed
  deriving DecidableEq

structure Sent where
  total : Nat
  ending : SendEnd
  answers : List SendAnswer

/-- The loop of `__sendData` after `total` of `size` bytes. -/
def sendLoop (size : Nat) : List SendAnswer → Nat → Sent
  | [], total => ⟨total, if total < size then .again else .complete, []⟩
  | answer :: answers, total =>
      if total < size then
        match answer with
        | .took count => sendLoop size answers (total + min count (size - total))
        | .interrupted => sendLoop size answers total
        | .again => ⟨total, .again, answers⟩
        | .failed => ⟨total, .failed, answers⟩
      else ⟨total, .complete, answer :: answers⟩

/-- The answers to `::recv`. No byte at all is the orderly close of the peer. Bytes
that were not asked for are the answer to the next call. -/
inductive RecvAnswer where
  | got (bytes : List UInt8)
  | interrupted
  | again
  | failed

/-- The loop of `__recvData` for at most `size` bytes, `bytes` of which are there:
`none` is the exception for an error or a close. -/
def recvLoop (size : Nat) : List RecvAnswer → List UInt8 → Option (List UInt8) × List RecvAnswer
  | [], bytes => (some bytes, [])
  | answer :: answers, bytes =>
      if bytes.length < size then
        match answer with
        | .got [] => (none, answers)
        | .got more =>
            if size - bytes.length < more.length then
              (some (bytes ++ more.take (size - bytes.length)),
                .got (more.drop (size - bytes.length)) :: answers)
            else recvLoop size answers (bytes ++ more)
        | .interrupted => recvLoop size answers bytes
        | .again => (some bytes, answers)
        | .failed => (none, answers)
      else (some bytes, answer :: answers)

/-- A measure for the loops around `recvLoop`. -/
def RecvAnswer.weight : RecvAnswer → Nat
  | .got bytes => bytes.length + 1
  | _ => 1

def recvWeight (answers : List RecvAnswer) : Nat := (answers.map RecvAnswer.weight).sum

/-! ## What the loop of `__recvData` does -/

theorem recvLoop_weight_le (size : Nat) (answers : List RecvAnswer) (bytes : List UInt8) :
    recvWeight (recvLoop size answers bytes).2 ≤ recvWeight answers := by
  induction answers generalizing bytes with
  | nil => exact Nat.le_refl _
  | cons answer answers ih =>
      have smaller : recvWeight answers ≤ recvWeight (answer :: answers) := by
        simp [recvWeight]
      unfold recvLoop
      by_cases more : bytes.length < size
      · rw [if_pos more]
        cases answer with
        | got new =>
            cases new with
            | nil => exact smaller
            | cons byte new =>
                dsimp only
                split_ifs with rest
                · simp [recvWeight, RecvAnswer.weight]
                · exact Nat.le_trans (ih _) smaller
        | interrupted => exact Nat.le_trans (ih _) smaller
        | again => exact smaller
        | failed => exact smaller
      · simp [more]

theorem recvLoop_weight_lt {size : Nat} (room : ([] : List UInt8).length < size) (answer : RecvAnswer)
    (answers : List RecvAnswer) :
    recvWeight (recvLoop size (answer :: answers) []).2 < recvWeight (answer :: answers) := by
  have smaller : recvWeight answers < recvWeight (answer :: answers) := by
    cases answer <;> simp [recvWeight, RecvAnswer.weight]
  unfold recvLoop
  rw [if_pos room]
  cases answer with
  | got new =>
      cases new with
      | nil => exact smaller
      | cons byte new =>
          dsimp only
          split_ifs with rest
          · simp only [List.length_nil] at room
            simp [recvWeight, RecvAnswer.weight]
            omega
          · exact Nat.lt_of_le_of_lt (recvLoop_weight_le _ _ _) smaller
  | interrupted => exact Nat.lt_of_le_of_lt (recvLoop_weight_le _ _ _) smaller
  | again => exact smaller
  | failed => exact smaller

/-! ## What the loop of `__sendData` does -/

theorem sendLoop_total_le {size : Nat} (answers : List SendAnswer) {total : Nat}
    (start : total ≤ size) : (sendLoop size answers total).total ≤ size := by
  induction answers generalizing total with
  | nil => exact start
  | cons answer answers ih =>
      unfold sendLoop
      by_cases more : total < size
      · rw [if_pos more]
        cases answer with
        | took count => exact ih (by omega)
        | interrupted => exact ih start
        | again => exact start
        | failed => exact start
      · rw [if_neg more]
        exact start

theorem sendLoop_complete_iff {size : Nat} (answers : List SendAnswer) {total : Nat}
    (start : total ≤ size) :
    (sendLoop size answers total).ending = .complete ↔
      (sendLoop size answers total).total = size ∧
        (sendLoop size answers total).ending ≠ .failed := by
  induction answers generalizing total with
  | nil =>
      unfold sendLoop
      dsimp only
      split_ifs with more
      · simp
        omega
      · simp
        omega
  | cons answer answers ih =>
      unfold sendLoop
      by_cases more : total < size
      · rw [if_pos more]
        cases answer with
        | took count => exact ih (by omega)
        | interrupted => exact ih start
        | again =>
            simp
            omega
        | failed => simp
      · rw [if_neg more]
        simp
        omega

/-- The answers the loop has asked for are in front of the others, and a hard error
among them ends the loop. -/
theorem sendLoop_used (size : Nat) (answers : List SendAnswer) (total : Nat) :
    ∃ used, answers = used ++ (sendLoop size answers total).answers ∧
      (.failed ∈ used ↔ (sendLoop size answers total).ending = .failed) := by
  induction answers generalizing total with
  | nil =>
      refine ⟨[], rfl, ?_⟩
      unfold sendLoop
      dsimp only
      split_ifs <;> simp
  | cons answer answers ih =>
      unfold sendLoop
      by_cases more : total < size
      · rw [if_pos more]
        cases answer with
        | took count =>
            obtain ⟨used, split, failed⟩ := ih (total + min count (size - total))
            exact ⟨.took count :: used, by rw [List.cons_append, ← split], by simpa using failed⟩
        | interrupted =>
            obtain ⟨used, split, failed⟩ := ih total
            exact ⟨.interrupted :: used, by rw [List.cons_append, ← split], by simpa using failed⟩
        | again => exact ⟨[.again], rfl, by simp⟩
        | failed => exact ⟨[.failed], rfl, by simp⟩
      · rw [if_neg more]
        exact ⟨[], rfl, by simp⟩

end CLibs.Libevwork
