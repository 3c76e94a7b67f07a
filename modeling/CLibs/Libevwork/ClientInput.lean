import CLibs.General.Runs
import CLibs.Libevwork.ClientConn

/-!
# The input of a connection

`__recvData` and `__onRead`, for any buffer that serves as the input. Both versions of
`CClientConn` read in this way; they differ in the buffer, and in how they say that the
connection is to be freed. What `::recv` returned and the buffers passed to `onData` are
recorded.
-/

set_option autoImplicit false
set_option linter.style.nameCheck false

namespace CLibs.Libevwork

open General

/-! ## `__recvData` -/

inductive RecvEnd where
  | full
  | again
  | peerClose
  | failed

/-- What a call of `__recvData` stored at `pData`, how it ended (the last two are
exceptions), and the answers still to come. -/
structure Received where
  bytes : List UInt8
  ending : RecvEnd
  answers : List RecvAnswer

/-- The loop of `__recvData` for at most `size` bytes, `bytes` of which are there. -/
def recvData (size : Nat) : List RecvAnswer → List UInt8 → Received
  | [], bytes => ⟨bytes, if bytes.length < size then .again else .full, []⟩
  | answer :: answers, bytes =>
      if bytes.length < size then
        match answer with
        | .got [] => ⟨bytes, .peerClose, answers⟩
        | .got more =>
            if size - bytes.length < more.length then
              ⟨bytes ++ more.take (size - bytes.length), .full,
                .got (more.drop (size - bytes.length)) :: answers⟩
            else recvData size answers (bytes ++ more)
        | .interrupted => recvData size answers bytes
        | .again => ⟨bytes, .again, answers⟩
        | .failed => ⟨bytes, .failed, answers⟩
      else ⟨bytes, .full, answer :: answers⟩

/-- What there is to read in a read event, and how it ends: `EAGAIN`, a close or an
error. -/
def arriving : List RecvAnswer → List UInt8 × RecvEnd
  | [] => ([], .again)
  | .got [] :: _ => ([], .peerClose)
  | .got more :: answers => (more ++ (arriving answers).1, (arriving answers).2)
  | .interrupted :: answers => arriving answers
  | .again :: _ => ([], .again)
  | .failed :: _ => ([], .failed)

theorem arriving_got {more : List UInt8} (some : more ≠ []) (answers : List RecvAnswer) :
    arriving (.got more :: answers) = (more ++ (arriving answers).1, (arriving answers).2) := by
  cases more with
  | nil => exact absurd rfl some
  | cons byte more => rfl

/-- An exception forgets what was stored. -/
theorem recvLoop_eq_recvData (size : Nat) (answers : List RecvAnswer) (bytes : List UInt8) :
    recvLoop size answers bytes =
      (match (recvData size answers bytes).ending with
        | .full | .again => some (recvData size answers bytes).bytes
        | .peerClose | .failed => none, (recvData size answers bytes).answers) := by
  induction answers generalizing bytes with
  | nil =>
      unfold recvLoop recvData
      split_ifs <;> rfl
  | cons answer answers ih =>
      unfold recvLoop recvData
      by_cases more : bytes.length < size
      · rw [if_pos more, if_pos more]
        cases answer with
        | got new =>
            cases new with
            | nil => rfl
            | cons byte new =>
                dsimp only
                split_ifs with rest
                · rfl
                · exact ih _
        | interrupted => exact ih bytes
        | again => rfl
        | failed => rfl
      · rw [if_neg more, if_neg more]

/-- Everything a call of `__recvData` can do: it goes on with what arrives until there is
no room, or until it meets the end. -/
structure Received.Reads (got : Received) (size : Nat) (bytes : List UInt8)
    (answers : List RecvAnswer) : Prop where
  within : got.bytes.length ≤ size
  full : got.ending = .full → got.bytes.length = size ∧
    bytes ++ (arriving answers).1 = got.bytes ++ (arriving got.answers).1 ∧
    (arriving answers).2 = (arriving got.answers).2
  short : got.ending = .again → got.bytes.length < size
  ended : got.ending ≠ .full → bytes ++ (arriving answers).1 = got.bytes ∧
    (arriving answers).2 = got.ending

theorem recvData_reads {size : Nat} (answers : List RecvAnswer) {bytes : List UInt8}
    (room : bytes.length ≤ size) : (recvData size answers bytes).Reads size bytes answers := by
  induction answers generalizing bytes with
  | nil =>
      unfold recvData
      split_ifs with more
      · exact ⟨room, nofun, fun _ => more, fun _ => ⟨List.append_nil _, rfl⟩⟩
      · exact ⟨room, fun _ => ⟨by dsimp only; omega, rfl, rfl⟩, nofun, fun none => absurd rfl none⟩
  | cons answer answers ih =>
      unfold recvData
      split_ifs with more
      · cases answer with
        | got new =>
            cases new with
            | nil => exact ⟨room, nofun, nofun, fun _ => ⟨List.append_nil _, rfl⟩⟩
            | cons byte new =>
                dsimp only
                split_ifs with rest
                · -- the rest of this answer is for the next call
                  have length : (bytes ++ (byte :: new).take (size - bytes.length)).length = size := by
                    rw [List.length_append, List.length_take]
                    omega
                  have some : (byte :: new).drop (size - bytes.length) ≠ [] := by
                    intro none
                    have length := congrArg List.length none
                    rw [List.length_drop, List.length_nil] at length
                    omega
                  refine ⟨length.le, fun _ => ⟨length, ?_, ?_⟩, nofun, fun none => absurd rfl none⟩
                  · dsimp only
                    rw [arriving_got some, arriving_got (List.cons_ne_nil byte new), List.append_assoc,
                      ← List.append_assoc (List.take _ _), List.take_append_drop]
                  · rw [arriving_got some, arriving_got (List.cons_ne_nil byte new)]
                · have reads := ih (show (bytes ++ byte :: new).length ≤ size by
                    rw [List.length_append]
                    omega)
                  refine ⟨reads.within, fun full => ?_, reads.short, fun notFull => ?_⟩
                  · obtain ⟨length, data, ending⟩ := reads.full full
                    rw [List.append_assoc] at data
                    exact ⟨length, data, ending⟩
                  · obtain ⟨data, ending⟩ := reads.ended notFull
                    rw [List.append_assoc] at data
                    exact ⟨data, ending⟩
        | interrupted =>
            have reads := ih room
            exact ⟨reads.within, reads.full, reads.short, reads.ended⟩
        | again => exact ⟨room, nofun, fun _ => more, fun _ => ⟨List.append_nil _, rfl⟩⟩
        | failed => exact ⟨room, nofun, nofun, fun _ => ⟨List.append_nil _, rfl⟩⟩
      · exact ⟨room, fun _ => ⟨by dsimp only; omega, rfl, rfl⟩, nofun, fun none => absurd rfl none⟩

/-- What was stored is not to come any more. -/
theorem recvData_weight (size : Nat) (answers : List RecvAnswer) (bytes : List UInt8) :
    recvWeight (recvData size answers bytes).answers + (recvData size answers bytes).bytes.length ≤
      recvWeight answers + bytes.length := by
  induction answers generalizing bytes with
  | nil =>
      unfold recvData
      dsimp only
      omega
  | cons answer answers ih =>
      have smaller : recvWeight (answer :: answers) = answer.weight + recvWeight answers := by
        simp [recvWeight]
      unfold recvData
      split_ifs with more
      · cases answer with
        | got new =>
            cases new with
            | nil =>
                dsimp only
                omega
            | cons byte new =>
                rw [RecvAnswer.weight] at smaller
                dsimp only
                split_ifs with rest
                · have after : recvWeight (.got ((byte :: new).drop (size - bytes.length)) :: answers) =
                      (byte :: new).length - (size - bytes.length) + 1 + recvWeight answers := by
                    simp [recvWeight, RecvAnswer.weight]
                  dsimp only
                  rw [after, smaller, List.length_append, List.length_take]
                  omega
                · have step := ih (bytes ++ byte :: new)
                  rw [List.length_append] at step
                  omega
        | interrupted =>
            have step := ih bytes
            dsimp only
            omega
        | again =>
            dsimp only
            omega
        | failed =>
            dsimp only
            omega
      · exact le_refl _

/-! ## `__onRead` -/

/-- A buffer that serves as the input: `std::string`, or `CBuffer`. -/
structure Input (β : Type) where
  /-- The bytes passed to `onData`. -/
  bytes : β → List UInt8
  size : β → Nat
  /-- What is done to have room before a call of `__recvData`. -/
  reserve : β → β
  /-- The size passed to `__recvData`. -/
  room : β → Nat
  /-- Joining what `__recvData` stored. -/
  push : β → List UInt8 → β
  erase : β → Nat → β

/-- `spins`: without room the loop never ends. -/
inductive ReadEnd where
  | drained
  | overflow
  | peerClose
  | failed
  | spins

structure Reading (β : Type) where
  buffer : β
  received : List UInt8
  ending : ReadEnd

namespace Input

variable {β : Type} (input : Input β)

/-- The loop of `__onRead`. -/
def readLoop (buffer : β) (recvs : List RecvAnswer) : Reading β :=
  let buffer := input.reserve buffer
  let uFreeSize := input.room buffer
  if 0 < uFreeSize then
    let got := recvData uFreeSize recvs []
    match got.ending with
    | .peerClose => ⟨buffer, got.bytes, .peerClose⟩
    | .failed => ⟨buffer, got.bytes, .failed⟩
    | .full | .again =>
        let uBytesRecv := got.bytes.length
        if 0 < uBytesRecv ∧ maxInputSize < input.size buffer + uBytesRecv then
          ⟨buffer, got.bytes, .overflow⟩
        else
          let buffer := if 0 < uBytesRecv then input.push buffer got.bytes else buffer
          if uBytesRecv < uFreeSize then ⟨buffer, got.bytes, .drained⟩
          else
            let rest := readLoop buffer got.answers
            { rest with received := got.bytes ++ rest.received }
  else ⟨buffer, [], .spins⟩
termination_by recvWeight recvs
decreasing_by
  have weight : recvWeight got.answers + got.bytes.length ≤ recvWeight recvs :=
    recvData_weight uFreeSize recvs []
  change recvWeight got.answers < recvWeight recvs
  omega

end Input

/-- A connection as far as it reads, with a data handler that works on `W`. -/
structure Reader (β W : Type) where
  buffer : β
  world : W
  alive : Bool := true
  /-- What `::recv` returned. -/
  received : List UInt8 := []
  /-- The buffers passed to `onData`, each with the number of bytes received before its
  first. -/
  passed : List (Nat × List UInt8) := []

namespace Reader

variable {β W : Type}

/-- The part of `__onRead` after the loop. -/
def handleInput (input : Input β) (onData : W → List UInt8 → W × Int) (s : Reader β W) :
    Reader β W :=
  if 0 < input.size s.buffer then
    let data := input.bytes s.buffer
    let called := onData s.world data
    let nRetSize := called.2
    let s := { s with
      world := called.1
      passed := s.passed ++ [(s.received.length - data.length, data)] }
    if nRetSize < 0 then { s with alive := false }
    else if 0 < nRetSize then { s with buffer := input.erase s.buffer nRetSize.toNat }
    else s
  else s

/-- `recvs` are the answers to the calls of `::recv` that the event makes. -/
def __onRead (input : Input β) (onData : W → List UInt8 → W × Int) (s : Reader β W)
    (recvs : List RecvAnswer) : Reader β W :=
  let reading := input.readLoop s.buffer recvs
  let s := { s with buffer := reading.buffer, received := s.received ++ reading.received }
  match reading.ending with
  | .drained => s.handleInput input onData
  | .overflow | .peerClose | .failed => { s with alive := false }
  | .spins => s

end Reader

/-- The read events of a connection until it is freed. -/
def readSystem {β W : Type} (input : Input β) (onData : W → List UInt8 → W × Int)
    (start : Reader β W) : System (Reader β W) (List RecvAnswer) where
  start s := s = start
  step s recvs after := s.alive = true ∧ after = s.__onRead input onData recvs

/-! ## What a read event does -/

/-- What the loop relies on: bytes that fit join at the end, and making room after the
buffer was filled keeps them. -/
structure Input.Lawful {β : Type} (input : Input β) (wf : β → Prop) : Prop where
  size : ∀ b, wf b → input.size b = (input.bytes b).length
  small : ∀ b, wf b → input.size b ≤ maxInputSize
  push : ∀ b bytes, wf b → bytes.length ≤ input.room b →
    input.size b + bytes.length ≤ maxInputSize →
    wf (input.push b bytes) ∧ input.bytes (input.push b bytes) = input.bytes b ++ bytes
  refill : ∀ b bytes, wf b → 0 < input.room b → bytes.length = input.room b →
    input.size b + bytes.length ≤ maxInputSize →
    let after := input.reserve (input.push b bytes)
    wf after ∧ 0 < input.room after ∧ input.bytes after = input.bytes b ++ bytes

/-- Everything the loop can do. -/
structure Reading.Reads {β : Type} (reading : Reading β) (input : Input β) (wf : β → Prop)
    (old : List UInt8) (recvs : List RecvAnswer) : Prop where
  running : reading.ending ≠ .spins
  overflow : reading.ending = .overflow → maxInputSize < old.length + (arriving recvs).1.length
  received : reading.ending ≠ .overflow → reading.received = (arriving recvs).1
  drained : reading.ending = .drained → (arriving recvs).2 = .again ∧
    old.length + (arriving recvs).1.length ≤ maxInputSize ∧
    wf reading.buffer ∧ input.bytes reading.buffer = old ++ (arriving recvs).1
  peerClose : reading.ending = .peerClose → (arriving recvs).2 = .peerClose
  failed : reading.ending = .failed → (arriving recvs).2 = .failed

section Loop

variable {β : Type} {input : Input β} {wf : β → Prop}

theorem Input.Lawful.pushed (lawful : input.Lawful wf) {b : β} {bytes : List UInt8} (ok : wf b)
    (fits : bytes.length ≤ input.room b)
    (small : ¬ (0 < bytes.length ∧ maxInputSize < input.size b + bytes.length)) :
    wf (if 0 < bytes.length then input.push b bytes else b) ∧
      input.bytes (if 0 < bytes.length then input.push b bytes else b) = input.bytes b ++ bytes := by
  by_cases some : 0 < bytes.length
  · rw [if_pos some]
    exact lawful.push b bytes ok fits (by omega)
  · obtain rfl := List.length_eq_zero_iff.mp (show bytes.length = 0 by omega)
    exact ⟨ok, (List.append_nil _).symm⟩

/-- The rest of the loop, after `bytes` were stored. -/
theorem Reading.Reads.extend {rest : Reading β} {old bytes : List UInt8}
    {recvs answers : List RecvAnswer} (reads : rest.Reads input wf (old ++ bytes) answers)
    (data : (arriving recvs).1 = bytes ++ (arriving answers).1)
    (goesOn : (arriving recvs).2 = (arriving answers).2) :
    Reading.Reads { rest with received := bytes ++ rest.received } input wf old recvs where
  running := reads.running
  overflow := by
    intro overflow
    have more := reads.overflow overflow
    rw [List.length_append] at more
    rw [data, List.length_append]
    omega
  received := by
    intro notOverflow
    rw [data, ← reads.received notOverflow]
  drained := by
    intro drained
    obtain ⟨again, most, ok, joined⟩ := reads.drained drained
    rw [List.length_append] at most
    rw [data, List.length_append, ← List.append_assoc]
    exact ⟨goesOn.trans again, by omega, ok, joined⟩
  peerClose := fun closes => goesOn.trans (reads.peerClose closes)
  failed := fun fails => goesOn.trans (reads.failed fails)

theorem Input.Lawful.readLoop (lawful : input.Lawful wf) {b : β} (recvs : List RecvAnswer)
    (reserved : wf (input.reserve b)) (room : 0 < input.room (input.reserve b)) :
    (input.readLoop b recvs).Reads input wf (input.bytes (input.reserve b)) recvs := by
  induction weight : recvWeight recvs using Nat.strongRecOn generalizing b recvs with
  | ind n ih =>
      have size := lawful.size _ reserved
      have small := lawful.small _ reserved
      have reads := @recvData_reads (input.room (input.reserve b)) recvs [] (Nat.zero_le _)
      have less := recvData_weight (input.room (input.reserve b)) recvs []
      rw [Input.readLoop]
      dsimp only
      rw [if_pos room]
      generalize input.reserve b = buffer at *
      generalize recvData (input.room buffer) recvs [] = got at *
      obtain ⟨bytes, ending, answers⟩ := got
      have within : bytes.length ≤ input.room buffer := reads.within
      cases ending with
      | peerClose =>
          obtain ⟨data, closes⟩ := reads.ended nofun
          exact ⟨nofun, nofun, fun _ => data.symm, nofun, fun _ => closes, nofun⟩
      | failed =>
          obtain ⟨data, fails⟩ := reads.ended nofun
          exact ⟨nofun, nofun, fun _ => data.symm, nofun, nofun, fun _ => fails⟩
      | again =>
          obtain ⟨data, again⟩ := reads.ended nofun
          have short : bytes.length < input.room buffer := reads.short rfl
          rw [List.nil_append] at data
          dsimp only at data ⊢
          by_cases excess : 0 < bytes.length ∧ maxInputSize < input.size buffer + bytes.length
          · rw [if_pos excess]
            exact ⟨nofun, fun _ => by rw [data]; omega, fun none => absurd rfl none, nofun, nofun,
              nofun⟩
          · rw [if_neg excess, if_pos short]
            obtain ⟨ok, joined⟩ := lawful.pushed reserved within excess
            refine ⟨nofun, nofun, fun _ => data.symm, fun _ => ⟨again, ?_, ok, ?_⟩, nofun, nofun⟩
            · rw [data]
              omega
            · rw [data]
              exact joined
      | full =>
          obtain ⟨length, data, goesOn⟩ := reads.full rfl
          rw [List.nil_append] at data
          dsimp only at length data goesOn less ⊢
          have arrived := congrArg List.length data
          rw [List.length_append] at arrived
          rw [if_pos (show 0 < bytes.length by omega), if_neg (show ¬ bytes.length < _ by omega)]
          split_ifs with excess
          · exact ⟨nofun, fun _ => by omega, fun none => absurd rfl none, nofun, nofun, nofun⟩
          · obtain ⟨ok, room', kept⟩ := lawful.refill buffer bytes reserved room length (by omega)
            have rest := ih (recvWeight answers) (by rw [List.length_nil] at less; omega) answers ok
              room' rfl
            rw [kept] at rest
            exact rest.extend data goesOn

end Loop

/-! ## The end of the stream -/

/-- The peer closes in the same read event in which the last of its data arrive. -/
def Abrupt (recvs : List RecvAnswer) : Prop :=
  (arriving recvs).1 ≠ [] ∧ (arriving recvs).2 = .peerClose

/-- What else the connection does to the buffer keeps it in order, whatever becomes of
the bytes in it. -/
structure Input.Steady {β : Type} (input : Input β) (wf : β → Prop) : Prop extends
    input.Lawful wf where
  reserve : ∀ b, wf b → wf (input.reserve b) ∧ 0 < input.room (input.reserve b) ∧
    input.size (input.reserve b) = input.size b
  erase : ∀ b size, wf b → wf (input.erase b size) ∧ input.size (input.erase b size) ≤ input.size b

namespace Reader

variable {β W : Type}

/-- The event meets no error and does not exceed the input limit. -/
def Orderly (input : Input β) (s : Reader β W) (recvs : List RecvAnswer) : Prop :=
  (arriving recvs).2 ≠ .failed ∧ (input.readLoop s.buffer recvs).ending ≠ .overflow

/-- The orderly read events of a connection. -/
def orderlySystem (input : Input β) (onData : W → List UInt8 → W × Int) (start : Reader β W) :
    System (Reader β W) (List RecvAnswer) :=
  (readSystem input onData start).restrict (Orderly input)

/-- Every received byte was in a buffer passed to `onData`. -/
def Seen (s : Reader β W) : Prop :=
  ∀ i < s.received.length, ∃ p ∈ s.passed, p.1 ≤ i ∧ p.2[i - p.1]? = s.received[i]?

def Delivered (s : Reader β W) : Prop := s.alive = false → s.Seen

/-- Between two read events everything was seen. -/
structure Steady (input : Input β) (wf : β → Prop) (s : Reader β W) : Prop where
  buffer : wf s.buffer
  most : input.size s.buffer ≤ s.received.length
  seen : s.Seen
  past : ∀ p ∈ s.passed, p.1 + p.2.length ≤ s.received.length

section Step

variable {input : Input β} {wf : β → Prop} {s : Reader β W} (onData : W → List UInt8 → W × Int)

theorem steady_start {buffer : β} (ok : wf buffer) (empty : input.size buffer = 0) (world : W) :
    Reader.Steady input wf { buffer := buffer, world := world } where
  buffer := ok
  most := empty.le
  seen _ inside := absurd inside (Nat.not_lt_zero _)
  past _ member := absurd member List.not_mem_nil

theorem Steady.orderly (laws : input.Steady wf) (steady : s.Steady input wf)
    {recvs : List RecvAnswer} (noError : (arriving recvs).2 ≠ .failed)
    (small : input.size s.buffer + (arriving recvs).1.length ≤ maxInputSize) :
    s.Orderly input recvs := by
  obtain ⟨reserved, room, sameSize⟩ := laws.reserve s.buffer steady.buffer
  have size := laws.size _ reserved
  refine ⟨noError, fun overflow => ?_⟩
  have excess := (laws.toLawful.readLoop recvs reserved room).overflow overflow
  omega

/-- The rest of `__onRead` shows the whole buffer to the handler. -/
theorem Steady.handleInput (laws : input.Steady wf) (steady : s.Steady input wf) {buffer : β}
    {old data : List UInt8} (ok : wf buffer) (length : old.length = input.size s.buffer)
    (bytes : input.bytes buffer = old ++ data) :
    let after := Reader.handleInput input onData
      { s with buffer := buffer, received := s.received ++ data }
    after.Steady input wf := by
  have size := laws.size _ ok
  have most := steady.most
  rw [bytes, List.length_append] at size
  dsimp only [Reader.handleInput]
  by_cases some : 0 < input.size buffer
  · rw [if_pos some]
    have offset : (s.received ++ data).length - (input.bytes buffer).length + old.length =
        s.received.length := by
      rw [bytes, List.length_append, List.length_append]
      omega
    have seen : Reader.Seen { s with
        received := s.received ++ data
        passed := s.passed ++
          [((s.received ++ data).length - (input.bytes buffer).length, input.bytes buffer)] } := by
      intro i inside
      by_cases before : i < s.received.length
      · obtain ⟨p, member, low, same⟩ := steady.seen i before
        refine ⟨p, List.mem_append_left _ member, low, ?_⟩
        rw [List.getElem?_append_left before]
        exact same
      · refine ⟨_, List.mem_append_right _ (List.mem_singleton_self _), by dsimp only; omega, ?_⟩
        dsimp only
        rw [bytes] at offset ⊢
        rw [List.getElem?_append_right (by omega), List.getElem?_append_right (by omega)]
        congr 1
        omega
    have past : ∀ p ∈ s.passed ++
        [((s.received ++ data).length - (input.bytes buffer).length, input.bytes buffer)],
        p.1 + p.2.length ≤ (s.received ++ data).length := by
      intro p member
      rcases List.mem_append.mp member with earlier | now
      · have before := steady.past p earlier
        rw [List.length_append]
        omega
      · rw [List.mem_singleton.mp now, bytes, List.length_append, List.length_append]
        omega
    have fits : input.size buffer ≤ (s.received ++ data).length := by
      rw [List.length_append]
      omega
    split_ifs
    · exact ⟨ok, fits, seen, past⟩
    · obtain ⟨ok', shorter⟩ := laws.erase buffer
        (onData s.world (input.bytes buffer)).2.toNat ok
      exact ⟨ok', shorter.trans fits, seen, past⟩
    · exact ⟨ok, fits, seen, past⟩
  · -- nothing came and nothing was there
    obtain rfl : data = [] := List.length_eq_zero_iff.mp (by omega)
    rw [if_neg some, List.append_nil]
    exact ⟨ok, by dsimp only; omega, steady.seen, steady.past⟩

theorem Steady.onRead (laws : input.Steady wf) (steady : s.Steady input wf) {recvs : List RecvAnswer}
    (orderly : s.Orderly input recvs) (notAbrupt : ¬ Abrupt recvs) :
    let after := s.__onRead input onData recvs
    (after.alive = true → after.Steady input wf) ∧ after.Seen := by
  obtain ⟨reserved, room, sameSize⟩ := laws.reserve s.buffer steady.buffer
  have reads := laws.toLawful.readLoop recvs reserved room
  dsimp only [Reader.__onRead]
  cases ending : (input.readLoop s.buffer recvs).ending with
  | drained =>
      obtain ⟨-, -, ok, bytes⟩ := reads.drained ending
      have received := reads.received (by rw [ending]; nofun)
      have length := laws.size _ reserved
      rw [received]
      have after := steady.handleInput onData laws ok (by omega) bytes
      exact ⟨fun _ => after, after.seen⟩
  | overflow => exact absurd ending orderly.2
  | failed => exact absurd (reads.failed ending) orderly.1
  | spins => exact absurd ending reads.running
  | peerClose =>
      have none : (arriving recvs).1 = [] := by
        by_contra some
        exact notAbrupt ⟨some, reads.peerClose ending⟩
      have received := reads.received (by rw [ending]; nofun)
      rw [none] at received
      refine ⟨nofun, ?_⟩
      rw [received, List.append_nil]
      exact steady.seen

/-- An abrupt end loses what arrived with it. -/
theorem Steady.not_delivered (laws : input.Steady wf) (steady : s.Steady input wf)
    {recvs : List RecvAnswer} (orderly : s.Orderly input recvs) (abrupt : Abrupt recvs) :
    ¬ (s.__onRead input onData recvs).Delivered := by
  obtain ⟨reserved, room, -⟩ := laws.reserve s.buffer steady.buffer
  have reads := laws.toLawful.readLoop recvs reserved room
  obtain ⟨some, closes⟩ := abrupt
  have ending : (input.readLoop s.buffer recvs).ending = .peerClose := by
    cases ending : (input.readLoop s.buffer recvs).ending with
    | drained =>
        have again := (reads.drained ending).1
        rw [closes] at again
        cases again
    | overflow => exact absurd ending orderly.2
    | failed => exact absurd (reads.failed ending) orderly.1
    | spins => exact absurd ending reads.running
    | peerClose => rfl
  have received := reads.received (by rw [ending]; nofun)
  have new : 0 < (arriving recvs).1.length := List.length_pos_iff.mpr some
  dsimp only [Reader.__onRead]
  rw [ending, received]
  intro delivered
  obtain ⟨p, member, low, same⟩ := delivered rfl s.received.length (by
    rw [List.length_append]
    omega)
  have past := steady.past p member
  dsimp only at same
  rw [List.getElem?_eq_none (by omega), List.getElem?_append_right le_rfl, Nat.sub_self,
    List.getElem?_eq_getElem new] at same
  cases same

/-- In orderly runs, freed connections have shown everything to the handler exactly if no
end was abrupt. -/
theorem delivered_iff (laws : input.Steady wf) {start : Reader β W} (steady : start.Steady input wf)
    {events : List (List RecvAnswer)} {s : Reader β W} :
    ((orderlySystem input onData start).filter fun _ _ after => after.Delivered).Run events s ↔
      ((orderlySystem input onData start).restrict fun _ recvs => ¬ Abrupt recvs).Run events s := by
  refine System.Run.filter_iff_restrict
    (fun s : Reader β W => s.alive = true → s.Steady input wf) ?_ ?_ ?_
  · rintro s rfl -
    exact steady
  · rintro s recvs after inv notAbrupt ⟨orderly, alive, rfl⟩
    obtain ⟨after, seen⟩ := (inv alive).onRead onData laws orderly notAbrupt
    exact ⟨after, fun _ => seen⟩
  · rintro s recvs after inv delivered ⟨orderly, alive, rfl⟩ abrupt
    exact (inv alive).not_delivered onData laws orderly abrupt delivered

end Step

end Reader

end CLibs.Libevwork
