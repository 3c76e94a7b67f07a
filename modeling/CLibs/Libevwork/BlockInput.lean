import CLibs.Libevwork.BufferProperties
import CLibs.Libevwork.ClientInput
import CLibs.Libevwork.PacketStream

/-!
# Packets through the byte buffer

The input of the connections of `libevwork_full`: `m_Input`, into which `::recv` writes
directly, read by the handler of the binary protocol.
-/

set_option autoImplicit false
set_option linter.style.nameCheck false

namespace CLibs.Libevwork

open General

def baseReadSize : UInt32 := 8 * 1024

/-- `m_Input` as the constructors of `CClientConn` leave it. -/
def CBuffer.input : CBuffer := { blockSize := 8 * 1024, minBlock := 1 }

/-- `m_Input` in `__onRead`. -/
def blockInput (platform : Platform) : Input CBuffer where
  bytes b := b.bytes
  size b := b.size.toNat
  reserve b := if b.freesize < baseReadSize then b.incCapacity platform baseReadSize else b
  room b := b.freesize.toNat
  push b bytes := (b.store 0 bytes).incSize (UInt32.ofNat bytes.length)
  erase b size := b.erase (UInt32.ofNat size)

namespace CBuffer

/-- `m_Input` between two read events. -/
structure Ready (b : CBuffer) : Prop where
  wf : b.WellFormed
  blockSize : b.blockSize = 8 * 1024
  minBlock : b.minBlock = 1
  head : b.headOff.toNat < 8 * 1024
  small : b.size.toNat ≤ maxInputSize

variable {platform : Platform} {b : CBuffer}

theorem tryIncrement_frame (size : UInt32) :
    (b.__tryIncrement platform size).blockSize = b.blockSize ∧
      (b.__tryIncrement platform size).minBlock = b.minBlock ∧
      ((b.__tryIncrement platform size).headOff = 0 ∨
        (b.__tryIncrement platform size).headOff = b.headOff ∧ size ≤ b.freesize) := by
  unfold __tryIncrement
  split
  · next room => exact ⟨rfl, rfl, .inr ⟨rfl, room⟩⟩
  · dsimp only
    split
    · exact ⟨rfl, rfl, .inl rfl⟩
    · exact ⟨rfl, rfl, .inl rfl⟩

theorem Ready.fits (ready : b.Ready) : b.Fits baseReadSize := by
  intro _
  have size : baseReadSize.toNat = 8192 := rfl
  have limit : maxInputSize = 8388608 := rfl
  have small := ready.small
  have block : b.blockSize.toNat = 8192 := by
    rw [ready.blockSize]
    rfl
  have least : b.minBlock.toNat = 1 := by
    rw [ready.minBlock]
    rfl
  refine ⟨by omega, fun _ => ?_⟩
  unfold blocks
  rw [block, least]
  split <;> omega

/-- Making room, where the platform may move the bytes. -/
theorem Ready.reserve (ready : b.Ready) (safe : b.CopySafe platform baseReadSize) :
    ((blockInput platform).reserve b).Ready ∧
      0 < ((blockInput platform).reserve b).freesize.toNat ∧
      ((blockInput platform).reserve b).bytes = b.bytes := by
  have size : baseReadSize.toNat = 8192 := rfl
  dsimp only [blockInput]
  split
  · obtain ⟨wf, same, room⟩ := tryIncrement_spec ready.wf ready.fits safe
    obtain ⟨blockSize, minBlock, head⟩ := @tryIncrement_frame platform b baseReadSize
    have length := congrArg List.length same
    rw [wf.length_bytes, ready.wf.length_bytes] at length
    refine ⟨⟨wf, blockSize.trans ready.blockSize, minBlock.trans ready.minBlock, ?_, ?_⟩, ?_, same⟩
    · change (b.__tryIncrement platform baseReadSize).headOff.toNat < _
      rcases head with zero | ⟨kept, -⟩
      · rw [zero]
        decide
      · rw [kept]
        exact ready.head
    · exact length.le.trans ready.small
    · exact lt_of_lt_of_le (by decide) room
  · next room =>
    rw [UInt32.lt_iff_toNat_lt, size] at room
    exact ⟨ready, by omega, rfl⟩

theorem Ready.push (ready : b.Ready) {bytes : List UInt8} (fits : bytes.length ≤ b.freesize.toNat)
    (small : b.size.toNat + bytes.length ≤ maxInputSize) :
    ((blockInput platform).push b bytes).Ready ∧
      ((blockInput platform).push b bytes).bytes = b.bytes ++ bytes := by
  have most := b.freesize.toNat_lt
  have length : (UInt32.ofNat bytes.length).toNat = bytes.length :=
    UInt32.toNat_ofNat_of_lt' (lt_of_le_of_lt fits most)
  obtain ⟨wf, joined⟩ := @write_spec b bytes (UInt32.ofNat bytes.length) ready.wf length.symm
    (length.symm ▸ fits)
  refine ⟨⟨wf, ready.blockSize, ready.minBlock, ready.head, ?_⟩, joined⟩
  have total := congrArg List.length joined
  rw [wf.length_bytes, List.length_append, ready.wf.length_bytes] at total
  exact total.le.trans small

/-- A full buffer is too large for its block to be used again. -/
theorem Ready.copySafe_of_full (ready : b.Ready) (full : b.freesize.toNat = 0) :
    b.CopySafe platform baseReadSize := by
  rintro ⟨-, inPlace⟩
  have size : baseReadSize.toNat = 8192 := rfl
  have free := ready.wf.freesize_toNat
  have datasize := ready.wf.size_toNat
  have head := ready.head
  have order := ready.wf.head
  have tail := ready.wf.tail
  omega

theorem Ready.push_full (ready : b.Ready) {bytes : List UInt8}
    (whole : bytes.length = b.freesize.toNat) (small : b.size.toNat + bytes.length ≤ maxInputSize) :
    ((blockInput platform).push b bytes).freesize.toNat = 0 := by
  obtain ⟨pushed, joined⟩ := @Ready.push platform b ready bytes whole.le small
  have after := pushed.wf.freesize_toNat
  have free := ready.wf.freesize_toNat
  have length := congrArg List.length joined
  rw [List.length_append, pushed.wf.length_bytes, ready.wf.length_bytes, pushed.wf.size_toNat,
    ready.wf.size_toNat] at length
  have head : ((blockInput platform).push b bytes).headOff = b.headOff := rfl
  have capacity : ((blockInput platform).push b bytes).capacity = b.capacity := rfl
  have order := ready.wf.head
  have order' := pushed.wf.head
  have tail := ready.wf.tail
  rw [head] at length order'
  rw [capacity] at after
  omega

theorem lawful (platform : Platform) : (blockInput platform).Lawful Ready where
  size _ ready := ready.wf.length_bytes.symm
  small _ ready := ready.small
  push _ _ ready := ready.push
  refill b bytes ready _ whole small := by
    obtain ⟨pushed, joined⟩ := @Ready.push platform b ready bytes whole.le small
    have full := @Ready.push_full platform b ready bytes whole small
    obtain ⟨ready', room, same⟩ := @Ready.reserve platform _ pushed (pushed.copySafe_of_full full)
    exact ⟨ready', room, same.trans joined⟩

theorem Ready.compact (ready : b.Ready) {left : UInt32} (less : left.toNat ≤ b.size.toNat)
    (src : Nat) :
    Ready { b with
      data := b.data.map fun mem => Memory.move mem 0 src left.toNat
      headOff := 0
      tailOff := left } := by
  have datasize := ready.wf.size_toNat
  have tail := ready.wf.tail
  have memory := ready.wf.memory
  have moved : (Memory.move b.mem 0 src left.toNat).length = b.mem.length := by
    refine Memory.length_write ?_
    rw [Memory.read, List.length_take]
    omega
  have shorter : (left - 0).toNat ≤ b.size.toNat := by rwa [UInt32.sub_zero]
  refine ⟨⟨ready.wf.block, Nat.zero_le _, ?_, ?_⟩, ready.blockSize, ready.minBlock,
    Nat.zero_lt_of_lt ready.head, shorter.trans ready.small⟩
  · change left.toNat ≤ b.capacity.toNat
    omega
  · change ((b.data.map _).getD []).length = b.capacity.toNat
    cases data : b.data with
    | none =>
        rw [mem, data] at memory
        exact memory
    | some block =>
        have blockIs : b.mem = block := by
          rw [mem, data]
          rfl
        rw [← memory, ← moved, blockIs]
        rfl

/-- Whatever `erase` leaves in the block, the offsets are right. -/
theorem Ready.erase (ready : b.Ready) (size : UInt32) :
    (b.erase size).Ready ∧ (b.erase size).size.toNat ≤ b.size.toNat := by
  by_cases some : size = 0
  · have same : b.erase size = b := if_pos some
    rw [same]
    exact ⟨ready, le_rfl⟩
  · obtain ⟨taken, clamped, newHead, ⟨-, same⟩ | ⟨inside, same⟩⟩ := erase_cases ready.wf.ordered some
    · have left : (b.size - taken).toNat = b.size.toNat - taken.toNat :=
        UInt32.toNat_sub_of_le _ _ (UInt32.le_iff_toNat_le.mpr (by omega))
      have shorter : (b.size - taken - 0).toNat ≤ b.size.toNat := by
        rw [UInt32.sub_zero]
        omega
      rw [same]
      exact ⟨ready.compact (by omega) _, shorter⟩
    · have after := ready.wf.advance (by omega) newHead
      have datasize := ready.wf.size_toNat
      have shorter : (CBuffer.size { b with headOff := b.headOff + taken }).toNat ≤ b.size.toNat := by
        rw [after.size_toNat, datasize]
        change b.tailOff.toNat - (b.headOff + taken).toNat ≤ _
        omega
      have low : (b.headOff + taken).toNat < 8 * 1024 := by
        rw [ready.blockSize] at inside
        rw [newHead]
        exact inside
      rw [same]
      exact ⟨⟨after, ready.blockSize, ready.minBlock, low, shorter.trans ready.small⟩, shorter⟩

/-- A platform whose `memcpy` writes only where it should, though perhaps other bytes. -/
def Local (platform : Platform) : Prop :=
  ∀ mem src n, (platform.memcpy mem src n).length = mem.length

theorem Ready.reserve_local (ready : b.Ready) (isLocal : Local platform) :
    ((blockInput platform).reserve b).Ready ∧
      0 < ((blockInput platform).reserve b).freesize.toNat ∧
      ((blockInput platform).reserve b).size.toNat = b.size.toNat := by
  by_cases safe : b.CopySafe platform baseReadSize
  · obtain ⟨ready', room, same⟩ := ready.reserve safe
    have length := congrArg List.length same
    rw [ready'.wf.length_bytes, ready.wf.length_bytes] at length
    exact ⟨ready', room, length⟩
  · unfold CopySafe at safe
    push Not at safe
    obtain ⟨⟨short, inPlace⟩, -⟩ := safe
    have size : baseReadSize.toNat = 8192 := rfl
    have memory := ready.wf.memory
    have highest := b.capacity.toNat_lt
    have require : (b.size + baseReadSize).toNat = b.size.toNat + baseReadSize.toNat := by
      rw [UInt32.toNat_add]
      exact Nat.mod_eq_of_lt (by omega)
    -- the branch that moves the bytes inside the block
    have reserved : (blockInput platform).reserve b =
        { b with
          data := b.data.map fun mem => platform.memcpy mem b.headOff.toNat b.size.toNat
          headOff := 0
          tailOff := b.size } := by
      have less : b.freesize < baseReadSize := UInt32.lt_iff_toNat_lt.mpr short
      dsimp only [blockInput]
      rw [if_pos less, incCapacity, __tryIncrement, if_neg (UInt32.not_le.mpr less)]
      refine if_pos (UInt32.le_iff_toNat_le.mpr ?_)
      change (b.size + baseReadSize).toNat ≤ b.capacity.toNat
      omega
    rw [reserved]
    have wf : WellFormed { b with
        data := b.data.map fun mem => platform.memcpy mem b.headOff.toNat b.size.toNat
        headOff := 0
        tailOff := b.size } := by
      refine ⟨ready.wf.block, Nat.zero_le _, ?_, ?_⟩
      · change b.size.toNat ≤ b.capacity.toNat
        omega
      · rw [mem] at memory ⊢
        dsimp only
        rw [← memory]
        cases b.data with
        | none => rfl
        | some block => exact isLocal _ _ _
    have sameSize : (b.size - 0).toNat = b.size.toNat := by rw [UInt32.sub_zero]
    refine ⟨⟨wf, ready.blockSize, ready.minBlock, ?_, ?_⟩, ?_, sameSize⟩
    · exact Nat.zero_lt_of_lt ready.head
    · exact sameSize.le.trans ready.small
    · rw [wf.freesize_toNat]
      change 0 < b.capacity.toNat - b.size.toNat
      omega

end CBuffer

/-! ## The head of the block -/

namespace CBuffer

variable {platform : Platform} {b : CBuffer}

/-- The offset of the first byte of the input after `count` bytes were read. -/
def headAfter (b : CBuffer) (count : Nat) : Nat :=
  if baseReadSize.toNat ≤ b.freesize.toNat ∧ count < b.freesize.toNat then b.headOff.toNat else 0

theorem reserve_cases :
    b.freesize < baseReadSize ∧ ((blockInput platform).reserve b).headOff = 0 ∨
      baseReadSize ≤ b.freesize ∧ (blockInput platform).reserve b = b := by
  dsimp only [blockInput]
  split
  · next short =>
    obtain ⟨-, -, zero | ⟨-, room⟩⟩ := @tryIncrement_frame platform b baseReadSize
    · exact .inl ⟨short, zero⟩
    · exact absurd short (UInt32.not_lt.mpr room)
  · next room => exact .inr ⟨UInt32.not_lt.mp room, rfl⟩

/-- Once the input starts at the start of the block, it does so until the loop ends. -/
theorem readLoop_head_zero (recvs : List RecvAnswer)
    (zero : ((blockInput platform).reserve b).headOff = 0) :
    ((blockInput platform).readLoop b recvs).buffer.headOff = 0 := by
  induction weight : recvWeight recvs using Nat.strongRecOn generalizing b recvs with
  | ind n ih =>
      have less := recvData_weight ((blockInput platform).room ((blockInput platform).reserve b)) recvs []
      have joined : ∀ bytes : List UInt8, (if 0 < bytes.length then
          (blockInput platform).push ((blockInput platform).reserve b) bytes
          else (blockInput platform).reserve b).headOff = 0 := by
        intro bytes
        split
        · exact zero
        · exact zero
      rw [Input.readLoop]
      dsimp only
      generalize (blockInput platform).reserve b = buffer at *
      generalize recvData ((blockInput platform).room buffer) recvs [] = got at *
      obtain ⟨bytes, ending, answers⟩ := got
      have next := joined bytes
      dsimp only at less ⊢
      generalize (if 0 < bytes.length then (blockInput platform).push buffer bytes else buffer) =
        pushed at next ⊢
      have reserved : ((blockInput platform).reserve pushed).headOff = 0 := by
        rcases @reserve_cases platform pushed with ⟨-, zero⟩ | ⟨-, same⟩
        · exact zero
        · rw [same]
          exact next
      rw [List.length_nil] at less
      by_cases room : 0 < (blockInput platform).room buffer
      · rw [if_pos room]
        cases ending with
        | peerClose => exact zero
        | failed => exact zero
        | again =>
            dsimp only
            split_ifs
            · exact zero
            · exact next
            · exact ih _ (by omega) answers reserved rfl
        | full =>
            dsimp only
            split_ifs
            · exact zero
            · exact next
            · exact ih _ (by omega) answers reserved rfl
      · rw [if_neg room]
        exact zero

theorem Ready.readLoop_head (ready : b.Ready) {recvs : List RecvAnswer}
    (drained : ((blockInput platform).readLoop b recvs).ending = .drained) :
    ((blockInput platform).readLoop b recvs).buffer.headOff.toNat =
      b.headAfter (arriving recvs).1.length := by
  unfold headAfter
  rcases @reserve_cases platform b with ⟨short, zero⟩ | ⟨room, same⟩
  · have short := UInt32.lt_iff_toNat_lt.mp short
    rw [readLoop_head_zero recvs zero, if_neg (by omega)]
    rfl
  · have room := UInt32.le_iff_toNat_le.mp room
    have size : baseReadSize.toNat = 8192 := rfl
    have free : (blockInput platform).room b = b.freesize.toNat := rfl
    have reads := @recvData_reads ((blockInput platform).room b) recvs [] (Nat.zero_le _)
    have next : ∀ bytes : List UInt8,
        (if 0 < bytes.length then (blockInput platform).push b bytes else b).headOff = b.headOff := by
      intro bytes
      split <;> rfl
    revert drained
    rw [Input.readLoop, same]
    dsimp only
    rw [if_pos (show 0 < (blockInput platform).room b by omega)]
    generalize recvData ((blockInput platform).room b) recvs [] = got at *
    obtain ⟨bytes, ending, answers⟩ := got
    cases ending with
    | peerClose =>
        intro wrong
        cases wrong
    | failed =>
        intro wrong
        cases wrong
    | again =>
        have notFull : RecvEnd.again ≠ .full := by
          intro wrong
          cases wrong
        obtain ⟨data, -⟩ := reads.ended notFull
        have short : bytes.length < (blockInput platform).room b := reads.short rfl
        rw [List.nil_append] at data
        dsimp only at data ⊢
        rw [if_pos short, data,
          if_pos (show baseReadSize.toNat ≤ b.freesize.toNat ∧ bytes.length < b.freesize.toNat by omega)]
        split_ifs
        · intro wrong
          cases wrong
        · exact fun _ => rfl
        · exact fun _ => rfl
    | full =>
        obtain ⟨length, data, -⟩ := reads.full rfl
        have arrived := congrArg List.length data
        rw [List.nil_append, List.length_append] at arrived
        dsimp only at length arrived ⊢
        rw [if_neg (show ¬ bytes.length < (blockInput platform).room b by omega), if_pos (show 0 < bytes.length by omega),
          if_neg (show ¬ (baseReadSize.toNat ≤ b.freesize.toNat ∧
            (arriving recvs).1.length < b.freesize.toNat) by omega)]
        split_ifs with excess
        · intro wrong
          cases wrong
        · intro _
          have small : b.size.toNat + bytes.length ≤ maxInputSize :=
            not_lt.mp fun more => excess ⟨by omega, more⟩
          have full := @Ready.push_full platform b ready bytes length small
          -- the block is full, so the input moves to a new one
          have zero : ((blockInput platform).reserve ((blockInput platform).push b bytes)).headOff = 0 := by
            rcases @reserve_cases platform ((blockInput platform).push b bytes) with
              ⟨-, zero⟩ | ⟨enough, -⟩
            · exact zero
            · have enough := UInt32.le_iff_toNat_le.mp enough
              omega
          exact congrArg UInt32.toNat (readLoop_head_zero answers zero)

end CBuffer

/-! ## Packets -/

/-- `onData` of the data event, with the requests that were dispatched. -/
def CDataHandler.serve (mfc : Mfc) (world : CDataHandler × List Request) (pData : List UInt8) :
    (CDataHandler × List Request) × Int :=
  let served := world.1.onData mfc pData
  ((served.1, world.2 ++ served.2.1), served.2.2)

/-- A new connection, with a handler that has its default packet limit. -/
def packetReader : Reader CBuffer (CDataHandler × List Request) where
  buffer := CBuffer.input
  world := ({}, [])

abbrev packetSystem (platform : Platform) (mfc : Mfc) :
    System (Reader CBuffer (CDataHandler × List Request)) (List RecvAnswer) :=
  readSystem (blockInput platform) (CDataHandler.serve mfc) packetReader

/-- What `events` deliver. -/
def delivered (events : List (List RecvAnswer)) : List UInt8 :=
  events.flatMap fun recvs => (arriving recvs).1

/-- The read event brings data and no end of the stream; what is then buffered stays within
the limit; making room copies no bytes over themselves; and if a packet is cut off behind
complete ones, these end in the first 8 KiB of the block. -/
structure Reader.Manages (platform : Platform) (s : Reader CBuffer (CDataHandler × List Request))
    (recvs : List RecvAnswer) : Prop where
  again : (arriving recvs).2 = .again
  small : s.buffer.size.toNat + (arriving recvs).1.length ≤ maxInputSize
  copies : s.buffer.CopySafe platform baseReadSize
  keeps : ∀ frames tail, (packetFraming (CDataHandler.uPacketLimit {})).scan
      (s.buffer.bytes ++ (arriving recvs).1) = (frames, some tail) →
    frames = [] ∨ tail = [] ∨
      s.buffer.headAfter (arriving recvs).1.length + frames.flatten.length < 8 * 1024

theorem ready_input : CBuffer.input.Ready where
  wf := ⟨by decide, le_rfl, le_rfl, rfl⟩
  blockSize := rfl
  minBlock := rfl
  head := by decide
  small := by decide

/-- The connection is where a receiver of chunks is, which has its packets. -/
structure Reader.Serves (mfc : Mfc) (s : Reader CBuffer (CDataHandler × List Request)) : Prop where
  receiver : ∃ receiver : Receiver, receiver.Follows mfc (CDataHandler.uPacketLimit {})
      ((packetFraming (CDataHandler.uPacketLimit {})).scan s.received) ∧
    receiver.dispatched = s.world.2 ∧ receiver.closed = !s.alive ∧
    (s.alive = true → receiver.handler = s.world.1 ∧ receiver.input = s.buffer.bytes)
  ready : s.alive = true → s.buffer.Ready

section Serve

variable {platform : Platform} {mfc : Mfc} {s : Reader CBuffer (CDataHandler × List Request)}

theorem erase_served {b : CBuffer} (ready : b.Ready) (handler : CDataHandler)
    {used : Nat} (within : used ≤ b.bytes.length)
    (left : ((packetFraming handler.uPacketLimit).scan b.bytes).2 = some (b.bytes.drop used))
    (keeps : ∀ frames tail, (packetFraming handler.uPacketLimit).scan b.bytes = (frames, some tail) →
      frames = [] ∨ tail = [] ∨ b.headOff.toNat + frames.flatten.length < 8 * 1024) :
    (b.erase (UInt32.ofNat used)).Ready ∧
      (b.erase (UInt32.ofNat used)).bytes = b.bytes.drop used := by
  have length := ready.wf.length_bytes
  have most := b.size.toNat_lt
  have size : (UInt32.ofNat used).toNat = used :=
    UInt32.toNat_ofNat_of_lt' (show used < 2 ^ 32 by omega)
  have block : b.blockSize.toNat = 8 * 1024 := by
    rw [ready.blockSize]
    rfl
  have split := (packetFraming handler.uPacketLimit).scan_flatten (Prod.ext rfl left)
  have counted := congrArg List.length split
  rw [List.length_append, List.length_drop] at counted
  have still : ¬ b.Shifts (UInt32.ofNat used) := by
    rintro ⟨some, rest, past⟩
    rw [size] at some rest past
    rcases keeps _ _ (Prod.ext rfl left) with none | none | low
    · rw [none, List.flatten_nil, List.length_nil] at counted
      omega
    · have isNil := congrArg List.length none
      rw [List.length_drop, List.length_nil] at isNil
      omega
    · omega
  obtain ⟨-, same⟩ := CBuffer.erase_spec ready.wf still
  rw [size, min_eq_left within] at same
  exact ⟨(ready.erase _).1, same⟩

theorem Reader.Manages.drained {recvs : List RecvAnswer} (manages : s.Manages platform recvs)
    (ready : s.buffer.Ready) :
    ((blockInput platform).readLoop s.buffer recvs).ending = .drained ∧
      ((blockInput platform).readLoop s.buffer recvs).received = (arriving recvs).1 ∧
      ((blockInput platform).readLoop s.buffer recvs).buffer.Ready ∧
      ((blockInput platform).readLoop s.buffer recvs).buffer.bytes =
        s.buffer.bytes ++ (arriving recvs).1 := by
  obtain ⟨reserved, room, sameBytes⟩ := ready.reserve manages.copies
  have reads := (CBuffer.lawful platform).readLoop recvs reserved room
  rw [show (blockInput platform).bytes ((blockInput platform).reserve s.buffer) = s.buffer.bytes
    from sameBytes] at reads
  have ending : ((blockInput platform).readLoop s.buffer recvs).ending = .drained := by
    have length := ready.wf.length_bytes
    have small := manages.small
    have again := manages.again
    cases ending : ((blockInput platform).readLoop s.buffer recvs).ending with
    | drained => rfl
    | overflow =>
        have more := reads.overflow ending
        omega
    | peerClose =>
        rw [reads.peerClose ending] at again
        cases again
    | failed =>
        rw [reads.failed ending] at again
        cases again
    | spins => exact absurd ending reads.running
  obtain ⟨-, -, ok, bytes⟩ := reads.drained ending
  exact ⟨ending, reads.received (by rw [ending]; nofun), ok, bytes⟩

theorem Reader.Serves.onRead (serves : s.Serves mfc) (alive : s.alive = true)
    {recvs : List RecvAnswer} (manages : s.Manages platform recvs) :
    let after := s.__onRead (blockInput platform) (CDataHandler.serve mfc) recvs
    after.Serves mfc ∧ after.received = s.received ++ (arriving recvs).1 := by
  have ready := serves.ready alive
  obtain ⟨receiver, follows, dispatched, closed, same⟩ := serves.receiver
  obtain ⟨handler, input⟩ := same alive
  have length := ready.wf.length_bytes
  have small := manages.small
  obtain ⟨ending, received, ok, bytes⟩ := manages.drained ready
  have head := ready.readLoop_head ending
  dsimp only [Reader.__onRead]
  rw [ending, received]
  generalize ((blockInput platform).readLoop s.buffer recvs).buffer = buffer at *
  have size := ok.wf.length_bytes
  have keeps := manages.keeps
  rw [← bytes, ← head] at keeps
  generalize (arriving recvs).1 = data at *
  have limit : maxInputSize = 8388608 := rfl
  have total := congrArg List.length bytes
  rw [List.length_append] at total
  have opened : receiver.closed = false := by rw [closed, alive]; rfl
  have next : (receiver.receive mfc data).Follows mfc (CDataHandler.uPacketLimit {}) _ :=
    follows.receive mfc fun _ => by rw [input]; omega
  rw [← Framing.scan_append, Receiver.receive, if_neg (by rw [opened]; decide), handler, input,
    ← bytes] at next
  dsimp only [Reader.handleInput]
  by_cases some : 0 < (blockInput platform).size buffer
  · rw [if_pos some]
    obtain ⟨-, -, ending⟩ := onData_spec mfc s.world.1 (show buffer.bytes.length < 2 ^ 31 by omega)
    have sameLimit : s.world.1.uPacketLimit = CDataHandler.uPacketLimit {} :=
      handler ▸ follows.limit
    have requests : ∀ more, receiver.dispatched ++ more = s.world.2 ++ more := by
      intro more
      rw [dispatched]
    rw [← sameLimit] at keeps
    refine ⟨?_, by split_ifs <;> rfl⟩
    rcases ending with ⟨-, returned⟩ | ⟨used, within, left, returned⟩
    · -- a refused packet frees the connection
      rw [if_pos (by rw [returned]; decide)] at next
      rw [if_pos (show (CDataHandler.serve mfc s.world ((blockInput platform).bytes buffer)).2 < 0 from
        returned.trans_lt (by decide))]
      have freed := Bool.false_ne_true
      exact ⟨⟨_, next, requests _, rfl, fun there => absurd there freed⟩,
        fun there => absurd there freed⟩
    · obtain ⟨ready', left⟩ := erase_served ok s.world.1 within left keeps
      rw [if_neg (by rw [returned]; omega)] at next
      rw [if_neg (show ¬ (CDataHandler.serve mfc s.world ((blockInput platform).bytes buffer)).2 < 0
        from (returned.trans_ge (by omega)).not_gt)]
      have result : (CDataHandler.serve mfc s.world ((blockInput platform).bytes buffer)).2 = used :=
        returned
      rw [result, Int.toNat_natCast]
      rw [returned, Int.toNat_natCast] at next
      by_cases positive : 0 < used
      · rw [if_pos (by omega)]
        exact ⟨⟨_, next, requests _, closed, fun _ => ⟨rfl, left.symm⟩⟩, fun _ => ready'⟩
      · obtain rfl : used = 0 := by omega
        rw [if_neg (by omega)]
        exact ⟨⟨_, next, requests _, closed, fun _ => ⟨rfl, List.drop_zero⟩⟩, fun _ => ok⟩
  · have none : ¬ 0 < buffer.size.toNat := some
    obtain rfl : data = [] := List.length_eq_zero_iff.mp (by omega)
    have empty : s.buffer.bytes = buffer.bytes := by rw [bytes, List.append_nil]
    rw [if_neg some, List.append_nil]
    exact ⟨⟨⟨receiver, follows, dispatched, closed, fun _ => ⟨handler, input.trans empty⟩⟩,
      fun _ => ok⟩, rfl⟩

theorem Reader.serves_run {events : List (List RecvAnswer)}
    (run : ((packetSystem platform mfc).restrict (Reader.Manages platform)).Run events s) :
    s.Serves mfc ∧ s.received = delivered events := by
  induction run with
  | start first =>
      cases first
      refine ⟨⟨⟨{ handler := {} }, ?_, rfl, rfl, fun _ => ⟨rfl, rfl⟩⟩, fun _ => ready_input⟩, rfl⟩
      exact receiveAll_follows mfc {} [] (buffered_of_length mfc (by decide))
  | step run taken ih =>
      obtain ⟨manages, alive, rfl⟩ := taken
      obtain ⟨after, received⟩ := ih.1.onRead alive manages
      refine ⟨after, received.trans ?_⟩
      rw [ih.2, delivered, delivered, List.flatMap_append, List.flatMap_singleton]

end Serve

theorem scan_packets {packets : List Packet}
    (admitted : ∀ packet ∈ packets, packet.len ≤ 16 * 1024 * 1024) :
    (packetFraming (CDataHandler.uPacketLimit {})).scan (packets.flatMap Packet.bytes) =
      (packets.map Packet.bytes, some []) := by
  refine Parse.scan ?_
  induction packets with
  | nil => exact .noHeader (by decide)
  | cons packet packets ih =>
      have small := admitted packet List.mem_cons_self
      have accepts : Accepts (CDataHandler.uPacketLimit {}) packet.len :=
        ⟨Nat.le_add_right _ _, .inr small⟩
      rw [List.flatMap_cons]
      exact .packet accepts (by omega) (ih fun other member =>
        admitted other (List.mem_cons_of_mem _ member))

/-- While every read event manages, the packets of the stream are dispatched in order as
they are completed, and the connection stays. -/
theorem packets_received (platform : Platform) (mfc : Mfc) (packets : List Packet)
    (admitted : ∀ packet ∈ packets, packet.len ≤ 16 * 1024 * 1024)
    (events : List (List RecvAnswer)) (s : Reader CBuffer (CDataHandler × List Request))
    (run : ((packetSystem platform mfc).restrict (Reader.Manages platform)).Run events s)
    (rest : List UInt8) (stream : delivered events ++ rest = packets.flatMap Packet.bytes) :
    s.alive = true ∧ ∃ served, served <+: packets ∧
      List.Forall₂ (Request.Carries mfc) s.world.2 served ∧ (rest = [] → served = packets) := by
  obtain ⟨⟨⟨receiver, follows, dispatched, closed, -⟩, -⟩, received⟩ := Reader.serves_run run
  obtain ⟨served, frames, carried⟩ := follows.packets
  rw [received] at follows frames
  have whole := scan_packets admitted
  rw [← stream, Framing.scan_append, Framing.feed] at whole
  cases left : ((packetFraming (CDataHandler.uPacketLimit {})).scan (delivered events)).2 with
  | none =>
      rw [left] at whole
      have none := congrArg Prod.snd whole
      rw [left] at none
      cases none
  | some tail =>
      rw [left, frames] at whole
      have opened := (follows.input tail left).1
      rw [closed, Bool.not_eq_false'] at opened
      have all := (congrArg Prod.fst whole).symm
      obtain ⟨first, second, rfl, same, -⟩ := List.map_eq_append_iff.mp all
      obtain rfl := Packet.bytes_injective.list_map same
      refine ⟨opened, first, List.prefix_append _ _, dispatched ▸ carried, ?_⟩
      rintro rfl
      rw [List.append_nil] at stream
      have now := scan_packets admitted
      rw [← stream] at now
      have both : first.map Packet.bytes = (first ++ second).map Packet.bytes :=
        frames.symm.trans (congrArg Prod.fst now)
      exact Packet.bytes_injective.list_map both

theorem copySafe_input (platform : Platform) : CBuffer.input.CopySafe platform baseReadSize := by
  rintro ⟨-, inPlace⟩
  exact absurd inPlace (by decide)

def fiveAndSix : List Packet := [⟨5, []⟩, ⟨6, [1]⟩]

theorem fiveAndSix_admitted : ∀ packet ∈ fiveAndSix, packet.len ≤ 16 * 1024 * 1024 := by
  decide

def firstRead : List RecvAnswer := [.got [8, 0, 0, 0, 5, 0, 0, 0, 9, 0], .interrupted, .got [0, 0]]

def secondRead : List RecvAnswer := [.got [6, 0, 0, 0, 1]]

theorem scan_firstRead : (packetFraming (CDataHandler.uPacketLimit {})).scan (arriving firstRead).1 =
    ([[8, 0, 0, 0, 5, 0, 0, 0]], some [9, 0, 0, 0]) := by
  have short : Parse (CDataHandler.uPacketLimit {}) [9, 0, 0, 0] [] (some [9, 0, 0, 0]) :=
    .noHeader (by decide)
  have first : Accepts (CDataHandler.uPacketLimit {}) (Packet.len ⟨5, []⟩) :=
    ⟨by decide, .inr (fiveAndSix_admitted _ List.mem_cons_self)⟩
  exact (Parse.packet first (by decide) short).scan

/-- Two packets, of which the second one is cut over two read events. -/
theorem packets_received_fiveAndSix :
    let first := packetReader.__onRead (blockInput zeroing) (CDataHandler.serve .pb) firstRead
    let s := first.__onRead (blockInput zeroing) (CDataHandler.serve .pb) secondRead
    s.alive = true ∧ List.Forall₂ (Request.Carries .pb) s.world.2 fiveAndSix := by
  intro first
  have copies : ∀ b : CBuffer, b.CopySafe zeroing baseReadSize := fun _ _ => .inl fun _ _ _ => rfl
  have manages : packetReader.Manages zeroing firstRead := by
    refine ⟨rfl, by decide, copies _, fun frames tail scan => .inr (.inr ?_)⟩
    obtain rfl : frames = [[8, 0, 0, 0, 5, 0, 0, 0]] :=
      congrArg Prod.fst (scan.symm.trans scan_firstRead)
    decide
  have run : ((packetSystem zeroing .pb).restrict (Reader.Manages zeroing)).Run ([] ++ [firstRead])
      first := .step (.start rfl) ⟨manages, rfl, rfl⟩
  obtain ⟨⟨⟨receiver, follows, -, closed, input⟩, ready⟩, received⟩ := Reader.serves_run run
  rw [received] at follows
  obtain ⟨opened, left⟩ := follows.input _ (congrArg Prod.snd scan_firstRead)
  have alive : first.alive = true := by
    rw [opened, eq_comm, Bool.not_eq_false'] at closed
    exact closed
  have bytes : first.buffer.bytes = [9, 0, 0, 0] := (input alive).2.symm.trans left
  have size := (ready alive).wf.length_bytes
  have manages : first.Manages zeroing secondRead := by
    refine ⟨rfl, ?_, copies _, fun frames tail scan => .inr (.inl ?_)⟩
    · rw [← size, bytes]
      decide
    · have whole := @scan_packets [⟨6, [1]⟩] fun packet member =>
        fiveAndSix_admitted packet (List.mem_cons_of_mem _ member)
      rw [bytes] at scan
      exact Option.some.inj (congrArg Prod.snd (scan.symm.trans whole))
  obtain ⟨stays, served, -, carried, all⟩ := packets_received zeroing .pb fiveAndSix
    fiveAndSix_admitted (([] ++ [firstRead]) ++ [secondRead]) _ (.step run ⟨manages, alive, rfl⟩) [] rfl
  rw [all rfl] at carried
  exact ⟨stays, carried⟩

/-- A read event with more than the input limit frees the connection. -/
theorem Reader.onRead_overflow {W : Type} {platform : Platform} {s : Reader CBuffer W}
    (onData : W → List UInt8 → W × Int) {recvs : List RecvAnswer} (ready : s.buffer.Ready)
    (safe : s.buffer.CopySafe platform baseReadSize)
    (large : maxInputSize < s.buffer.size.toNat + (arriving recvs).1.length) :
    (s.__onRead (blockInput platform) onData recvs).alive = false := by
  obtain ⟨reserved, room, same⟩ := ready.reserve safe
  have reads := (CBuffer.lawful platform).readLoop recvs reserved room
  rw [show (blockInput platform).bytes ((blockInput platform).reserve s.buffer) = s.buffer.bytes
    from same] at reads
  have length := ready.wf.length_bytes
  dsimp only [Reader.__onRead]
  cases ending : ((blockInput platform).readLoop s.buffer recvs).ending with
  | drained =>
      have small := (reads.drained ending).2.1
      omega
  | spins => exact absurd ending reads.running
  | overflow => rfl
  | peerClose => rfl
  | failed => rfl

theorem exists_packet {len : Nat} (header : 8 ≤ len) : ∃ packet : Packet, packet.len = len := by
  refine ⟨⟨1, List.replicate (len - 8) 0⟩, ?_⟩
  rw [Packet.len, List.length_replicate]
  omega

/-- One packet of 9 MiB arrives at once. -/
theorem not_packets_received :
    ¬ ∀ (platform : Platform) (mfc : Mfc) (packets : List Packet)
        (events : List (List RecvAnswer)) (s : Reader CBuffer (CDataHandler × List Request)),
      (∀ packet ∈ packets, packet.len ≤ 16 * 1024 * 1024) →
        (∀ recvs ∈ events, (arriving recvs).2 = .again) →
        (packetSystem platform mfc).Run events s →
        delivered events = packets.flatMap Packet.bytes →
        s.alive = true ∧ List.Forall₂ (Request.Carries mfc) s.world.2 packets := by
  intro always
  obtain ⟨packet, len⟩ := exists_packet (show 8 ≤ 9 * 1024 * 1024 by decide)
  have some : packet.bytes ≠ [] := by
    intro none
    have length := congrArg List.length none
    rw [packet.length_bytes, len, List.length_nil] at length
    omega
  have data : arriving [.got packet.bytes] = (packet.bytes, .again) := by
    rw [arriving_got some, arriving, List.append_nil]
  have run : (packetSystem zeroing .pb).Run ([] ++ [[.got packet.bytes]])
      (packetReader.__onRead (blockInput zeroing) (CDataHandler.serve .pb) [.got packet.bytes]) :=
    .step (.start rfl) ⟨rfl, rfl⟩
  have large : maxInputSize < packetReader.buffer.size.toNat + (arriving [.got packet.bytes]).1.length := by
    have limit : maxInputSize = 8388608 := rfl
    rw [data, packet.length_bytes]
    omega
  have freed := @Reader.onRead_overflow _ zeroing packetReader (CDataHandler.serve .pb) _ ready_input
    (copySafe_input _) large
  have opened := (always zeroing .pb [packet] _ _ ?_ ?_ run ?_).1
  · rw [freed] at opened
    cases opened
  · intro other member
    rw [List.mem_singleton.mp member]
    omega
  · intro recvs member
    rw [List.nil_append, List.mem_singleton] at member
    rw [member, data]
  · rw [delivered, List.nil_append, List.flatMap_singleton, List.flatMap_singleton, data]

end CLibs.Libevwork
