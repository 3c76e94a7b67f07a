import CLibs.Libevwork.BufferProperties
import CLibs.Libevwork.PacketStream

/-!
# The binary protocol: sending

`Sender` of `pbmfc` and of `jsmfc`, which writes header and body of a packet into
a buffer, and that a receiver gets back what was sent.
-/

set_option autoImplicit false
set_option linter.style.nameCheck false

namespace CLibs.Libevwork

open General

structure Sender extends Header where
  buffer : CBuffer := { blockSize := 4096, minBlock := 0 }

namespace Sender

section Model

variable (mfc : Mfc) (platform : Platform)

/-- What both constructors do once they know the length of the packet. -/
def fill (cmd uLen : UInt32) (data : List UInt8) : Sender :=
  let buffer := (CBuffer.reset { blockSize := 4096, minBlock := 0 }).incCapacity platform uLen
  let buffer := buffer.store 0 (word32 (mfc.htonl uLen))
  let buffer := buffer.store 4 (word32 (mfc.htonl cmd))
  let buffer := buffer.store 8 data
  { uLen := uLen, uCmd := cmd, buffer := buffer.incSize uLen }

def ofData (cmd : UInt32) (pData : List UInt8) (uSize : UInt32) : Sender :=
  fill mfc platform cmd (mfc.headerSize + uSize) (pData.take uSize.toNat)

def ofString (cmd : UInt32) (strData : List UInt8) : Sender :=
  fill mfc platform cmd (mfc.headerSize + UInt32.ofNat strData.length) strData

def copy (s : Sender) : Sender :=
  { uLen := s.uLen
    uCmd := s.uCmd
    buffer := CBuffer.assign platform { blockSize := 4096, minBlock := 0 } s.buffer }

end Model

/-- The bytes `Data()[0..Size())`. -/
def bytes (s : Sender) : List UInt8 := s.buffer.bytes

/-- The senders for a packet: made by one of the constructors, or copied. -/
inductive Makes (mfc : Mfc) (platform : Platform) : Sender → Packet → Prop where
  | ofData {cmd : UInt32} {pData : List UInt8} {uSize : UInt32} : uSize.toNat ≤ pData.length →
      Makes mfc platform (Sender.ofData mfc platform cmd pData uSize) ⟨cmd, pData.take uSize.toNat⟩
  | ofString {cmd : UInt32} {strData : List UInt8} :
      Makes mfc platform (Sender.ofString mfc platform cmd strData) ⟨cmd, strData⟩
  | copy {s : Sender} {packet : Packet} : Makes mfc platform s packet →
      Makes mfc platform (s.copy platform) packet

end Sender

/-! ## What a sender holds -/

theorem sender_fits {size : UInt32} (small : size.toNat < 2 ^ 31) :
    (CBuffer.__reset { blockSize := 4096, minBlock := 0 }).Fits size := by
  intro _
  have empty : (CBuffer.__reset { blockSize := 4096, minBlock := 0 }).size.toNat = 0 := by decide
  rw [empty, Nat.zero_add]
  refine ⟨by omega, fun _ => ?_⟩
  have blockSize : (CBuffer.__reset { blockSize := 4096, minBlock := 0 }).blockSize.toNat = 4096 := rfl
  have minBlock : (CBuffer.__reset { blockSize := 4096, minBlock := 0 }).minBlock.toNat = 0 := rfl
  rw [CBuffer.blocks, blockSize, minBlock, Nat.max_zero]
  split <;> omega

theorem store_store {b : CBuffer} {off : Nat} {first second : List UInt8} (wf : b.WellFormed)
    (room : off ≤ b.freesize.toNat) :
    (b.store off first).store (off + first.length) second = b.store off (first ++ second) := by
  have free := wf.freesize_toNat
  have tail := wf.tail
  have memory := wf.memory
  cases data : b.data with
  | none => simp [CBuffer.store, data]
  | some block =>
      rw [CBuffer.mem, data, Option.getD_some] at memory
      have both := Memory.write_write first second
        (show b.tailOff.toNat + off ≤ block.length by omega)
      simp only [CBuffer.store, data, Option.map_some]
      rw [← Nat.add_assoc, both]

theorem fill_spec {mfc : Mfc} {platform : Platform} {uLen : UInt32} (packet : Packet)
    (length : uLen.toNat = packet.len) (small : packet.len < 2 ^ 31) :
    (Sender.fill mfc platform packet.cmd uLen packet.body).buffer.WellFormed ∧
      (Sender.fill mfc platform packet.cmd uLen packet.body).bytes = packet.bytes := by
  have resetSpec : (CBuffer.__reset { blockSize := 4096, minBlock := 0 }).WellFormed ∧
      (CBuffer.__reset { blockSize := 4096, minBlock := 0 }).bytes = [] :=
    CBuffer.reset_spec (by decide)
  obtain ⟨made, none, room⟩ := CBuffer.tryIncrement_spec resetSpec.1
    (sender_fits (show uLen.toNat < 2 ^ 31 by omega)) (CBuffer.reset_copySafe platform _ uLen)
  rw [resetSpec.2] at none
  unfold Sender.bytes Sender.fill
  dsimp only [CBuffer.reset, CBuffer.incCapacity]
  generalize CBuffer.__tryIncrement platform (CBuffer.__reset { blockSize := 4096, minBlock := 0 })
    uLen = b at made none room ⊢
  have header : (b.store 0 (word32 (mfc.htonl uLen))).store 4 (word32 (mfc.htonl packet.cmd)) =
      b.store 0 (word32 uLen ++ word32 packet.cmd) := by
    rw [mfc.htonl_eq, mfc.htonl_eq]
    exact store_store made (Nat.zero_le _)
  have whole : (b.store 0 (word32 uLen ++ word32 packet.cmd)).store 8 packet.body =
      b.store 0 packet.bytes := by
    rw [Packet.bytes, ← length]
    exact store_store made (Nat.zero_le _)
  rw [header, whole]
  obtain ⟨wf, held⟩ := CBuffer.write_spec made (by rw [packet.length_bytes, length]) room
  rw [none, List.nil_append] at held
  exact ⟨wf, held⟩

theorem Sender.Makes.bytes_eq {mfc : Mfc} {platform : Platform} {s : Sender} {packet : Packet}
    (makes : Sender.Makes mfc platform s packet) (small : packet.len < 2 ^ 31) :
    s.buffer.WellFormed ∧ s.bytes = packet.bytes := by
  induction makes with
  | @ofData cmd pData uSize enough =>
      refine fill_spec ⟨cmd, pData.take uSize.toNat⟩ ?_ small
      rw [UInt32.toNat_add, mfc.headerSize_toNat]
      simp only [Packet.len, List.length_take, min_eq_left enough] at small ⊢
      omega
  | @ofString cmd strData =>
      refine fill_spec ⟨cmd, strData⟩ ?_ small
      simp only [Packet.len] at small ⊢
      rw [UInt32.toNat_add, mfc.headerSize_toNat, UInt32.toNat_ofNat_of_lt' (show _ < 2 ^ 32 by omega)]
      omega
  | @copy s packet _ ih =>
      obtain ⟨wf, same⟩ := ih small
      have size : s.buffer.size.toNat < 2 ^ 31 := by
        rw [← wf.length_bytes, show s.buffer.bytes = packet.bytes from same, packet.length_bytes]
        exact small
      have new : CBuffer.WellFormed { blockSize := 4096, minBlock := 0 } :=
        (CBuffer.reset_spec (b := { blockSize := 4096, minBlock := 0 }) (by decide)).1
      obtain ⟨copied, kept⟩ := CBuffer.assign_spec platform new wf (sender_fits size)
      exact ⟨copied, kept.trans same⟩

/-! ## Sending and receiving -/

theorem parse_packets {limit : UInt32} {packets : List Packet}
    (accepted : ∀ packet ∈ packets, packet.len ≤ limit.toNat) :
    Parse limit (packets.map Packet.bytes).flatten packets (some []) := by
  induction packets with
  | nil => exact .noHeader (by decide)
  | cons packet rest ih =>
      have first := accepted packet List.mem_cons_self
      have small := limit.toNat_lt
      refine .packet ⟨Nat.le_add_right _ _, .inr first⟩ (by omega) ?_
      exact ih fun other member => accepted other (List.mem_cons_of_mem _ member)

/-- A receiver gets back what was sent, whatever the chunks are. -/
theorem receive_senders (mfc : Mfc) (platform : Platform) (handler : CDataHandler)
    {senders : List Sender} {packets : List Packet}
    (made : List.Forall₂ (Sender.Makes mfc platform) senders packets)
    (accepted : ∀ packet ∈ packets, packet.len ≤ handler.uPacketLimit.toNat)
    (small : ∀ packet ∈ packets, packet.len < 2 ^ 31) {chunks : List (List UInt8)}
    (sent : chunks.flatten = (senders.map Sender.bytes).flatten)
    (buffered : Buffered mfc handler chunks) :
    List.Forall₂ (Request.Carries mfc) (receiveAll mfc handler chunks).dispatched packets := by
  have wire : senders.map Sender.bytes = packets.map Packet.bytes := by
    clear sent accepted
    induction made with
    | nil => rfl
    | cons makes _ ih =>
        rw [List.map_cons, List.map_cons, (makes.bytes_eq (small _ List.mem_cons_self)).2,
          ih fun other member => small other (List.mem_cons_of_mem _ member)]
  have follows := receiveAll_follows mfc handler chunks buffered
  obtain ⟨others, frames, carried⟩ := follows.packets
  rw [sent, wire, (parse_packets accepted).scan] at frames
  rw [Packet.bytes_injective.list_map frames]
  exact carried

/-- A two byte body and a copy of an empty packet, received byte by byte. -/
theorem receive_senders_twoPackets :
    List.Forall₂ (Request.Carries .js)
      (receiveAll .js {}
        ((Packet.bytes ⟨7, [1, 2]⟩ ++ Packet.bytes ⟨9, []⟩).map fun byte => [byte])).dispatched
      [⟨7, [1, 2]⟩, ⟨9, []⟩] := by
  have first : Sender.Makes .js zeroing (.ofString .js zeroing 7 [1, 2]) ⟨7, [1, 2]⟩ := .ofString
  have second : Sender.Makes .js zeroing (.copy zeroing (.ofData .js zeroing 9 [3] 0)) ⟨9, []⟩ :=
    .copy (.ofData (by decide))
  refine receive_senders .js zeroing {} (.cons first (.cons second .nil)) (by decide) (by decide)
    ?_ (buffered_of_length .js (by decide))
  decide

end CLibs.Libevwork
