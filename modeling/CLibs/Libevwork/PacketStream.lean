import CLibs.General.Framing
import CLibs.Libevwork.DataHandler
import Mathlib.Data.List.Forall2

/-!
# Packets in a stream

The reference parse of a byte stream, and that a receiver dispatches the packets
of the reference parse whatever the chunks are in which the stream arrives.
-/

set_option autoImplicit false

namespace CLibs.Libevwork

open General

structure Packet where
  cmd : UInt32
  body : List UInt8

namespace Packet

def len (packet : Packet) : Nat := 8 + packet.body.length

def bytes (packet : Packet) : List UInt8 :=
  LittleEndian.encode 4 packet.len ++ LittleEndian.encode 4 packet.cmd.toNat ++ packet.body

@[simp] theorem length_bytes (packet : Packet) : packet.bytes.length = packet.len := by
  simp only [bytes, len, List.length_append, LittleEndian.length_encode]

def ofFrame (frame : List UInt8) : Packet where
  cmd := load32 frame 4
  body := frame.drop 8

theorem ofFrame_bytes (packet : Packet) : ofFrame packet.bytes = packet := by
  have cmd : Memory.read packet.bytes 4 4 = LittleEndian.encode 4 packet.cmd.toNat := by
    simp [Memory.read, bytes]
  have number : LittleEndian.decode (LittleEndian.encode 4 packet.cmd.toNat) = packet.cmd.toNat :=
    LittleEndian.decode_encode packet.cmd.toNat_lt
  have body : packet.bytes.drop 8 = packet.body := by
    rw [bytes, List.drop_append_of_le_length (by simp), List.drop_of_length_le (by simp),
      List.nil_append]
  rw [ofFrame, load32, cmd, number, body, UInt32.ofNat_toNat]

theorem bytes_injective : Function.Injective bytes := by
  intro first second same
  rw [← first.ofFrame_bytes, same, second.ofFrame_bytes]

end Packet

def lenField (stream : List UInt8) : Nat := LittleEndian.decode (stream.take 4)

/-- A packet length under a packet limit; the largest word means no limit. -/
def Accepts (limit : UInt32) (len : Nat) : Prop :=
  8 ≤ len ∧ (limit.toNat = 2 ^ 32 - 1 ∨ len ≤ limit.toNat)

instance (limit : UInt32) (len : Nat) : Decidable (Accepts limit len) :=
  inferInstanceAs (Decidable (_ ∧ _))

/-- The reference parse: packets up to an incomplete tail, or up to a header that
is not accepted, for which there is no tail. -/
inductive Parse (limit : UInt32) : List UInt8 → List Packet → Option (List UInt8) → Prop where
  | noHeader {stream : List UInt8} : stream.length < 8 → Parse limit stream [] (some stream)
  | noBody {stream : List UInt8} : 8 ≤ stream.length → Accepts limit (lenField stream) →
      stream.length < lenField stream → Parse limit stream [] (some stream)
  | refused {stream : List UInt8} : 8 ≤ stream.length → ¬ Accepts limit (lenField stream) →
      Parse limit stream [] none
  | packet {packet : Packet} {rest : List UInt8} {packets : List Packet}
      {ending : Option (List UInt8)} : Accepts limit packet.len → packet.len < 2 ^ 32 →
      Parse limit rest packets ending → Parse limit (packet.bytes ++ rest) (packet :: packets) ending

/-! ## The framing of packets -/

theorem lenField_append {stream : List UInt8} (later : List UInt8) (header : 4 ≤ stream.length) :
    lenField (stream ++ later) = lenField stream := by
  rw [lenField, lenField, List.take_append_of_le_length (by omega)]

theorem lenField_lt (stream : List UInt8) : lenField stream < 2 ^ 32 := by
  have bound := LittleEndian.decode_lt (stream.take 4)
  have length : (stream.take 4).length ≤ 4 := by
    rw [List.length_take]
    omega
  calc lenField stream < 256 ^ (stream.take 4).length := bound
    _ ≤ 256 ^ 4 := Nat.pow_le_pow_right (by decide) length
    _ = 2 ^ 32 := by decide

theorem load32_toNat (pData : List UInt8) : (load32 pData 0).toNat = lenField pData :=
  UInt32.toNat_ofNat_of_lt' (lenField_lt pData)

/-- What the handler sees in front of its data. -/
def front (limit : UInt32) (stream : List UInt8) : Front :=
  if stream.length < 8 then .more
  else if Accepts limit (lenField stream) then
    if stream.length < lenField stream then .more else .frame (lenField stream)
  else .invalid

theorem front_eq_frame {limit : UInt32} {stream : List UInt8} {size : Nat} :
    front limit stream = .frame size ↔ 8 ≤ stream.length ∧ Accepts limit (lenField stream) ∧
      lenField stream ≤ stream.length ∧ size = lenField stream := by
  unfold front
  split_ifs <;> simp <;> grind

theorem front_eq_invalid {limit : UInt32} {stream : List UInt8} :
    front limit stream = .invalid ↔ 8 ≤ stream.length ∧ ¬ Accepts limit (lenField stream) := by
  unfold front
  split_ifs <;> simp <;> grind

theorem front_eq_more {limit : UInt32} {stream : List UInt8} :
    front limit stream = .more ↔ stream.length < 8 ∨ (8 ≤ stream.length ∧
      Accepts limit (lenField stream) ∧ stream.length < lenField stream) := by
  unfold front
  split_ifs <;> simp <;> grind

def packetFraming (limit : UInt32) : Framing UInt8 where
  front := front limit
  front_nil := rfl
  frame_fits := by
    intro input size seen
    obtain ⟨-, accepted, fits, rfl⟩ := front_eq_frame.mp seen
    exact ⟨by have := accepted.1; omega, fits⟩
  frame_append := by
    intro input size later seen
    obtain ⟨header, accepted, fits, rfl⟩ := front_eq_frame.mp seen
    refine front_eq_frame.mpr ?_
    rw [lenField_append later (by omega), List.length_append]
    exact ⟨by omega, accepted, by omega, rfl⟩
  invalid_append := by
    intro input later seen
    obtain ⟨header, notAccepted⟩ := front_eq_invalid.mp seen
    refine front_eq_invalid.mpr ?_
    rw [lenField_append later (by omega), List.length_append]
    exact ⟨by omega, notAccepted⟩

theorem packetFraming_front (limit : UInt32) (stream : List UInt8) :
    (packetFraming limit).front stream = front limit stream := by
  rw [packetFraming]

/-! ## Frames and packets -/

theorem Packet.bytes_ofFrame {frame : List UInt8} (header : 8 ≤ frame.length)
    (whole : lenField frame = frame.length) : (Packet.ofFrame frame).bytes = frame := by
  have split : frame = frame.take 4 ++ Memory.read frame 4 4 ++ frame.drop 8 := by
    rw [Memory.read, List.append_assoc, show frame.drop 8 = (frame.drop 4).drop 4 by
      rw [List.drop_drop], List.take_append_drop, List.take_append_drop]
  have len : (Packet.ofFrame frame).len = lenField frame := by
    rw [whole, Packet.len, Packet.ofFrame, List.length_drop]
    omega
  have first : LittleEndian.encode 4 (lenField frame) = frame.take 4 := by
    have round := LittleEndian.encode_decode (frame.take 4)
    rwa [List.length_take, min_eq_left (by omega)] at round
  have cmdLength : (Memory.read frame 4 4).length = 4 := Memory.length_read (by omega)
  have second : LittleEndian.encode 4 (load32 frame 4).toNat = Memory.read frame 4 4 := by
    have round := LittleEndian.encode_decode (Memory.read frame 4 4)
    have small := LittleEndian.decode_lt (Memory.read frame 4 4)
    rw [cmdLength] at round small
    rw [load32, UInt32.toNat_ofNat_of_lt' small]
    exact round
  conv_rhs => rw [split]
  rw [Packet.bytes, len, first]
  exact congrArg (fun word => frame.take 4 ++ word ++ frame.drop 8) second

theorem lenField_bytes (packet : Packet) (rest : List UInt8) (small : packet.len < 2 ^ 32) :
    lenField (packet.bytes ++ rest) = packet.len := by
  have first : (packet.bytes ++ rest).take 4 = LittleEndian.encode 4 packet.len := by
    simp [Packet.bytes]
  rw [lenField, first]
  exact LittleEndian.decode_encode small

section Reference

variable {limit : UInt32}

theorem Parse.scan {stream : List UInt8} {packets : List Packet} {ending : Option (List UInt8)}
    (parse : Parse limit stream packets ending) :
    (packetFraming limit).scan stream = (packets.map Packet.bytes, ending) := by
  induction parse with
  | noHeader short => exact Framing.scan_more _ (front_eq_more.mpr (.inl short))
  | noBody header accepted short =>
      exact Framing.scan_more _ (front_eq_more.mpr (.inr ⟨header, accepted, short⟩))
  | refused header notAccepted =>
      exact Framing.scan_invalid _ (front_eq_invalid.mpr ⟨header, notAccepted⟩)
  | @packet packet rest packets ending accepted small _ ih =>
      have field := lenField_bytes packet rest small
      have length : (packet.bytes ++ rest).length = packet.len + rest.length := by
        rw [List.length_append, packet.length_bytes]
      have least := accepted.1
      have seen : (packetFraming limit).front (packet.bytes ++ rest) = .frame packet.len := by
        rw [packetFraming_front, front_eq_frame, field]
        exact ⟨by omega, accepted, by omega, rfl⟩
      have next := Framing.scan_frame (packetFraming limit) seen
      rw [← packet.length_bytes, List.drop_left, List.take_left, ih] at next
      exact next

theorem parse_of_scan {stream : List UInt8} {packets : List Packet} {ending : Option (List UInt8)}
    (scan : (packetFraming limit).scan stream = (packets.map Packet.bytes, ending)) :
    Parse limit stream packets ending := by
  induction stream using (packetFraming limit).induct generalizing packets with
  | more stream seen =>
      rw [Framing.scan_more _ seen] at scan
      obtain ⟨none, rfl⟩ := Prod.mk.inj scan
      obtain rfl := List.map_eq_nil_iff.mp none.symm
      rcases front_eq_more.mp seen with short | ⟨header, accepted, short⟩
      · exact .noHeader short
      · exact .noBody header accepted short
  | invalid stream seen =>
      rw [Framing.scan_invalid _ seen] at scan
      obtain ⟨none, rfl⟩ := Prod.mk.inj scan
      obtain rfl := List.map_eq_nil_iff.mp none.symm
      obtain ⟨header, notAccepted⟩ := front_eq_invalid.mp seen
      exact .refused header notAccepted
  | frame stream size seen ih =>
      rw [Framing.scan_frame _ seen] at scan
      obtain ⟨frames, left⟩ := Prod.mk.inj scan
      obtain ⟨packet, others, rfl, same, rest⟩ := List.map_eq_cons_iff.mp frames.symm
      obtain ⟨-, accepted, fits, rfl⟩ := front_eq_frame.mp seen
      have length : packet.len = lenField stream := by
        rw [← packet.length_bytes, same, List.length_take, min_eq_left fits]
      have below := ih (Prod.ext rest.symm left)
      have whole : stream = packet.bytes ++ stream.drop (lenField stream) := by
        rw [same, List.take_append_drop]
      rw [← length] at accepted
      rw [whole]
      exact .packet accepted (by rw [length]; exact lenField_lt stream) below

theorem Parse.unique {stream : List UInt8} {packets others : List Packet}
    {ending other : Option (List UInt8)} (parse : Parse limit stream packets ending)
    (again : Parse limit stream others other) : packets = others ∧ ending = other := by
  obtain ⟨frames, left⟩ := Prod.mk.inj (parse.scan.symm.trans again.scan)
  exact ⟨Packet.bytes_injective.list_map frames, left⟩

end Reference

/-! ## The handler -/

/-- A dispatched request shows the packet to the application. -/
structure Request.Carries (mfc : Mfc) (request : Request) (packet : Packet) : Prop where
  cmd : request.getCmd = packet.cmd
  body : request.bodyBytes mfc = packet.body
  bodySize : (request.bodySize mfc).toNat = packet.body.length
  len : request.getLen.toNat = packet.len

section Handler

variable (mfc : Mfc)

theorem peekLen_toNat (pData : List UInt8) : (Request.peekLen mfc pData).toNat = lenField pData := by
  rw [Request.peekLen, mfc.ntohl_eq, load32_toNat]

theorem refuses_iff (handler : CDataHandler) (uPktLen : UInt32) :
    handler.refuses mfc uPktLen = true ↔ ¬ Accepts handler.uPacketLimit uPktLen.toNat := by
  have whole : handler.uPacketLimit = 0xFFFFFFFF ↔
      handler.uPacketLimit.toNat = 2 ^ 32 - 1 := by
    rw [← UInt32.toNat_inj]
    rfl
  simp only [CDataHandler.refuses, Accepts, Bool.or_eq_true, Bool.and_eq_true, decide_eq_true_eq,
    bne_iff_ne, ne_eq, whole, UInt32.lt_iff_toNat_lt, mfc.headerSize_toNat]
  omega

theorem makeRequest_carries {pData : List UInt8} {uPktLen : UInt32}
    (same : uPktLen.toNat = lenField pData) (header : 8 ≤ uPktLen.toNat)
    (complete : uPktLen.toNat ≤ pData.length) :
    (CDataHandler.__makeRequest mfc pData uPktLen).Carries mfc
      (Packet.ofFrame (pData.take uPktLen.toNat)) := by
  have notShort : ¬ uPktLen < mfc.headerSize := by
    rw [UInt32.lt_iff_toNat_lt, mfc.headerSize_toNat]
    omega
  have bodySize : (uPktLen - mfc.headerSize).toNat = uPktLen.toNat - 8 := by
    rw [UInt32.toNat_sub_of_le _ _ (UInt32.le_iff_toNat_le.mpr (by simpa using header)),
      mfc.headerSize_toNat]
  have sizeIs : Request.bodySize mfc (CDataHandler.__makeRequest mfc pData uPktLen) =
      uPktLen - mfc.headerSize := if_neg notShort
  have bodyIs : Request.body mfc (CDataHandler.__makeRequest mfc pData uPktLen) =
      some (pData.drop mfc.headerSize.toNat) := if_neg notShort
  have bodyLength : (Packet.ofFrame (pData.take uPktLen.toNat)).body.length =
      uPktLen.toNat - 8 := by
    simp only [Packet.ofFrame, List.length_drop, List.length_take]
    omega
  refine ⟨?_, ?_, ?_, ?_⟩
  · simp only [CDataHandler.__makeRequest, Request.parseHeader, Header.getCmd, mfc.ntohl_eq,
      Packet.ofFrame, load32]
    exact congrArg (fun word => UInt32.ofNat (LittleEndian.decode word))
      (Memory.read_read (show 4 + 4 ≤ uPktLen.toNat by omega)).symm
  · rw [Request.bodyBytes, bodyIs, sizeIs, bodySize, Option.getD_some, mfc.headerSize_toNat,
      Packet.ofFrame, List.drop_take]
  · rw [sizeIs, bodySize, bodyLength]
  · rw [Packet.len, bodyLength]
    have len : (CDataHandler.__makeRequest mfc pData uPktLen).getLen.toNat = lenField pData :=
      peekLen_toNat mfc pData
    omega

theorem onDataFrom_more {handler : CDataHandler} {pData : List UInt8} (nProcessed : Int)
    (seen : front handler.uPacketLimit pData = .more) :
    handler.onDataFrom mfc pData nProcessed = (handler, [], nProcessed) := by
  rw [CDataHandler.onDataFrom, mfc.headerSize_toNat]
  dsimp only
  rw [peekLen_toNat]
  rcases front_eq_more.mp seen with short | ⟨header, accepted, short⟩
  · by_cases none : pData.length = 0
    · rw [if_pos none]
    · rw [if_neg none, if_pos short]
  · have notRefused : ¬ handler.refuses mfc (Request.peekLen mfc pData) = true := by
      rw [refuses_iff, peekLen_toNat]
      exact not_not.mpr accepted
    rw [if_neg (by omega), if_neg (by omega), dif_neg notRefused, if_pos short]

theorem onDataFrom_invalid {handler : CDataHandler} {pData : List UInt8} (nProcessed : Int)
    (seen : front handler.uPacketLimit pData = .invalid) :
    handler.onDataFrom mfc pData nProcessed = (handler, [], -1) := by
  obtain ⟨header, notAccepted⟩ := front_eq_invalid.mp seen
  have refused : handler.refuses mfc (Request.peekLen mfc pData) = true := by
    rw [refuses_iff, peekLen_toNat]
    exact notAccepted
  rw [CDataHandler.onDataFrom, mfc.headerSize_toNat, if_neg (by omega), if_neg (by omega)]
  dsimp only
  rw [dif_pos refused]

def CDataHandler.counted (handler : CDataHandler) (uPktLen : UInt32) : CDataHandler :=
  { handler with
    uProc := handler.uProc + 1
    uBytes64 := handler.uBytes64 + uPktLen.toUInt64 }

theorem onDataFrom_frame {handler : CDataHandler} {pData : List UInt8} {size : Nat}
    (nProcessed : Int) (seen : front handler.uPacketLimit pData = .frame size) :
    handler.onDataFrom mfc pData nProcessed =
      let rest := (handler.counted (Request.peekLen mfc pData)).onDataFrom mfc (pData.drop size)
        (int32 (nProcessed + int32 size))
      (rest.1, CDataHandler.__makeRequest mfc pData (Request.peekLen mfc pData) :: rest.2.1,
        rest.2.2) := by
  obtain ⟨header, accepted, fits, rfl⟩ := front_eq_frame.mp seen
  have notRefused : ¬ handler.refuses mfc (Request.peekLen mfc pData) = true := by
    rw [refuses_iff, peekLen_toNat]
    exact not_not.mpr accepted
  rw [CDataHandler.onDataFrom, mfc.headerSize_toNat, if_neg (by omega), if_neg (by omega)]
  dsimp only
  rw [dif_neg notRefused, peekLen_toNat, if_neg (by omega)]
  rfl

theorem int32_add {first second : Nat} (small : first + second < 2 ^ 31) :
    int32 (first + int32 second) = (first + second : Nat) := by
  have inner : int32 (second : Int) = second := Int.bmod_eq_of_le (by omega) (by omega)
  rw [inner]
  exact Int.bmod_eq_of_le (by omega) (by omega)

/-- What the loop of `onData` makes of its data: the requests of the complete
packets, and the number of bytes they take, unless a packet is refused. -/
theorem onDataFrom_spec (handler : CDataHandler) (pData : List UInt8) (nProcessed : Nat)
    (small : nProcessed + pData.length < 2 ^ 31) :
    (handler.onDataFrom mfc pData nProcessed).1.uPacketLimit = handler.uPacketLimit ∧
      (∃ packets : List Packet,
        ((packetFraming handler.uPacketLimit).scan pData).1 = packets.map Packet.bytes ∧
        List.Forall₂ (Request.Carries mfc) (handler.onDataFrom mfc pData nProcessed).2.1 packets) ∧
      ((((packetFraming handler.uPacketLimit).scan pData).2 = none ∧
          (handler.onDataFrom mfc pData nProcessed).2.2 = -1) ∨
        ∃ used ≤ pData.length,
          ((packetFraming handler.uPacketLimit).scan pData).2 = some (pData.drop used) ∧
          (handler.onDataFrom mfc pData nProcessed).2.2 = (nProcessed + used : Nat)) := by
  generalize same : handler.uPacketLimit = limit
  induction pData using (packetFraming limit).induct generalizing handler nProcessed with
  | more pData seen =>
      have stops := onDataFrom_more mfc nProcessed (same ▸ seen)
      rw [stops, Framing.scan_more _ seen]
      exact ⟨same, ⟨[], rfl, .nil⟩, .inr ⟨0, Nat.zero_le _, rfl, rfl⟩⟩
  | invalid pData seen =>
      have stops := onDataFrom_invalid mfc nProcessed (same ▸ seen)
      rw [stops, Framing.scan_invalid _ seen]
      exact ⟨same, ⟨[], rfl, .nil⟩, .inl ⟨rfl, rfl⟩⟩
  | frame pData size seen ih =>
      obtain ⟨header, accepted, fits, rfl⟩ := front_eq_frame.mp seen
      have least := accepted.1
      have goesOn := onDataFrom_frame mfc nProcessed (same ▸ seen)
      have length := List.length_drop (i := lenField pData) (l := pData)
      have carries := makeRequest_carries mfc (peekLen_toNat mfc pData)
        (by rw [peekLen_toNat]; exact least) (by rw [peekLen_toNat]; exact fits)
      rw [peekLen_toNat] at carries
      rw [int32_add (by omega)] at goesOn
      obtain ⟨limitKept, ⟨packets, frames, below⟩, ending⟩ :=
        ih (handler.counted (Request.peekLen mfc pData)) (nProcessed + lenField pData)
          (by omega) same
      rw [goesOn, Framing.scan_frame _ seen]
      refine ⟨limitKept, ⟨Packet.ofFrame (pData.take (lenField pData)) :: packets, ?_,
        .cons carries below⟩, ?_⟩
      · rw [List.map_cons, ← frames, Packet.bytes_ofFrame]
        · rw [List.length_take]
          omega
        · rw [List.length_take, min_eq_left fits, lenField, List.take_take, min_eq_left (by omega)]
          rfl
      · rcases ending with refused | ⟨used, within, left, returned⟩
        · exact .inl refused
        · refine .inr ⟨lenField pData + used, by omega, ?_, ?_⟩
          · rw [left, List.drop_drop]
          · rw [returned, Nat.add_assoc]

theorem onData_spec (handler : CDataHandler) {pData : List UInt8} (small : pData.length < 2 ^ 31) :
    (handler.onData mfc pData).1.uPacketLimit = handler.uPacketLimit ∧
      (∃ packets : List Packet,
        ((packetFraming handler.uPacketLimit).scan pData).1 = packets.map Packet.bytes ∧
        List.Forall₂ (Request.Carries mfc) (handler.onData mfc pData).2.1 packets) ∧
      ((((packetFraming handler.uPacketLimit).scan pData).2 = none ∧
          (handler.onData mfc pData).2.2 = -1) ∨
        ∃ used ≤ pData.length,
          ((packetFraming handler.uPacketLimit).scan pData).2 = some (pData.drop used) ∧
          (handler.onData mfc pData).2.2 = (used : Nat)) := by
  have spec := onDataFrom_spec mfc handler pData 0 (by omega)
  simp only [Nat.zero_add] at spec
  exact spec

end Handler

/-! ## Receiving in chunks -/

section Receiving

variable (mfc : Mfc)

def receiveAll (handler : CDataHandler) (chunks : List (List UInt8)) : Receiver :=
  chunks.foldl (Receiver.receive mfc) { handler := handler }

/-- Less than `2 ^ 31` bytes are buffered at any time. -/
def Buffered (handler : CDataHandler) (chunks : List (List UInt8)) : Prop :=
  ∀ before chunk, before ++ [chunk] <+: chunks → (receiveAll mfc handler before).closed = false →
    (receiveAll mfc handler before).input.length + chunk.length < 2 ^ 31

/-- The receiver is where the abstract receiver of frames is. -/
structure Receiver.Follows (limit : UInt32) (receiver : Receiver)
    (state : List (List UInt8) × Option (List UInt8)) : Prop where
  limit : receiver.handler.uPacketLimit = limit
  packets : ∃ packets : List Packet, state.1 = packets.map Packet.bytes ∧
    List.Forall₂ (Request.Carries mfc) receiver.dispatched packets
  input : ∀ tail, state.2 = some tail → receiver.closed = false ∧ receiver.input = tail
  closed : state.2 = none → receiver.closed = true
  reported : receiver.closed = true ↔ ∃ size, (size, -1) ∈ receiver.calls
  calls : ∀ call ∈ receiver.calls, call.2 = -1 ∨ (0 ≤ call.2 ∧ call.2 ≤ call.1)

theorem Receiver.Follows.calls_snoc {limit : UInt32} {receiver : Receiver}
    {state : List (List UInt8) × Option (List UInt8)} (follows : receiver.Follows mfc limit state)
    {call : Nat × Int} (now : call.2 = -1 ∨ (0 ≤ call.2 ∧ call.2 ≤ call.1)) :
    ∀ other ∈ receiver.calls ++ [call], other.2 = -1 ∨ (0 ≤ other.2 ∧ other.2 ≤ other.1) := by
  intro other member
  rcases List.mem_append.mp member with old | new
  · exact follows.calls other old
  · rw [List.mem_singleton.mp new]
    exact now

theorem Receiver.Follows.receive {limit : UInt32} {receiver : Receiver}
    {state : List (List UInt8) × Option (List UInt8)} (follows : receiver.Follows mfc limit state)
    {chunk : List UInt8}
    (small : receiver.closed = false → receiver.input.length + chunk.length < 2 ^ 31) :
    (receiver.receive mfc chunk).Follows mfc limit ((packetFraming limit).feed state chunk) := by
  obtain ⟨frames, left⟩ := state
  cases left with
  | none =>
      have stays : receiver.receive mfc chunk = receiver := by
        rw [Receiver.receive, if_pos (follows.closed rfl)]
      rw [stays]
      exact follows
  | some tail =>
      obtain ⟨opened, rfl⟩ := follows.input tail rfl
      obtain ⟨packets, framesAre, carried⟩ := follows.packets
      have noReport : ¬ ∃ size, (size, -1) ∈ receiver.calls := by
        rw [← follows.reported, opened]
        decide
      have room : (receiver.input ++ chunk).length < 2 ^ 31 := by
        rw [List.length_append]
        exact small opened
      obtain ⟨limitKept, ⟨more, moreFrames, moreCarried⟩, ending⟩ :=
        onData_spec mfc receiver.handler room
      rw [follows.limit] at limitKept moreFrames ending
      have packetsNow : ∃ all : List Packet,
          frames ++ ((packetFraming limit).scan (receiver.input ++ chunk)).1 =
              all.map Packet.bytes ∧
            List.Forall₂ (Request.Carries mfc) (receiver.dispatched ++
              (receiver.handler.onData mfc (receiver.input ++ chunk)).2.1) all := by
        refine ⟨packets ++ more, ?_, List.rel_append carried moreCarried⟩
        rw [List.map_append, ← moreFrames]
        exact congrArg (· ++ _) framesAre
      unfold Receiver.receive Framing.feed
      simp only [opened, Bool.false_eq_true, if_false]
      rcases ending with ⟨refused, returned⟩ | ⟨used, within, left, returned⟩
      · -- a refused packet closes the connection
        rw [if_pos (by rw [returned]; decide)]
        refine ⟨limitKept, packetsNow, ?_, fun _ => rfl, ?_, ?_⟩
        · intro tail isTail
          rw [refused] at isTail
          cases isTail
        · simp [returned]
        · exact follows.calls_snoc mfc (.inl returned)
      · have notNegative : ¬ (receiver.handler.onData mfc (receiver.input ++ chunk)).2.2 < 0 := by
          rw [returned]
          omega
        rw [if_neg notNegative]
        refine ⟨limitKept, packetsNow, ?_, ?_, ?_, ?_⟩
        · intro tail isTail
          rw [left] at isTail
          cases isTail
          refine ⟨rfl, ?_⟩
          simp only [returned, Int.toNat_natCast]
        · intro isNone
          rw [left] at isNone
          cases isNone
        · refine ⟨fun isClosed => absurd isClosed Bool.false_ne_true, ?_⟩
          rintro ⟨size, member⟩
          rcases List.mem_append.mp member with old | new
          · exact absurd ⟨size, old⟩ noReport
          · have result := congrArg Prod.snd (List.mem_singleton.mp new)
            simp only [returned] at result
            omega
        · refine follows.calls_snoc mfc (.inr ?_)
          simp only [returned]
          omega

theorem receiveAll_follows (handler : CDataHandler) (chunks : List (List UInt8))
    (buffered : Buffered mfc handler chunks) :
    (receiveAll mfc handler chunks).Follows mfc handler.uPacketLimit
      ((packetFraming handler.uPacketLimit).scan chunks.flatten) := by
  rw [← Framing.feed_chunks]
  induction chunks using List.reverseRecOn with
  | nil =>
      refine ⟨rfl, ⟨[], rfl, .nil⟩, ?_, ?_, by simp [receiveAll], by simp [receiveAll]⟩
      · intro tail isTail
        cases isTail
        exact ⟨rfl, rfl⟩
      · intro isNone
        cases isNone
  | append_singleton before chunk ih =>
      have follows := ih fun earlier piece isPrefix =>
        buffered earlier piece (isPrefix.trans (List.prefix_append _ _))
      have small := buffered before chunk (List.prefix_refl _)
      simp only [receiveAll, List.foldl_append, List.foldl_cons, List.foldl_nil] at *
      exact follows.receive mfc small

/-- Every stream has a reference parse, and whatever the chunks are, the receiver
dispatches its packets in order, reports an error exactly if it meets a header
that is not accepted, and keeps its incomplete tail otherwise. -/
theorem receive_chunks (handler : CDataHandler) (chunks : List (List UInt8))
    (buffered : Buffered mfc handler chunks) :
    (∃ packets ending, Parse handler.uPacketLimit chunks.flatten packets ending) ∧
    (∀ packets ending, Parse handler.uPacketLimit chunks.flatten packets ending →
      List.Forall₂ (Request.Carries mfc) (receiveAll mfc handler chunks).dispatched packets ∧
      ((∃ size, (size, -1) ∈ (receiveAll mfc handler chunks).calls) ↔ ending = none) ∧
      ∀ tail, ending = some tail → (receiveAll mfc handler chunks).input = tail) ∧
    ∀ call ∈ (receiveAll mfc handler chunks).calls,
      call.2 = -1 ∨ (0 ≤ call.2 ∧ call.2 ≤ call.1) := by
  have follows := receiveAll_follows mfc handler chunks buffered
  obtain ⟨packets, frames, carried⟩ := follows.packets
  have parse := parse_of_scan (Prod.ext frames rfl)
  refine ⟨⟨packets, _, parse⟩, ?_, follows.calls⟩
  intro others ending again
  obtain ⟨rfl, rfl⟩ := parse.unique again
  refine ⟨carried, ?_, fun tail isTail => (follows.input tail isTail).2⟩
  rw [← follows.reported]
  constructor
  · intro isClosed
    cases left : ((packetFraming handler.uPacketLimit).scan chunks.flatten).2 with
    | none => exact left
    | some tail =>
        rw [(follows.input tail left).1] at isClosed
        cases isClosed
  · exact follows.closed

theorem length_input_receive (receiver : Receiver) (chunk : List UInt8) :
    (receiver.receive mfc chunk).input.length ≤ receiver.input.length + chunk.length := by
  unfold Receiver.receive
  dsimp only
  split
  · omega
  · split
    · rw [List.length_append]
    · rw [List.length_drop, List.length_append]
      omega

theorem buffered_of_length {handler : CDataHandler} {chunks : List (List UInt8)}
    (short : chunks.flatten.length < 2 ^ 31) : Buffered mfc handler chunks := by
  have most : ∀ before : List (List UInt8),
      (receiveAll mfc handler before).input.length ≤ before.flatten.length := by
    intro before
    induction before using List.reverseRecOn with
    | nil => exact Nat.zero_le _
    | append_singleton before chunk ih =>
        have step := length_input_receive mfc (receiveAll mfc handler before) chunk
        simp only [receiveAll, List.foldl_append, List.foldl_cons, List.foldl_nil,
          List.flatten_append, List.flatten_singleton, List.length_append] at ih step ⊢
        omega
  rintro before chunk ⟨later, rfl⟩ -
  have atMost := most before
  simp only [List.flatten_append, List.flatten_singleton, List.length_append] at short
  omega

/-- Two bytes, then the rest of an empty packet with command 5. -/
theorem receive_chunks_cutHeader :
    List.Forall₂ (Request.Carries .pb)
      (receiveAll .pb {} [[8, 0], [0, 0, 5, 0, 0, 0]]).dispatched [⟨5, []⟩] := by
  have parse : Parse (CDataHandler.uPacketLimit {}) [8, 0, 0, 0, 5, 0, 0, 0] [⟨5, []⟩] (some []) :=
    @Parse.packet _ ⟨5, []⟩ [] [] _ (by decide) (by decide) (.noHeader (by decide))
  exact ((receive_chunks .pb {} [[8, 0], [0, 0, 5, 0, 0, 0]]
    (buffered_of_length .pb (by decide))).2.1 _ _ parse).1

end Receiving

end CLibs.Libevwork
