import CLibs.Libevwork.DataHandler

/-!
# The JSON protocol

`Jpacket` and `CJsonData` of `libevwork_using`. A packet is a word with the
length of the body and the body itself, a JSON text with every byte masked.
Reading and writing JSON is left to jsoncpp, which stays a parameter.
-/

set_option autoImplicit false
set_option linter.style.nameCheck false

namespace CLibs.LibevworkUsing

open General Libevwork

/-- What the packets take from jsoncpp: `Value::toStyledString`, and
`Reader::parse` with the value it stores. -/
structure Jsoncpp (Value : Type) where
  toStyledString : Value → List UInt8
  parse : List UInt8 → Option Value

def headerSize : UInt32 := 4

def xorKey : UInt8 := 16

def Header.peekLen (d : List UInt8) : UInt32 := load32 d 0

namespace Jpacket

variable {Value : Type}

/-- `xorfunc`, whose loop counts to the length as an `int`. -/
def xorfunc (str : List UInt8) : List UInt8 :=
  let strLen := (int32 str.length).toNat
  (str.take strLen).map (· ^^^ xorKey) ++ str.drop strLen

/-- The string `end` leaves in the packet. -/
def end_ (json : Jsoncpp Value) (val : Value) : List UInt8 :=
  let out := xorfunc (json.toStyledString val)
  word32 (UInt32.ofNat out.length) ++ out

def parse (json : Jsoncpp Value) (str : List UInt8) : Option Value :=
  json.parse (xorfunc str)

end Jpacket

structure CJsonData where
  uProc : UInt32 := 0
  uPacketLimit : UInt32 := 1024 * 1024 * 16
  uBytes64 : UInt64 := 0

/-- The application behind `RequestDispatch`, which acts on a world of its own
choice, and whether the connection with the received bytes is still there. -/
structure Application (World Value : Type) where
  dispatch : World → Value → World
  alive : World → Bool

/-- How a call of `onData` ends. -/
inductive Ending where
  | returned (nRetSize : Int)
  /-- The packet was taken from behind the end of the data. -/
  | overrun
  /-- The packet consumed nothing, so the loop never ends. -/
  | spins
  /-- The data was read after the connection with it was freed. -/
  | freed

/-- A pass of the loop of `onData` that took a packet: where the header stood, the
length it announced, and the value that was dispatched. -/
structure Pass (Value : Type) where
  offset : Nat
  uPktLen : UInt32
  value : Option Value

structure Received (World Value : Type) where
  handler : CJsonData
  world : World
  passes : List (Pass Value)
  ending : Ending

namespace CJsonData

variable {World Value : Type}

def setPacketLimit (handler : CJsonData) (uLimit : UInt32) : CJsonData :=
  { handler with uPacketLimit := uLimit }

def refuses (handler : CJsonData) (uPktLen : UInt32) : Bool :=
  handler.uPacketLimit != 0xFFFFFFFF && handler.uPacketLimit - headerSize < uPktLen

def counted (handler : CJsonData) (uPktLen : UInt32) : CJsonData :=
  { handler with
    uProc := handler.uProc + 1
    uBytes64 := handler.uBytes64 + (uPktLen + headerSize).toUInt64 }

/-- The loop of `onData`, with `pData` the data from `offset` on. All sums of the
length and the header size are 32 bit words. -/
def onDataFrom (json : Jsoncpp Value) (app : Application World Value) (handler : CJsonData)
    (world : World) (pData : List UInt8) (offset : Nat) (nProcessed : Int) :
    Received World Value :=
  if pData.length = 0 then ⟨handler, world, [], .returned nProcessed⟩
  else if pData.length < headerSize.toNat then ⟨handler, world, [], .returned nProcessed⟩
  else if app.alive world = false then ⟨handler, world, [], .freed⟩
  else
    let uPktLen := Header.peekLen pData
    if handler.refuses uPktLen then ⟨handler, world, [], .returned (-1)⟩
    else if pData.length < (headerSize + uPktLen).toNat then
      ⟨handler, world, [], .returned nProcessed⟩
    else if pData.length < headerSize.toNat + uPktLen.toNat then
      ⟨handler, world, [⟨offset, uPktLen, none⟩], .overrun⟩
    else
      let strPacket := Memory.read pData headerSize.toNat uPktLen.toNat
      match Jpacket.parse json strPacket with
      | none => ⟨handler, world, [⟨offset, uPktLen, none⟩], .returned (-1)⟩
      | some value =>
          let world := app.dispatch world value
          if _idle : uPktLen + headerSize = 0 then
            ⟨handler, world, [⟨offset, uPktLen, some value⟩], .spins⟩
          else
            let rest := onDataFrom json app (handler.counted uPktLen) world
              (pData.drop (uPktLen + headerSize).toNat)
              (offset + (uPktLen + headerSize).toNat)
              (int32 (nProcessed + int32 (uPktLen + headerSize).toNat))
            { rest with passes := ⟨offset, uPktLen, some value⟩ :: rest.passes }
termination_by pData.length
decreasing_by
  have some : (Header.peekLen pData + headerSize).toNat ≠ 0 := by
    intro zero
    exact _idle (UInt32.toNat_inj.mp zero)
  rw [List.length_drop]
  omega

def onData (json : Jsoncpp Value) (app : Application World Value) (handler : CJsonData)
    (world : World) (pData : List UInt8) : Received World Value :=
  handler.onDataFrom json app world pData 0 0

end CJsonData

end CLibs.LibevworkUsing
