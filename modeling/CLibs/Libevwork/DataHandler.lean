import CLibs.General.LittleEndian
import CLibs.General.Memory

/-!
# The binary protocol: receiving

`CDataHandler` and `Request` of `pbmfc` and of `jsmfc`. The two packages differ
in the names of their macros only, so both are given at once. A pointer into
received data is the list of the bytes from there on; log output is left out.
-/

set_option autoImplicit false
set_option linter.style.nameCheck false

namespace CLibs.Libevwork

open General

inductive Mfc where
  | pb
  | js

namespace Mfc

def headerSize : Mfc → UInt32
  | .pb => 8
  | .js => 8

/-- `PB_HTONL` and `JS_HTONL`: empty macros on x86. -/
def htonl : Mfc → UInt32 → UInt32
  | .pb, i32 => i32
  | .js, i32 => i32

def ntohl (mfc : Mfc) (i32 : UInt32) : UInt32 := mfc.htonl i32

@[simp] theorem headerSize_toNat (mfc : Mfc) : mfc.headerSize.toNat = 8 := by
  cases mfc <;> rfl

@[simp] theorem htonl_eq (mfc : Mfc) (i32 : UInt32) : mfc.htonl i32 = i32 := by
  cases mfc <;> rfl

@[simp] theorem ntohl_eq (mfc : Mfc) (i32 : UInt32) : mfc.ntohl i32 = i32 := mfc.htonl_eq i32

end Mfc

/-- The four bytes of a word in memory. -/
def word32 (i32 : UInt32) : List UInt8 := LittleEndian.encode 4 i32.toNat

/-- `*(uint32_t*)(pData + off)`. -/
def load32 (pData : List UInt8) (off : Nat) : UInt32 :=
  UInt32.ofNat (LittleEndian.decode (Memory.read pData off 4))

/-- Conversion to `int`. -/
def int32 (number : Int) : Int := number.bmod (2 ^ 32)

structure Header where
  uLen : UInt32 := 0
  uCmd : UInt32 := 0

def Header.getLen (header : Header) : UInt32 := header.uLen

def Header.getCmd (header : Header) : UInt32 := header.uCmd

/-- A request views the bytes at `pData`; with `bCopy`, a copy of `uSize` of them. -/
structure Request extends Header where
  pData : List UInt8
  uSize : UInt32

namespace Request

variable (mfc : Mfc)

def peekLen (d : List UInt8) : UInt32 := mfc.ntohl (load32 d 0)

def parseHeader (request : Request) : Request :=
  { request with
    uLen := mfc.ntohl (load32 request.pData 0)
    uCmd := mfc.ntohl (load32 request.pData 4) }

def body (request : Request) : Option (List UInt8) :=
  if request.uSize < mfc.headerSize then none
  else some (request.pData.drop mfc.headerSize.toNat)

def bodySize (request : Request) : UInt32 :=
  if request.uSize < mfc.headerSize then 0 else request.uSize - mfc.headerSize

/-- The bytes `Body()[0..BodySize())`. -/
def bodyBytes (request : Request) : List UInt8 :=
  ((request.body mfc).getD []).take (request.bodySize mfc).toNat

end Request

structure CDataHandler where
  uProc : UInt32 := 0
  uBytes64 : UInt64 := 0
  uPacketLimit : UInt32 := 1024 * 1024 * 16

namespace CDataHandler

variable (mfc : Mfc)

def refuses (handler : CDataHandler) (uPktLen : UInt32) : Bool :=
  uPktLen < mfc.headerSize ||
    (handler.uPacketLimit != 0xFFFFFFFF && handler.uPacketLimit < uPktLen)

/-- `__makeRequest`: the request that is dispatched. -/
def __makeRequest (pPacket : List UInt8) (uPktLen : UInt32) : Request :=
  Request.parseHeader mfc { pData := pPacket, uSize := uPktLen }

theorem pos_of_not_refuses {handler : CDataHandler} {uPktLen : UInt32}
    (accepted : ¬ handler.refuses mfc uPktLen = true) : 8 ≤ uPktLen.toNat := by
  by_contra less
  have below : uPktLen < mfc.headerSize := by
    rw [UInt32.lt_iff_toNat_lt, mfc.headerSize_toNat]
    omega
  simp [refuses, below] at accepted

/-- The loop of `onData`: the requests it dispatches and what it returns. -/
def onDataFrom (handler : CDataHandler) (pData : List UInt8) (nProcessed : Int) :
    CDataHandler × List Request × Int :=
  if pData.length = 0 then (handler, [], nProcessed)
  else if pData.length < mfc.headerSize.toNat then (handler, [], nProcessed)
  else
    let uPktLen := Request.peekLen mfc pData
    if refused : handler.refuses mfc uPktLen then (handler, [], -1)
    else if pData.length < uPktLen.toNat then (handler, [], nProcessed)
    else
      let rest := onDataFrom
        { handler with
          uProc := handler.uProc + 1
          uBytes64 := handler.uBytes64 + uPktLen.toUInt64 }
        (pData.drop uPktLen.toNat) (int32 (nProcessed + int32 uPktLen.toNat))
      (rest.1, __makeRequest mfc pData uPktLen :: rest.2.1, rest.2.2)
termination_by pData.length
decreasing_by
  have some : 8 ≤ (Request.peekLen mfc pData).toNat := pos_of_not_refuses mfc refused
  rw [List.length_drop]
  omega

def onData (handler : CDataHandler) (pData : List UInt8) : CDataHandler × List Request × Int :=
  handler.onDataFrom mfc pData 0

end CDataHandler

/-- A connection that buffers its input for a handler. -/
structure Receiver where
  handler : CDataHandler
  input : List UInt8 := []
  dispatched : List Request := []
  /-- The sizes passed to `onData` and what it returned. -/
  calls : List (Nat × Int) := []
  closed : Bool := false

/-- Appends a chunk to the input, calls `onData`, and removes what it used up; a
negative result closes the connection. -/
def Receiver.receive (mfc : Mfc) (receiver : Receiver) (chunk : List UInt8) : Receiver :=
  if receiver.closed then receiver
  else
    let input := receiver.input ++ chunk
    let result := receiver.handler.onData mfc input
    let next := { receiver with
      handler := result.1
      dispatched := receiver.dispatched ++ result.2.1
      calls := receiver.calls ++ [(input.length, result.2.2)] }
    if result.2.2 < 0 then { next with input := input, closed := true }
    else { next with input := input.drop result.2.2.toNat }

end CLibs.Libevwork
