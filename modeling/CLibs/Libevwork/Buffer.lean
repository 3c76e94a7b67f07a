import CLibs.General.Memory
import CLibs.General.Runs

/-!
# The byte buffer

`CBuffer` of `Buffer.h`. The block at `m_data` is the list of its bytes, and the
null pointer is `none`; the offsets and sizes are the source's 32 bit words. The
commented-out `__try_decrement` has no caller.
-/

set_option autoImplicit false
set_option linter.style.nameCheck false

namespace CLibs.Libevwork

open General

/-- What the buffer takes from its platform. `fresh n` is what `new char[n]`
leaves in memory. `memcpy mem src n` copies inside the block `mem` from `src` to
its start, and is only promised to do so if the two ranges are apart. -/
structure Platform where
  fresh : Nat → List UInt8
  memcpy : List UInt8 → Nat → Nat → List UInt8
  length_fresh : ∀ n, (fresh n).length = n
  memcpy_apart : ∀ mem src n, n ≤ src → memcpy mem src n = Memory.move mem 0 src n

/-- Some platforms copy overlapping ranges right as well. -/
def Platform.CopiesOverlap (platform : Platform) : Prop :=
  ∀ mem src n, platform.memcpy mem src n = Memory.move mem 0 src n

structure CBuffer where
  blockSize : UInt32
  minBlock : UInt32
  data : Option (List UInt8) := none
  capacity : UInt32 := 0
  headOff : UInt32 := 0
  tailOff : UInt32 := 0

namespace CBuffer

/-- The block behind `m_data`; there is none behind the null pointer. -/
def mem (b : CBuffer) : List UInt8 := b.data.getD []

def size (b : CBuffer) : UInt32 := b.tailOff - b.headOff

def freesize (b : CBuffer) : UInt32 := b.capacity - b.tailOff

/-- The bytes `data()[0..size())`. -/
def bytes (b : CBuffer) : List UInt8 := Memory.read b.mem b.headOff.toNat b.size.toNat

def __reset (b : CBuffer) : CBuffer :=
  { b with data := none, capacity := 0, tailOff := 0, headOff := 0 }

def reset (b : CBuffer) : CBuffer := b.__reset

def __calcCapacity (b : CBuffer) (size : UInt32) : UInt32 :=
  let blockCount := size / b.blockSize
  let blockCount := if size % b.blockSize > 0 then blockCount + 1 else blockCount
  let blockCount := if blockCount < b.minBlock then b.minBlock else blockCount
  b.blockSize * blockCount

def __tryIncrement (platform : Platform) (b : CBuffer) (size : UInt32) : CBuffer :=
  if b.freesize ≥ size then b
  else
    let datasize := b.tailOff - b.headOff
    let requireSize := datasize + size
    if b.capacity ≥ requireSize then
      { b with
        data := b.data.map fun mem => platform.memcpy mem b.headOff.toNat datasize.toNat
        headOff := 0
        tailOff := datasize }
    else
      let capacity := b.__calcCapacity requireSize
      let pNew := platform.fresh capacity.toNat
      { b with
        data := some (match b.data with
          | some mem => Memory.write pNew 0 (Memory.read mem b.headOff.toNat datasize.toNat)
          | none => pNew)
        capacity := capacity
        headOff := 0
        tailOff := datasize }

/-- Storing `bytes` at `tail() + off`. -/
def store (b : CBuffer) (off : Nat) (bytes : List UInt8) : CBuffer :=
  { b with data := b.data.map fun mem => Memory.write mem (b.tailOff.toNat + off) bytes }

def append (platform : Platform) (b : CBuffer) (data : List UInt8) (size : UInt32) : CBuffer :=
  if size = 0 then b
  else
    let b := (b.__tryIncrement platform size).store 0 (data.take size.toNat)
    { b with tailOff := b.tailOff + size }

def erase (b : CBuffer) (size : UInt32) : CBuffer :=
  if size = 0 then b
  else
    let datasize := b.tailOff - b.headOff
    let size := if size > datasize then datasize else size
    let headOff := b.headOff + size
    if headOff ≥ b.blockSize then
      { b with
        data := b.data.map fun mem =>
          Memory.move mem 0 (headOff.toNat + size.toNat) (datasize - size).toNat
        headOff := 0
        tailOff := datasize - size }
    else { b with headOff := headOff }

def incCapacity (platform : Platform) (b : CBuffer) (size : UInt32) : CBuffer :=
  b.__tryIncrement platform size

def incSize (b : CBuffer) (size : UInt32) : CBuffer :=
  let tailOff := b.tailOff + size
  { b with tailOff := if tailOff > b.capacity then b.capacity else tailOff }

def assign (platform : Platform) (b obj : CBuffer) : CBuffer :=
  b.__reset.append platform (obj.mem.drop obj.headOff.toNat) obj.size

end CBuffer

/-! ## Buffers in use -/

/-- The calls a program makes on its buffers, named by `ι`. -/
inductive BufferOp (ι : Type) where
  | append (i : ι) (bytes : List UInt8)
  | erase (i : ι) (size : UInt32)
  | incCapacity (i : ι) (size : UInt32)
  /-- Writing at `tail()`, then `inc_size`. -/
  | write (i : ι) (bytes : List UInt8)
  | reset (i : ι)
  | assign (i j : ι)

namespace BufferOp

variable {ι : Type} [DecidableEq ι]

def apply (platform : Platform) (buffers : ι → CBuffer) : BufferOp ι → ι → CBuffer
  | .append i bytes => Function.update buffers i
      ((buffers i).append platform bytes (UInt32.ofNat bytes.length))
  | .erase i size => Function.update buffers i ((buffers i).erase size)
  | .incCapacity i size => Function.update buffers i ((buffers i).incCapacity platform size)
  | .write i bytes => Function.update buffers i
      (((buffers i).store 0 bytes).incSize (UInt32.ofNat bytes.length))
  | .reset i => Function.update buffers i (buffers i).reset
  | .assign i j => Function.update buffers i
      -- a buffer assigned to itself has been reset before it is read
      ((buffers i).assign platform (if i = j then (buffers i).__reset else buffers j))

def queue (queues : ι → List UInt8) : BufferOp ι → ι → List UInt8
  | .append i bytes => Function.update queues i (queues i ++ bytes)
  | .erase i size => Function.update queues i ((queues i).drop (min size.toNat (queues i).length))
  | .incCapacity _ _ => queues
  | .write i bytes => Function.update queues i (queues i ++ bytes)
  | .reset i => Function.update queues i []
  | .assign i j => Function.update queues i (queues j)

end BufferOp

/-- Programs that start with newly constructed buffers. -/
def bufferSystem (platform : Platform) (ι : Type) [DecidableEq ι] :
    System (ι → CBuffer) (BufferOp ι) where
  start buffers := ∀ i, ∃ blockSize minBlock : UInt32, 1 ≤ blockSize ∧
    buffers i = { blockSize := blockSize, minBlock := minBlock }
  step buffers op after := after = op.apply platform buffers

end CLibs.Libevwork
