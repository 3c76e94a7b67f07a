import CLibs.Libevwork.Buffer
import Mathlib.Tactic.Ring

/-!
# The byte buffer is a queue

The offsets stay in order and the bytes between them are those of the reference
queue, as long as `erase` does not compact a block that still holds bytes, an
in-place compaction is done by a copy that may overlap, and no buffer is assigned
to itself.
-/

set_option autoImplicit false

namespace CLibs.Libevwork

open General

namespace CBuffer

structure WellFormed (b : CBuffer) : Prop where
  block : 1 ≤ b.blockSize.toNat
  head : b.headOff.toNat ≤ b.tailOff.toNat
  tail : b.tailOff.toNat ≤ b.capacity.toNat
  memory : b.mem.length = b.capacity.toNat

/-- The offsets are in order, whatever the block holds. -/
structure Ordered (b : CBuffer) : Prop where
  block : 1 ≤ b.blockSize.toNat
  head : b.headOff.toNat ≤ b.tailOff.toNat
  tail : b.tailOff.toNat ≤ b.capacity.toNat

namespace Ordered

variable {b : CBuffer}

theorem size_toNat (ordered : b.Ordered) : b.size.toNat = b.tailOff.toNat - b.headOff.toNat :=
  UInt32.toNat_sub_of_le _ _ (UInt32.le_iff_toNat_le.mpr ordered.head)

theorem freesize_toNat (ordered : b.Ordered) :
    b.freesize.toNat = b.capacity.toNat - b.tailOff.toNat :=
  UInt32.toNat_sub_of_le _ _ (UInt32.le_iff_toNat_le.mpr ordered.tail)

end Ordered

namespace WellFormed

variable {b : CBuffer}

theorem ordered (wf : b.WellFormed) : b.Ordered := ⟨wf.block, wf.head, wf.tail⟩

theorem size_toNat (wf : b.WellFormed) : b.size.toNat = b.tailOff.toNat - b.headOff.toNat :=
  wf.ordered.size_toNat

theorem freesize_toNat (wf : b.WellFormed) :
    b.freesize.toNat = b.capacity.toNat - b.tailOff.toNat :=
  wf.ordered.freesize_toNat

theorem length_bytes (wf : b.WellFormed) : b.bytes.length = b.size.toNat := by
  have size := wf.size_toNat
  have head := wf.head
  have tail := wf.tail
  have memory := wf.memory
  exact Memory.length_read (by omega)

end WellFormed

/-- The number of blocks `__calc_capacity` rounds up to. -/
def blocks (b : CBuffer) (size : Nat) : Nat :=
  max (size / b.blockSize.toNat + if size % b.blockSize.toNat > 0 then 1 else 0) b.minBlock.toNat

/-- Making room for `size` bytes wraps no sum and no product. -/
def Fits (b : CBuffer) (size : UInt32) : Prop :=
  b.freesize.toNat < size.toNat → b.size.toNat + size.toNat < 2 ^ 32 ∧
    (b.capacity.toNat < b.size.toNat + size.toNat →
      b.blockSize.toNat * b.blocks (b.size.toNat + size.toNat) < 2 ^ 32)

instance (b : CBuffer) (size : UInt32) : Decidable (b.Fits size) :=
  inferInstanceAs (Decidable (_ < _ → _ < _ ∧ (_ < _ → _ < _)))

/-- Making room for `size` bytes moves the bytes to the start of the block. -/
def Compacts (b : CBuffer) (size : UInt32) : Prop :=
  b.freesize.toNat < size.toNat ∧ b.size.toNat + size.toNat ≤ b.capacity.toNat

/-- The platform may copy the bytes to the start of the block. -/
def CopySafe (platform : Platform) (b : CBuffer) (size : UInt32) : Prop :=
  b.Compacts size → platform.CopiesOverlap ∨ b.size.toNat ≤ b.headOff.toNat

theorem le_blocks (b : CBuffer) (block : 1 ≤ b.blockSize.toNat) (size : Nat) :
    size ≤ b.blockSize.toNat * b.blocks size := by
  have quotient := Nat.div_add_mod size b.blockSize.toNat
  have remainder := Nat.mod_lt size block
  have least : size / b.blockSize.toNat + (if size % b.blockSize.toNat > 0 then 1 else 0)
      ≤ b.blocks size := le_max_left _ _
  refine le_trans ?_ (Nat.mul_le_mul_left _ least)
  rw [Nat.mul_add]
  split <;> omega

/-- The product is taken modulo 2^32; the number of blocks never wraps. -/
theorem calcCapacity_toNat (b : CBuffer) (block : 1 ≤ b.blockSize.toNat) (size : UInt32) :
    (b.__calcCapacity size).toNat = b.blockSize.toNat * b.blocks size.toNat % 2 ^ 32 := by
  have small := size.toNat_lt
  have count : (if size % b.blockSize > 0 then size / b.blockSize + 1
      else size / b.blockSize).toNat =
        size.toNat / b.blockSize.toNat + if size.toNat % b.blockSize.toNat > 0 then 1 else 0 := by
    have positive : size % b.blockSize > 0 ↔ size.toNat % b.blockSize.toNat > 0 := by
      rw [gt_iff_lt, UInt32.lt_iff_toNat_lt, UInt32.toNat_mod]
      rfl
    by_cases some : size.toNat % b.blockSize.toNat > 0
    · rw [if_pos (positive.mpr some), if_pos some, UInt32.toNat_add, UInt32.toNat_div]
      refine Nat.mod_eq_of_lt ?_
      have : size.toNat / b.blockSize.toNat < size.toNat := by
        refine Nat.div_lt_self ?_ ?_
        · by_contra none
          simp [show size.toNat = 0 by omega] at some
        · by_contra one
          simp [show b.blockSize.toNat = 1 by omega, Nat.mod_one] at some
      change size.toNat / b.blockSize.toNat + 1 < 2 ^ 32
      omega
    · rw [if_neg (mt positive.mp some), if_neg some, UInt32.toNat_div, Nat.add_zero]
  simp only [__calcCapacity]
  unfold blocks
  rw [← count]
  generalize (if size % b.blockSize > 0 then size / b.blockSize + 1 else size / b.blockSize) =
    blockCount
  have chosen : (if blockCount < b.minBlock then b.minBlock else blockCount).toNat =
      max blockCount.toNat b.minBlock.toNat := by
    split
    · next less => exact (max_eq_right (UInt32.lt_iff_toNat_lt.mp less).le).symm
    · next notLess =>
      exact (max_eq_left (not_lt.mp (mt UInt32.lt_iff_toNat_lt.mpr notLess))).symm
  rw [UInt32.toNat_mul, chosen]

/-! ## Making room -/

theorem wellFormed_of_start {b : CBuffer} (block : List UInt8) {bytes : List UInt8}
    (blockSize : 1 ≤ b.blockSize.toNat) (mem : b.mem = Memory.write block 0 bytes)
    (length : block.length = b.capacity.toNat) (head : b.headOff = 0)
    (tail : b.tailOff.toNat = bytes.length) {size : Nat}
    (room : bytes.length + size ≤ b.capacity.toNat) :
    b.WellFormed ∧ b.bytes = bytes ∧ size ≤ b.freesize.toNat := by
  have zero : b.headOff.toNat = 0 := by
    rw [head]
    rfl
  have wf : b.WellFormed := by
    refine ⟨blockSize, by omega, by omega, ?_⟩
    rw [mem, Memory.length_write (by omega), length]
  refine ⟨wf, ?_, ?_⟩
  · rw [CBuffer.bytes, mem, wf.size_toNat, zero, tail, Nat.sub_zero]
    exact Memory.read_write (by omega)
  · rw [wf.freesize_toNat]
    omega

theorem compacted_spec {platform : Platform} {b : CBuffer} {size : UInt32} (wf : b.WellFormed)
    (compacts : b.Compacts size) (safe : b.CopySafe platform size) :
    let after := { b with
      data := b.data.map fun mem => platform.memcpy mem b.headOff.toNat b.size.toNat
      headOff := 0
      tailOff := b.size }
    after.WellFormed ∧ after.bytes = b.bytes ∧ size.toNat ≤ after.freesize.toNat := by
  have memory := wf.memory
  have oldLength := wf.length_bytes
  obtain ⟨short, inPlace⟩ := compacts
  have moved : platform.memcpy b.mem b.headOff.toNat b.size.toNat =
      Memory.write b.mem 0 b.bytes := by
    rcases safe ⟨short, inPlace⟩ with overlap | apart
    · exact overlap _ _ _
    · exact platform.memcpy_apart _ _ _ apart
  refine wellFormed_of_start b.mem ?_ ?_ ?_ ?_ ?_ ?_
  · exact wf.block
  · cases data : b.data with
    | none =>
        have capacity : b.capacity.toNat = 0 := by
          rw [← memory, mem, data]
          rfl
        omega
    | some mem =>
        rw [← moved, CBuffer.mem, CBuffer.mem, data]
        rfl
  · exact memory
  · rfl
  · exact oldLength.symm
  · change b.bytes.length + size.toNat ≤ b.capacity.toNat
    omega

theorem regrown_spec (platform : Platform) {b : CBuffer} {size capacity : UInt32}
    (wf : b.WellFormed) (room : b.size.toNat + size.toNat ≤ capacity.toNat) :
    let after := { b with
      data := some (match b.data with
        | some mem => Memory.write (platform.fresh capacity.toNat) 0
            (Memory.read mem b.headOff.toNat b.size.toNat)
        | none => platform.fresh capacity.toNat)
      capacity := capacity
      headOff := 0
      tailOff := b.size }
    after.WellFormed ∧ after.bytes = b.bytes ∧ size.toNat ≤ after.freesize.toNat := by
  have oldLength := wf.length_bytes
  refine wellFormed_of_start (platform.fresh capacity.toNat) ?_ ?_ ?_ ?_ ?_ ?_
  · exact wf.block
  · rw [bytes, CBuffer.mem, CBuffer.mem]
    cases b.data with
    | none => simp [Memory.read]
    | some mem => rfl
  · exact platform.length_fresh _
  · rfl
  · exact oldLength.symm
  · rw [oldLength]
    exact room

/-- `__try_increment` keeps the bytes and makes room. -/
theorem tryIncrement_spec {platform : Platform} {b : CBuffer} {size : UInt32} (wf : b.WellFormed)
    (fits : b.Fits size) (safe : b.CopySafe platform size) :
    (b.__tryIncrement platform size).WellFormed ∧
      (b.__tryIncrement platform size).bytes = b.bytes ∧
      size.toNat ≤ (b.__tryIncrement platform size).freesize.toNat := by
  unfold __tryIncrement
  split
  · next enough => exact ⟨wf, rfl, UInt32.le_iff_toNat_le.mp enough⟩
  · next notEnough =>
    have short : b.freesize.toNat < size.toNat := by
      rw [ge_iff_le, UInt32.le_iff_toNat_le] at notEnough
      omega
    obtain ⟨noWrap, capacityFits⟩ := fits short
    have require : (b.tailOff - b.headOff + size).toNat = b.size.toNat + size.toNat := by
      rw [UInt32.toNat_add]
      exact Nat.mod_eq_of_lt noWrap
    dsimp only
    split
    · next inPlace =>
      rw [ge_iff_le, UInt32.le_iff_toNat_le, require] at inPlace
      exact compacted_spec wf ⟨short, inPlace⟩ safe
    · next larger =>
      rw [ge_iff_le, UInt32.le_iff_toNat_le, require, not_le] at larger
      have capacity := b.calcCapacity_toNat wf.block (b.tailOff - b.headOff + size)
      rw [require, Nat.mod_eq_of_lt (capacityFits larger)] at capacity
      have room := b.le_blocks wf.block (b.size.toNat + size.toNat)
      rw [← capacity] at room
      exact regrown_spec platform wf room

/-! ## The calls -/

theorem store_mem {b : CBuffer} {off : Nat} {bytes : List UInt8} (wf : b.WellFormed)
    (room : off + bytes.length ≤ b.freesize.toNat) :
    (b.store off bytes).mem = Memory.write b.mem (b.tailOff.toNat + off) bytes := by
  have memory := wf.memory
  rw [wf.freesize_toNat] at room
  simp only [store, mem] at memory ⊢
  cases data : b.data with
  | none =>
      -- without a block there is no room, and nothing is stored
      rw [data, Option.getD_none, List.length_nil] at memory
      have none : bytes = [] := List.eq_nil_of_length_eq_zero (by omega)
      simp [none]
  | some block => rfl

theorem extended_spec {b : CBuffer} {data : List UInt8} {size : UInt32} (wf : b.WellFormed)
    (length : data.length = size.toNat) (room : size.toNat ≤ b.freesize.toNat) :
    WellFormed { b.store 0 data with tailOff := b.tailOff + size } ∧
      CBuffer.bytes { b.store 0 data with tailOff := b.tailOff + size } = b.bytes ++ data := by
  have free := wf.freesize_toNat
  have head := wf.head
  have tail := wf.tail
  have memory := wf.memory
  have small := b.capacity.toNat_lt
  have newTail : (b.tailOff + size).toNat = b.tailOff.toNat + size.toNat := by
    rw [UInt32.toNat_add]
    exact Nat.mod_eq_of_lt (by omega)
  have block : CBuffer.mem { b.store 0 data with tailOff := b.tailOff + size } =
      Memory.write b.mem b.tailOff.toNat data := store_mem wf (by omega)
  have after : WellFormed { b.store 0 data with tailOff := b.tailOff + size } := by
    refine ⟨wf.block, ?_, ?_, ?_⟩
    · change b.headOff.toNat ≤ (b.tailOff + size).toNat
      omega
    · change (b.tailOff + size).toNat ≤ b.capacity.toNat
      omega
    · rw [block, Memory.length_write (by omega)]
      exact memory
  refine ⟨after, ?_⟩
  rw [CBuffer.bytes, after.size_toNat, block, CBuffer.bytes, wf.size_toNat]
  change Memory.read _ b.headOff.toNat ((b.tailOff + size).toNat - b.headOff.toNat) = _
  have place : b.tailOff.toNat = b.headOff.toNat + (b.tailOff.toNat - b.headOff.toNat) := by omega
  have count : (b.tailOff + size).toNat - b.headOff.toNat =
      (b.tailOff.toNat - b.headOff.toNat) + data.length := by omega
  rw [count]
  conv_lhs => rw [place]
  rw [Nat.add_sub_cancel_left]
  exact Memory.read_write_extend (by omega)

theorem append_spec {platform : Platform} {b : CBuffer} {data : List UInt8} {size : UInt32}
    (wf : b.WellFormed) (enough : size.toNat ≤ data.length) (fits : b.Fits size)
    (safe : b.CopySafe platform size) :
    (b.append platform data size).WellFormed ∧
      (b.append platform data size).bytes = b.bytes ++ data.take size.toNat := by
  unfold append
  split
  · next zero =>
    subst zero
    exact ⟨wf, by simp⟩
  · obtain ⟨made, same, room⟩ := tryIncrement_spec wf fits safe
    rw [← same]
    exact extended_spec made (by rw [List.length_take]; omega) room

theorem incSize_eq {b : CBuffer} {size : UInt32}
    (room : b.tailOff.toNat + size.toNat ≤ b.capacity.toNat) :
    b.incSize size = { b with tailOff := b.tailOff + size } := by
  have small := b.capacity.toNat_lt
  have notBeyond : ¬ b.tailOff + size > b.capacity := by
    rw [gt_iff_lt, UInt32.lt_iff_toNat_lt, UInt32.toNat_add, Nat.mod_eq_of_lt (by omega)]
    omega
  simp only [incSize, if_neg notBeyond]

theorem write_spec {b : CBuffer} {data : List UInt8} {size : UInt32} (wf : b.WellFormed)
    (length : data.length = size.toNat) (room : size.toNat ≤ b.freesize.toNat) :
    ((b.store 0 data).incSize size).WellFormed ∧
      ((b.store 0 data).incSize size).bytes = b.bytes ++ data := by
  have free := wf.freesize_toNat
  have tail := wf.tail
  rw [incSize_eq (b := b.store 0 data) (show b.tailOff.toNat + size.toNat ≤ b.capacity.toNat by omega)]
  exact extended_spec wf length room

/-- `erase` is about to compact a block that keeps bytes. -/
def Shifts (b : CBuffer) (size : UInt32) : Prop :=
  0 < size.toNat ∧ size.toNat < b.size.toNat ∧
    b.blockSize.toNat ≤ b.headOff.toNat + size.toNat

theorem erase_cases {b : CBuffer} (ordered : b.Ordered) {size : UInt32} (some : size ≠ 0) :
    ∃ taken : UInt32, taken.toNat = min size.toNat b.size.toNat ∧
      (b.headOff + taken).toNat = b.headOff.toNat + taken.toNat ∧
      (b.blockSize.toNat ≤ b.headOff.toNat + taken.toNat ∧
          b.erase size = { b with
            data := b.data.map fun mem =>
              Memory.move mem 0 ((b.headOff + taken).toNat + taken.toNat) (b.size - taken).toNat
            headOff := 0
            tailOff := b.size - taken } ∨
        b.headOff.toNat + taken.toNat < b.blockSize.toNat ∧
          b.erase size = { b with headOff := b.headOff + taken }) := by
  have datasize := ordered.size_toNat
  have highest := b.tailOff.toNat_lt
  have head := ordered.head
  unfold erase
  rw [if_neg some]
  dsimp only
  have clamped : (if size > b.tailOff - b.headOff then b.tailOff - b.headOff else size).toNat =
      min size.toNat b.size.toNat := by
    split
    · next more => exact (min_eq_right (UInt32.lt_iff_toNat_lt.mp more).le).symm
    · next notMore =>
      exact (min_eq_left (not_lt.mp (mt UInt32.lt_iff_toNat_lt.mpr notMore))).symm
  generalize (if size > b.tailOff - b.headOff then b.tailOff - b.headOff else size) = taken
    at clamped ⊢
  have newHead : (b.headOff + taken).toNat = b.headOff.toNat + taken.toNat := by
    rw [UInt32.toNat_add]
    exact Nat.mod_eq_of_lt (by omega)
  refine ⟨taken, clamped, newHead, ?_⟩
  rw [← newHead]
  split
  · next past => exact .inl ⟨UInt32.le_iff_toNat_le.mp past, rfl⟩
  · next inside => exact .inr ⟨UInt32.lt_iff_toNat_lt.mp (UInt32.not_le.mp inside), rfl⟩

theorem WellFormed.advance {b : CBuffer} (wf : b.WellFormed) {taken : UInt32}
    (within : taken.toNat ≤ b.size.toNat)
    (newHead : (b.headOff + taken).toNat = b.headOff.toNat + taken.toNat) :
    WellFormed { b with headOff := b.headOff + taken } := by
  refine ⟨wf.block, ?_, wf.tail, wf.memory⟩
  have datasize := wf.size_toNat
  have head := wf.head
  change (b.headOff + taken).toNat ≤ b.tailOff.toNat
  omega

theorem erase_spec {b : CBuffer} {size : UInt32} (wf : b.WellFormed) (still : ¬ b.Shifts size) :
    (b.erase size).WellFormed ∧
      (b.erase size).bytes = b.bytes.drop (min size.toNat b.bytes.length) := by
  have datasize := wf.size_toNat
  by_cases some : size = 0
  · subst some
    have same : b.erase 0 = b := if_pos rfl
    rw [same]
    exact ⟨wf, by simp⟩
  · have positive : 0 < size.toNat := by
      rw [Nat.pos_iff_ne_zero]
      exact fun zero => some (UInt32.toNat_inj.mp zero)
    obtain ⟨taken, clamped, newHead, ⟨past, same⟩ | ⟨inside, same⟩⟩ := erase_cases wf.ordered some
    · rw [same, wf.length_bytes, ← clamped]
      -- nothing is left, or the erase would have shifted the bytes
      have whole : taken = b.size := by
        refine UInt32.toNat_inj.mp ?_
        unfold Shifts at still
        omega
      have none : b.size - taken = 0 := by rw [whole, UInt32.sub_self]
      have unmoved : (b.data.map fun mem => Memory.move mem 0
          ((b.headOff + taken).toNat + taken.toNat) (0 : UInt32).toNat) = b.data := by
        simp [Memory.move]
      rw [none, unmoved, whole]
      refine ⟨⟨wf.block, le_rfl, Nat.zero_le _, wf.memory⟩, ?_⟩
      rw [List.drop_of_length_le (by rw [wf.length_bytes])]
      simp [bytes, CBuffer.size]
    · have after := wf.advance (by omega) newHead
      rw [same, wf.length_bytes, ← clamped]
      refine ⟨after, ?_⟩
      rw [bytes, after.size_toNat, bytes, Memory.drop_read, datasize]
      change Memory.read b.mem (b.headOff + taken).toNat
        (b.tailOff.toNat - (b.headOff + taken).toNat) = _
      rw [newHead, Nat.sub_sub]

theorem reset_spec {b : CBuffer} (block : 1 ≤ b.blockSize.toNat) :
    b.__reset.WellFormed ∧ b.__reset.bytes = [] :=
  ⟨⟨block, le_rfl, le_rfl, rfl⟩, by simp [bytes, size, __reset]⟩

theorem reset_copySafe (platform : Platform) (b : CBuffer) (size : UInt32) :
    b.__reset.CopySafe platform size := by
  intro compacts
  have capacity : b.__reset.capacity.toNat = 0 := rfl
  have short := compacts.1
  have inPlace := compacts.2
  omega

theorem assign_spec (platform : Platform) {b obj : CBuffer} (wf : b.WellFormed)
    (objWf : obj.WellFormed) (fits : b.__reset.Fits obj.size) :
    (b.assign platform obj).WellFormed ∧ (b.assign platform obj).bytes = obj.bytes := by
  obtain ⟨resetWf, none⟩ := reset_spec wf.block
  have head := objWf.head
  have tail := objWf.tail
  have memory := objWf.memory
  have datasize := objWf.size_toNat
  have enough : obj.size.toNat ≤ (obj.mem.drop obj.headOff.toNat).length := by
    rw [List.length_drop]
    omega
  obtain ⟨after, same⟩ := append_spec resetWf enough fits (reset_copySafe platform b _)
  rw [none, List.nil_append] at same
  exact ⟨after, same⟩

end CBuffer

/-! ## Whole programs -/

namespace BufferOp

variable {ι : Type}

/-- The step is in the range of the 32 bit words, and a direct write fits. -/
def Small (buffers : ι → CBuffer) : BufferOp ι → Prop
  | .append i bytes => bytes.length < 2 ^ 32 ∧ (buffers i).Fits (UInt32.ofNat bytes.length)
  | .erase _ _ => True
  | .incCapacity i size => (buffers i).Fits size
  | .write i bytes => bytes.length ≤ (buffers i).freesize.toNat
  | .reset _ => True
  | .assign i j => (buffers i).__reset.Fits (buffers j).size

/-- The step reaches none of the places where bytes get lost: an `erase` that
compacts a block with bytes left in it, an in-place compaction by a `memcpy` that
does not copy overlapping ranges, and the assignment of a buffer to itself. -/
def Sound (platform : Platform) (buffers : ι → CBuffer) : BufferOp ι → Prop
  | .append i bytes => (buffers i).CopySafe platform (UInt32.ofNat bytes.length)
  | .erase i size => ¬ (buffers i).Shifts size
  | .incCapacity i size => (buffers i).CopySafe platform size
  | .write _ _ => True
  | .reset _ => True
  | .assign i j => i ≠ j

end BufferOp

def Holds {ι : Type} (buffers : ι → CBuffer) (queues : ι → List UInt8) : Prop :=
  ∀ i, (buffers i).WellFormed ∧ (buffers i).bytes = queues i

theorem Holds.update {ι : Type} [DecidableEq ι] {buffers : ι → CBuffer} {queues : ι → List UInt8}
    (holds : Holds buffers queues) {i : ι} {b : CBuffer} {queue : List UInt8}
    (now : b.WellFormed ∧ b.bytes = queue) :
    Holds (Function.update buffers i b) (Function.update queues i queue) := by
  intro j
  by_cases same : j = i
  · subst same
    simpa using now
  · simpa [same] using holds j

theorem Holds.apply {ι : Type} [DecidableEq ι] {platform : Platform} {buffers : ι → CBuffer}
    {queues : ι → List UInt8} (holds : Holds buffers queues) {op : BufferOp ι}
    (small : op.Small buffers) (sound : op.Sound platform buffers) :
    Holds (op.apply platform buffers) (op.queue queues) := by
  have ofLength : ∀ {bytes : List UInt8}, bytes.length < 2 ^ 32 →
      (UInt32.ofNat bytes.length).toNat = bytes.length := fun less =>
    UInt32.toNat_ofNat_of_lt' less
  cases op with
  | append i bytes =>
      refine holds.update ?_
      have length := ofLength small.1
      obtain ⟨after, same⟩ := CBuffer.append_spec (holds i).1 length.le small.2 sound
      rw [length, List.take_length, (holds i).2] at same
      exact ⟨after, same⟩
  | erase i size =>
      refine holds.update ?_
      rw [← (holds i).2]
      exact CBuffer.erase_spec (holds i).1 sound
  | incCapacity i size =>
      have unchanged : BufferOp.queue queues (.incCapacity i size) =
          Function.update queues i (queues i) := (Function.update_eq_self i queues).symm
      rw [unchanged]
      refine holds.update ?_
      rw [← (holds i).2]
      obtain ⟨after, same, -⟩ := CBuffer.tryIncrement_spec (holds i).1 small sound
      exact ⟨after, same⟩
  | write i bytes =>
      refine holds.update ?_
      have length := ofLength (lt_of_le_of_lt small (UInt32.toNat_lt _))
      rw [← (holds i).2]
      exact CBuffer.write_spec (holds i).1 length.symm (length.le.trans small)
  | reset i => exact holds.update (CBuffer.reset_spec (holds i).1.block)
  | assign i j =>
      refine holds.update ?_
      rw [if_neg sound, ← (holds j).2]
      exact CBuffer.assign_spec platform (holds i).1 (holds j).1 small

theorem holds_start {ι : Type} [DecidableEq ι] (platform : Platform) {buffers : ι → CBuffer}
    (start : (bufferSystem platform ι).start buffers) : Holds buffers fun _ => [] := by
  intro i
  obtain ⟨blockSize, minBlock, positive, new⟩ := start i
  rw [new]
  exact CBuffer.reset_spec (b := ⟨blockSize, minBlock, none, 0, 0, 0⟩)
    (UInt32.le_iff_toNat_le.mp positive)

/-- In every run whose steps are sound, each buffer holds the bytes of its
reference queue between offsets that stay in order. -/
theorem buffers_hold_queues {ι : Type} [DecidableEq ι] (platform : Platform)
    {ops : List (BufferOp ι)} {buffers : ι → CBuffer}
    (run : ((bufferSystem platform ι).restrict fun before op =>
      op.Small before ∧ op.Sound platform before).Run ops buffers) (i : ι) :
    (buffers i).bytes = ops.foldl BufferOp.queue (fun _ => []) i ∧
      (buffers i).headOff ≤ (buffers i).tailOff ∧ (buffers i).tailOff ≤ (buffers i).capacity := by
  have holds : Holds buffers (ops.foldl BufferOp.queue fun _ => []) := by
    refine run.simulates Holds BufferOp.queue ?_ ?_
    · intro first start
      exact holds_start platform start
    · rintro before queues op after holds ⟨⟨small, sound⟩, rfl⟩
      exact holds.apply small sound
  obtain ⟨wf, same⟩ := holds i
  exact ⟨same, UInt32.le_iff_toNat_le.mpr wf.head, UInt32.le_iff_toNat_le.mpr wf.tail⟩

/-- A platform that clears new memory and copies like `memmove`. -/
def zeroing : Platform where
  fresh n := List.replicate n 0
  memcpy mem src n := Memory.move mem 0 src n
  length_fresh _ := List.length_replicate
  memcpy_apart _ _ _ _ := rfl

def fourByFour : Unit → CBuffer := fun _ => { blockSize := 4, minBlock := 4 }

theorem fourByFour_start (allowed : (Unit → CBuffer) → BufferOp Unit → Prop) :
    ((bufferSystem zeroing Unit).restrict allowed).Run [] fourByFour :=
  .start fun _ => ⟨4, 4, by decide, rfl⟩

/-- Erasing three of four bytes stays inside the first block. -/
theorem buffers_hold_queues_fourByFour :
    ((BufferOp.erase () 3).apply zeroing
      ((BufferOp.append () [1, 2, 3, 4]).apply zeroing fourByFour) ()).bytes = [4] := by
  have start := fourByFour_start fun before op => op.Small before ∧ op.Sound zeroing before
  have appended := start.restricted (.append () [1, 2, 3, 4])
    ⟨⟨by decide, by decide⟩, fun compacts => absurd compacts.2 (by decide)⟩ rfl
  have erased := appended.restricted (.erase () 3)
    ⟨trivial, fun shifts => absurd shifts.2.2 (by decide)⟩ rfl
  exact (buffers_hold_queues zeroing erased ()).1

/-- Erasing the first block of twelve bytes skips the second one as well. -/
theorem not_buffers_hold_queues :
    ¬ ∀ (platform : Platform) (ops : List (BufferOp Unit)) (buffers : Unit → CBuffer),
      ((bufferSystem platform Unit).restrict fun before op => op.Small before).Run ops buffers →
        (buffers ()).bytes = ops.foldl BufferOp.queue (fun _ => []) () := by
  intro always
  have start := fourByFour_start fun before op => op.Small before
  have appended := start.restricted (.append () [1, 2, 3, 4, 5, 6, 7, 8, 9, 10, 11, 12])
    ⟨by decide, by decide⟩ rfl
  have wrong := always _ _ _ (appended.restricted (.erase () 4) trivial rfl)
  revert wrong
  decide

end CLibs.Libevwork
