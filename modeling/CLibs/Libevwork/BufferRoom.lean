import CLibs.Libevwork.BufferProperties

/-!
# The room a buffer makes

Whether `__try_increment` makes the room it was asked for depends on the offsets alone. It
is decided for every state that calls can reach as long as they stay inside the allocated
block.
-/

set_option autoImplicit false
set_option linter.style.nameCheck false

namespace CLibs.Libevwork

open General

namespace CBuffer

/-- There is room for `size` bytes at `tail()`, inside the block. -/
def HasRoom (b : CBuffer) (size : UInt32) : Prop :=
  size.toNat ≤ b.capacity.toNat - b.tailOff.toNat ∧ b.tailOff.toNat ≤ b.capacity.toNat

/-- The free end is large enough; or the bytes and the new ones stay below 2^32 together,
and fit into the block, or into the new one whose size is a product modulo 2^32. -/
def CanGrow (b : CBuffer) (size : UInt32) : Prop :=
  b.tailOff.toNat + size.toNat ≤ b.capacity.toNat ∨
    b.size.toNat + size.toNat < 2 ^ 32 ∧
      (b.size.toNat + size.toNat ≤ b.capacity.toNat ∨
        b.size.toNat + size.toNat ≤
          b.blockSize.toNat * b.blocks (b.size.toNat + size.toNat) % 2 ^ 32)

instance (b : CBuffer) (size : UInt32) : Decidable (b.CanGrow size) :=
  inferInstanceAs (Decidable (_ ≤ _ ∨ _ < _ ∧ (_ ≤ _ ∨ _ ≤ _)))

/-- The tests with which `__try_increment` comes to its in-place compaction. -/
def TakesCompaction (b : CBuffer) (size : UInt32) : Prop :=
  ¬ b.freesize ≥ size ∧ b.capacity ≥ b.tailOff - b.headOff + size

instance (b : CBuffer) (size : UInt32) : Decidable (b.TakesCompaction size) :=
  inferInstanceAs (Decidable (¬ _ ≥ _ ∧ _ ≥ _))

theorem require_toNat (b : CBuffer) (size : UInt32) :
    (b.tailOff - b.headOff + size).toNat = (b.size.toNat + size.toNat) % 2 ^ 32 :=
  UInt32.toNat_add _ _

theorem tryIncrement_cases (platform : Platform) {b : CBuffer} (ordered : b.Ordered)
    (size : UInt32) :
    let after := b.__tryIncrement platform size
    after.blockSize = b.blockSize ∧
    (b.tailOff.toNat + size.toNat ≤ b.capacity.toNat ∧ after = b ∨
      b.capacity.toNat < b.tailOff.toNat + size.toNat ∧ b.TakesCompaction size ∧
        (b.size.toNat + size.toNat) % 2 ^ 32 ≤ b.capacity.toNat ∧ after.headOff.toNat = 0 ∧
        after.tailOff.toNat = b.size.toNat ∧ after.capacity = b.capacity ∨
      b.capacity.toNat < b.tailOff.toNat + size.toNat ∧ ¬ b.TakesCompaction size ∧
        b.size.toNat + size.toNat < 2 ^ 32 ∧ b.capacity.toNat < b.size.toNat + size.toNat ∧
        after.headOff.toNat = 0 ∧ after.tailOff.toNat = b.size.toNat ∧
        after.capacity.toNat =
          b.blockSize.toNat * b.blocks (b.size.toNat + size.toNat) % 2 ^ 32) := by
  have datasize := ordered.size_toNat
  have free := ordered.freesize_toNat
  have head := ordered.head
  have tail := ordered.tail
  have capacityLt := b.capacity.toNat_lt
  have sizeLt := size.toNat_lt
  unfold TakesCompaction __tryIncrement
  by_cases enough : b.freesize ≥ size
  · rw [if_pos enough]
    rw [ge_iff_le, UInt32.le_iff_toNat_le] at enough
    exact ⟨rfl, .inl ⟨by omega, rfl⟩⟩
  · rw [if_neg enough]
    have short : b.capacity.toNat < b.tailOff.toNat + size.toNat := by
      rw [ge_iff_le, UInt32.le_iff_toNat_le] at enough
      omega
    dsimp only
    by_cases inPlace : b.capacity ≥ b.tailOff - b.headOff + size
    · rw [if_pos inPlace]
      refine ⟨rfl, .inr (.inl ⟨short, ⟨enough, inPlace⟩, ?_, rfl, rfl, rfl⟩)⟩
      rwa [ge_iff_le, UInt32.le_iff_toNat_le, require_toNat] at inPlace
    · rw [if_neg inPlace]
      have larger : b.capacity.toNat < (b.size.toNat + size.toNat) % 2 ^ 32 := by
        rw [ge_iff_le, UInt32.le_iff_toNat_le, require_toNat] at inPlace
        omega
      -- a sum that wraps is below the bytes that are there
      have noWrap : b.size.toNat + size.toNat < 2 ^ 32 := by omega
      refine ⟨rfl, .inr (.inr ⟨short, fun both => inPlace both.2, noWrap, ?_, rfl, rfl, ?_⟩)⟩
      · rwa [Nat.mod_eq_of_lt noWrap] at larger
      · rw [calcCapacity_toNat b ordered.block, require_toNat, Nat.mod_eq_of_lt noWrap]

theorem hasRoom_iff (platform : Platform) {b : CBuffer} (ordered : b.Ordered) (size : UInt32) :
    (b.__tryIncrement platform size).HasRoom size ↔ b.CanGrow size := by
  have head := ordered.head
  have tail := ordered.tail
  have capacityLt := b.capacity.toNat_lt
  obtain ⟨-, ⟨enough, same⟩ | ⟨short, -, inPlace, -, newTail, capacity⟩ |
    ⟨short, -, noWrap, larger, -, newTail, capacity⟩⟩ := tryIncrement_cases platform ordered size
  · rw [same]
    exact iff_of_true ⟨by omega, tail⟩ (.inl enough)
  · unfold HasRoom CanGrow
    rw [newTail, capacity]
    -- the sum either wraps, and then it is larger than any block, or fits where it is
    omega
  · unfold HasRoom CanGrow
    rw [newTail, capacity]
    omega

/-- The bytes that are there fit into the new block, if one is allocated. -/
def Keeps (b : CBuffer) (size : UInt32) : Prop :=
  b.capacity.toNat < b.size.toNat + size.toNat → b.size.toNat + size.toNat < 2 ^ 32 →
    b.size.toNat ≤ b.blockSize.toNat * b.blocks (b.size.toNat + size.toNat) % 2 ^ 32

theorem CanGrow.keeps {b : CBuffer} (ordered : b.Ordered) {size : UInt32} (grows : b.CanGrow size) :
    b.Keeps size := by
  have datasize := ordered.size_toNat
  unfold CanGrow at grows
  unfold Keeps
  omega

/-! ## Offsets stay in order -/

theorem tryIncrement_ordered (platform : Platform) {b : CBuffer} (ordered : b.Ordered)
    {size : UInt32} (keeps : b.Keeps size) : (b.__tryIncrement platform size).Ordered := by
  have datasize := ordered.size_toNat
  have tail := ordered.tail
  obtain ⟨block, ⟨-, same⟩ | ⟨-, -, -, newHead, newTail, capacity⟩ |
    ⟨-, -, noWrap, larger, newHead, newTail, capacity⟩⟩ := tryIncrement_cases platform ordered size
  · rw [same]
    exact ordered
  · refine ⟨block ▸ ordered.block, by omega, ?_⟩
    rw [newTail, capacity]
    omega
  · refine ⟨block ▸ ordered.block, by omega, ?_⟩
    rw [newTail, capacity]
    exact keeps larger noWrap

theorem append_ordered (platform : Platform) {b : CBuffer} (ordered : b.Ordered) {size : UInt32}
    (grows : b.CanGrow size) (data : List UInt8) : (b.append platform data size).Ordered := by
  unfold append
  split
  · exact ordered
  · have after := tryIncrement_ordered platform ordered (grows.keeps ordered)
    obtain ⟨room, -⟩ := (hasRoom_iff platform ordered size).mpr grows
    generalize b.__tryIncrement platform size = grown at after room
    have head := after.head
    have tail := after.tail
    have small := grown.capacity.toNat_lt
    have newTail : (grown.tailOff + size).toNat = grown.tailOff.toNat + size.toNat := by
      rw [UInt32.toNat_add]
      exact Nat.mod_eq_of_lt (by omega)
    refine ⟨after.block, ?_, ?_⟩
    · change grown.headOff.toNat ≤ (grown.tailOff + size).toNat
      omega
    · change (grown.tailOff + size).toNat ≤ grown.capacity.toNat
      omega

theorem erase_ordered {b : CBuffer} (ordered : b.Ordered) (size : UInt32) :
    (b.erase size).Ordered := by
  by_cases some : size = 0
  · rw [erase, if_pos some]
    exact ordered
  · have datasize := ordered.size_toNat
    have tail := ordered.tail
    have head := ordered.head
    obtain ⟨taken, clamped, newHead, ⟨-, same⟩ | ⟨-, same⟩⟩ := erase_cases ordered some
    · rw [same]
      have left : (b.size - taken).toNat = b.size.toNat - taken.toNat :=
        UInt32.toNat_sub_of_le _ _ (UInt32.le_iff_toNat_le.mpr (by omega))
      refine ⟨ordered.block, Nat.zero_le _, ?_⟩
      change (b.size - taken).toNat ≤ b.capacity.toNat
      omega
    · rw [same]
      refine ⟨ordered.block, ?_, tail⟩
      change (b.headOff + taken).toNat ≤ b.tailOff.toNat
      omega

theorem incSize_ordered {b : CBuffer} (ordered : b.Ordered) {size : UInt32}
    (onward : b.headOff ≤ b.tailOff + size) : (b.incSize size).Ordered := by
  have head := ordered.head
  have tail := ordered.tail
  rw [UInt32.le_iff_toNat_le] at onward
  unfold incSize
  dsimp only
  split
  · exact ⟨ordered.block, le_trans head tail, le_refl _⟩
  · next within =>
    rw [gt_iff_lt, UInt32.lt_iff_toNat_lt] at within
    exact ⟨ordered.block, onward, not_lt.mp within⟩

theorem reset_ordered {b : CBuffer} (block : 1 ≤ b.blockSize.toNat) : b.__reset.Ordered :=
  ⟨block, le_refl _, le_refl _⟩

end CBuffer

/-! ## Calls that stay inside the block -/

namespace BufferOp

variable {ι : Type} [DecidableEq ι]

/-- The call writes inside the block and does not move the tail before the head. -/
def Inside (buffers : ι → CBuffer) : BufferOp ι → Prop
  | .append i bytes => (buffers i).CanGrow (UInt32.ofNat bytes.length)
  | .erase _ _ => True
  | .incCapacity i size => (buffers i).Keeps size
  | .write i bytes => (buffers i).headOff ≤ (buffers i).tailOff + UInt32.ofNat bytes.length
  | .reset _ => True
  | .assign i j => i = j ∨ (buffers i).__reset.CanGrow (buffers j).size

theorem apply_ordered (platform : Platform) {buffers : ι → CBuffer}
    (ordered : ∀ i, (buffers i).Ordered) {op : BufferOp ι} (inside : op.Inside buffers) (i : ι) :
    (op.apply platform buffers i).Ordered := by
  have update : ∀ {j : ι} {b : CBuffer}, b.Ordered → (Function.update buffers j b i).Ordered := by
    intro j b after
    by_cases same : i = j
    · subst same
      simpa using after
    · simpa [same] using ordered i
  cases op with
  | append j bytes => exact update (CBuffer.append_ordered platform (ordered j) inside bytes)
  | erase j size => exact update (CBuffer.erase_ordered (ordered j) size)
  | incCapacity j size => exact update (CBuffer.tryIncrement_ordered platform (ordered j) inside)
  | write j bytes =>
      have stored : ((buffers j).store 0 bytes).Ordered :=
        ⟨(ordered j).block, (ordered j).head, (ordered j).tail⟩
      exact update (CBuffer.incSize_ordered stored inside)
  | reset j => exact update (CBuffer.reset_ordered (ordered j).block)
  | assign j k =>
      refine update (CBuffer.append_ordered platform (CBuffer.reset_ordered (ordered j).block) ?_ _)
      have none : (buffers j).__reset.CanGrow (buffers j).__reset.size :=
        .inl (show (0 : UInt32).toNat + (0 - 0 : UInt32).toNat ≤ (0 : UInt32).toNat by decide)
      rcases inside with rfl | grows
      · rw [if_pos rfl]
        exact none
      · split
        · exact none
        · exact grows

end BufferOp

variable {ι : Type} [DecidableEq ι]

theorem ordered_of_run {platform : Platform} {ops : List (BufferOp ι)} {buffers : ι → CBuffer}
    (run : ((bufferSystem platform ι).restrict BufferOp.Inside).Run ops buffers) (i : ι) :
    (buffers i).Ordered := by
  refine run.invariant (fun buffers => ∀ i, (buffers i).Ordered) ?_ ?_ i
  · intro first start i
    obtain ⟨blockSize, minBlock, positive, new⟩ := start i
    rw [new]
    exact ⟨UInt32.le_iff_toNat_le.mp positive, le_refl _, le_refl _⟩
  · rintro before op after ordered ⟨inside, rfl⟩ i
    exact op.apply_ordered platform ordered inside i

/-- In every state that calls inside the block reach, `__try_increment` makes the room
it is asked for just when the free end is large enough, or the bytes and the new ones
fit together into 32 bits and into a block whose size does not wrap below them. -/
theorem tryIncrement_makes_room_iff (platform : Platform) {ops : List (BufferOp ι)}
    {buffers : ι → CBuffer}
    (run : ((bufferSystem platform ι).restrict BufferOp.Inside).Run ops buffers) (i : ι)
    (size : UInt32) :
    ((buffers i).__tryIncrement platform size).HasRoom size ↔ (buffers i).CanGrow size :=
  CBuffer.hasRoom_iff platform (ordered_of_run run i) size

theorem tryIncrement_makes_room_iff_fourByFour :
    ((fourByFour ()).__tryIncrement zeroing 5).HasRoom 5 :=
  (tryIncrement_makes_room_iff zeroing (fourByFour_start _) () 5).mpr (by decide)

/-- The blocks that `pb::Sender` asks for. -/
def pages : Unit → CBuffer := fun _ => { blockSize := 4096, minBlock := 0 }

/-- Rounding the largest size up to a page gives 2^32, which is 0. -/
theorem not_tryIncrement_makes_room :
    ¬ ∀ (platform : Platform) (ops : List (BufferOp Unit)) (buffers : Unit → CBuffer),
      (bufferSystem platform Unit).Run ops buffers → ∀ size : UInt32,
        ((buffers ()).__tryIncrement platform size).HasRoom size := by
  intro always
  have start : (bufferSystem zeroing Unit).Run [] pages := .start fun _ => ⟨4096, 0, by decide, rfl⟩
  have room := always zeroing [] pages start 4294967295
  have ordered : (pages ()).Ordered := ⟨by decide, le_refl _, le_refl _⟩
  exact absurd ((CBuffer.hasRoom_iff zeroing ordered _).mp room) (by decide)

end CLibs.Libevwork
