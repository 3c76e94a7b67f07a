import CLibs.Libevwork.BufferRoom
import Mathlib.Data.List.Induction

/-!
# The lengths in a buffer

How many bytes a buffer holds, how many erased ones stand in front of them and how large its
block is, told from the calls alone. They say when `__try_increment` compacts a block onto
itself.
-/

set_option autoImplicit false

namespace CLibs.Libevwork

open General

/-- What the calls so far have made of the lengths in a buffer with blocks of `block` bytes. -/
structure Extent where
  block : Nat
  minBlock : Nat
  capacity : Nat := 0
  erased : Nat := 0
  held : Nat := 0

namespace Extent

def blocks (e : Extent) (size : Nat) : Nat :=
  max (size / e.block + if size % e.block > 0 then 1 else 0) e.minBlock

/-- Room for `n` more bytes: behind the held ones, in the block, or in a new block. -/
def require (e : Extent) (n : Nat) : Extent :=
  if e.erased + e.held + n ≤ e.capacity then e
  else if e.held + n ≤ e.capacity ∨ 2 ^ 32 ≤ e.held + n then { e with erased := 0 }
  else { e with capacity := e.block * e.blocks (e.held + n) % 2 ^ 32, erased := 0 }

theorem require_held (e : Extent) (n : Nat) : (e.require n).held = e.held := by
  unfold Extent.require
  split
  · rfl
  · split <;> rfl

def append (e : Extent) (n : Nat) : Extent :=
  if n = 0 then e else { e.require n with held := e.held + n }

def erase (e : Extent) (n : Nat) : Extent :=
  if n = 0 then e
  else if e.erased + min n e.held < e.block then
    { e with erased := e.erased + min n e.held, held := e.held - min n e.held }
  else { e with erased := 0, held := e.held - min n e.held }

def incSize (e : Extent) (n : Nat) : Extent :=
  { e with held := min ((e.erased + e.held + n) % 2 ^ 32) e.capacity - e.erased }

def reset (e : Extent) : Extent := { block := e.block, minBlock := e.minBlock }

/-- A request for `n` bytes is met by moving the held ones to the front of the block, and
they are more than the bytes that were erased there. -/
def Overlaps (e : Extent) (n : Nat) : Prop :=
  e.capacity < e.erased + e.held + n ∧ (e.held + n ≤ e.capacity ∨ 2 ^ 32 ≤ e.held + n) ∧
    e.erased < e.held

instance (e : Extent) (n : Nat) : Decidable (e.Overlaps n) :=
  inferInstanceAs (Decidable (_ < _ ∧ (_ ≤ _ ∨ _ ≤ _) ∧ _ < _))

end Extent

variable {ι : Type} [DecidableEq ι]

/-- What a call makes of the lengths. The sizes that are passed are words. -/
def BufferOp.extend (extents : ι → Extent) : BufferOp ι → ι → Extent
  | .append i bytes => Function.update extents i ((extents i).append (bytes.length % 2 ^ 32))
  | .erase i size => Function.update extents i ((extents i).erase size.toNat)
  | .incCapacity i size => Function.update extents i ((extents i).require size.toNat)
  | .write i bytes => Function.update extents i ((extents i).incSize (bytes.length % 2 ^ 32))
  | .reset i => Function.update extents i (extents i).reset
  | .assign i j => Function.update extents i
      ((extents i).reset.append (if i = j then 0 else (extents j).held))

/-- The lengths after calls on new buffers with these sizes of blocks. -/
def extentsAfter (sizes : ι → Nat × Nat) (ops : List (BufferOp ι)) : ι → Extent :=
  ops.foldl BufferOp.extend fun i => { block := (sizes i).1, minBlock := (sizes i).2 }

/-- The sizes of the blocks of a buffer. -/
def CBuffer.sizes (b : CBuffer) : Nat × Nat := (b.blockSize.toNat, b.minBlock.toNat)

/-- The lengths are those that the offsets of a buffer tell. -/
structure Tracks (b : CBuffer) (e : Extent) : Prop where
  ordered : b.Ordered
  block : e.block = b.blockSize.toNat
  minBlock : e.minBlock = b.minBlock.toNat
  capacity : e.capacity = b.capacity.toNat
  erased : e.erased = b.headOff.toNat
  tail : e.erased + e.held = b.tailOff.toNat

namespace Tracks

variable {b : CBuffer} {e : Extent}

theorem held (tracks : Tracks b e) : e.held = b.size.toNat := by
  have datasize := tracks.ordered.size_toNat
  have erased := tracks.erased
  have tail := tracks.tail
  omega

theorem blocks (tracks : Tracks b e) (size : Nat) : e.blocks size = b.blocks size := by
  rw [Extent.blocks, CBuffer.blocks, tracks.block, tracks.minBlock]

theorem require (platform : Platform) (tracks : Tracks b e) {size : UInt32} (keeps : b.Keeps size) :
    Tracks (b.__tryIncrement platform size) (e.require size.toNat) := by
  have after := CBuffer.tryIncrement_ordered platform tracks.ordered keeps
  have held := tracks.held
  have capacity := tracks.capacity
  have erased := tracks.erased
  have tail := tracks.tail
  have blocks := tracks.blocks
  have minBlock : (b.__tryIncrement platform size).minBlock = b.minBlock := by
    unfold CBuffer.__tryIncrement
    split
    · rfl
    · dsimp only
      split <;> rfl
  have small := b.capacity.toNat_lt
  have inside := tracks.ordered.tail
  unfold Extent.require
  obtain ⟨block, ⟨enough, same⟩ | ⟨short, -, inPlace, newHead, newTail, newCapacity⟩ |
    ⟨short, -, noWrap, larger, newHead, newTail, newCapacity⟩⟩ :=
      CBuffer.tryIncrement_cases platform tracks.ordered size
  · rw [if_pos (by omega), same]
    exact tracks
  · rw [if_neg (by omega), if_pos (by omega)]
    exact ⟨after, by rw [block]; exact tracks.block, by rw [minBlock]; exact tracks.minBlock,
      by rw [newCapacity]; exact capacity, by rw [newHead], by rw [newTail, ← held, Nat.zero_add]⟩
  · rw [if_neg (by omega), if_neg (by omega)]
    exact ⟨after, by rw [block]; exact tracks.block, by rw [minBlock]; exact tracks.minBlock,
      by rw [newCapacity, held, ← blocks, ← tracks.block], by rw [newHead],
      by rw [newTail, ← held, Nat.zero_add]⟩

theorem append (platform : Platform) (tracks : Tracks b e) {size : UInt32} (grows : b.CanGrow size)
    (data : List UInt8) : Tracks (b.append platform data size) (e.append size.toNat) := by
  have after := CBuffer.append_ordered platform tracks.ordered grows data
  unfold CBuffer.append Extent.append at *
  by_cases none : size = 0
  · have zero : size.toNat = 0 := by
      rw [none]
      rfl
    rw [if_pos none, if_pos zero]
    exact tracks
  · have some : size.toNat ≠ 0 := fun zero => none (UInt32.toNat_inj.mp zero)
    rw [if_neg none] at after ⊢
    rw [if_neg some]
    have required := tracks.require platform (grows.keeps tracks.ordered)
    obtain ⟨room, inside⟩ := (CBuffer.hasRoom_iff platform tracks.ordered size).mpr grows
    generalize b.__tryIncrement platform size = grown at required after room inside
    have small := grown.capacity.toNat_lt
    have tail := required.tail
    have held := e.require_held size.toNat
    have newTail : (grown.tailOff + size).toNat = grown.tailOff.toNat + size.toNat := by
      rw [UInt32.toNat_add]
      exact Nat.mod_eq_of_lt (by omega)
    refine ⟨after, required.block, required.minBlock, required.capacity, required.erased, ?_⟩
    change (e.require size.toNat).erased + (e.held + size.toNat) = (grown.tailOff + size).toNat
    omega

theorem erase (tracks : Tracks b e) (size : UInt32) :
    Tracks (b.erase size) (e.erase size.toNat) := by
  have after := CBuffer.erase_ordered tracks.ordered size
  unfold Extent.erase
  by_cases none : size = 0
  · have zero : size.toNat = 0 := by
      rw [none]
      rfl
    rw [if_pos zero, CBuffer.erase, if_pos none]
    exact tracks
  · have some : size.toNat ≠ 0 := fun zero => none (UInt32.toNat_inj.mp zero)
    rw [if_neg some]
    have held := tracks.held
    have erased := tracks.erased
    have tail := tracks.tail
    have block := tracks.block
    obtain ⟨taken, clamped, newHead, ⟨shifts, same⟩ | ⟨stays, same⟩⟩ :=
      CBuffer.erase_cases tracks.ordered none
    · rw [if_neg (by omega)]
      have left : (b.size - taken).toNat = b.size.toNat - taken.toNat :=
        UInt32.toNat_sub_of_le _ _ (UInt32.le_iff_toNat_le.mpr (by omega))
      refine ⟨after, ?_, ?_, ?_, ?_, ?_⟩
      · rw [same]
        exact tracks.block
      · rw [same]
        exact tracks.minBlock
      · rw [same]
        exact tracks.capacity
      · rw [same]
        rfl
      · rw [same]
        dsimp only
        omega
    · rw [if_pos (by omega)]
      refine ⟨after, ?_, ?_, ?_, ?_, ?_⟩
      · rw [same]
        exact tracks.block
      · rw [same]
        exact tracks.minBlock
      · rw [same]
        exact tracks.capacity
      · rw [same]
        dsimp only
        omega
      · rw [same]
        dsimp only
        omega

theorem incSize (tracks : Tracks b e) {size : UInt32} (onward : b.headOff ≤ b.tailOff + size) :
    Tracks (b.incSize size) (e.incSize size.toNat) := by
  have after := CBuffer.incSize_ordered tracks.ordered onward
  have tail := tracks.tail
  have erased := tracks.erased
  have capacity := tracks.capacity
  have head := tracks.ordered.head
  have inside := tracks.ordered.tail
  have sum : (b.tailOff + size).toNat = (e.erased + e.held + size.toNat) % 2 ^ 32 := by
    rw [UInt32.toNat_add, tail]
  rw [UInt32.le_iff_toNat_le] at onward
  refine ⟨after, tracks.block, tracks.minBlock, tracks.capacity, tracks.erased, ?_⟩
  unfold Extent.incSize CBuffer.incSize
  dsimp only
  split
  · next more =>
    rw [gt_iff_lt, UInt32.lt_iff_toNat_lt] at more
    omega
  · next within =>
    rw [gt_iff_lt, UInt32.lt_iff_toNat_lt] at within
    omega

theorem reset (tracks : Tracks b e) : Tracks b.__reset e.reset :=
  ⟨CBuffer.reset_ordered tracks.ordered.block, tracks.block, tracks.minBlock, rfl, rfl, rfl⟩

theorem overlaps_iff (tracks : Tracks b e) (size : UInt32) :
    (b.TakesCompaction size → b.size.toNat ≤ b.headOff.toNat) ↔ ¬ e.Overlaps size.toNat := by
  have ordered := tracks.ordered
  have head := ordered.head
  have tail := ordered.tail
  have capacityLt := b.capacity.toNat_lt
  have free := ordered.freesize_toNat
  have sizeLt := size.toNat_lt
  have held := tracks.held
  have erased := tracks.erased
  have capacity := tracks.capacity
  have whole := tracks.tail
  have takes : b.TakesCompaction size ↔ b.capacity.toNat < b.tailOff.toNat + size.toNat ∧
      (b.size.toNat + size.toNat) % 2 ^ 32 ≤ b.capacity.toNat := by
    unfold CBuffer.TakesCompaction
    rw [ge_iff_le, ge_iff_le, UInt32.le_iff_toNat_le, UInt32.le_iff_toNat_le,
      CBuffer.require_toNat]
    omega
  rw [takes]
  unfold Extent.Overlaps
  omega

end Tracks

theorem BufferOp.extend_tracks (platform : Platform) {buffers : ι → CBuffer} {extents : ι → Extent}
    (tracks : ∀ i, Tracks (buffers i) (extents i)) {op : BufferOp ι} (inside : op.Inside buffers)
    (i : ι) : Tracks (op.apply platform buffers i) (op.extend extents i) := by
  have update : ∀ {j : ι} {b : CBuffer} {e : Extent}, Tracks b e →
      Tracks (Function.update buffers j b i) (Function.update extents j e i) := by
    intro j b e after
    by_cases same : i = j
    · subst same
      simpa using after
    · simpa [same] using tracks i
  have word : ∀ bytes : List UInt8,
      bytes.length % 2 ^ 32 = (UInt32.ofNat bytes.length).toNat := fun _ => rfl
  cases op with
  | append j bytes =>
      rw [BufferOp.extend, word]
      exact update ((tracks j).append platform inside bytes)
  | erase j size => exact update ((tracks j).erase size)
  | incCapacity j size => exact update ((tracks j).require platform inside)
  | write j bytes =>
      have stored : Tracks ((buffers j).store 0 bytes) (extents j) := by
        have before := tracks j
        exact ⟨⟨before.ordered.block, before.ordered.head, before.ordered.tail⟩, before.block,
          before.minBlock, before.capacity, before.erased, before.tail⟩
      rw [BufferOp.extend, word]
      exact update (stored.incSize inside)
  | reset j => exact update (tracks j).reset
  | assign j k =>
      refine update ?_
      by_cases same : j = k
      · have none : (buffers j).__reset.size = 0 := by
          rw [CBuffer.size, CBuffer.__reset]
          exact UInt32.sub_self 0
        have grows : (buffers j).__reset.CanGrow 0 :=
          .inl (show (0 : UInt32).toNat + (0 : UInt32).toNat ≤ (0 : UInt32).toNat by decide)
        rw [if_pos same, if_pos same, CBuffer.assign, none]
        exact (tracks j).reset.append platform grows _
      · rw [if_neg same, if_neg same, (tracks k).held]
        exact (tracks j).reset.append platform (inside.resolve_left same) _

/-- No call changes the sizes of the blocks. -/
theorem extend_sizes (op : BufferOp ι) (extents : ι → Extent) (i : ι) :
    (op.extend extents i).block = (extents i).block ∧
      (op.extend extents i).minBlock = (extents i).minBlock := by
  have update : ∀ {j : ι} {e : Extent},
      e.block = (extents j).block ∧ e.minBlock = (extents j).minBlock →
        (Function.update extents j e i).block = (extents i).block ∧
          (Function.update extents j e i).minBlock = (extents i).minBlock := by
    intro j e kept
    by_cases same : i = j
    · subst same
      simpa using kept
    · simp [same]
  have require : ∀ (e : Extent) (n : Nat),
      (e.require n).block = e.block ∧ (e.require n).minBlock = e.minBlock := by
    intro e n
    unfold Extent.require
    split
    · exact ⟨rfl, rfl⟩
    · split <;> exact ⟨rfl, rfl⟩
  have append : ∀ (e : Extent) (n : Nat),
      (e.append n).block = e.block ∧ (e.append n).minBlock = e.minBlock := by
    intro e n
    unfold Extent.append
    split
    · exact ⟨rfl, rfl⟩
    · exact require e n
  cases op with
  | append j bytes => exact update (append _ _)
  | erase j size =>
      refine update ?_
      unfold Extent.erase
      split
      · exact ⟨rfl, rfl⟩
      · split <;> exact ⟨rfl, rfl⟩
  | incCapacity j size => exact update (require _ _)
  | write j bytes => exact update ⟨rfl, rfl⟩
  | reset j => exact update ⟨rfl, rfl⟩
  | assign j k => exact update (append (extents j).reset _)

theorem extentsAfter_sizes (sizes : ι → Nat × Nat) (ops : List (BufferOp ι)) (i : ι) :
    (extentsAfter sizes ops i).block = (sizes i).1 ∧
      (extentsAfter sizes ops i).minBlock = (sizes i).2 := by
  induction ops using List.reverseRecOn with
  | nil => exact ⟨rfl, rfl⟩
  | append_singleton ops op ih =>
      obtain ⟨block, minBlock⟩ := extend_sizes op (extentsAfter sizes ops) i
      rw [extentsAfter, List.foldl_append, List.foldl_cons, List.foldl_nil]
      exact ⟨block.trans ih.1, minBlock.trans ih.2⟩

/-- The offsets after any calls inside the block are those that the lengths tell. -/
theorem tracks_of_run {platform : Platform} {ops : List (BufferOp ι)} {buffers : ι → CBuffer}
    (run : ((bufferSystem platform ι).restrict BufferOp.Inside).Run ops buffers) (i : ι) :
    Tracks (buffers i) (extentsAfter (fun i => (buffers i).sizes) ops i) := by
  have tracks : ∃ sizes, ∀ i, Tracks (buffers i) (extentsAfter sizes ops i) := by
    induction run with
    | start first =>
        choose blockSize minBlock positive new using first
        refine ⟨fun i => ((blockSize i).toNat, (minBlock i).toNat), fun i => ?_⟩
        rw [new i]
        exact ⟨⟨UInt32.le_iff_toNat_le.mp (positive i), le_refl _, le_refl _⟩, rfl, rfl, rfl, rfl,
          rfl⟩
    | step _ taken ih =>
        obtain ⟨sizes, tracks⟩ := ih
        obtain ⟨inside, rfl⟩ := taken
        refine ⟨sizes, fun i => ?_⟩
        rw [extentsAfter, List.foldl_append, List.foldl_cons, List.foldl_nil]
        exact BufferOp.extend_tracks platform tracks inside i
  obtain ⟨sizes, tracks⟩ := tracks
  have same : sizes = fun i => (buffers i).sizes := by
    funext i
    obtain ⟨block, minBlock⟩ := extentsAfter_sizes sizes ops i
    exact Prod.ext (block.symm.trans (tracks i).block) (minBlock.symm.trans (tracks i).minBlock)
  rw [← same]
  exact tracks i

/-- In every state that calls inside the block reach, the in-place compaction of a request
copies between ranges that are apart, unless the calls have left more bytes than they erased
in front of them, and the request fits the block with the erased ones only. -/
theorem compaction_is_apart_iff (platform : Platform) {ops : List (BufferOp ι)}
    {buffers : ι → CBuffer}
    (run : ((bufferSystem platform ι).restrict BufferOp.Inside).Run ops buffers) (i : ι)
    (size : UInt32) :
    ((buffers i).TakesCompaction size → (buffers i).size.toNat ≤ (buffers i).headOff.toNat) ↔
      ¬ (extentsAfter (fun i => (buffers i).sizes) ops i).Overlaps size.toNat :=
  (tracks_of_run run i).overlaps_iff size

/-- One byte is left behind three erased ones when thirteen more do not fit at the end. -/
theorem compaction_is_apart_iff_fourByFour :
    let buffers := (BufferOp.erase () 3).apply zeroing
      ((BufferOp.append () [1, 2, 3, 4]).apply zeroing fourByFour)
    (buffers ()).TakesCompaction 13 → (buffers ()).size.toNat ≤ (buffers ()).headOff.toNat := by
  have start := fourByFour_start BufferOp.Inside
  have appended := start.restricted (.append () [1, 2, 3, 4])
    (show CBuffer.CanGrow _ _ by decide) rfl
  have erased := appended.restricted (.erase () 3) trivial rfl
  exact (compaction_is_apart_iff zeroing erased () 13).mpr (by decide)

/-- With one byte erased in front of fifteen, one more byte makes the fifteen move by one. -/
theorem not_compaction_is_apart :
    ¬ ∀ (platform : Platform) (ops : List (BufferOp Unit)) (buffers : Unit → CBuffer),
      (bufferSystem platform Unit).Run ops buffers → ∀ size : UInt32,
        (buffers ()).TakesCompaction size →
          (buffers ()).size.toNat ≤ (buffers ()).headOff.toNat := by
  intro always
  have start : (bufferSystem zeroing Unit).Run [] fourByFour :=
    .start fun _ => ⟨4, 4, by decide, rfl⟩
  have appended := @System.Run.step _ _ _ _
    (.append () [1, 2, 3, 4, 5, 6, 7, 8, 9, 10, 11, 12, 13, 14, 15, 16]) _ _ start rfl
  have erased := @System.Run.step _ _ _ _ (.erase () 1) _ _ appended rfl
  have apart := always zeroing _ _ erased 1
  exact absurd (apart (by decide)) (by decide)

end CLibs.Libevwork
