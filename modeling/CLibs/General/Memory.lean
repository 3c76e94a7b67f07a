import Mathlib.Data.List.Basic

/-!
# Blocks of memory

A block is the list of its cells. Reading and writing a range, and what a read
sees after a write. A range that reaches past the end of the block is cut off
there.
-/

set_option autoImplicit false

namespace CLibs.General.Memory

variable {α : Type*}

/-- The `n` cells from `off` on. -/
def read (mem : List α) (off n : Nat) : List α := (mem.drop off).take n

/-- The block after `cells` were stored from `off` on. -/
def write (mem : List α) (off : Nat) (cells : List α) : List α :=
  mem.take off ++ cells ++ mem.drop (off + cells.length)

/-- Copying a range to another place; the two may overlap. -/
def move (mem : List α) (dst src n : Nat) : List α := write mem dst (read mem src n)

@[simp] theorem read_zero (mem : List α) (off : Nat) : read mem off 0 = [] := by
  simp [read]

@[simp] theorem write_nil (mem : List α) (off : Nat) : write mem off [] = mem := by
  simp [write]

theorem length_read {mem : List α} {off n : Nat} (room : off + n ≤ mem.length) :
    (read mem off n).length = n := by
  simp only [read, List.length_take, List.length_drop]
  omega

theorem length_write {mem cells : List α} {off : Nat} (room : off + cells.length ≤ mem.length) :
    (write mem off cells).length = mem.length := by
  simp only [write, List.length_append, List.length_take, List.length_drop]
  omega

theorem read_read {mem : List α} {off n inner m : Nat} (room : inner + m ≤ n) :
    read (read mem off n) inner m = read mem (off + inner) m := by
  simp only [read, List.drop_take, List.drop_drop, List.take_take]
  congr 1
  omega

theorem drop_read (mem : List α) (off n k : Nat) :
    (read mem off n).drop k = read mem (off + k) (n - k) := by
  simp only [read, List.drop_take, List.drop_drop]

theorem read_add (mem : List α) (off n m : Nat) :
    read mem off (n + m) = read mem off n ++ read mem (off + n) m := by
  simp only [read, List.take_add, List.drop_drop]

theorem read_write {mem cells : List α} {off : Nat} (room : off + cells.length ≤ mem.length) :
    read (write mem off cells) off cells.length = cells := by
  have before : (mem.take off).length = off := by
    rw [List.length_take]
    omega
  simp only [read, write]
  rw [List.append_assoc, List.drop_append_of_le_length (Nat.le_of_eq before.symm), List.drop_of_length_le (Nat.le_of_eq before),
    List.nil_append, List.take_append_of_le_length (Nat.le_refl _), List.take_length]

theorem read_write_before {mem cells : List α} {off start n : Nat} (apart : start + n ≤ off)
    (room : off + cells.length ≤ mem.length) :
    read (write mem off cells) start n = read mem start n := by
  have before : (mem.take off).length = off := by
    rw [List.length_take]
    omega
  simp only [read, write]
  rw [List.append_assoc, List.drop_append_of_le_length (by omega),
    List.take_append_of_le_length (by rw [List.length_drop]; omega), List.drop_take,
    List.take_take]
  congr 1
  omega

theorem read_write_extend {mem cells : List α} {start n : Nat}
    (room : start + n + cells.length ≤ mem.length) :
    read (write mem (start + n) cells) start (n + cells.length) = read mem start n ++ cells := by
  rw [read_add, read_write_before (Nat.le_refl _) room, read_write room]

theorem write_write {mem : List α} (first second : List α) {off : Nat} (room : off ≤ mem.length) :
    write (write mem off first) (off + first.length) second = write mem off (first ++ second) := by
  have before : (mem.take off ++ first).length = off + first.length := by
    rw [List.length_append, List.length_take]
    omega
  simp only [write]
  rw [List.take_append_of_le_length (Nat.le_of_eq before.symm), ← before, List.take_length,
    ← List.drop_drop, List.drop_left, List.drop_drop, before, List.length_append]
  simp only [List.append_assoc, Nat.add_assoc]

end CLibs.General.Memory
