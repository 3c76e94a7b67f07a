import Mathlib.Logic.Function.Iterate
import Mathlib.Tactic.Ring

/-!
# The reflected shift register

A register of any width that takes in a message bit by bit, the lowest bit first. Shifting is
linear in exclusive or, so that a table with what becomes of every low part does several
shifts at once.
-/

set_option autoImplicit false

namespace CLibs.General.ShiftRegister

variable {w : Nat} (poly : BitVec w)

/-- One shift; the polynomial comes in when a bit falls out. -/
def shift (c : BitVec w) : BitVec w := if c.getLsbD 0 then (c >>> 1) ^^^ poly else c >>> 1

def feedBit (c : BitVec w) (b : Bool) : BitVec w :=
  if c.getLsbD 0 ^^ b then (c >>> 1) ^^^ poly else c >>> 1

/-- The lowest `k` bits of `v`, the lowest one first. -/
def lowBits : Nat → BitVec w → List Bool
  | 0, _ => []
  | k + 1, v => v.getLsbD 0 :: lowBits k (v >>> 1)

theorem xor_right_comm (a b c : BitVec w) : a ^^^ b ^^^ c = a ^^^ c ^^^ b := by
  rw [BitVec.xor_assoc, BitVec.xor_comm b c, ← BitVec.xor_assoc]

theorem shift_xor (a b : BitVec w) : shift poly (a ^^^ b) = shift poly a ^^^ shift poly b := by
  simp only [shift, BitVec.getLsbD_xor, BitVec.ushiftRight_xor_distrib]
  cases a.getLsbD 0 with
  | false =>
    cases b.getLsbD 0 with
    | false => rfl
    | true => exact BitVec.xor_assoc _ _ _
  | true =>
    cases b.getLsbD 0 with
    | false => exact xor_right_comm _ _ _
    | true =>
      have cancel : a >>> 1 ^^^ poly ^^^ (b >>> 1 ^^^ poly) = a >>> 1 ^^^ b >>> 1 := by
        rw [xor_right_comm, ← BitVec.xor_assoc, BitVec.xor_assoc _ poly poly,
          BitVec.xor_self, BitVec.xor_zero]
      exact cancel.symm

theorem iterate_shift_xor (k : Nat) (a b : BitVec w) :
    (shift poly)^[k] (a ^^^ b) = (shift poly)^[k] a ^^^ (shift poly)^[k] b := by
  induction k generalizing a b with
  | zero => rfl
  | succ k ih => rw [Function.iterate_succ_apply, shift_xor, ih]; rfl

/-- Bits that are clear only move down. -/
theorem iterate_shift_clear {k : Nat} {v : BitVec w} (clear : ∀ i < k, v.getLsbD i = false) :
    (shift poly)^[k] v = v >>> k := by
  induction k generalizing v with
  | zero => simp
  | succ k ih =>
    have first : shift poly v = v >>> 1 := by
      rw [shift, clear 0 (by omega)]
      rfl
    rw [Function.iterate_succ_apply, first, ih fun i below => ?_]
    · rw [← BitVec.shiftRight_add, Nat.add_comm]
    · rw [BitVec.getLsbD_ushiftRight]
      exact clear (1 + i) (by omega)

/-- What becomes of the lowest `k` bits, and the rest of the register moved down. -/
theorem iterate_shift_split (k : Nat) (x : BitVec w) :
    (shift poly)^[k] x = (shift poly)^[k] (BitVec.ofNat w (x.toNat % 2 ^ k)) ^^^ (x >>> k) := by
  have low : BitVec.ofNat w (x.toNat % 2 ^ k) ^^^ ((x >>> k) <<< k) = x := by
    refine BitVec.eq_of_getLsbD_eq fun i inside => ?_
    rw [BitVec.getLsbD_xor, BitVec.getLsbD_ofNat, Nat.testBit_mod_two_pow, BitVec.getLsbD_shiftLeft,
      BitVec.getLsbD_ushiftRight, BitVec.testBit_toNat]
    by_cases below : i < k
    · simp [inside, below]
    · rw [Nat.add_sub_cancel' (by omega)]
      simp [inside, below]
  have high : (shift poly)^[k] ((x >>> k) <<< k) = x >>> k := by
    rw [iterate_shift_clear poly fun i below => by simp [BitVec.getLsbD_shiftLeft, below]]
    refine BitVec.eq_of_getLsbD_eq fun i _ => ?_
    rw [BitVec.getLsbD_ushiftRight, BitVec.getLsbD_shiftLeft, BitVec.getLsbD_ushiftRight]
    by_cases inside : k + i < w
    · simp [inside]
    · simp [inside, BitVec.getLsbD_of_ge x (k + i) (by omega)]
  rw [← high, ← iterate_shift_xor, low]

theorem foldl_feedBit {k : Nat} {v : BitVec w} (c : BitVec w) (short : v >>> k = 0) :
    (lowBits k v).foldl (feedBit poly) c = (shift poly)^[k] (c ^^^ v) := by
  induction k generalizing c v with
  | zero =>
    rw [BitVec.ushiftRight_zero] at short
    rw [short]
    exact BitVec.xor_zero.symm
  | succ k ih =>
    have step : feedBit poly c (v.getLsbD 0) ^^^ (v >>> 1) = shift poly (c ^^^ v) := by
      rw [feedBit, shift, BitVec.getLsbD_xor, BitVec.ushiftRight_xor_distrib]
      split
      · exact xor_right_comm _ _ _
      · rfl
    rw [lowBits, List.foldl_cons, ih _ ?_, step]
    · rfl
    · rw [← BitVec.shiftRight_add, Nat.add_comm]
      exact short

/-- A table of `k` shifts does `k` bits of the message at once. -/
theorem foldl_feedBit_table {k : Nat} {v : BitVec w} (table : Nat → BitVec w)
    (entries : ∀ i < 2 ^ k, table i = (shift poly)^[k] (BitVec.ofNat w i)) (c : BitVec w)
    (short : v >>> k = 0) :
    (lowBits k v).foldl (feedBit poly) c = table ((c ^^^ v).toNat % 2 ^ k) ^^^ (c >>> k) := by
  rw [foldl_feedBit poly c short, iterate_shift_split, entries _ (Nat.mod_lt _ (Nat.two_pow_pos k)),
    BitVec.ushiftRight_xor_distrib, short]
  exact congrArg _ BitVec.xor_zero

theorem lowBits_add (j k : Nat) (v : BitVec w) :
    lowBits (j + k) v = lowBits j v ++ lowBits k (v >>> j) := by
  induction j generalizing v with
  | zero => rw [Nat.zero_add, BitVec.ushiftRight_zero]; rfl
  | succ j ih =>
    rw [Nat.add_right_comm, lowBits, ih, ← BitVec.shiftRight_add, Nat.add_comm 1 j]
    rfl

theorem lowBits_congr {w' k : Nat} {u : BitVec w} {v : BitVec w'}
    (same : ∀ i < k, u.getLsbD i = v.getLsbD i) : lowBits k u = lowBits k v := by
  induction k generalizing u v with
  | zero => rfl
  | succ k ih =>
    rw [lowBits, lowBits, same 0 (by omega), ih fun i below => ?_]
    rw [BitVec.getLsbD_ushiftRight, BitVec.getLsbD_ushiftRight]
    exact same (1 + i) (by omega)

end CLibs.General.ShiftRegister
