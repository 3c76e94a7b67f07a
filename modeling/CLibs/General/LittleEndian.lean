import Mathlib.Data.Nat.Basic
import Mathlib.Tactic.Ring

/-!
# Little-endian numbers

The bytes of a number, least significant first, and back.
-/

set_option autoImplicit false

namespace CLibs.General.LittleEndian

/-- The lowest `count` bytes of a number. -/
def encode : Nat → Nat → List UInt8
  | 0, _ => []
  | count + 1, number => UInt8.ofNat number :: encode count (number / 256)

def decode : List UInt8 → Nat
  | [] => 0
  | byte :: rest => byte.toNat + 256 * decode rest

@[simp] theorem length_encode (count number : Nat) : (encode count number).length = count := by
  induction count generalizing number with
  | zero => rfl
  | succ count ih => rw [encode, List.length_cons, ih]

theorem decode_lt (bytes : List UInt8) : decode bytes < 256 ^ bytes.length := by
  induction bytes with
  | nil => exact Nat.one_pos
  | cons byte rest ih =>
      have small : byte.toNat < 256 := byte.toNat_lt
      rw [decode, List.length_cons, Nat.pow_succ]
      omega

theorem decode_encode {count number : Nat} (fits : number < 256 ^ count) :
    decode (encode count number) = number := by
  induction count generalizing number with
  | zero =>
      rw [Nat.pow_zero, Nat.lt_one_iff] at fits
      rw [fits]
      rfl
  | succ count ih =>
      have fewer : number / 256 < 256 ^ count :=
        Nat.div_lt_of_lt_mul (by rwa [Nat.pow_succ, Nat.mul_comm] at fits)
      rw [encode, decode, ih fewer, UInt8.toNat_ofNat']
      exact Nat.mod_add_div number 256

theorem encode_decode (bytes : List UInt8) : encode bytes.length (decode bytes) = bytes := by
  induction bytes with
  | nil => rfl
  | cons byte rest ih =>
      have small : byte.toNat < 256 := byte.toNat_lt
      have low : UInt8.ofNat (byte.toNat + 256 * decode rest) = byte := by
        refine UInt8.toNat_inj.mp ?_
        rw [UInt8.toNat_ofNat']
        omega
      have high : (byte.toNat + 256 * decode rest) / 256 = decode rest := by omega
      rw [decode, List.length_cons, encode, low, high, ih]

end CLibs.General.LittleEndian
