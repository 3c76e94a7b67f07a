import Mathlib.Tactic

/-!
# Numbers on a circle

32-bit numbers that overflow, compared by the sign of their difference. The comparison is
not transitive; within half of the circle it is the order of the distances from where the
half begins, wherever that is.
-/

set_option autoImplicit false

namespace CLibs.General

/-- How far `x` is ahead of `b`, going up and around. -/
def distance (b x : UInt32) : Nat := (x - b).toNat

/-- `x` is in the half of the circle that begins at `b`. -/
def InWindow (b x : UInt32) : Prop := distance b x < 2 ^ 31

instance (b x : UInt32) : Decidable (InWindow b x) := Nat.decLt _ _

/-- The difference of `x` and `y` is negative as a signed number. -/
def Behind (x y : UInt32) : Prop := (x - y).toInt32 < 0

instance (x y : UInt32) : Decidable (Behind x y) := inferInstanceAs (Decidable (_ < _))

theorem behind_iff_toNat (x y : UInt32) : Behind x y ↔ 2 ^ 31 ≤ (x - y).toNat := by
  have sign : (x - y).toInt32.toInt = ((x - y).toNat : Int).bmod (2 ^ 32) :=
    BitVec.toInt_eq_toNat_bmod _
  have bound := (x - y).toNat_lt
  rw [Behind, Int32.lt_iff_toInt_lt, sign, Int32.toInt_zero, Int.bmod_def]
  split
  · omega
  · omega

theorem toNat_sub_distance (b x y : UInt32) :
    (x - y).toNat = (2 ^ 32 - distance b y + distance b x) % 2 ^ 32 := by
  have same : x - y = (x - b) - (y - b) := by grind
  rw [same, UInt32.toNat_sub]
  rfl

/-- Within a window the comparison is the order of the distances. -/
theorem behind_iff_distance_lt {b x y : UInt32} (inside : InWindow b x) (inside' : InWindow b y) :
    Behind x y ↔ distance b x < distance b y := by
  have near : distance b x < 2 ^ 31 := inside
  have near' : distance b y < 2 ^ 31 := inside'
  rw [behind_iff_toNat, toNat_sub_distance b]
  omega

theorem not_behind_iff_distance_le {b x y : UInt32} (inside : InWindow b x)
    (inside' : InWindow b y) : ¬ Behind x y ↔ distance b y ≤ distance b x := by
  rw [behind_iff_distance_lt inside inside', Nat.not_lt]

end CLibs.General
