import Mathlib.Order.Interval.Finset.Nat

/-!
# Heap order with a hole

The order of a heap on any tree of positions, and what is left of it while one key is on
its way up or down: the hole is where that key would go, and what is stored there does
not matter.
-/

set_option autoImplicit false

namespace CLibs.General

/-- The positions of a heap: each one behind the root has its parent before it. -/
structure HeapShape where
  root : Nat
  parent : Nat → Nat
  root_le_parent : ∀ {k}, root < k → root ≤ parent k
  parent_lt : ∀ {k}, root < k → parent k < k

namespace HeapShape

variable {T : Type} [LinearOrder T] (shape : HeapShape)

/-- `c` is a child of `p`, and before `last`. -/
structure Child (last p c : Nat) : Prop where
  behind : shape.root < c
  inside : c < last
  parent_eq : shape.parent c = p

/-- Each key before `last` is not below that of its parent. -/
def Ordered (last : Nat) (key : Nat → T) : Prop :=
  ∀ k, shape.root < k → k < last → key (shape.parent k) ≤ key k

/-- The order without the pairs that the hole takes part in. The keys below the hole are
not below the one above it. -/
structure Holed (last : Nat) (key : Nat → T) (hole : Nat) : Prop where
  off : ∀ k, shape.root < k → k < last → k ≠ hole → shape.parent k ≠ hole →
    key (shape.parent k) ≤ key k
  across : shape.root < hole → ∀ c, shape.Child last hole c → key (shape.parent hole) ≤ key c

/-- The key `x` may have to go up from the hole, but not down. -/
structure Rising (last : Nat) (key : Nat → T) (hole : Nat) (x : T) : Prop
    extends shape.Holed last key hole where
  below : ∀ c, shape.Child last hole c → x ≤ key c

/-- The key `x` may have to go down from the hole, but not up. -/
structure Sinking (last : Nat) (key : Nat → T) (hole : Nat) (x : T) : Prop
    extends shape.Holed last key hole where
  above : shape.root < hole → key (shape.parent hole) ≤ x

variable {shape} {last hole : Nat} {key : Nat → T} {x : T}

theorem Child.lt {p c : Nat} (child : shape.Child last p c) : p < c :=
  child.parent_eq ▸ shape.parent_lt child.behind

theorem Ordered.shorter {fewer : Nat} (ordered : shape.Ordered last key) (less : fewer ≤ last) :
    shape.Ordered fewer key :=
  fun k behind inside => ordered k behind (inside.trans_le less)

theorem Ordered.root_le (ordered : shape.Ordered last key) {k : Nat} (from_root : shape.root ≤ k)
    (inside : k < last) : key shape.root ≤ key k := by
  induction k using Nat.strongRecOn with
  | _ k ih =>
      rcases from_root.eq_or_lt with rfl | behind
      · exact le_refl _
      · have less := shape.parent_lt behind
        exact (ih _ less (shape.root_le_parent behind) (less.trans inside)).trans
          (ordered k behind inside)

theorem Ordered.holed (ordered : shape.Ordered last key) (inside : hole < last) :
    shape.Holed last key hole where
  off k behind within _ _ := ordered k behind within
  across behind c child := by
    have upper := ordered c child.behind child.inside
    rw [child.parent_eq] at upper
    exact (ordered hole behind inside).trans upper

/-- What is stored in the hole does not matter. -/
theorem Holed.congr {other : Nat → T} (holed : shape.Holed last key hole)
    (same : ∀ k, k ≠ hole → other k = key k) : shape.Holed last other hole where
  off k behind inside off off' := by
    rw [same k off, same _ off']
    exact holed.off k behind inside off off'
  across behind c child := by
    rw [same _ (shape.parent_lt behind).ne, same c child.lt.ne']
    exact holed.across behind c child

/-- A new key behind all others can only go up. -/
theorem Ordered.rising_last (ordered : shape.Ordered last key) (x : T) :
    shape.Rising (last + 1) key last x where
  off k behind inside off _ := ordered k behind (by omega)
  across _ c child := absurd child.inside (by have := child.lt; omega)
  below c child := absurd child.inside (by have := child.lt; omega)

/-- A key that replaces another one goes up if it is not above the key of the parent. -/
theorem Holed.rising (holed : shape.Holed last key hole) (behind : shape.root < hole)
    (small : x ≤ key (shape.parent hole)) : shape.Rising last key hole x where
  toHoled := holed
  below c child := small.trans (holed.across behind c child)

theorem Holed.sinking (holed : shape.Holed last key hole)
    (large : shape.root < hole → key (shape.parent hole) ≤ x) : shape.Sinking last key hole x where
  toHoled := holed
  above := large

/-- One step up: the key of the parent comes down into the hole. -/
theorem Rising.up (rising : shape.Rising last key hole x) (behind : shape.root < hole)
    (inside : hole < last) (less : x ≤ key (shape.parent hole)) :
    shape.Rising last (Function.update key hole (key (shape.parent hole))) (shape.parent hole) x where
  off k behind' inside' off off' := by
    by_cases here : k = hole
    · exact absurd (congrArg shape.parent here) off'
    · rw [Function.update_of_ne here]
      by_cases under : shape.parent k = hole
      · rw [under, Function.update_self]
        exact rising.across behind k ⟨behind', inside', under⟩
      · rw [Function.update_of_ne under]
        exact rising.off k behind' inside' here under
  across above c child := by
    have further := shape.parent_lt above
    have less := shape.parent_lt behind
    rw [Function.update_of_ne (by omega : shape.parent (shape.parent hole) ≠ hole)]
    have grand := rising.off _ above (less.trans inside) less.ne (by omega)
    by_cases here : c = hole
    · rw [here, Function.update_self]
      exact grand
    · rw [Function.update_of_ne here]
      have uncle := rising.off c child.behind child.inside here (by rw [child.parent_eq]; omega)
      rw [child.parent_eq] at uncle
      exact grand.trans uncle
  below c child := by
    by_cases here : c = hole
    · rw [here, Function.update_self]
      exact less
    · rw [Function.update_of_ne here]
      have upper := shape.parent_lt behind
      have uncle := rising.off c child.behind child.inside here (by rw [child.parent_eq]; omega)
      rw [child.parent_eq] at uncle
      exact less.trans uncle

theorem Holed.filled (holed : shape.Holed last key hole)
    (above : shape.root < hole → key (shape.parent hole) ≤ x)
    (below : ∀ c, shape.Child last hole c → x ≤ key c) :
    shape.Ordered last (Function.update key hole x) := by
  intro k behind inside
  by_cases here : k = hole
  · subst here
    rw [Function.update_self, Function.update_of_ne (shape.parent_lt behind).ne]
    exact above behind
  · rw [Function.update_of_ne here]
    by_cases under : shape.parent k = hole
    · rw [under, Function.update_self]
      exact below k ⟨behind, inside, under⟩
    · rw [Function.update_of_ne under]
      exact holed.off k behind inside here under

theorem Rising.filled (rising : shape.Rising last key hole x)
    (above : shape.root < hole → key (shape.parent hole) ≤ x) :
    shape.Ordered last (Function.update key hole x) :=
  rising.toHoled.filled above rising.below

/-- One step down: the least key below the hole comes up into it. -/
theorem Sinking.down {c : Nat} (sinking : shape.Sinking last key hole x)
    (child : shape.Child last hole c) (least : ∀ d, shape.Child last hole d → key c ≤ key d)
    (less : key c ≤ x) : shape.Sinking last (Function.update key hole (key c)) c x where
  off k behind inside off off' := by
    by_cases here : k = hole
    · subst here
      rw [Function.update_self, Function.update_of_ne (shape.parent_lt behind).ne]
      exact sinking.across behind c child
    · rw [Function.update_of_ne here]
      by_cases under : shape.parent k = hole
      · rw [under, Function.update_self]
        exact least k ⟨behind, inside, under⟩
      · rw [Function.update_of_ne under]
        exact sinking.off k behind inside here under
  across _ d grandchild := by
    have lower := child.lt
    have further := grandchild.lt
    rw [child.parent_eq, Function.update_self, Function.update_of_ne (by omega : d ≠ hole)]
    have upper := sinking.off d grandchild.behind grandchild.inside (by omega)
      (by rw [grandchild.parent_eq]; omega)
    rwa [grandchild.parent_eq] at upper
  above _ := by
    rw [child.parent_eq, Function.update_self]
    exact less

theorem Sinking.filled (sinking : shape.Sinking last key hole x)
    (below : ∀ c, shape.Child last hole c → x ≤ key c) :
    shape.Ordered last (Function.update key hole x) :=
  sinking.toHoled.filled sinking.above below

end HeapShape

end CLibs.General
