import Mathlib.Logic.Basic

/-!
# Functions with fuel

A function that fails when it runs out of fuel. More fuel changes no result, so that
the function has one result for all sufficient fuel.
-/

set_option autoImplicit false

namespace CLibs.General

variable {α β : Type}

/-- The second computation has the result of the first, if there is one. -/
def Extends (first second : Option α) : Prop :=
  ∀ result, first = some result → second = some result

namespace Extends

theorem refl (x : Option α) : Extends x x := fun _ found => found

theorem failed (x : Option α) : Extends none x := fun _ wrong => nomatch wrong

theorem bind {first second : Option α} {f g : α → Option β} (head : Extends first second)
    (tail : ∀ x, Extends (f x) (g x)) : Extends (first.bind f) (second.bind g) := by
  intro result found
  obtain ⟨x, run, rest⟩ := Option.bind_eq_some_iff.mp found
  exact Option.bind_eq_some_iff.mpr ⟨x, head x run, tail x result rest⟩

theorem bind_right (x : Option α) {f g : α → Option β} (tail : ∀ y, Extends (f y) (g y)) :
    Extends (x.bind f) (x.bind g) :=
  (refl x).bind tail

theorem ite {condition : Prop} [Decidable condition] {first second first' second' : Option α}
    (yes : Extends first first') (no : Extends second second') :
    Extends (if condition then first else second) (if condition then first' else second') := by
  split
  · exact yes
  · exact no

end Extends

/-- The function has this result, whatever the fuel is as long as it is enough. -/
def Returns (f : Nat → Option α) (result : α) : Prop :=
  ∃ enough, ∀ fuel, enough ≤ fuel → f fuel = some result

theorem Returns.of_extends {f : Nat → Option α} {fuel : Nat} {result : α}
    (more : ∀ fuel, Extends (f fuel) (f (fuel + 1))) (found : f fuel = some result) :
    Returns f result := by
  refine ⟨fuel, fun larger enough => ?_⟩
  induction enough with
  | refl => exact found
  | step _ ih => exact more _ result ih

theorem Returns.unique {f : Nat → Option α} {first second : α} (returns : Returns f first)
    (again : Returns f second) : first = second := by
  obtain ⟨enough, found⟩ := returns
  obtain ⟨enough', found'⟩ := again
  have same := (found _ (Nat.le_max_left enough enough')).symm.trans
    (found' _ (Nat.le_max_right enough enough'))
  exact Option.some.inj same

theorem Returns.pure (result : α) : Returns (fun _ => some result) result :=
  ⟨0, fun _ _ => rfl⟩

theorem Returns.bind {f : Nat → Option α} {g : Nat → α → Option β} {x : α} {result : β}
    (returns : Returns f x) (next : Returns (g · x) result) :
    Returns (fun fuel => (f fuel).bind (g fuel)) result := by
  obtain ⟨enough, found⟩ := returns
  obtain ⟨enough', found'⟩ := next
  refine ⟨max enough enough', fun fuel more => ?_⟩
  rw [Nat.max_le] at more
  exact Option.bind_eq_some_iff.mpr ⟨x, found fuel more.1, found' fuel more.2⟩

end CLibs.General
