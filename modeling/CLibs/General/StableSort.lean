import Mathlib.Data.List.Induction
import Mathlib.Data.List.Perm.Basic

/-!
# Stable sorting by insertion

When one list is another one sorted, with what compares equal in its old order, and what
an insertion sort does at each turn: a new element goes behind all that is not greater.
-/

set_option autoImplicit false

namespace CLibs.General

variable {α : Type}

/-- `le` is a total preorder on the members of `xs`. -/
structure TotalPreorderOn (le : α → α → Prop) (xs : List α) : Prop where
  total : ∀ a ∈ xs, ∀ b ∈ xs, le a b ∨ le b a
  trans : ∀ a ∈ xs, ∀ b ∈ xs, ∀ c ∈ xs, le a b → le b c → le a c

theorem TotalPreorderOn.mono {le : α → α → Prop} {xs ys : List α} (order : TotalPreorderOn le ys)
    (subset : xs ⊆ ys) : TotalPreorderOn le xs where
  total a inA b inB := order.total a (subset inA) b (subset inB)
  trans a inA b inB c inC := order.trans a (subset inA) b (subset inB) c (subset inC)

/-- `ys` is `xs` sorted; any members that compare equal to each other are in the order they
have in `xs`. -/
structure StableSortOf (le : α → α → Prop) (xs ys : List α) : Prop where
  perm : ys.Perm xs
  sorted : ys.Pairwise le
  stable : ∀ p : α → Bool, (∀ a ∈ xs, ∀ b ∈ xs, p a → p b → le a b) → ys.filter p = xs.filter p

namespace StableSortOf

variable {le : α → α → Prop} {xs front back : List α} {q : α}

theorem refl (sorted : xs.Pairwise le) : StableSortOf le xs xs :=
  ⟨.refl _, sorted, fun _ _ => rfl⟩

theorem place (sorted : StableSortOf le xs (front ++ back))
    (order : TotalPreorderOn le (xs ++ [q])) (greater : ∀ b ∈ back, ¬ le b q)
    (stop : ∀ last ∈ front.getLast?, le last q) :
    StableSortOf le (xs ++ [q]) (front ++ q :: back) := by
  have inside : ∀ {b}, b ∈ front ∨ b ∈ back → b ∈ xs ++ [q] := fun member =>
    List.mem_append_left [q] (sorted.perm.mem_iff.mp (List.mem_append.mpr member))
  have here : q ∈ xs ++ [q] := List.mem_append_right xs (List.mem_singleton_self q)
  obtain ⟨sortedFront, sortedBack, across⟩ := List.pairwise_append.mp sorted.sorted
  have below : ∀ a ∈ front, le a q := by
    intro a member
    cases front using List.reverseRecOn with
    | nil => exact absurd member List.not_mem_nil
    | append_singleton before last =>
      have near : le last q := stop last (by simp)
      rcases List.mem_append.mp member with earlier | same
      · have first := (List.pairwise_append.mp sortedFront).2.2 a earlier last (by simp)
        exact order.trans a (inside (.inl member)) last (inside (.inl (by simp))) q here first near
      · rw [List.mem_singleton.mp same]
        exact near
  have above : ∀ b ∈ back, le q b := fun b member =>
    (order.total b (inside (.inr member)) q here).resolve_left (greater b member)
  refine ⟨?_, ?_, fun p equal => ?_⟩
  · refine List.perm_middle.trans ((sorted.perm.cons q).trans ?_)
    exact (List.perm_append_singleton q xs).symm
  · refine List.pairwise_append.mpr ⟨sortedFront, ?_, fun a first b second => ?_⟩
    · exact List.pairwise_cons.mpr ⟨above, sortedBack⟩
    · rcases List.mem_cons.mp second with rfl | later
      · exact below a first
      · exact across a first b later
  · have earlier : (front ++ back).filter p = xs.filter p := by
      refine sorted.stable p fun a inA b inB => ?_
      exact equal a (List.mem_append_left [q] inA) b (List.mem_append_left [q] inB)
    rw [List.filter_append] at earlier
    rw [List.filter_append, List.filter_append, ← earlier]
    cases new : p q with
    | false => simp [new]
    | true =>
      have none : back.filter p = [] := by
        refine List.filter_eq_nil_iff.mpr fun b member found => greater b member ?_
        exact equal b (inside (.inr member)) q here found new
      simp [new, none]

end StableSortOf

end CLibs.General
