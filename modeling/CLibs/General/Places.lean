import Mathlib.Data.List.Nodup
import Mathlib.Logic.Function.Basic
import Mathlib.Order.Interval.Finset.Nat

/-!
# Things that know their places

An array whose things know where they stand, counted from one, so that one of them can be
taken out at once: the last one moves to its place.
-/

set_option autoImplicit false

namespace CLibs.General

variable {α : Type} {place : α → Nat} {things : List α} {a : α}

/-- Each thing of the array knows its place. -/
def Placed (place : α → Nat) (things : List α) : Prop :=
  ∀ i a, things[i]? = some a → place a = i + 1

/-- The last thing takes the place `at_`. -/
def swapOut (things : List α) (at_ : Nat) : List α :=
  match things.getLast? with
  | some last => (things.set (at_ - 1) last).dropLast
  | none => things

theorem length_swapOut (things : List α) (at_ : Nat) :
    (swapOut things at_).length = things.length - 1 := by
  unfold swapOut
  split
  · rw [List.length_dropLast, List.length_set]
  · rename_i none
    rw [List.getLast?_eq_none_iff.mp none]
    rfl

theorem map_swapOut {β : Type} (f : α → β) (things : List α) (at_ : Nat) :
    (swapOut things at_).map f = swapOut (things.map f) at_ := by
  unfold swapOut
  rw [List.getLast?_map]
  cases things.getLast? with
  | none => rfl
  | some last => simp [List.map_set, List.map_dropLast]

/-- Things may be known by something that they have. -/
theorem Placed.of_map {β : Type} {f : β → α} {things : List β} (placed : Placed place (things.map f)) :
    Placed (place ∘ f) things := by
  intro i b entry
  exact placed i (f b) (by rw [List.getElem?_map, entry]; rfl)

theorem Placed.ne_zero (placed : Placed place things) (inside : a ∈ things) : place a ≠ 0 := by
  obtain ⟨i, less, rfl⟩ := List.getElem_of_mem inside
  rw [placed i _ (List.getElem?_eq_getElem less)]
  exact Nat.succ_ne_zero i

/-- A thing stands at its place. -/
theorem Placed.there (placed : Placed place things) (inside : a ∈ things) :
    things[place a - 1]? = some a := by
  obtain ⟨i, less, rfl⟩ := List.getElem_of_mem inside
  rw [placed i _ (List.getElem?_eq_getElem less), Nat.add_sub_cancel, List.getElem?_eq_getElem less]

theorem Placed.nodup (placed : Placed place things) : things.Nodup := by
  refine List.nodup_iff_injective_getElem.mpr fun i j same => Fin.ext ?_
  have at_i := placed i _ (List.getElem?_eq_getElem i.isLt)
  have at_j := placed j _ (List.getElem?_eq_getElem j.isLt)
  change things[i.val] = things[j.val] at same
  rw [same] at at_i
  omega

theorem Placed.congr {place' : α → Nat} (placed : Placed place things)
    (same : ∀ a ∈ things, place' a = place a) : Placed place' things := by
  intro i a entry
  rw [same a (List.mem_of_getElem? entry), placed i a entry]

theorem Placed.nil : Placed place [] := by
  intro i a entry
  cases entry

/-- What stands where after a thing was taken out. -/
theorem getElem?_swapOut {rest : List α} {last : α} (at_ i : Nat) :
    (swapOut (rest ++ [last]) at_)[i]? =
      if i < rest.length then (if i = at_ - 1 then some last else rest[i]?) else none := by
  have eq : swapOut (rest ++ [last]) at_ = ((rest ++ [last]).set (at_ - 1) last).dropLast := by
    simp [swapOut]
  rw [eq, List.dropLast_eq_take, List.getElem?_take, List.getElem?_set, List.length_set,
    List.length_append, List.length_singleton, Nat.add_sub_cancel]
  by_cases inside : i < rest.length
  · rw [if_pos inside, if_pos inside, List.getElem?_append_left inside]
    by_cases here : i = at_ - 1
    · rw [if_pos here, if_pos here.symm, if_pos (by omega)]
    · rw [if_neg here, if_neg (Ne.symm here)]
  · rw [if_neg inside, if_neg inside]

section update

variable [DecidableEq α]

/-- A new thing goes to the end. -/
theorem Placed.append (placed : Placed place things) (fresh : a ∉ things) :
    Placed (Function.update place a (things.length + 1)) (things ++ [a]) := by
  intro i b entry
  by_cases inside : i < things.length
  · rw [List.getElem?_append_left inside] at entry
    have other : b ≠ a := by
      rintro rfl
      exact fresh (List.mem_of_getElem? entry)
    rw [Function.update_of_ne other, placed i b entry]
  · rw [List.getElem?_append_right (not_lt.mp inside), List.getElem?_singleton] at entry
    split at entry
    · rw [← Option.some.inj entry, Function.update_self]
      omega
    · cases entry

/-- The places are right again when the last thing has got the place of the one that goes. -/
theorem Placed.taken_out {rest : List α} {last : α} (placed : Placed place (rest ++ [last]))
    (inside : a ∈ rest ++ [last]) (out : Nat) :
    Placed (Function.update (Function.update place last (place a)) a out)
        (swapOut (rest ++ [last]) (place a)) ∧
      ∀ b, b ∈ swapOut (rest ++ [last]) (place a) ↔ b ∈ rest ++ [last] ∧ b ≠ a := by
  have low := placed.ne_zero inside
  have there := placed.there inside
  have end_ : place last = rest.length + 1 := placed rest.length last (by simp)
  -- the thing that goes is the last one or stands before it
  have cases_ : (a = last ∧ place a - 1 = rest.length) ∨
      (a ≠ last ∧ place a - 1 < rest.length ∧ rest[place a - 1]? = some a) := by
    by_cases here : a = last
    · exact .inl ⟨here, by rw [here, end_, Nat.add_sub_cancel]⟩
    · have before : place a - 1 < rest.length := by
        by_contra behind
        rw [List.getElem?_append_right (not_lt.mp behind), List.getElem?_singleton] at there
        split at there
        · exact here (Option.some.inj there).symm
        · cases there
      exact .inr ⟨here, before, by rwa [List.getElem?_append_left before] at there⟩
  have old : ∀ i b, rest[i]? = some b → place b = i + 1 := by
    intro i b entry
    have less := (List.getElem?_eq_some_iff.mp entry).1
    exact placed i b (by rwa [List.getElem?_append_left less])
  constructor
  · intro i b entry
    rw [getElem?_swapOut] at entry
    split at entry
    · rename_i less
      split at entry
      · rename_i here
        rw [← Option.some.inj entry]
        obtain ⟨other, -, -⟩ := cases_.resolve_left fun both => by omega
        rw [Function.update_of_ne (Ne.symm other), Function.update_self]
        omega
      · rename_i away
        have index := old i b entry
        have other : b ≠ a := by
          rintro rfl
          omega
        have other' : b ≠ last := by
          rintro rfl
          omega
        rw [Function.update_of_ne other, Function.update_of_ne other', index]
    · cases entry
  · intro b
    rw [List.mem_iff_getElem?]
    constructor
    · rintro ⟨i, entry⟩
      rw [getElem?_swapOut] at entry
      split at entry
      · split at entry
        · rename_i here
          rw [← Option.some.inj entry]
          obtain ⟨other, -, -⟩ := cases_.resolve_left fun both => by omega
          exact ⟨by simp, Ne.symm other⟩
        · refine ⟨List.mem_append_left _ (List.mem_of_getElem? entry), ?_⟩
          rintro rfl
          have := old i b entry
          omega
      · cases entry
    · rintro ⟨member, other⟩
      rcases List.mem_append.mp member with member | member
      · obtain ⟨i, entry⟩ := List.mem_iff_getElem?.mp member
        have less := (List.getElem?_eq_some_iff.mp entry).1
        have index := old i b entry
        refine ⟨i, ?_⟩
        rw [getElem?_swapOut, if_pos less, if_neg ?_, entry]
        rintro rfl
        rcases cases_ with ⟨-, at_end⟩ | ⟨-, -, is⟩
        · omega
        · exact other (Option.some.inj (entry.symm.trans is))
      · rw [List.mem_singleton.mp member] at other ⊢
        obtain ⟨-, before, -⟩ := cases_.resolve_left fun both => other both.1.symm
        exact ⟨place a - 1, by rw [getElem?_swapOut, if_pos before, if_pos rfl]⟩

end update

/-- A list of things with different places has all of them when it is as long as there are
places. -/
theorem mem_of_many [DecidableEq α] {p : α → Prop} {many : Nat} (place : α → Nat) (low : Nat)
    (unique : ∀ a b, p a → p b → place a = place b → a = b)
    (range : ∀ a, p a → low ≤ place a ∧ place a < many + low) (nodup : things.Nodup)
    (all : ∀ a ∈ things, p a) (full : many ≤ things.length) {b : α} (is : p b) : b ∈ things := by
  by_contra outside
  have all : ∀ a ∈ (b :: things).toFinset, p a := by
    intro a member
    rcases List.mem_cons.mp (List.mem_toFinset.mp member) with rfl | member
    · exact is
    · exact all a member
  have count := Finset.card_le_card_of_injOn (s := (b :: things).toFinset)
    (t := Finset.Ico low (many + low)) place
    (fun a member => Finset.mem_coe.mpr (Finset.mem_Ico.mpr (range a (all a member))))
    fun a member a' member' same => unique a a' (all a member) (all a' member') same
  rw [List.toFinset_card_of_nodup (List.nodup_cons.mpr ⟨outside, nodup⟩), Nat.card_Ico,
    List.length_cons] at count
  omega

end CLibs.General
