import Mathlib.Data.List.Perm.Subperm
import Mathlib.Data.List.Nodup

/-!
# Counting pairs

How often a value occurs in a list of pairs of a key and a value, by how many keys
have it.
-/

set_option autoImplicit false

namespace CLibs.General

variable {α β : Type} [DecidableEq β] {pairs : List (α × β)} {keys : List α} {value : β}

theorem count_snd (pairs : List (α × β)) (value : β) :
    (pairs.map Prod.snd).count value =
      ((pairs.filter fun pair => pair.2 == value).map Prod.fst).length := by
  rw [List.count, List.countP_map, List.countP_eq_length_filter, List.length_map]
  rfl

theorem mem_keys {key : α} :
    key ∈ (pairs.filter fun pair => pair.2 == value).map Prod.fst ↔ (key, value) ∈ pairs := by
  simp

theorem length_le_count_snd (nodup : keys.Nodup) (all : ∀ key ∈ keys, (key, value) ∈ pairs) :
    keys.length ≤ (pairs.map Prod.snd).count value := by
  rw [count_snd]
  exact (nodup.subperm fun key mem => mem_keys.mpr (all key mem)).length_le

theorem count_snd_le_length [DecidableEq α] (few : ∀ key, pairs.count (key, value) ≤ 1)
    (all : ∀ key, (key, value) ∈ pairs → key ∈ keys) :
    (pairs.map Prod.snd).count value ≤ keys.length := by
  rw [count_snd]
  refine List.Subperm.length_le (List.Nodup.subperm ?_ fun key mem => all key (mem_keys.mp mem))
  refine List.Nodup.map_on ?_ ?_
  · rintro ⟨key, found⟩ mem ⟨key', found'⟩ mem' same
    simp only [List.mem_filter, beq_iff_eq] at mem mem'
    cases mem.2
    cases mem'.2
    exact Prod.ext same rfl
  · rw [List.nodup_iff_count_le_one]
    rintro ⟨key, found⟩
    by_cases same : found = value
    · subst same
      exact Nat.le_trans (List.filter_sublist.count_le _) (few key)
    · rw [List.count_eq_zero_of_not_mem (by simp [same])]
      exact Nat.zero_le 1

end CLibs.General
