import Mathlib.Data.Multiset.AddSub
import Mathlib.Data.Multiset.Bind
import Mathlib.Tactic.Ring

/-!
# Covering a bag with blocks

A bag of items is covered by a collection of blocks when it is the sum
`blocks.bind items` of their items. The rules a depth-first search needs are
that every item of a covered bag lies in some block, and that taking a block
away leaves a cover of the items it did not use.
-/

set_option autoImplicit false

namespace CLibs.General

variable {Item Block : Type*} {items : Block → Multiset Item}

theorem exists_block_of_mem_bind {blocks : Multiset Block} {item : Item}
    (member : item ∈ blocks.bind items) :
    ∃ block rest, blocks = block ::ₘ rest ∧ item ∈ items block := by
  obtain ⟨block, blockMember, itemMember⟩ := Multiset.mem_bind.mp member
  obtain ⟨rest, split⟩ := Multiset.exists_cons_of_mem blockMember
  exact ⟨block, rest, split, itemMember⟩

/-- Removing a block from a cover leaves a cover of what the block did not use. -/
theorem bind_rest_of_bind_cons {block : Block} {rest : Multiset Block}
    {used left extra : Multiset Item} (same : items block = used)
    (cover : (block ::ₘ rest).bind items + extra = used + left) :
    rest.bind items + extra = left := by
  rw [Multiset.cons_bind, same, add_assoc] at cover
  exact add_left_cancel cover

/-- A cover by blocks of `size` items each has `size` items per block. -/
theorem card_bind_of_card_eq {size : Nat} (uniform : ∀ block, (items block).card = size)
    (blocks : Multiset Block) : (blocks.bind items).card = blocks.card * size := by
  induction blocks using Multiset.induction_on with
  | empty => simp
  | cons block blocks ih =>
      rw [Multiset.cons_bind, Multiset.card_add, uniform, ih, Multiset.card_cons]
      ring

end CLibs.General
