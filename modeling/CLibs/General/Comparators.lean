/-!
# Comparators

What a sort asks of its comparator on the elements that it is given.
-/

set_option autoImplicit false

namespace CLibs.General

variable {α : Type} {comp : α → α → Bool} {list : List α}

/-- `comp` is a strict weak ordering of the elements of `list`. -/
structure StrictWeakOn (comp : α → α → Bool) (list : List α) : Prop where
  irrefl : ∀ a ∈ list, comp a a = false
  trans : ∀ a ∈ list, ∀ b ∈ list, ∀ c ∈ list,
    comp a b = true → comp b c = true → comp a c = true
  incompTrans : ∀ a ∈ list, ∀ b ∈ list, ∀ c ∈ list,
    comp a b = false ∧ comp b a = false → comp b c = false ∧ comp c b = false →
      comp a c = false ∧ comp c a = false

/-- Where different elements are comparable, the incomparability is transitive by itself. -/
theorem StrictWeakOn.of_total (irrefl : ∀ a ∈ list, comp a a = false)
    (trans : ∀ a ∈ list, ∀ b ∈ list, ∀ c ∈ list,
      comp a b = true → comp b c = true → comp a c = true)
    (total : ∀ a ∈ list, ∀ b ∈ list, comp a b = false → comp b a = false → a = b) :
    StrictWeakOn comp list where
  irrefl := irrefl
  trans := trans
  incompTrans := by
    intro a aMember b bMember c cMember ab bc
    have sameAB := total a aMember b bMember ab.1 ab.2
    have sameBC := total b bMember c cMember bc.1 bc.2
    rw [sameAB, sameBC]
    exact ⟨irrefl c cMember, irrefl c cMember⟩

end CLibs.General
