import CLibs.Cardlib.Checks

/-!
# Count arrays as bags of cards

The abstract view of a count array: the multiset of cards it stands for. The
count updates of the source become insertions and removals of one card.
-/

set_option autoImplicit false

namespace CLibs.Cardlib

namespace Cards

/-- The cards a count array stands for. -/
def bag (cards : Cards) : Multiset Card :=
  ∑ i, Multiset.replicate (cards i).toNat (cardAt i)

theorem getCardCount_of_isValid (cards : Cards) {card : Card} (valid : card.isValid = true) :
    cards.getCardCount card = cards (getIndex card) := by
  simp [getCardCount, valid]

@[simp] theorem getCardCount_invalid (cards : Cards) : cards.getCardCount .invalid = 0 := rfl

@[simp] theorem getCardCount_cardAt (cards : Cards) (i : Fin 20) :
    cards.getCardCount (cardAt i) = cards i := by
  simp [getCardCount]

theorem isValid_of_getCardCount_pos {cards : Cards} {card : Card}
    (held : 0 < cards.getCardCount card) : card.isValid = true := by
  cases valid : card.isValid with
  | true => rfl
  | false => simp [getCardCount, valid] at held

theorem ext_getCardCount {left right : Cards}
    (same : ∀ card, left.getCardCount card = right.getCardCount card) : left = right := by
  funext i
  simpa using same (cardAt i)

theorem getCardCount_optCardCount (cards : Cards) {card : Card} (valid : card.isValid = true)
    (num : Int) (other : Card) :
    (cards.optCardCount card num).getCardCount other =
      cards.getCardCount other + if other = card then num else 0 := by
  by_cases otherValid : other.isValid = true
  · rw [getCardCount_of_isValid _ otherValid, getCardCount_of_isValid _ otherValid]
    simp only [optCardCount, valid, Bool.not_true, Bool.false_eq_true, if_false]
    by_cases same : other = card
    · subst same
      simp
    · have different : getIndex other ≠ getIndex card := by
        rwa [Ne, getIndex_inj otherValid valid]
      simp [Function.update_of_ne different, same]
  · have different : other ≠ card := by
      rintro rfl
      exact otherValid valid
    simp [getCardCount, otherValid, different]

theorem getCardCount_setCardCount (cards : Cards) {card : Card} (valid : card.isValid = true)
    (num : Int) (other : Card) :
    (cards.setCardCount card num).getCardCount other =
      if other = card then num else cards.getCardCount other := by
  by_cases otherValid : other.isValid = true
  · rw [getCardCount_of_isValid _ otherValid, getCardCount_of_isValid _ otherValid]
    simp only [setCardCount, valid, Bool.not_true, Bool.false_eq_true, if_false]
    by_cases same : other = card
    · subst same
      simp
    · have different : getIndex other ≠ getIndex card := by
        rwa [Ne, getIndex_inj otherValid valid]
      simp [Function.update_of_ne different, same]
  · have different : other ≠ card := by
      rintro rfl
      exact otherValid valid
    simp [getCardCount, otherValid, different]

theorem optCardCount_of_not_isValid (cards : Cards) {card : Card} (notValid : card.isValid = false)
    (num : Int) : cards.optCardCount card num = cards := by
  simp [optCardCount, notValid]

@[simp] theorem optCardCount_cancel (cards : Cards) (card : Card) :
    (cards.optCardCount card (-1)).optCardCount card 1 = cards := by
  by_cases valid : card.isValid = true
  · apply ext_getCardCount
    intro other
    rw [getCardCount_optCardCount _ valid, getCardCount_optCardCount _ valid]
    split <;> omega
  · simp only [Bool.not_eq_true] at valid
    simp [optCardCount_of_not_isValid _ valid]

theorem optCardCount_comm (cards : Cards) (left right : Card) (leftNum rightNum : Int) :
    (cards.optCardCount left leftNum).optCardCount right rightNum =
      (cards.optCardCount right rightNum).optCardCount left leftNum := by
  by_cases leftValid : left.isValid = true
  · by_cases rightValid : right.isValid = true
    · apply ext_getCardCount
      intro other
      rw [getCardCount_optCardCount _ rightValid, getCardCount_optCardCount _ leftValid,
        getCardCount_optCardCount _ leftValid, getCardCount_optCardCount _ rightValid]
      omega
    · simp only [Bool.not_eq_true] at rightValid
      simp [optCardCount_of_not_isValid _ rightValid]
  · simp only [Bool.not_eq_true] at leftValid
    simp [optCardCount_of_not_isValid _ leftValid]

theorem count_bag (cards : Cards) (card : Card) :
    cards.bag.count card = (cards.getCardCount card).toNat := by
  rw [bag, Multiset.count_sum']
  simp only [Multiset.count_replicate]
  by_cases valid : card.isValid = true
  · obtain ⟨j, rfl⟩ := exists_cardAt valid
    rw [Finset.sum_eq_single j]
    · simp
    · intro i _ different
      rw [if_neg fun same => different (cardAt_injective same)]
    · intro absent
      exact absurd (Finset.mem_univ j) absent
  · have neverEqual : ∀ i, cardAt i ≠ card := by
      rintro i rfl
      exact valid (cardAt_isValid i)
    simp [neverEqual, getCardCount, valid]

theorem mem_bag {cards : Cards} {card : Card} :
    card ∈ cards.bag ↔ 0 < cards.getCardCount card := by
  rw [← Multiset.count_pos, count_bag]
  omega

theorem isValid_of_mem_bag {cards : Cards} {card : Card} (member : card ∈ cards.bag) :
    card.isValid = true :=
  isValid_of_getCardCount_pos (mem_bag.mp member)

theorem card_bag (cards : Cards) : cards.bag.card = cards.total := by
  simp [bag, total, Multiset.card_sum]

theorem bag_eq_cons {cards : Cards} {card : Card} (held : 0 < cards.getCardCount card) :
    cards.bag = card ::ₘ (cards.optCardCount card (-1)).bag := by
  have valid := isValid_of_getCardCount_pos held
  ext other
  rw [Multiset.count_cons, count_bag, count_bag, getCardCount_optCardCount _ valid]
  by_cases same : other = card
  · subst same
    simp only [if_true]
    omega
  · simp [same]

/-- Counting a card in adds it to the bag, unless the count was negative. -/
theorem bag_optCardCount_one {cards : Cards} {card : Card} (valid : card.isValid = true)
    (nonneg : 0 ≤ cards.getCardCount card) :
    (cards.optCardCount card 1).bag = card ::ₘ cards.bag := by
  ext other
  rw [Multiset.count_cons, count_bag, count_bag, getCardCount_optCardCount _ valid]
  by_cases same : other = card
  · subst same
    simp only [if_true]
    omega
  · simp [same]

def Nonneg (cards : Cards) : Prop := ∀ card, 0 ≤ cards.getCardCount card

theorem nonneg_iff (cards : Cards) : cards.Nonneg ↔ ∀ i, 0 ≤ cards i := by
  constructor
  · intro nonneg i
    simpa using nonneg (cardAt i)
  · intro nonneg card
    by_cases valid : card.isValid = true
    · rw [getCardCount_of_isValid _ valid]
      exact nonneg _
    · simp [getCardCount, valid]

theorem eq_of_bag_eq {left right : Cards} (leftNonneg : left.Nonneg) (rightNonneg : right.Nonneg)
    (same : left.bag = right.bag) : left = right := by
  apply ext_getCardCount
  intro card
  have counts := congrArg (Multiset.count card) same
  rw [count_bag, count_bag] at counts
  have := leftNonneg card
  have := rightNonneg card
  omega

theorem Nonneg.optCardCount_neg {cards : Cards} (nonneg : cards.Nonneg) {card : Card}
    (held : 0 < cards.getCardCount card) : (cards.optCardCount card (-1)).Nonneg := by
  intro other
  rw [getCardCount_optCardCount _ (isValid_of_getCardCount_pos held)]
  have := nonneg other
  split
  · next same => subst same; omega
  · omega

theorem Nonneg.count_eq {cards : Cards} (nonneg : cards.Nonneg) (card : Card) :
    cards.getCardCount card = (cards.bag.count card : Int) := by
  rw [count_bag, Int.toNat_of_nonneg (nonneg card)]

theorem Nonneg.cast_total {cards : Cards} (nonneg : cards.Nonneg) :
    (cards.total : Int) = ∑ i, cards i := by
  rw [total, Nat.cast_sum]
  refine Finset.sum_congr rfl fun i _ => ?_
  exact Int.toNat_of_nonneg ((nonneg_iff cards).mp nonneg i)

def UpTo (cards : Cards) (bound : Int) : Prop :=
  ∀ card, 0 ≤ cards.getCardCount card ∧ cards.getCardCount card ≤ bound

theorem getCardCount_optCardCount_neg_le (cards : Cards) (card other : Card) :
    (cards.optCardCount card (-1)).getCardCount other ≤ cards.getCardCount other := by
  cases valid : card.isValid with
  | true =>
      rw [getCardCount_optCardCount _ valid]
      split <;> omega
  | false => rw [optCardCount_of_not_isValid _ valid]

end Cards

end CLibs.Cardlib
