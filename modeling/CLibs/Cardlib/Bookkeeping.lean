import CLibs.Cardlib.EatChi
import CLibs.Cardlib.WinCheck
import CLibs.General.Runs

/-!
# Bookkeeping over whole games

The counters of a hand as numbers. With four copies of each card no byte
overflows, so the ledger modulo 256 is the exact one in every state a game can
reach.
-/

set_option autoImplicit false

namespace CLibs.Cardlib

open General

/-! ## Size and points of table melds -/

theorem EatCard.OnTable.isValid_of_mem_bag {eat : EatCard} (onTable : eat.OnTable) {card : Card}
    (member : card ∈ eat.bag) : card.isValid = true := by
  cases onTable with
  | chi combo realises =>
      rw [realises.bag] at member
      exact Combo.isValid_of_mem_bag member
  | same type valid big =>
      have same : card = eat.eatCard := by
        rcases type with type | type | type | type | type | type <;>
          simpa [EatCard.bag, type] using member
      rw [same]
      exact valid

/-- A meld has at most three points a card, and some card. -/
theorem EatCard.OnTable.points_le {eat : EatCard} (onTable : eat.OnTable) :
    eat.points ≤ 3 * eat.bag.card ∧ 0 < eat.bag.card := by
  cases onTable with
  | chi combo realises =>
      rw [realises.points, realises.bag, Combo.card_bag]
      have everyCombo : ∀ combo : Combo, combo.points ≤ 3 * 3 ∧ 0 < 3 := by
        decide
      exact everyCombo combo
  | same type valid big =>
      rcases type with type | type | type | type | type | type <;>
        simp only [EatCard.points, EatCard.bag, type, Multiset.card_replicate] <;>
        split_ifs <;> omega

theorem meldsPoints_le {eats : List EatCard} (melds : ∀ eat ∈ eats, eat.OnTable) :
    meldsPoints eats ≤ 3 * (meldsBag eats).card ∧ eats.length ≤ (meldsBag eats).card := by
  induction eats with
  | nil => simp
  | cons eat rest ih =>
      obtain ⟨points, length⟩ := ih fun other member => melds other (List.mem_cons_of_mem _ member)
      obtain ⟨eatPoints, some⟩ := (melds eat List.mem_cons_self).points_le
      rw [meldsPoints_cons, meldsBag_cons, Multiset.card_add, List.length_cons]
      omega

namespace HandCards

/-- No card occurs more than four times in the hand and the melds. -/
def FourCopies (s : HandCards) : Prop := ∀ i, s.bag.count (cardAt i) ≤ 4

instance (s : HandCards) : Decidable s.FourCopies :=
  inferInstanceAs (Decidable (∀ i, s.bag.count (cardAt i) ≤ 4))

/-- Every counter says what it is meant to say. -/
structure Bookkeeping (s : HandCards) : Prop where
  nonneg : ∀ i, 0 ≤ s.cards i
  countCards : (s.countCards.toNat : Int) = ∑ i, s.cards i
  bigCards : s.bigCards.toNat = s.bag.countP (·.isBig = true)
  smallCards : s.smallCards.toNat = s.bag.countP (·.isBig = false)
  redCards : s.redCards.toNat = s.bag.countP (isHong · = true)
  huXi : s.huXi.toNat = meldsPoints s.eatCards
  paoTimes : s.paoTimes.toNat = s.eatCards.countP EatCard.isFour
  melds : ∀ eat ∈ s.eatCards, eat.OnTable

/-! ## No byte overflows -/

theorem isValid_of_mem_bag {s : HandCards} (melds : ∀ eat ∈ s.eatCards, eat.OnTable) {card : Card}
    (member : card ∈ s.bag) : card.isValid = true := by
  rcases Multiset.mem_add.mp member with inHand | onTable
  · exact Cards.isValid_of_mem_bag inHand
  · obtain ⟨eat, inMelds, inBag⟩ := mem_meldsBag.mp onTable
    exact (melds eat inMelds).isValid_of_mem_bag inBag

theorem card_bag_le {s : HandCards} (melds : ∀ eat ∈ s.eatCards, eat.OnTable)
    (copies : s.FourCopies) : s.bag.card ≤ 80 := by
  have known : s.bag.toFinset ⊆ Finset.univ.image cardAt := by
    intro card member
    obtain ⟨i, rfl⟩ := exists_cardAt (isValid_of_mem_bag melds (Multiset.mem_toFinset.mp member))
    exact Finset.mem_image_of_mem _ (Finset.mem_univ i)
  have kinds : s.bag.toFinset.card ≤ 20 :=
    le_trans (Finset.card_le_card known) (le_trans Finset.card_image_le (by simp))
  calc s.bag.card = ∑ card ∈ s.bag.toFinset, s.bag.count card :=
        (Multiset.toFinset_sum_count_eq _).symm
    _ ≤ ∑ card ∈ s.bag.toFinset, 4 := by
        refine Finset.sum_le_sum fun card member => ?_
        obtain ⟨i, -, rfl⟩ := Finset.mem_image.mp (known member)
        exact copies i
    _ ≤ 80 := by
        rw [Finset.sum_const, smul_eq_mul]
        omega

private theorem toNat_of_eq_ofNat {byte : UInt8} {number : Nat} (same : byte = UInt8.ofNat number)
    (small : number < 256) : byte.toNat = number := by
  rw [same, UInt8.toNat_ofNat']
  exact Nat.mod_eq_of_lt small

/-- With four copies of each card the ledger is exact. -/
theorem Ledger.bookkeeping {s : HandCards} (ledger : s.Ledger) (copies : s.FourCopies) :
    s.Bookkeeping := by
  have size := card_bag_le ledger.melds copies
  have parts : s.bag.card = s.cards.total + (meldsBag s.eatCards).card := by
    rw [bag, Multiset.card_add, Cards.card_bag]
  obtain ⟨points, length⟩ := meldsPoints_le ledger.melds
  obtain ⟨big, small, red⟩ := ledger.counted
  have some : ∀ p : Card → Prop, ∀ [DecidablePred p], s.bag.countP p < 256 := by
    intro p _
    exact lt_of_le_of_lt (Multiset.countP_le_card p s.bag) (by omega)
  refine ⟨(Cards.nonneg_iff _).mp ledger.nonneg, ?_, ?_, ?_, ?_, ?_, ?_, ledger.melds⟩
  · rw [← ledger.nonneg.cast_total, toNat_of_eq_ofNat ledger.count (by omega)]
  · exact toNat_of_eq_ofNat big (some _)
  · exact toNat_of_eq_ofNat small (some _)
  · exact toNat_of_eq_ofNat red (some _)
  · exact toNat_of_eq_ofNat ledger.huXi (by omega)
  · refine toNat_of_eq_ofNat ledger.paoTimes ?_
    exact lt_of_le_of_lt List.countP_le_length (by omega)

theorem Bookkeeping.ledger {s : HandCards} (exact : s.Bookkeeping) : s.Ledger := by
  have nonneg := (Cards.nonneg_iff _).mpr exact.nonneg
  have ofToNat : ∀ {byte : UInt8} {number : Nat}, byte.toNat = number →
      byte = UInt8.ofNat number := by
    rintro byte number rfl
    exact (UInt8.ofNat_toNat).symm
  have count : s.countCards.toNat = s.cards.total := by
    have sums := exact.countCards
    rw [← nonneg.cast_total] at sums
    exact_mod_cast sums
  exact ⟨nonneg, ofToNat count, ⟨ofToNat exact.bigCards, ofToNat exact.smallCards,
    ofToNat exact.redCards⟩, ofToNat exact.huXi, ofToNat exact.paoTimes, exact.melds⟩

end HandCards

end CLibs.Cardlib
