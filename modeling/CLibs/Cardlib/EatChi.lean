import CLibs.Cardlib.ChiPlans
import CLibs.Cardlib.Ledger

/-!
# Playing a chi plan

`EatChi` takes the cards of a plan out of the hand one by one and ignores
failing removals. On a plan that fits the hand none fails, so the operation
moves exactly the cards of the plan or rolls everything back.
-/

set_option autoImplicit false

namespace CLibs.Cardlib

/-- What `EatChi` adds to the points for a meld: it asks for two types only. -/
def EatCard.chiPoints (eat : EatCard) : Nat :=
  if eat.type = .eat123 ∨ eat.type = .eatHong then (if eat.big then 6 else 3) else 0

def chiPoints (eats : List EatCard) : Nat := (eats.map EatCard.chiPoints).sum

@[simp] theorem chiPoints_append (left right : List EatCard) :
    chiPoints (left ++ right) = chiPoints left + chiPoints right := by
  simp [chiPoints]

@[simp] theorem chiPoints_cons (eat : EatCard) (eats : List EatCard) :
    chiPoints (eat :: eats) = eat.chiPoints + chiPoints eats := by
  simp [chiPoints]

@[simp] theorem chiPoints_nil : chiPoints [] = 0 := rfl

theorem EatCard.Realises.chiPoints {eat : EatCard} {combo : Combo}
    (realises : eat.Realises combo) : eat.chiPoints = eat.points := by
  have type := realises.type
  cases combo with
  | run big low =>
      simp only [Combo.type] at type
      split at type <;> simp [EatCard.chiPoints, EatCard.points, type]
  | hong big => simp [EatCard.chiPoints, EatCard.points, type, Combo.type]
  | santa double point => simp [EatCard.chiPoints, EatCard.points, type, Combo.type]

theorem chiPoints_eq_meldsPoints {eats : List EatCard}
    (melds : ∀ eat ∈ eats, ∃ combo, eat.Realises combo) : chiPoints eats = meldsPoints eats := by
  induction eats with
  | nil => rfl
  | cons eat rest ih =>
      obtain ⟨combo, realises⟩ := melds eat List.mem_cons_self
      rw [chiPoints_cons, meldsPoints_cons, realises.chiPoints,
        ih fun other member => melds other (List.mem_cons_of_mem _ member)]

namespace HandCards

/-- `t` is `s` after the cards `used` left the hand and `EatChi` put the melds
`eats`, whatever they are, on the table. -/
structure Moved (s t : HandCards) (used : List Card) (eats : List EatCard) : Prop where
  state : t = { s with
    cards := t.cards
    countCards := s.countCards - UInt8.ofNat used.length
    eatCards := s.eatCards ++ eats
    huXi := s.huXi + UInt8.ofNat (chiPoints eats)
    huXi2 := s.huXi2 + UInt8.ofNat (chiPoints eats) }
  nonneg : t.cards.Nonneg
  bag : s.cards.bag = (used : Multiset Card) + t.cards.bag

theorem Moved.refl {s : HandCards} (nonneg : s.cards.Nonneg) : s.Moved s [] [] := by
  refine ⟨?_, nonneg, by simp⟩
  simp

private theorem sub_sub_ofNat_one (count used : UInt8) :
    count - used - UInt8.ofNat 1 = count - (used + UInt8.ofNat 1) := by
  grind

theorem Moved.remove {s t : HandCards} {used : List Card} {eats : List EatCard}
    (moved : s.Moved t used eats) {card : Card} {rest : Multiset Card}
    (held : card ::ₘ rest ≤ t.cards.bag) :
    s.Moved (t.removeCard card).1 (used ++ [card]) eats ∧
      rest ≤ (t.removeCard card).1.cards.bag := by
  have member : card ∈ t.cards.bag := Multiset.mem_of_le held (Multiset.mem_cons_self _ _)
  have one : ((1 : Nat) : Int) ≤ t.getCardCount card := by
    have := Cards.mem_bag.mp member
    simp only [HandCards.getCardCount]
    omega
  obtain ⟨left, removed, nonneg, taken⟩ :=
    t.removeCard_spec (Cards.isValid_of_mem_bag member) one moved.nonneg
  simp only [removed]
  refine ⟨⟨?_, nonneg, ?_⟩, ?_⟩
  · rw [moved.state]
    simp only [List.length_append, List.length_singleton, UInt8.ofNat_add]
    rw [sub_sub_ofNat_one]
  · rw [moved.bag, taken, ← Multiset.coe_add, add_assoc]
    rfl
  · rw [taken, Multiset.replicate_one, Multiset.singleton_add] at held
    exact (Multiset.cons_le_cons_iff _).mp held

theorem layChi_eq (t : HandCards) (clearHu : Bool) (eat : EatCard) :
    (layChi (t, clearHu) eat).1 = (t.pushEat eat).addXi (UInt8.ofNat eat.chiPoints) := by
  unfold layChi EatCard.chiPoints
  dsimp only
  split
  · cases eat.big <;> rfl
  · simp [addXi]

theorem Moved.layChi {s t : HandCards} {used : List Card} {eats : List EatCard}
    (moved : s.Moved t used eats) (eat : EatCard) (clearHu : Bool) :
    s.Moved (layChi (t, clearHu) eat).1 used (eats ++ [eat]) := by
  rw [layChi_eq]
  refine ⟨?_, moved.nonneg, moved.bag⟩
  simp only [pushEat, addXi]
  rw [moved.state]
  simp only [chiPoints_append, chiPoints_cons, chiPoints_nil, UInt8.ofNat_add,
    List.append_assoc, UInt8.add_assoc, add_zero]

@[simp] theorem layChi_cards (acc : HandCards × Bool) (eat : EatCard) :
    (layChi acc eat).1.cards = acc.1.cards := by
  unfold layChi
  dsimp only
  split <;> rfl

theorem Moved.eatChiNext {s t : HandCards} {used : List Card} {eats : List EatCard}
    (moved : s.Moved t used eats) {eat : EatCard} (pair : eat.cards.length = 2) (clearHu : Bool)
    {rest : Multiset Card}
    (held : eat.eatCard ::ₘ (eat.cards : Multiset Card) + rest ≤ t.cards.bag) :
    s.Moved (eatChiNext (t, clearHu) eat).1 (used ++ eat.eatCard :: eat.cards) (eats ++ [eat]) ∧
      rest ≤ (eatChiNext (t, clearHu) eat).1.cards.bag := by
  obtain ⟨temp1, temp2, shape⟩ := List.length_eq_two.mp pair
  have same : eat.card 0 = temp1 ∧ eat.card 1 = temp2 := by simp [EatCard.card, shape]
  have order : eat.eatCard ::ₘ (eat.cards : Multiset Card) + rest =
      eat.eatCard ::ₘ temp1 ::ₘ temp2 ::ₘ rest := by
    simp [shape, ← Multiset.cons_coe, Multiset.cons_add]
  rw [order] at held
  obtain ⟨first, held1⟩ := moved.remove held
  obtain ⟨second, held2⟩ := first.remove held1
  obtain ⟨third, held3⟩ := second.remove held2
  unfold HandCards.eatChiNext
  rw [same.1, same.2, shape]
  refine ⟨?_, ?_⟩
  · simpa using third.layChi eat clearHu
  · rw [layChi_cards]
    exact held3

theorem Moved.loop {s : HandCards} (rest : List EatCard) {acc : HandCards × Bool}
    {used : List Card} {eats : List EatCard} (moved : s.Moved acc.1 used eats)
    (pairs : ∀ eat ∈ rest, eat.cards.length = 2)
    (held : ((rest.flatMap fun eat => eat.eatCard :: eat.cards : List Card) : Multiset Card) ≤
      acc.1.cards.bag) :
    s.Moved (rest.foldl HandCards.eatChiNext acc).1
      (used ++ rest.flatMap fun eat => eat.eatCard :: eat.cards) (eats ++ rest) := by
  induction rest generalizing acc used eats with
  | nil => simpa using moved
  | cons eat rest ih =>
      rw [List.flatMap_cons, ← Multiset.coe_add, ← Multiset.cons_coe] at held
      obtain ⟨next, heldRest⟩ := moved.eatChiNext (pairs eat List.mem_cons_self) acc.2 held
      have done := ih next (fun other member => pairs other (List.mem_cons_of_mem _ member)) heldRest
      simpa using done

/-- Melds whose cards are all held leave the hand card by card. -/
theorem Moved.plan {s : HandCards} (nonneg : s.cards.Nonneg) {first : EatCard}
    {rest : List EatCard} (pairs : ∀ eat ∈ first :: rest, eat.cards.length = 2)
    (held : (usedCards (first :: rest) : Multiset Card) ≤ s.cards.bag) :
    s.Moved (rest.foldl HandCards.eatChiNext (HandCards.layChi
        ((((s.removeCard (first.card 0)).1).removeCard (first.card 1)).1, false) first)).1
      (usedCards (first :: rest)) (first :: rest) := by
  obtain ⟨temp1, temp2, shape⟩ := List.length_eq_two.mp (pairs first List.mem_cons_self)
  have same : first.card 0 = temp1 ∧ first.card 1 = temp2 := by simp [EatCard.card, shape]
  have order : (usedCards (first :: rest) : Multiset Card) =
      temp1 ::ₘ temp2 ::ₘ ((rest.flatMap fun eat => eat.eatCard :: eat.cards : List Card) :) := by
    simp [usedCards, shape, ← Multiset.cons_coe]
  rw [order] at held
  obtain ⟨one, held1⟩ := (Moved.refl nonneg).remove held
  obtain ⟨two, held2⟩ := one.remove held1
  rw [same.1, same.2]
  have done := Moved.loop rest (two.layChi first false)
    (fun eat member => pairs eat (List.mem_cons_of_mem _ member)) (by simpa using held2)
  simpa [usedCards, shape] using done

/-- `t` is `s` after the cards `used` left the hand and the melds `eats` were
put on the table. -/
structure Laid (s t : HandCards) (used : List Card) (eats : List EatCard) : Prop where
  state : t = { s with
    cards := t.cards
    countCards := s.countCards - UInt8.ofNat used.length
    eatCards := s.eatCards ++ eats
    huXi := s.huXi + UInt8.ofNat (meldsPoints eats)
    huXi2 := s.huXi2 + UInt8.ofNat (meldsPoints eats) }
  nonneg : t.cards.Nonneg
  bag : s.cards.bag = (used : Multiset Card) + t.cards.bag

theorem Moved.laid {s t : HandCards} {used : List Card} {eats : List EatCard}
    (moved : s.Moved t used eats) (melds : ∀ eat ∈ eats, ∃ combo, eat.Realises combo) :
    s.Laid t used eats := by
  refine ⟨?_, moved.nonneg, moved.bag⟩
  rw [← chiPoints_eq_meldsPoints melds]
  exact moved.state

/-- `EatChi` on a plan that fits: with a copy of the card left over nothing
happens, otherwise the cards of the plan move to the table. -/
theorem eatChi_spec {s : HandCards} {card : Card} {plan : List EatCard} {left : Cards}
    (nonneg : s.cards.Nonneg) (some : plan ≠ []) (fits : ChiPlan.Fits card s.cards plan left) :
    (0 < left.getCardCount card → s.eatChi card plan = (s, false)) ∧
    (left.getCardCount card ≤ 0 → ∃ cardFlags, s.eatChi card plan =
      ({ s.countIn card with
        cards := left
        cardFlags := cardFlags
        countCards := s.countCards - UInt8.ofNat (usedCards plan).length
        eatCards := s.eatCards ++ plan
        huXi := s.huXi + UInt8.ofNat (meldsPoints plan)
        huXi2 := s.huXi2 + UInt8.ofNat (meldsPoints plan) }, true)) := by
  obtain ⟨first, rest, rfl⟩ := List.exists_cons_of_ne_nil some
  obtain ⟨bags, split⟩ := fits.usedCards_split some
  have laid := (Moved.plan nonneg (fun eat member => (fits.melds eat member).2.2)
    (split ▸ Multiset.le_add_right _ _)).laid fun eat member => (fits.melds eat member).2.1
  have sameLeft := Cards.eq_of_bag_eq laid.nonneg fits.nonneg
    (add_left_cancel (laid.bag.symm.trans split))
  -- the two cards of the first meld pass the first test
  obtain ⟨temp1, temp2, shape⟩ := List.length_eq_two.mp (fits.melds first List.mem_cons_self).2.2
  have inHand : ∀ temp ∈ first.cards, 0 < s.getCardCount temp ∧ s.getCardCount temp < 3 := by
    intro temp member
    have used : temp ∈ (usedCards (first :: rest) : Multiset Card) := by
      simp [usedCards, member]
    refine ⟨?_, fits.few temp ?_⟩
    · apply Cards.mem_bag.mp
      rw [split]
      exact Multiset.mem_add.mpr (.inl used)
    · rw [bags]
      exact Multiset.mem_cons_of_mem used
  have held1 := inHand (first.card 0) (by simp [EatCard.card, shape])
  have held2 := inHand (first.card 1) (by simp [EatCard.card, shape])
  have admitted : ¬ (s.getCardCount (first.card 0) ≤ 0 ∨ s.getCardCount (first.card 1) ≤ 0 ∨
      2 < s.getCardCount (first.card 0) ∨ 2 < s.getCardCount (first.card 1)) := by
    omega
  simp only [eatChi, admitted, if_false]
  generalize rest.foldl HandCards.eatChiNext _ = done at laid sameLeft ⊢
  have count : done.1.getCardCount card = left.getCardCount card := by
    rw [HandCards.getCardCount, sameLeft]
  refine ⟨?_, ?_⟩
  · intro copy
    rw [if_pos (count ▸ copy), laid.state]
  · intro finished
    rw [if_neg (by omega), laid.state, sameLeft]
    split
    · exact ⟨_, rfl⟩
    · exact ⟨_, rfl⟩

theorem eatChi_ledger {s : HandCards} (ledger : s.Ledger) {card : Card} {prior : EatChiCard}
    {plan : List EatCard} (offered : (s.checkChi card prior).2.2 = true)
    (offers : (s.checkChi card prior).2.1.Offers plan) : (s.eatChi card plan).1.Ledger := by
  have gates := checkChi_gates offered
  obtain ⟨left, chiPlan⟩ := checkChi_offers gates ledger.nonneg offers
  have fits := chiPlan.fits gates.valid ledger.nonneg gates.few
  have some := chiPlan.ne_nil
  obtain ⟨rollsBack, lays⟩ := eatChi_spec ledger.nonneg some fits
  by_cases copy : 0 < left.getCardCount card
  · rw [rollsBack copy]
    exact ledger
  · obtain ⟨cardFlags, result⟩ := lays (not_lt.mp copy)
    rw [result]
    obtain ⟨bags, split⟩ := fits.usedCards_split some
    have whole : left.bag + meldsBag (s.eatCards ++ plan) = card ::ₘ s.bag := by
      rw [bag, split, meldsBag_append, bags, ← Multiset.singleton_add, ← Multiset.singleton_add]
      abel
    have notFour : plan.countP EatCard.isFour = 0 := by
      rw [List.countP_eq_zero]
      intro eat member
      obtain ⟨combo, realises⟩ := (fits.melds eat member).2.1
      simp [realises.not_isFour]
    have counted := ledger.counted.countIn card
    rw [← whole] at counted
    refine ⟨fits.nonneg, ?_, counted, ?_, ?_, ?_⟩
    · rw [total_of_bag split, ← ledger.count, Multiset.coe_card]
    · rw [meldsPoints_append, UInt8.ofNat_add, ← ledger.huXi]
    · rw [List.countP_append, notFour, Nat.add_zero]
      exact ledger.paoTimes
    · intro eat member
      rcases List.mem_append.mp member with old | new
      · exact ledger.melds eat old
      · obtain ⟨combo, realises⟩ := (fits.melds eat new).2.1
        exact .chi combo realises

/-- The offer of `checkChi` is exact. Each complete plan is accepted by `EatChi`
and takes from the hand the cards of its melds but the incoming one, no card of
a triple and every copy of the card; there is an offer exactly when the rules
allow to meld the incoming card with all its copies. -/
theorem checkChi_exact {s : HandCards} {card : Card} (prior : EatChiCard)
    (nonneg : ∀ i, 0 ≤ s.cards i) (gates : s.ChiGates card) :
    (∀ plan, (s.checkChi card prior).2.1.Complete plan →
      ((s.checkChi card prior).1.eatChi card plan).2 = true ∧
      (∃ taken, meldsBag plan = card ::ₘ taken ∧
        s.cards.bag = taken + ((s.checkChi card prior).1.eatChi card plan).1.cards.bag) ∧
      (∀ i, 0 ≤ ((s.checkChi card prior).1.eatChi card plan).1.cards i) ∧
      (∀ temp ∈ meldsBag plan, s.getCardCount temp < 3) ∧
      ((s.checkChi card prior).1.eatChi card plan).1.getCardCount card = 0) ∧
    ((s.checkChi card prior).2.2 = true ↔ ∃ combos, Melds card s.cards combos) := by
  have handNonneg := (Cards.nonneg_iff _).mpr nonneg
  rw [checkChi_fst s card prior handNonneg]
  constructor
  · intro plan complete
    obtain ⟨left, chiPlan, finished⟩ := checkChi_complete gates handNonneg complete
    have fits := chiPlan.fits gates.valid handNonneg gates.few
    obtain ⟨bags, split⟩ := fits.usedCards_split chiPlan.ne_nil
    obtain ⟨cardFlags, result⟩ := (eatChi_spec handNonneg chiPlan.ne_nil fits).2 finished
    rw [result]
    refine ⟨rfl, ⟨_, bags, split⟩, (Cards.nonneg_iff left).mp fits.nonneg, fits.few, ?_⟩
    exact le_antisymm finished (fits.nonneg card)
  · rw [checkChi_iff prior gates handNonneg]
    constructor
    · rintro ⟨plan, left, chiPlan, finished⟩
      exact (chiPlan.fits gates.valid handNonneg gates.few).melds_of_finished handNonneg finished
    · rintro ⟨combos, melds⟩
      exact exists_chiPlan_of_melds melds handNonneg

/-- A sample deal: 1, 2 and 3 and a pair of big 2s. -/
def pairOfTwos : List Card :=
  [.makeCard 1 false, .makeCard 2 false, .makeCard 3 false, .makeCard 2 true, .makeCard 2 true]

/-- Another 2 can be melded together with the one in the hand. -/
theorem checkChi_exact_pairOfTwos :
    ∃ combos, Melds (.makeCard 2 false) (addHandCards {} pairOfTwos).cards combos :=
  (checkChi_exact {} (by decide) ⟨by decide, by decide, by decide, by decide, by decide⟩).2.mp
    (by decide)

end HandCards

end CLibs.Cardlib
