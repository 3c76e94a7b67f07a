import CLibs.Cardlib.ChiEnumeration

/-!
# Chi plans

`checkChi` lists plans through positional indices. The relation `ChiPlan` says
what such a plan is: melds taken one after another, each around one more copy
of the card.
-/

set_option autoImplicit false

namespace CLibs.Cardlib

/-- Taking the melds of a plan from `cards` leaves `left`. The first meld is
around the incoming card, every later one around a copy still held. -/
inductive ChiPlan (card : Card) : Cards → List EatCard → Cards → Prop where
  | last {cards : Cards} {eat : EatCard} (member : eat ∈ cards._checkChi card) :
      ChiPlan card cards [eat] (cards.optCards eat.cards (-1))
  | next {cards left : Cards} {eat : EatCard} {plan : List EatCard}
      (member : eat ∈ cards._checkChi card)
      (copy : 0 < (cards.optCards eat.cards (-1)).getCardCount card)
      (rest : ChiPlan card ((cards.optCards eat.cards (-1)).optCardCount card (-1)) plan left) :
      ChiPlan card cards (eat :: plan) left

/-- Cards of the hand a plan uses: all but the incoming one. -/
def usedCards : List EatCard → List Card
  | [] => []
  | first :: rest => first.cards ++ rest.flatMap fun eat => eat.eatCard :: eat.cards

namespace EatChiCard

/-- The plans a player can read off the offer: an option, possibly with a
follow-up of its index, possibly with one of the choices for a third meld. -/
def Offers (eatChi : EatChiCard) (plan : List EatCard) : Prop :=
  ∃ idx eat, eatChi.eats[idx]? = some eat ∧
    (plan = [eat] ∨ ∃ bi ∈ eatChi.bi, bi.idx = idx ∧ ∃ second thirds,
      bi.cats = second :: thirds ∧
        (plan = [eat, second] ∨ ∃ third ∈ thirds, plan = [eat, second, third]))

/-- The plans that use every follow-up the offer lists. -/
def Complete (eatChi : EatChiCard) (plan : List EatCard) : Prop :=
  ∃ idx eat, eatChi.eats[idx]? = some eat ∧
    ((plan = [eat] ∧ ∀ bi ∈ eatChi.bi, bi.idx ≠ idx) ∨
      ∃ bi ∈ eatChi.bi, bi.idx = idx ∧ ∃ second thirds, bi.cats = second :: thirds ∧
        ((thirds = [] ∧ plan = [eat, second]) ∨ ∃ third ∈ thirds, plan = [eat, second, third]))

theorem Complete.offers {eatChi : EatChiCard} {plan : List EatCard}
    (complete : eatChi.Complete plan) : eatChi.Offers plan := by
  obtain ⟨idx, eat, found, ⟨rfl, -⟩ | ⟨bi, member, same, second, thirds, cats, ending⟩⟩ := complete
  · exact ⟨idx, eat, found, .inl rfl⟩
  · refine ⟨idx, eat, found, .inr ⟨bi, member, same, second, thirds, cats, ?_⟩⟩
    rcases ending with ⟨-, two⟩ | three
    · exact .inl two
    · exact .inr three

theorem exists_complete {eatChi : EatChiCard} (some : eatChi.eats ≠ [])
    (cats : ∀ bi ∈ eatChi.bi, bi.cats ≠ []) : ∃ plan, eatChi.Complete plan := by
  obtain ⟨eat, rest, shape⟩ := List.exists_cons_of_ne_nil some
  have first : eatChi.eats[0]? = .some eat := by simp [shape]
  by_cases followUp : ∃ bi ∈ eatChi.bi, bi.idx = 0
  · obtain ⟨bi, member, atZero⟩ := followUp
    obtain ⟨second, thirds, biShape⟩ := List.exists_cons_of_ne_nil (cats bi member)
    cases thirds with
    | nil =>
        exact ⟨[eat, second], 0, eat, first,
          .inr ⟨bi, member, atZero, second, [], biShape, .inl ⟨rfl, rfl⟩⟩⟩
    | cons third thirds =>
        exact ⟨[eat, second, third], 0, eat, first, .inr ⟨bi, member, atZero, second, _, biShape,
          .inr ⟨third, List.mem_cons_self, rfl⟩⟩⟩
  · push Not at followUp
    exact ⟨[eat], 0, eat, first, .inl ⟨rfl, followUp⟩⟩

end EatChiCard

/-! ## Counting melds out and in again -/

namespace Cards

theorem optCards_optCardCount (cards : Cards) (temps : List Card) (card : Card) (num other : Int) :
    (cards.optCardCount card other).optCards temps num =
      (cards.optCards temps num).optCardCount card other := by
  induction temps generalizing cards with
  | nil => rfl
  | cons temp rest ih =>
      simp only [optCards, List.foldl_cons] at ih ⊢
      rw [optCardCount_comm, ih]

@[simp] theorem optCards_cancel (cards : Cards) (temps : List Card) :
    (cards.optCards temps (-1)).optCards temps 1 = cards := by
  induction temps generalizing cards with
  | nil => rfl
  | cons temp rest ih =>
      have step : ∀ num, cards.optCards (temp :: rest) num =
          (cards.optCards rest num).optCardCount temp num := by
        intro num
        rw [← optCards_optCardCount]
        rfl
      rw [step]
      change (((cards.optCards rest (-1)).optCardCount temp (-1)).optCardCount temp 1).optCards
        rest 1 = cards
      rw [optCardCount_cancel, ih]

theorem getCardCount_optCards (cards : Cards) {temps : List Card}
    (valid : ∀ temp ∈ temps, temp.isValid = true) (num : Int) (other : Card) :
    (cards.optCards temps num).getCardCount other =
      cards.getCardCount other + num * (temps.count other : Int) := by
  induction temps generalizing cards with
  | nil => simp [optCards]
  | cons temp rest ih =>
      have restValid : ∀ temp ∈ rest, temp.isValid = true := by
        intro other member
        exact valid other (List.mem_cons_of_mem _ member)
      change ((cards.optCardCount temp num).optCards rest num).getCardCount other = _
      rw [ih _ restValid, getCardCount_optCardCount _ (valid temp List.mem_cons_self),
        List.count_cons]
      by_cases same : other = temp
      · subst same
        simp only [if_true, beq_self_eq_true]
        push_cast
        ring
      · have different : (temp == other) = false := by simpa using Ne.symm same
        simp [same, different]

end Cards

theorem ChiOption.optCards_eq {cards : Cards} {card : Card} {eat : EatCard}
    (option : ChiOption cards card eat) (num : Int) :
    cards.optCards eat.cards num =
      (cards.optCardCount (eat.card 0) num).optCardCount (eat.card 1) num := by
  obtain ⟨temp1, temp2, shape, -⟩ := option.pair
  simp [Cards.optCards, EatCard.card, shape]

theorem ChiOption.optCards_nonneg {cards : Cards} {card : Card} {eat : EatCard}
    (option : ChiOption cards card eat) (nonneg : cards.Nonneg) :
    (cards.optCards eat.cards (-1)).Nonneg := by
  rw [option.optCards_eq]
  exact option.nonneg nonneg

theorem ChiOption.bag_eq_optCards {cards : Cards} {card : Card} {eat : EatCard}
    (option : ChiOption cards card eat) :
    cards.bag = (eat.cards : Multiset Card) + (cards.optCards eat.cards (-1)).bag := by
  rw [option.optCards_eq]
  exact option.bag_eq

theorem ChiOption.isValid {cards : Cards} {card : Card} {eat : EatCard}
    (option : ChiOption cards card eat) : ∀ temp ∈ eat.cards, temp.isValid = true := by
  obtain ⟨temp1, temp2, shape, held1, held2, -⟩ := option.pair
  intro temp member
  simp only [shape, List.mem_cons, List.not_mem_nil, or_false] at member
  rcases member with rfl | rfl
  · exact Cards.isValid_of_getCardCount_pos held1
  · exact Cards.isValid_of_getCardCount_pos held2

/-! ## What a plan takes -/

/-- A plan melds the incoming card with cards of the hand and touches no triple. -/
structure ChiPlan.Fits (card : Card) (cards : Cards) (plan : List EatCard) (left : Cards) :
    Prop where
  nonneg : left.Nonneg
  bag : card ::ₘ cards.bag = meldsBag plan + left.bag
  melds : ∀ eat ∈ plan, eat.eatCard = card ∧ (∃ combo, eat.Realises combo) ∧ eat.cards.length = 2
  few : ∀ temp ∈ meldsBag plan, cards.getCardCount temp < 3

private theorem ChiOption.meld {cards : Cards} {card : Card} {eat : EatCard}
    (option : ChiOption cards card eat) :
    eat.eatCard = card ∧ (∃ combo, eat.Realises combo) ∧ eat.cards.length = 2 := by
  obtain ⟨temp1, temp2, shape, -⟩ := option.pair
  exact ⟨option.eatCard, option.combo, by simp [shape]⟩

private theorem ChiOption.eat_bag {cards : Cards} {card : Card} {eat : EatCard}
    (option : ChiOption cards card eat) : eat.bag = card ::ₘ (eat.cards : Multiset Card) := by
  obtain ⟨combo, realises⟩ := option.combo
  rw [realises.bag, ← realises.cards, option.eatCard]

theorem ChiPlan.fits {card : Card} (valid : card.isValid = true) {cards left : Cards}
    {plan : List EatCard} (chiPlan : ChiPlan card cards plan left) (nonneg : cards.Nonneg)
    (few : cards.getCardCount card < 3) : ChiPlan.Fits card cards plan left := by
  induction chiPlan with
  | @last cards eat member =>
      obtain ⟨option, below⟩ := chiOption_of_mem_playerChi valid member
      refine ⟨?_, ?_, ?_, ?_⟩
      · exact option.optCards_nonneg nonneg
      · rw [option.bag_eq_optCards, meldsBag_cons, meldsBag_nil, option.eat_bag, add_zero,
          Multiset.cons_add]
      · intro other inPlan
        rw [List.mem_singleton.mp inPlan]
        exact option.meld
      · intro temp inPlan
        simp only [meldsBag_cons, meldsBag_nil, add_zero, option.eat_bag, Multiset.mem_cons,
          Multiset.mem_coe] at inPlan
        rcases inPlan with rfl | inEat
        · exact few
        · exact below temp inEat
  | @next cards left eat plan member copy rest ih =>
      obtain ⟨option, below⟩ := chiOption_of_mem_playerChi valid member
      have afterNonneg := option.optCards_nonneg nonneg
      have afterBag := option.bag_eq_optCards
      have counts := cards.getCardCount_optCards option.isValid (-1)
      have fewer := Cards.getCardCount_optCardCount_neg_le (cards.optCards eat.cards (-1)) card
      obtain ⟨leftNonneg, bag, melds, restFew⟩ :=
        ih (afterNonneg.optCardCount_neg copy) (by have := fewer card; have := counts card; omega)
      refine ⟨leftNonneg, ?_, ?_, ?_⟩
      · rw [afterBag, Cards.bag_eq_cons copy, bag, meldsBag_cons, option.eat_bag,
          Multiset.cons_add, Multiset.cons_add, add_assoc]
      · intro other inPlan
        rcases List.mem_cons.mp inPlan with rfl | inRest
        · exact option.meld
        · exact melds other inRest
      · intro temp inPlan
        simp only [meldsBag_cons, option.eat_bag, Multiset.mem_add, Multiset.mem_cons,
          Multiset.mem_coe] at inPlan
        rcases inPlan with (rfl | inEat) | inRest
        · exact few
        · exact below temp inEat
        · by_cases same : temp = card
          · rw [same]
            exact few
          · by_cases inEat : temp ∈ eat.cards
            · exact below temp inEat
            · -- neither `card` nor a card of this meld: its count is the original one
              have unchanged := restFew temp inRest
              rw [Cards.getCardCount_optCardCount _ valid, if_neg same, counts temp,
                List.count_eq_zero_of_not_mem inEat] at unchanged
              simpa using unchanged

private theorem meldsBag_eq_cons_usedCards {card : Card} {first : EatCard} {rest : List EatCard}
    (melds : ∀ eat ∈ first :: rest, eat.eatCard = card ∧ ∃ combo, eat.Realises combo) :
    meldsBag (first :: rest) = card ::ₘ (usedCards (first :: rest) : Multiset Card) := by
  have tail : meldsBag rest =
      ((rest.flatMap fun eat => eat.eatCard :: eat.cards : List Card) : Multiset Card) := by
    induction rest with
    | nil => rfl
    | cons eat rest ih =>
        obtain ⟨-, combo, realises⟩ := melds eat (by simp)
        have restMelds := ih fun other member => melds other (by
          rcases List.mem_cons.mp member with rfl | inRest
          · exact List.mem_cons_self
          · exact List.mem_cons_of_mem _ (List.mem_cons_of_mem _ inRest))
        rw [meldsBag_cons, restMelds, List.flatMap_cons, ← Multiset.coe_add, realises.bag,
          ← realises.cards]
        rfl
  obtain ⟨same, combo, realises⟩ := melds first List.mem_cons_self
  rw [meldsBag_cons, tail, realises.bag, ← realises.cards, same, usedCards, ← Multiset.coe_add,
    Multiset.cons_add]

theorem ChiPlan.Fits.usedCards_split {card : Card} {cards left : Cards} {plan : List EatCard}
    (fits : ChiPlan.Fits card cards plan left) (some : plan ≠ []) :
    meldsBag plan = card ::ₘ (usedCards plan : Multiset Card) ∧
      cards.bag = (usedCards plan : Multiset Card) + left.bag := by
  obtain ⟨first, rest, rfl⟩ := List.exists_cons_of_ne_nil some
  have bags := meldsBag_eq_cons_usedCards fun eat member =>
    ⟨(fits.melds eat member).1, (fits.melds eat member).2.1⟩
  refine ⟨bags, ?_⟩
  have whole := fits.bag
  rw [bags, Multiset.cons_add] at whole
  exact (Multiset.cons_inj_right _).mp whole

theorem ChiPlan.ne_nil {card : Card} {cards left : Cards} {plan : List EatCard}
    (chiPlan : ChiPlan card cards plan left) : plan ≠ [] := by
  cases chiPlan <;> exact List.cons_ne_nil _ _

/-! ## Plans and combinations of the rules -/

/-- Melds of the rules around `card` that can be drawn from `cards` and the
incoming card, use every copy of `card` and touch no triple. -/
structure Melds (card : Card) (cards : Cards) (combos : List Combo) : Prop where
  around : ∀ combo ∈ combos, card ∈ combo.bag
  drawn : (combos.map Combo.bag).sum ≤ card ::ₘ cards.bag
  every : ((combos.map Combo.bag).sum.count card : Int) = cards.getCardCount card + 1
  few : ∀ temp ∈ (combos.map Combo.bag).sum, cards.getCardCount temp ≤ 2

theorem ChiPlan.Fits.melds_of_finished {card : Card} {cards left : Cards} {plan : List EatCard}
    (fits : ChiPlan.Fits card cards plan left) (nonneg : cards.Nonneg)
    (finished : left.getCardCount card ≤ 0) : ∃ combos, Melds card cards combos := by
  have combos : ∀ eats : List EatCard,
      (∀ eat ∈ eats, eat.eatCard = card ∧ ∃ combo, eat.Realises combo) →
      ∃ combos : List Combo, (∀ combo ∈ combos, card ∈ combo.bag) ∧
        (combos.map Combo.bag).sum = meldsBag eats := by
    intro eats
    induction eats with
    | nil => exact fun _ => ⟨[], by simp, rfl⟩
    | cons eat rest ih =>
        intro melds
        obtain ⟨same, combo, realises⟩ := melds eat List.mem_cons_self
        obtain ⟨restCombos, around, bags⟩ :=
          ih fun other member => melds other (List.mem_cons_of_mem _ member)
        refine ⟨combo :: restCombos, ?_, ?_⟩
        · intro other member
          rcases List.mem_cons.mp member with rfl | inRest
          · rw [← realises.cards, same]
            exact Multiset.mem_cons_self _ _
          · exact around other inRest
        · rw [List.map_cons, List.sum_cons, bags, meldsBag_cons, realises.bag]
  obtain ⟨combos, around, bags⟩ :=
    combos plan fun eat member => ⟨(fits.melds eat member).1, (fits.melds eat member).2.1⟩
  refine ⟨combos, around, ?_, ?_, ?_⟩
  · rw [bags, fits.bag]
    exact Multiset.le_add_right _ _
  · have counts := congrArg (Multiset.count card) fits.bag
    rw [Multiset.count_cons_self, Multiset.count_add] at counts
    have leftCount := fits.nonneg.count_eq card
    have leftNonneg := fits.nonneg card
    rw [bags, nonneg.count_eq card]
    omega
  · intro temp member
    rw [bags] at member
    have := fits.few temp member
    omega

theorem exists_chiPlan_of_melds {card : Card} {cards : Cards} {combos : List Combo}
    (melds : Melds card cards combos) (nonneg : cards.Nonneg) :
    ∃ plan left, ChiPlan card cards plan left ∧ left.getCardCount card ≤ 0 := by
  induction combos generalizing cards with
  | nil =>
      have every := melds.every
      have := nonneg card
      simp only [List.map_nil, List.sum_nil, Multiset.count_zero] at every
      omega
  | cons combo rest ih =>
      obtain ⟨around, drawn, every, few⟩ := melds
      simp only [List.map_cons, List.sum_cons] at drawn every few
      have inside := around combo List.mem_cons_self
      have valid := Combo.isValid_of_mem_bag inside
      obtain ⟨eat, member, realises⟩ := exists_mem_playerChi inside
        (le_trans (Multiset.le_add_right _ _) drawn)
        fun temp inCombo => by
          have := few temp (Multiset.mem_add.mpr (.inl inCombo))
          omega
      have option := (chiOption_of_mem_playerChi valid member).1
      have afterNonneg := option.optCards_nonneg nonneg
      have afterBag := option.bag_eq_optCards
      have comboBag : combo.bag = card ::ₘ (eat.cards : Multiset Card) := by
        rw [← realises.cards, option.eatCard]
      have restDrawn : (rest.map Combo.bag).sum ≤ (cards.optCards eat.cards (-1)).bag := by
        rw [afterBag, comboBag, ← Multiset.cons_add] at drawn
        exact le_of_add_le_add_left drawn
      have restEvery : ((rest.map Combo.bag).sum.count card : Int) =
          (cards.optCards eat.cards (-1)).getCardCount card := by
        rw [comboBag, Multiset.count_add, Multiset.count_cons_self, nonneg.count_eq card,
          afterBag, Multiset.count_add] at every
        rw [afterNonneg.count_eq card]
        omega
      by_cases copy : 0 < (cards.optCards eat.cards (-1)).getCardCount card
      · have fewer := Cards.getCardCount_optCardCount_neg_le (cards.optCards eat.cards (-1)) card
        have taken := Cards.getCardCount_optCards cards option.isValid (-1)
        have restMelds :
            Melds card ((cards.optCards eat.cards (-1)).optCardCount card (-1)) rest := by
          refine ⟨?_, ?_, ?_, ?_⟩
          · exact fun other inRest => around other (List.mem_cons_of_mem _ inRest)
          · rw [← Cards.bag_eq_cons copy]
            exact restDrawn
          · rw [restEvery, Cards.getCardCount_optCardCount _ valid, if_pos rfl]
            omega
          · intro temp inRest
            have := few temp (Multiset.mem_add.mpr (.inr inRest))
            have := fewer temp
            have := taken temp
            omega
        obtain ⟨plan, left, chiPlan, finished⟩ := ih restMelds (afterNonneg.optCardCount_neg copy)
        exact ⟨eat :: plan, left, .next member copy chiPlan, finished⟩
      · exact ⟨[eat], _, .last member, not_lt.mp copy⟩

/-! ## The loops of `_checkBi` -/

def thirdMelds (cards : Cards) (card : Card) (it : EatCard) : List EatCard :=
  if 0 < (cards.optCards it.cards (-1)).getCardCount card then
    ((cards.optCards it.cards (-1)).optCardCount card (-1))._checkChi card
  else []

/-- After `it` no copy of `card` is left, or the last one can be melded. -/
def Playable (cards : Cards) (card : Card) (it : EatCard) : Prop :=
  (cards.optCards it.cards (-1)).getCardCount card ≤ 0 ∨ thirdMelds cards card it ≠ []

/-- What the inner loop has after the second melds `seen`. -/
structure BiInner.Found (cards : Cards) (card : Card) (seen : List EatCard) (loop : BiInner) :
    Prop where
  restored : loop.cards = cards
  eats2 : loop.eats2 = []
  kept : ∀ it, it ∈ loop.kept ↔ it ∈ seen ∧ Playable cards card it
  bound : ∀ bi ∈ loop.eatBi, bi.idx < loop.kept.length
  thirds : ∀ idx it, loop.kept[idx]? = some it →
    (loop.eatBi.filter (·.idx = idx)).flatMap (·.cats) = thirdMelds cards card it

private theorem filter_idx_of_bound {entries : List EatBi} {idx : Nat}
    (bound : ∀ bi ∈ entries, bi.idx < idx) : entries.filter (·.idx = idx) = [] := by
  rw [List.filter_eq_nil_iff]
  intro bi member
  have := bound bi member
  simp only [decide_eq_true_eq]
  omega

private theorem getElem?_append_singleton {Item : Type} {items : List Item} {last item : Item}
    {idx : Nat} (found : (items ++ [last])[idx]? = some item) :
    items[idx]? = some item ∨ (idx = items.length ∧ item = last) := by
  rcases Nat.lt_trichotomy idx items.length with inside | atEnd | outside
  · rw [List.getElem?_append_left inside] at found
    exact .inl found
  · subst atEnd
    simp only [List.getElem?_append_right (Nat.le_refl _), Nat.sub_self,
      List.getElem?_cons_zero, Option.some.injEq] at found
    exact .inr ⟨rfl, found.symm⟩
  · have length : (items ++ [last]).length ≤ idx := by
      simp only [List.length_append, List.length_singleton]
      omega
    rw [List.getElem?_eq_none length] at found
    exact absurd found (by simp)

private theorem BiInner.Found.keep {cards : Cards} {card : Card} {seen : List EatCard}
    {loop : BiInner} (found : loop.Found cards card seen) {it : EatCard}
    (playable : Playable cards card it) {added : List EatBi}
    (bound : ∀ bi ∈ added, bi.idx = loop.kept.length)
    (cats : added.flatMap (·.cats) = thirdMelds cards card it) :
    BiInner.Found cards card (seen ++ [it])
      { cards := cards, kept := loop.kept ++ [it], eats2 := [], eatBi := loop.eatBi ++ added } := by
  refine ⟨rfl, rfl, ?_, ?_, ?_⟩
  · intro other
    simp only [List.mem_append, List.mem_singleton, found.kept]
    constructor
    · rintro (⟨inSeen, ok⟩ | rfl)
      · exact ⟨.inl inSeen, ok⟩
      · exact ⟨.inr rfl, playable⟩
    · rintro ⟨inSeen | rfl, ok⟩
      · exact .inl ⟨inSeen, ok⟩
      · exact .inr rfl
  · intro bi member
    simp only [List.length_append, List.length_singleton]
    rcases List.mem_append.mp member with old | new
    · have := found.bound bi old
      omega
    · have := bound bi new
      omega
  · intro idx other atIdx
    rw [List.filter_append, List.flatMap_append]
    rcases getElem?_append_singleton atIdx with old | ⟨rfl, rfl⟩
    · have small : idx < loop.kept.length := (List.getElem?_eq_some_iff.mp old).1
      have noneAdded : added.filter (·.idx = idx) = [] := by
        rw [List.filter_eq_nil_iff]
        intro bi member
        have := bound bi member
        simp only [decide_eq_true_eq]
        omega
      rw [found.thirds idx other old, noneAdded]
      simp
    · have allAdded : added.filter (·.idx = loop.kept.length) = added := by
        rw [List.filter_eq_self]
        intro bi member
        simpa using bound bi member
      rw [filter_idx_of_bound found.bound, allAdded, cats, List.flatMap_nil, List.nil_append]

theorem BiInner.next_found {cards : Cards} {card : Card} {seen : List EatCard} {loop : BiInner}
    (found : loop.Found cards card seen) (it : EatCard) :
    (loop.next card it).Found cards card (seen ++ [it]) := by
  unfold BiInner.next
  rw [found.restored, found.eats2]
  by_cases copy : 0 < (cards.optCards it.cards (-1)).getCardCount card
  · have thirds : thirdMelds cards card it =
        ((cards.optCards it.cards (-1)).optCardCount card (-1))._checkChi card := if_pos copy
    simp only [copy, if_true, ← thirds, Cards.optCardCount_cancel, Cards.optCards_cancel,
      and_true]
    by_cases none : thirdMelds cards card it = []
    · have stuck : ¬ Playable cards card it := by
        rintro (noCopy | some)
        · omega
        · exact some none
      simp only [none, List.isEmpty_nil, if_true]
      refine ⟨rfl, rfl, ?_, found.bound, found.thirds⟩
      intro other
      rw [found.kept, List.mem_append, List.mem_singleton]
      constructor
      · rintro ⟨inSeen, ok⟩
        exact ⟨.inl inSeen, ok⟩
      · rintro ⟨inSeen | rfl, ok⟩
        · exact ⟨inSeen, ok⟩
        · exact absurd ok stuck
    · have notEmpty : (thirdMelds cards card it).isEmpty = false := by simpa using none
      simp only [notEmpty, Bool.false_eq_true, if_false]
      exact found.keep (.inr none) (by simp) (by simp)
  · have thirds : thirdMelds cards card it = [] := if_neg copy
    simp only [copy, if_false, Cards.optCards_cancel, List.isEmpty_nil, and_false, if_true]
    have playable : Playable cards card it := .inl (by omega)
    have nothing : ∀ bi ∈ ([] : List EatBi), bi.idx = loop.kept.length := by simp
    simpa using found.keep playable nothing thirds.symm

/-- The inner loop over all second melds. With a single copy in the hand the
source skips it, since nothing is left after the second meld. -/
theorem secondMelds_found {cards : Cards} {card : Card} (valid : card.isValid = true)
    {cardNum cut : Int} (copies : cardNum = 2 ∨ cards.getCardCount card ≤ 0) (copy : 0 ≤ cut) :
    (secondMelds cards card cardNum cut).Found cards card (cards._checkChi card) := by
  have loop : ∀ (rest seen : List EatCard) (loop : BiInner), loop.Found cards card seen →
      (rest.foldl (BiInner.next card) loop).Found cards card (seen ++ rest) := by
    intro rest
    induction rest with
    | nil =>
        intro seen loop found
        simpa using found
    | cons it rest ih =>
        intro seen loop found
        simpa using ih (seen ++ [it]) _ (BiInner.next_found found it)
  have start : BiInner.Found cards card [] { cards := cards } :=
    ⟨rfl, rfl, by simp, by simp, by simp⟩
  unfold secondMelds
  rw [if_pos copy]
  dsimp only
  split
  · simpa using loop (cards._checkChi card) [] _ start
  · next notTwo =>
    have noCopy : ∀ it ∈ cards._checkChi card,
        (cards.optCards it.cards (-1)).getCardCount card ≤ 0 := by
      intro it member
      have option := (chiOption_of_mem_playerChi valid member).1
      rw [cards.getCardCount_optCards option.isValid]
      omega
    refine ⟨rfl, rfl, ?_, by simp, ?_⟩
    · intro it
      refine ⟨fun member => ⟨member, .inl (noCopy it member)⟩, fun ok => ok.1⟩
    · intro idx it atIdx
      have := noCopy it (List.mem_of_getElem? atIdx)
      rw [thirdMelds, if_neg (by omega)]
      rfl

theorem secondMelds_none {cards : Cards} {card : Card} {cardNum cut : Int} (noCopy : cut < 0) :
    secondMelds cards card cardNum cut = { cards := cards } := by
  unfold secondMelds
  rw [if_neg (by omega)]

/-- After the option `eat` either no copy of `card` is left or some second meld
does. -/
def Extends (cards : Cards) (card : Card) (eat : EatCard) : Prop :=
  (cards.optCards eat.cards (-1)).getCardCount card < 0 ∨
    ∃ second ∈ (cards.optCards eat.cards (-1))._checkChi card,
      Playable (cards.optCards eat.cards (-1)) card second

/-- The follow-ups listed for the option `eat`. -/
def FollowUp (cards : Cards) (card : Card) (eat : EatCard) (cats : List EatCard) : Prop :=
  0 ≤ (cards.optCards eat.cards (-1)).getCardCount card ∧
    ∃ second ∈ (cards.optCards eat.cards (-1))._checkChi card,
      Playable (cards.optCards eat.cards (-1)) card second ∧
        cats = second :: thirdMelds (cards.optCards eat.cards (-1)) card second

/-- What the outer loop has after the options `seen`. -/
structure BiOuter.Found (cards : Cards) (card : Card) (seen : List EatCard) (loop : BiOuter) :
    Prop where
  restored : loop.cards = cards
  kept : ∀ eat, eat ∈ loop.kept ↔ eat ∈ seen ∧ Extends cards card eat
  bound : ∀ bi ∈ loop.bi, bi.idx < loop.kept.length
  followUps : ∀ idx eat, loop.kept[idx]? = some eat →
    ∀ cats, ⟨idx, cats⟩ ∈ loop.bi ↔ FollowUp cards card eat cats

private theorem BiOuter.Found.keep {cards : Cards} {card : Card} {seen : List EatCard}
    {loop : BiOuter} (found : loop.Found cards card seen) {eat : EatCard}
    (continues : Extends cards card eat) {added : List EatBi}
    (bound : ∀ bi ∈ added, bi.idx = loop.kept.length)
    (cats : ∀ cats, ⟨loop.kept.length, cats⟩ ∈ added ↔ FollowUp cards card eat cats) :
    BiOuter.Found cards card (seen ++ [eat])
      { cards := cards, kept := loop.kept ++ [eat], bi := loop.bi ++ added } := by
  refine ⟨rfl, ?_, ?_, ?_⟩
  · intro other
    simp only [List.mem_append, List.mem_singleton, found.kept]
    constructor
    · rintro (⟨inSeen, ok⟩ | rfl)
      · exact ⟨.inl inSeen, ok⟩
      · exact ⟨.inr rfl, continues⟩
    · rintro ⟨inSeen | rfl, ok⟩
      · exact .inl ⟨inSeen, ok⟩
      · exact .inr rfl
  · intro bi member
    simp only [List.length_append, List.length_singleton]
    rcases List.mem_append.mp member with old | new
    · have := found.bound bi old
      omega
    · have := bound bi new
      omega
  · intro idx other atIdx choices
    rw [List.mem_append]
    rcases getElem?_append_singleton atIdx with old | ⟨rfl, rfl⟩
    · have small : idx < loop.kept.length := (List.getElem?_eq_some_iff.mp old).1
      rw [found.followUps idx other old]
      refine or_iff_left fun new => ?_
      have same : idx = loop.kept.length := bound _ new
      omega
    · rw [cats]
      refine or_iff_right fun old => ?_
      have small : loop.kept.length < loop.kept.length := found.bound _ old
      omega

theorem BiOuter.next_found {cards : Cards} {card : Card} (valid : card.isValid = true)
    {cardNum : Int} {seen : List EatCard} {loop : BiOuter} (found : loop.Found cards card seen)
    {eat : EatCard}
    (copies : cardNum = 2 ∨ (cards.optCards eat.cards (-1)).getCardCount card ≤ 0) :
    (loop.next card cardNum eat).Found cards card (seen ++ [eat]) := by
  unfold BiOuter.next
  rw [found.restored]
  extract_lets after cut second eats counted
  by_cases copy : 0 ≤ cut
  · have secondFound : second.Found after card (after._checkChi card) :=
      secondMelds_found valid copies copy
    have restored : counted = cards := by
      simp only [counted, secondFound.restored, after, Cards.optCards_cancel]
    rw [restored]
    by_cases none : second.kept = []
    · have stuck : ¬ Extends cards card eat := by
        rintro (noCopy | ⟨it, member, playable⟩)
        · exact absurd noCopy (Int.not_lt.mpr copy)
        · have inKept := (secondFound.kept it).mpr ⟨member, playable⟩
          simp [none] at inKept
      simp only [eats, none, List.isEmpty_nil, copy, and_self, if_true]
      refine ⟨rfl, ?_, found.bound, found.followUps⟩
      intro other
      rw [found.kept, List.mem_append, List.mem_singleton]
      constructor
      · rintro ⟨inSeen, ok⟩
        exact ⟨.inl inSeen, ok⟩
      · rintro ⟨inSeen | rfl, ok⟩
        · exact ⟨inSeen, ok⟩
        · exact absurd ok stuck
    · have notEmpty : second.kept.isEmpty = false := by simpa using none
      simp only [eats, notEmpty, Bool.false_eq_true, false_and, if_false]
      refine found.keep ?_ ?_ ?_
      · obtain ⟨it, member⟩ := List.exists_mem_of_ne_nil _ none
        obtain ⟨inChi, playable⟩ := (secondFound.kept it).mp member
        exact .inr ⟨it, inChi, playable⟩
      · intro bi member
        obtain ⟨entry, -, rfl⟩ := List.mem_map.mp member
        rfl
      · intro cats
        simp only [List.mem_map, EatBi.mk.injEq, true_and, Prod.exists]
        constructor
        · rintro ⟨it, idx, member, rfl⟩
          have atIdx := List.mk_mem_zipIdx_iff_getElem?.mp member
          obtain ⟨inChi, playable⟩ := (secondFound.kept it).mp (List.mem_of_getElem? atIdx)
          exact ⟨copy, it, inChi, playable, by rw [secondFound.thirds idx it atIdx]⟩
        · rintro ⟨-, it, inChi, playable, rfl⟩
          obtain ⟨idx, atIdx⟩ :=
            List.getElem?_of_mem ((secondFound.kept it).mpr ⟨inChi, playable⟩)
          refine ⟨it, idx, List.mk_mem_zipIdx_iff_getElem?.mpr atIdx, ?_⟩
          rw [secondFound.thirds idx it atIdx]
  · have nothing : second = { cards := after } := secondMelds_none (by omega)
    have noneLeft : Extends cards card eat := .inl (Int.not_le.mp copy)
    simp only [eats, counted, nothing, List.isEmpty_nil, copy, and_false, if_false, if_true, after,
      Cards.optCards_cancel]
    have noFollowUp : ∀ cats, ⟨loop.kept.length, cats⟩ ∈ ([] : List EatBi) ↔
        FollowUp cards card eat cats := by
      intro cats
      refine ⟨fun member => absurd member List.not_mem_nil, fun followUp => ?_⟩
      exact absurd followUp.1 copy
    simpa using found.keep noneLeft (by simp) noFollowUp

/-! ## What `checkChi` offers -/

private theorem ChiPlan.getCardCount_le {card : Card} (valid : card.isValid = true)
    {cards left : Cards} {plan : List EatCard} (chiPlan : ChiPlan card cards plan left) :
    left.getCardCount card + plan.length ≤ cards.getCardCount card + 1 := by
  induction chiPlan with
  | @last cards eat member =>
      have option := (chiOption_of_mem_playerChi valid member).1
      rw [cards.getCardCount_optCards option.isValid]
      simp only [List.length_singleton]
      omega
  | @next cards left eat plan member copy rest ih =>
      have option := (chiOption_of_mem_playerChi valid member).1
      rw [Cards.getCardCount_optCardCount _ valid, cards.getCardCount_optCards option.isValid] at ih
      simp only [if_true] at ih
      simp only [List.length_cons]
      push_cast
      omega

private theorem FollowUp.plans {card : Card} (valid : card.isValid = true) {cards : Cards}
    {eat : EatCard} {cats : List EatCard} (member : eat ∈ cards._checkChi card)
    (followUp : FollowUp (cards.optCardCount card (-1)) card eat cats) :
    ∃ second thirds left, cats = second :: thirds ∧ ChiPlan card cards [eat, second] left ∧
      (thirds = [] → left.getCardCount card ≤ 0) ∧
      ∀ third ∈ thirds, ∃ left, ChiPlan card cards [eat, second, third] left := by
  obtain ⟨copy, second, inSecond, playable, rfl⟩ := followUp
  rw [Cards.optCards_optCardCount] at copy inSecond playable ⊢
  have copyLeft : 0 < (cards.optCards eat.cards (-1)).getCardCount card := by
    rw [Cards.getCardCount_optCardCount _ valid, if_pos rfl] at copy
    omega
  refine ⟨second, _, _, rfl, .next member copyLeft (.last inSecond), ?_, ?_⟩
  · intro noThird
    rcases playable with noCopy | someThird
    · exact noCopy
    · exact absurd noThird someThird
  · intro third inThird
    by_cases another : 0 < (((cards.optCards eat.cards (-1)).optCardCount card (-1)).optCards
        second.cards (-1)).getCardCount card
    · rw [thirdMelds, if_pos another] at inThird
      exact ⟨_, .next member copyLeft (.next inSecond another (.last inThird))⟩
    · rw [thirdMelds, if_neg another] at inThird
      exact absurd inThird List.not_mem_nil

private theorem ChiPlan.extends {card : Card} (valid : card.isValid = true) {cards left : Cards}
    {eat : EatCard} {plan : List EatCard} (chiPlan : ChiPlan card cards (eat :: plan) left)
    (finished : left.getCardCount card ≤ 0) :
    eat ∈ cards._checkChi card ∧ Extends (cards.optCardCount card (-1)) card eat := by
  unfold Extends
  rw [Cards.optCards_optCardCount]
  cases chiPlan with
  | last member =>
      refine ⟨member, .inl ?_⟩
      rw [Cards.getCardCount_optCardCount _ valid, if_pos rfl]
      omega
  | next member copy rest =>
      refine ⟨member, .inr ?_⟩
      cases rest with
      | last inSecond => exact ⟨_, inSecond, .inl finished⟩
      | next inSecond another rest =>
          refine ⟨_, inSecond, .inr ?_⟩
          rw [thirdMelds, if_pos another]
          cases rest with
          | last inThird => exact List.ne_nil_of_mem inThird
          | next inThird _ _ => exact List.ne_nil_of_mem inThird

namespace HandCards

/-- The tests `checkChi` makes before it looks for melds. -/
structure ChiGates (s : HandCards) (card : Card) : Prop where
  valid : card.isValid = true
  enabled : s.isDisableEat = false
  notPassed : s.isPass card = false
  few : s.getCardCount card < 3
  active : 2 < s.getActiveCard

theorem checkChi_eq {s : HandCards} {card : Card} (gates : s.ChiGates card)
    (prior : EatChiCard) :
    s.checkChi card prior =
      if s.getCardCount card = 0 then
        (s, { eats := s.cards._checkChi card, bi := [] }, !(s.cards._checkChi card).isEmpty)
      else s._checkBi card { eats := s.cards._checkChi card, bi := [] } (s.getCardCount card) := by
  have few := gates.few
  have active := gates.active
  simp [checkChi, gates.valid, gates.enabled, gates.notPassed, not_le.mpr few, not_le.mpr active]

theorem checkChi_of_not_gates {s : HandCards} {card : Card} (closed : ¬ s.ChiGates card)
    (prior : EatChiCard) : s.checkChi card prior = (s, prior, false) := by
  simp only [checkChi]
  split
  · rfl
  · next valid =>
    split
    · rfl
    · next enabled =>
      split
      · rfl
      · next notPassed =>
        split
        · rfl
        · next few =>
          split
          · rfl
          · next active =>
            refine absurd ⟨?_, ?_, ?_, not_le.mp few, not_le.mp active⟩ closed
            · simpa using valid
            · simpa using enabled
            · simpa using notPassed

theorem checkChi_gates {s : HandCards} {card : Card} {prior : EatChiCard}
    (offered : (s.checkChi card prior).2.2 = true) : s.ChiGates card := by
  by_contra closed
  rw [checkChi_of_not_gates closed] at offered
  exact absurd offered (by simp)

/-- With copies in the hand the offer is what the outer loop found, and the
count array is back where it was. -/
theorem checkBi_found {s : HandCards} {card : Card} (gates : s.ChiGates card)
    (copies : 0 < s.getCardCount card) :
    ∃ loop : BiOuter,
      loop.Found (s.cards.optCardCount card (-1)) card (s.cards._checkChi card) ∧
      s._checkBi card { eats := s.cards._checkChi card, bi := [] } (s.getCardCount card) =
        (s, { eats := loop.kept, bi := loop.bi }, !loop.kept.isEmpty) := by
  have few := gates.few
  have run : ∀ (rest seen : List EatCard) (loop : BiOuter),
      loop.Found (s.cards.optCardCount card (-1)) card seen →
      (∀ eat ∈ rest, eat ∈ s.cards._checkChi card) →
      (rest.foldl (BiOuter.next card (s.getCardCount card)) loop).Found
        (s.cards.optCardCount card (-1)) card (seen ++ rest) := by
    intro rest
    induction rest with
    | nil =>
        intro seen loop found _
        simpa using found
    | cons eat rest ih =>
        intro seen loop found members
        have option := (chiOption_of_mem_playerChi gates.valid
          (members eat List.mem_cons_self)).1
        have oneOrTwo : s.getCardCount card = 2 ∨
            ((s.cards.optCardCount card (-1)).optCards eat.cards (-1)).getCardCount card ≤ 0 := by
          rw [Cards.getCardCount_optCards _ option.isValid,
            Cards.getCardCount_optCardCount _ gates.valid, if_pos rfl]
          simp only [HandCards.getCardCount] at few copies ⊢
          omega
        simpa using ih (seen ++ [eat]) _ (BiOuter.next_found gates.valid found oneOrTwo)
          fun other member => members other (List.mem_cons_of_mem _ member)
  have start : BiOuter.Found (s.cards.optCardCount card (-1)) card []
      { cards := s.cards.optCardCount card (-1), bi := [] } :=
    ⟨rfl, by simp, by simp, by simp⟩
  have found := run (s.cards._checkChi card) [] _ start fun _ member => member
  rw [List.nil_append] at found
  refine ⟨_, found, ?_⟩
  unfold _checkBi
  by_cases none : s.cards._checkChi card = []
  · simp [none]
  · have notEmpty : (s.cards._checkChi card).isEmpty = false := by simpa using none
    simp only [notEmpty, Bool.false_eq_true, if_false, found.restored, Cards.optCardCount_cancel]

theorem checkChi_fst (s : HandCards) (card : Card) (prior : EatChiCard) (nonneg : s.cards.Nonneg) :
    (s.checkChi card prior).1 = s := by
  by_cases gates : s.ChiGates card
  · rw [checkChi_eq gates]
    split
    · rfl
    · next some =>
      have := nonneg card
      obtain ⟨loop, -, result⟩ :=
        checkBi_found gates (by simp only [HandCards.getCardCount] at some ⊢; omega)
      rw [result]
  · rw [checkChi_of_not_gates gates]

theorem checkChi_offers {s : HandCards} {card : Card} {prior : EatChiCard} {plan : List EatCard}
    (gates : s.ChiGates card) (nonneg : s.cards.Nonneg)
    (offers : (s.checkChi card prior).2.1.Offers plan) :
    ∃ left, ChiPlan card s.cards plan left := by
  rw [checkChi_eq gates] at offers
  split at offers
  · obtain ⟨idx, eat, atIdx, rfl | ⟨bi, member, -⟩⟩ := offers
    · exact ⟨_, .last (List.mem_of_getElem? atIdx)⟩
    · exact absurd member List.not_mem_nil
  · next some =>
    have copies : 0 < s.getCardCount card := lt_of_le_of_ne (nonneg card) (Ne.symm some)
    obtain ⟨loop, found, result⟩ := checkBi_found gates copies
    rw [result] at offers
    obtain ⟨idx, eat, atIdx, ending⟩ := offers
    have member := ((found.kept eat).mp (List.mem_of_getElem? atIdx)).1
    rcases ending with rfl | ⟨bi, inBi, rfl, second, thirds, cats, ending⟩
    · exact ⟨_, .last member⟩
    · obtain ⟨_, _, left, shape, two, -, three⟩ :=
        FollowUp.plans gates.valid member ((found.followUps _ eat atIdx bi.cats).mp inBi)
      cases cats.symm.trans shape
      rcases ending with rfl | ⟨third, inThirds, rfl⟩
      · exact ⟨left, two⟩
      · exact three third inThirds

/-- A complete plan melds every copy of the card. -/
theorem checkChi_complete {s : HandCards} {card : Card} {prior : EatChiCard}
    {plan : List EatCard} (gates : s.ChiGates card) (nonneg : s.cards.Nonneg)
    (complete : (s.checkChi card prior).2.1.Complete plan) :
    ∃ left, ChiPlan card s.cards plan left ∧ left.getCardCount card ≤ 0 := by
  have few := gates.few
  simp only [HandCards.getCardCount] at few
  rw [checkChi_eq gates] at complete
  split at complete
  · next none =>
    obtain ⟨idx, eat, atIdx, ⟨rfl, -⟩ | ⟨bi, member, -⟩⟩ := complete
    · have chiPlan := ChiPlan.last (List.mem_of_getElem? atIdx)
      have counts := chiPlan.getCardCount_le gates.valid
      simp only [HandCards.getCardCount] at none
      exact ⟨_, chiPlan, by simp only [List.length_singleton] at counts; omega⟩
    · exact absurd member List.not_mem_nil
  · next some =>
    have copies : 0 < s.getCardCount card := lt_of_le_of_ne (nonneg card) (Ne.symm some)
    obtain ⟨loop, found, result⟩ := checkBi_found gates copies
    rw [result] at complete
    obtain ⟨idx, eat, atIdx, ending⟩ := complete
    obtain ⟨member, continues⟩ := (found.kept eat).mp (List.mem_of_getElem? atIdx)
    rcases ending with ⟨rfl, noFollowUp⟩ | ⟨bi, inBi, rfl, second, thirds, cats, ending⟩
    · refine ⟨_, .last member, ?_⟩
      rcases continues with noCopy | ⟨second, inSecond, playable⟩
      · rw [Cards.optCards_optCardCount, Cards.getCardCount_optCardCount _ gates.valid,
          if_pos rfl] at noCopy
        omega
      · by_contra copy
        -- a copy would be left, so a follow-up with this index is listed
        refine noFollowUp _ ((found.followUps idx eat atIdx _).mpr
          ⟨?_, second, inSecond, playable, rfl⟩) rfl
        rw [Cards.optCards_optCardCount, Cards.getCardCount_optCardCount _ gates.valid, if_pos rfl]
        omega
    · obtain ⟨_, _, left, shape, two, finished, three⟩ :=
        FollowUp.plans gates.valid member ((found.followUps _ eat atIdx bi.cats).mp inBi)
      cases cats.symm.trans shape
      rcases ending with ⟨noThird, rfl⟩ | ⟨third, inThirds, rfl⟩
      · exact ⟨left, two, finished noThird⟩
      · obtain ⟨left, chiPlan⟩ := three third inThirds
        have counts := chiPlan.getCardCount_le gates.valid
        refine ⟨left, chiPlan, ?_⟩
        simp only [List.length_cons, List.length_nil] at counts
        omega

/-- The offer succeeds exactly when some plan melds every copy. -/
theorem checkChi_iff {s : HandCards} {card : Card} (prior : EatChiCard)
    (gates : s.ChiGates card) (nonneg : s.cards.Nonneg) :
    (s.checkChi card prior).2.2 = true ↔
      ∃ plan left, ChiPlan card s.cards plan left ∧ left.getCardCount card ≤ 0 := by
  constructor
  · intro offered
    have some : ∃ plan, (s.checkChi card prior).2.1.Complete plan := by
      rw [checkChi_eq gates] at offered ⊢
      split at offered
      · next none =>
        rw [if_pos none]
        exact EatChiCard.exists_complete (by simpa using offered) (by simp)
      · next some =>
        have copies : 0 < s.getCardCount card := lt_of_le_of_ne (nonneg card) (Ne.symm some)
        obtain ⟨loop, found, result⟩ := checkBi_found gates copies
        rw [if_neg some, result]
        rw [result] at offered
        refine EatChiCard.exists_complete (by simpa using offered) ?_
        intro bi member
        have atIdx := List.getElem?_eq_getElem (found.bound bi member)
        obtain ⟨-, second, -, -, shape⟩ := (found.followUps _ _ atIdx bi.cats).mp member
        simp [shape]
    obtain ⟨plan, complete⟩ := some
    exact ⟨plan, checkChi_complete gates nonneg complete⟩
  · rintro ⟨plan, left, chiPlan, finished⟩
    obtain ⟨eat, rest, rfl⟩ : ∃ eat rest, plan = eat :: rest := by
      cases chiPlan <;> exact ⟨_, _, rfl⟩
    obtain ⟨member, continues⟩ := chiPlan.extends gates.valid finished
    rw [checkChi_eq gates]
    split
    · simpa using List.ne_nil_of_mem member
    · next some =>
      have copies : 0 < s.getCardCount card := lt_of_le_of_ne (nonneg card) (Ne.symm some)
      obtain ⟨loop, found, result⟩ := checkBi_found gates copies
      rw [result]
      simpa using List.ne_nil_of_mem ((found.kept eat).mpr ⟨member, continues⟩)

end HandCards

end CLibs.Cardlib
