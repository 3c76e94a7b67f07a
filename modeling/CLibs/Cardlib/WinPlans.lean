import CLibs.Cardlib.Bookkeeping

/-!
# Winning plans

What it means to win, stated on the cards alone, and that the win checks find
exactly that: every plan they list is legal, and no legal decomposition beats
the best plan of the list.
-/

set_option autoImplicit false

namespace CLibs.Cardlib

open HuSearch

def pengEats : Option Card → List EatCard
  | none => []
  | some card => [pengEat card]

/-- A way to split the cards of a hand other than its triples. -/
structure Decomposition where
  peng : Option Card
  combos : Multiset Combo
  pair : Option Card

namespace Decomposition

def bag (split : Decomposition) : Multiset Card :=
  meldsBag (pengEats split.peng) + split.combos.bind Combo.bag + meldsBag (pairEats split.pair)

def points (split : Decomposition) : Nat :=
  meldsPoints (pengEats split.peng) + combosPoints split.combos

/-- The decomposition is one of `hand` and the incoming cards: a peng is one of
an incoming card, and a pair takes a pao or ti on the table. -/
structure Splits (split : Decomposition) (hand : Cards) (incoming : Multiset Card)
    (table : List EatCard) : Prop where
  cover : split.bag = (kanless hand).bag + incoming
  peng : ∀ card, split.peng = some card → card ∈ incoming
  pair : split.pair.isSome → ∃ eat ∈ table, eat.isFour = true

def total (split : Decomposition) (hand : Cards) (table : List EatCard) : Nat :=
  meldsPoints table + meldsPoints (kanEats hand) + split.points

end Decomposition

/-- A plan that wins with `hand` and the incoming cards next to the melds of
`table`: the triples as kans, at most one peng of an incoming card, runs,
2-7-10s and santas, and at most one pair. -/
structure LegalEntry (hand : Cards) (incoming : Multiset Card) (table : List EatCard)
    (entry : EatHuCards) : Prop where
  bag : meldsBag entry.huCards = hand.bag + incoming
  shape : ∃ peng chis pair,
    entry.huCards = kanEats hand ++ pengEats peng ++ chis ++ pairEats pair ∧
      (∀ card, peng = some card → card ∈ incoming) ∧
      (∀ eat ∈ chis, ∃ combo, eat.Realises combo) ∧
      (pair.isSome → ∃ eat ∈ table, eat.isFour = true)
  xi : entry.xi = (meldsPoints table : Int) + (meldsPoints entry.huCards : Int)
  enough : 15 ≤ entry.xi

/-! ## Records and combinations -/

theorem exists_combos {eats : List EatCard} (melds : ∀ eat ∈ eats, ∃ combo, eat.Realises combo) :
    ∃ combos : Multiset Combo,
      combos.bind Combo.bag = meldsBag eats ∧ combosPoints combos = meldsPoints eats := by
  induction eats with
  | nil => exact ⟨0, rfl, rfl⟩
  | cons eat rest ih =>
      obtain ⟨combo, realises⟩ := melds eat List.mem_cons_self
      obtain ⟨combos, bag, points⟩ :=
        ih fun other member => melds other (List.mem_cons_of_mem _ member)
      refine ⟨combo ::ₘ combos, ?_, ?_⟩
      · rw [Multiset.cons_bind, bag, meldsBag_cons, realises.bag]
      · rw [combosPoints_cons, points, meldsPoints_cons, realises.points]

@[simp] theorem meldsPoints_pairEats (pair : Option Card) : meldsPoints (pairEats pair) = 0 := by
  cases pair <;> rfl

/-! ## One search -/

section Search

variable {hand rest : Cards} {incoming : Multiset Card} {table : List EatCard} {peng : Option Card}
  {paoTimes : UInt8}

theorem legalEntry_of_wins {entry : EatHuCards}
    (range : rest.UpTo 3)
    (cover : meldsBag (pengEats peng) + rest.bag = (kanless hand).bag + incoming)
    (pengIncoming : ∀ card, peng = some card → card ∈ incoming)
    (pao : paoTimes ≠ 0 → ∃ eat ∈ table, eat.isFour = true)
    (wins : Wins paoTimes rest
      ((meldsPoints table : Int) + (meldsPoints (kanEats hand ++ pengEats peng) : Int))
      (kanEats hand ++ pengEats peng) entry) :
    LegalEntry hand incoming table entry ∧
      ∃ split : Decomposition, split.Splits hand incoming table ∧
        entry.xi = (split.total hand table : Int) := by
  obtain ⟨chis, pair, huCards, melds, bag, xi, enough, pairNeedsPao⟩ := wins.split range
  obtain ⟨combos, combosBag, points⟩ := exists_combos melds
  have pairPao : pair.isSome → ∃ eat ∈ table, eat.isFour = true :=
    fun some => pao (pairNeedsPao some)
  rw [meldsBag_append] at bag
  refine ⟨⟨?_, ⟨peng, chis, pair, huCards, pengIncoming, melds, pairPao⟩, ?_, enough⟩,
    ⟨peng, combos, pair⟩, ⟨?_, pengIncoming, pairPao⟩, ?_⟩
  · rw [huCards, ← bag_kanless hand]
    simp only [meldsBag_append]
    rw [add_assoc _ (kanless hand).bag, ← cover, ← bag]
    abel
  · rw [xi, huCards]
    simp only [meldsPoints_append, meldsPoints_pairEats]
    push_cast
    ring
  · rw [Decomposition.bag, combosBag, add_assoc, bag, cover]
  · rw [xi, Decomposition.total, Decomposition.points, points, meldsPoints_append]
    push_cast
    ring

theorem exists_wins_of_splits {split : Decomposition} (samePeng : split.peng = peng)
    (splits : split.Splits hand incoming table) (range : rest.UpTo 3)
    (cover : meldsBag (pengEats peng) + rest.bag = (kanless hand).bag + incoming)
    (pao : (∃ eat ∈ table, eat.isFour = true) → paoTimes ≠ 0)
    (enough : 15 ≤ split.total hand table) :
    ∃ entry, Wins paoTimes rest
        ((meldsPoints table : Int) + (meldsPoints (kanEats hand ++ pengEats peng) : Int))
        (kanEats hand ++ pengEats peng) entry ∧
      entry.xi = (split.total hand table : Int) := by
  have restCover : split.combos.bind Combo.bag + meldsBag (pairEats split.pair) = rest.bag := by
    have whole := splits.cover
    rw [Decomposition.bag, samePeng, ← cover, add_assoc] at whole
    exact add_left_cancel whole
  have total : (split.total hand table : Int) =
      (meldsPoints table : Int) + (meldsPoints (kanEats hand ++ pengEats peng) : Int) +
        (combosPoints split.combos : Int) := by
    rw [Decomposition.total, Decomposition.points, samePeng, meldsPoints_append]
    push_cast
    ring
  rw [total]
  refine exists_wins_of_cover split.combos range restCover (fun some => pao (splits.pair some)) ?_
  rw [← total, needHuXi]
  exact_mod_cast enough

end Search

/-! ## Searching a hand -/

/-- What an incoming card adds to the hand; the invalid card stands for none. -/
def incoming (card : Card) : Multiset Card := if card.isValid then {card} else 0

namespace HandCards

theorem Bookkeeping.paoTimes_ne_zero {s : HandCards} (books : s.Bookkeeping) :
    s.paoTimes ≠ 0 ↔ ∃ eat ∈ s.eatCards, eat.isFour = true := by
  rw [← List.countP_pos_iff, ← books.paoTimes, Ne, ← UInt8.toNat_inj]
  exact Nat.pos_iff_ne_zero.symm

private theorem counted_cover (s : HandCards) (card : Card) (paohu : Bool)
    (range : s.cards.UpTo 3) :
    (if paohu then kanless s.cards else (kanless s.cards).optCardCount card 1).UpTo 3 ∧
      (if paohu then kanless s.cards else (kanless s.cards).optCardCount card 1).bag =
        (kanless s.cards).bag + if paohu then 0 else incoming card := by
  have few := kanless_upTo range
  cases paohu with
  | true =>
      refine ⟨fun other => ?_, (add_zero _).symm⟩
      have := few other
      simp only [if_true]
      omega
  | false =>
      simp only [Bool.false_eq_true, if_false]
      cases valid : card.isValid with
      | true =>
          refine ⟨fun other => ?_, ?_⟩
          · have := few other
            rw [Cards.getCardCount_optCardCount _ valid]
            split <;> omega
          · rw [Cards.bag_optCardCount_one valid (few card).1]
            simp only [incoming, valid, if_true]
            rw [add_comm, Multiset.singleton_add]
      | false =>
          rw [Cards.optCardCount_of_not_isValid _ valid]
          refine ⟨fun other => ?_, ?_⟩
          · have := few other
            omega
          · simp [incoming, valid]

private theorem peng_cover (s : HandCards) {card : Card} (range : s.cards.UpTo 3)
    (two : (kanless s.cards).getCardCount card = 2) :
    ((kanless s.cards).setCardCount card 0).UpTo 3 ∧
      meldsBag (pengEats (some card)) + ((kanless s.cards).setCardCount card 0).bag =
        (kanless s.cards).bag + incoming card := by
  have few := kanless_upTo range
  have held : 0 < (kanless s.cards).getCardCount card := by omega
  have valid := Cards.isValid_of_getCardCount_pos held
  refine ⟨fun other => ?_, ?_⟩
  · have := few other
    rw [Cards.getCardCount_setCardCount _ valid]
    split <;> omega
  · ext other
    simp only [pengEats, meldsBag_cons, meldsBag_nil, pengEat, EatCard.bag, incoming, valid,
      if_true, Multiset.count_add, add_zero, Multiset.count_replicate,
      Multiset.count_singleton, Cards.count_bag, Cards.getCardCount_setCardCount _ valid]
    by_cases same : other = card
    · simp [same, two]
    · simp [same, Ne.symm same]

theorem Finds.legal {s : HandCards} {card : Card} {paohu : Bool} {entry : EatHuCards}
    (found : s.Finds card paohu entry) (books : s.Bookkeeping) (range : s.cards.UpTo 3)
    (noPeng : paohu = true → (kanless s.cards).getCardCount card ≠ 2) :
    LegalEntry s.cards (if paohu then 0 else incoming card) s.eatCards entry ∧
      ∃ split : Decomposition,
        split.Splits s.cards (if paohu then 0 else incoming card) s.eatCards ∧
          entry.xi = (split.total s.cards s.eatCards : Int) := by
  unfold Finds at found
  rw [books.huXi] at found
  rcases found with ⟨two, wins⟩ | wins
  · cases paohu with
    | true => exact absurd two (noPeng rfl)
    | false =>
        obtain ⟨restRange, cover⟩ := peng_cover s range two
        refine legalEntry_of_wins restRange cover ?_ books.paoTimes_ne_zero.mp wins
        intro other same
        cases same
        have held : 0 < (kanless s.cards).getCardCount card := by omega
        simp [incoming, Cards.isValid_of_getCardCount_pos held]
  · obtain ⟨restRange, cover⟩ := counted_cover s card paohu range
    have plain : kanEats s.cards = kanEats s.cards ++ pengEats none := (List.append_nil _).symm
    rw [plain] at wins
    refine legalEntry_of_wins restRange ?_ (by simp) books.paoTimes_ne_zero.mp wins
    rw [cover]
    simp [pengEats]

theorem exists_finds {s : HandCards} {card : Card} {paohu : Bool} {split : Decomposition}
    (splits : split.Splits s.cards (if paohu then 0 else incoming card) s.eatCards)
    (books : s.Bookkeeping) (range : s.cards.UpTo 3)
    (enough : 15 ≤ split.total s.cards s.eatCards) :
    ∃ entry, s.Finds card paohu entry ∧ entry.xi = (split.total s.cards s.eatCards : Int) := by
  unfold Finds
  rw [books.huXi]
  cases samePeng : split.peng with
  | none =>
      obtain ⟨restRange, cover⟩ := counted_cover s card paohu range
      obtain ⟨entry, wins, xi⟩ := exists_wins_of_splits samePeng splits restRange
        (by rw [cover]; simp [pengEats]) books.paoTimes_ne_zero.mpr enough
      rw [pengEats, List.append_nil] at wins
      exact ⟨entry, .inr wins, xi⟩
  | some pengCard =>
      have inIncoming := splits.peng pengCard samePeng
      cases paohu with
      | true => simp at inIncoming
      | false =>
          simp only [Bool.false_eq_true, if_false] at inIncoming splits
          obtain rfl : pengCard = card := by
            unfold incoming at inIncoming
            split at inIncoming
            · simpa using inIncoming
            · simp at inIncoming
          have two : (kanless s.cards).getCardCount pengCard = 2 := by
            have most := (kanless_upTo range pengCard).2
            have three : 3 ≤ split.bag.count pengCard := by
              simp only [Decomposition.bag, samePeng, pengEats, meldsBag_cons, meldsBag_nil,
                pengEat, EatCard.bag, Multiset.count_add, Multiset.count_replicate_self]
              omega
            have one : (incoming pengCard).count pengCard ≤ 1 := by
              unfold incoming
              split <;> simp
            rw [splits.cover, Multiset.count_add, Cards.count_bag] at three
            omega
          obtain ⟨restRange, cover⟩ := peng_cover s range two
          obtain ⟨entry, wins, xi⟩ := exists_wins_of_splits samePeng splits restRange
            cover books.paoTimes_ne_zero.mpr enough
          exact ⟨entry, .inl ⟨two, wins⟩, xi⟩

/-! ## The win checks -/

/-- The states the win checks are specified on: right counters, no quadruple in
the hand, and four copies of each card with the incoming one. -/
structure Ready (s : HandCards) (card : Card) : Prop where
  books : s.Bookkeeping
  range : ∀ i, 0 ≤ s.cards i ∧ s.cards i ≤ 3
  copies : ∀ i, (incoming card + s.bag).count (cardAt i) ≤ 4

theorem Ready.upTo {s : HandCards} {card : Card} (ready : s.Ready card) : s.cards.UpTo 3 := by
  intro other
  cases valid : other.isValid with
  | true =>
      rw [Cards.getCardCount_of_isValid _ valid]
      exact ready.range _
  | false => simp [Cards.getCardCount, valid]

theorem checkPao_isValid {s : HandCards} {card : Card} {isOut : Bool}
    (allowed : s.checkPao card isOut = true) : card.isValid = true := by
  cases valid : card.isValid with
  | true => rfl
  | false => simp [checkPao, valid] at allowed

/-- After a pao the counters are right again, and the hand holds no copy of the
card any more. -/
theorem Ready.afterPao {s : HandCards} {card : Card} {isOut : Bool} (ready : s.Ready card)
    (allowed : s.checkPao card isOut = true) :
    (s.eatPao card).1.Bookkeeping ∧ (s.eatPao card).1.cards.UpTo 3 ∧
      (s.eatPao card).1.getCardCount card = 0 := by
  have valid := checkPao_isValid allowed
  have ledger := eatPao_ledger ready.books.ledger card
  obtain ⟨bag, ⟨eat, inTable, type, same⟩, fewer⟩ :=
    eatPao_taken ready.books.ledger.nonneg (eatPao_succeeds allowed)
  have copies : (s.eatPao card).1.FourCopies := by
    intro i
    have most := ready.copies i
    rw [incoming, if_pos valid, Multiset.singleton_add] at most
    rw [bag]
    exact most
  refine ⟨ledger.bookkeeping copies, ?_, ?_⟩
  · intro other
    have := ledger.nonneg other
    have := fewer other
    have := (ready.upTo other).2
    simp only [HandCards.getCardCount] at *
    omega
  · -- all four copies are in the pao
    obtain ⟨i, rfl⟩ := exists_cardAt valid
    have four : 4 ≤ (meldsBag (s.eatPao (cardAt i)).1.eatCards).count (cardAt i) := by
      obtain ⟨before, after, split⟩ := List.append_of_mem inTable
      rw [split, meldsBag_append, meldsBag_cons]
      simp only [EatCard.bag, type, same, Multiset.count_add, Multiset.count_replicate_self]
      omega
    have most := copies i
    rw [HandCards.bag, Multiset.count_add, Cards.count_bag] at most
    have := ledger.nonneg (cardAt i)
    simp only [HandCards.getCardCount]
    omega

/-- The plans `checkHu` lists before it looks at the hand without a pao. -/
def paoPlans (s : HandCards) (card : Card) (self fetch : Bool) : List EatHuCards :=
  (_checkPaoHu { s with self := self, eatHuCardList := [] } card fetch).1.eatHuCardList

theorem mem_paoPlans {s : HandCards} (noFlag : s.checkPaoFlag = false) (card : Card)
    (self fetch : Bool) (entry : EatHuCards) :
    entry ∈ s.paoPlans card self fetch ↔
      s.checkPao card (!fetch) = true ∧ (s.eatPao card).1.Finds card true entry := by
  obtain ⟨list, cardFlags, huCard, done, inList⟩ :=
    checkPaoHu_spec (s := { s with self := self, eatHuCardList := [] }) noFlag card fetch
  rw [paoPlans, done, inList, eatPao_plans]
  simp only [List.not_mem_nil, false_or]
  rfl

theorem checkHu_open {s : HandCards} {card : Card} {self fetch : Bool}
    (wins : (s.checkHu card self fetch).2 = true) :
    s.isDisableHu = false ∧ s.checkPaoFlag = false := by
  by_contra closed
  have shut : s.isDisableHu = true ∨ s.checkPaoFlag = true := by
    rw [not_and_or] at closed
    simpa using closed
  rw [checkHu_closed shut] at wins
  simp at wins

theorem checkHuSelf_open {s : HandCards} {self : Bool} (wins : (s.checkHuSelf self).2 = true) :
    s.isDisableHu = false ∧ s.checkPaoFlag = false := by
  unfold checkHuSelf at wins
  split at wins
  · simp at wins
  · next enabled =>
    split at wins
    · simp at wins
    · next noFlag => exact ⟨by simpa using enabled, by simpa using noFlag⟩

theorem Ready.pao_legal {s : HandCards} {card : Card} {isOut : Bool} {entry : EatHuCards}
    (ready : s.Ready card) (allowed : s.checkPao card isOut = true)
    (found : (s.eatPao card).1.Finds card true entry) :
    LegalEntry (s.eatPao card).1.cards 0 (s.eatPao card).1.eatCards entry ∧
      ∃ split : Decomposition,
        split.Splits (s.eatPao card).1.cards 0 (s.eatPao card).1.eatCards ∧
          entry.xi = (split.total (s.eatPao card).1.cards (s.eatPao card).1.eatCards : Int) := by
  obtain ⟨books, range, gone⟩ := ready.afterPao allowed
  refine found.legal books range fun _ => ?_
  rw [getCardCount_kanless, show (s.eatPao card).1.cards.getCardCount card = 0 from gone]
  decide

/-- Every plan of a successful win check is legal: those found through a pao for
the hand and the table after it, the others for the hand with the incoming
card. -/
theorem checkHu_sound {s : HandCards} {card : Card} (ready : s.Ready card) (self fetch : Bool) :
    ((s.checkHu card self fetch).2 = true →
      (∀ entry ∈ s.paoPlans card self fetch,
        LegalEntry (s.eatPao card).1.cards 0 (s.eatPao card).1.eatCards entry) ∧
      ∀ entry ∈ (s.checkHu card self fetch).1.eatHuCardList,
        entry ∈ s.paoPlans card self fetch ∨
          LegalEntry s.cards (incoming card) s.eatCards entry) ∧
    ((s.checkHuSelf self).2 = true →
      ∀ entry ∈ (s.checkHuSelf self).1.eatHuCardList, LegalEntry s.cards 0 s.eatCards entry) := by
  constructor
  · intro wins
    obtain ⟨enabled, noFlag⟩ := checkHu_open wins
    obtain ⟨list, cardFlags, done, inList⟩ := checkHu_spec enabled noFlag card self fetch
    constructor
    · intro entry member
      obtain ⟨allowed, found⟩ := (mem_paoPlans noFlag card self fetch entry).mp member
      exact (ready.pao_legal allowed found).1
    · intro entry member
      rw [done] at member
      rcases (inList entry).mp member with throughPao | found
      · exact .inl ((mem_paoPlans noFlag card self fetch entry).mpr throughPao)
      · exact .inr (found.legal ready.books ready.upTo (by simp)).1
  · intro wins entry member
    obtain ⟨enabled, noFlag⟩ := checkHuSelf_open wins
    obtain ⟨list, done, inList⟩ := checkHuSelf_spec enabled noFlag self
    rw [done] at member
    exact (((inList entry).mp member).legal ready.books ready.upTo (by simp)).1

/-- A sample hand: 1 and 2 next to an opening ti of big 2s. -/
def tiAndPair : HandCards :=
  (addHandCards {} [.makeCard 2 true, .makeCard 2 true, .makeCard 2 true, .makeCard 2 true,
    .makeCard 1 false, .makeCard 2 false]).firstBlood.1

set_option maxRecDepth 20000 in
theorem tiAndPair_ready : tiAndPair.Ready (.makeCard 3 false) :=
  ⟨(firstBlood_ledger (addHandCards_ledger _ _)).bookkeeping (by decide), by decide, by decide⟩

set_option maxRecDepth 20000 in
/-- With a 3 the sample hand wins, and its plans are legal. -/
theorem checkHu_sound_tiAndPair :
    (tiAndPair.checkHu (.makeCard 3 false) true true).2 = true ∧
      ∀ entry ∈ (tiAndPair.checkHu (.makeCard 3 false) true true).1.eatHuCardList,
        entry ∈ tiAndPair.paoPlans (.makeCard 3 false) true true ∨
          LegalEntry tiAndPair.cards (incoming (.makeCard 3 false)) tiAndPair.eatCards entry := by
  have wins : (tiAndPair.checkHu (.makeCard 3 false) true true).2 = true := by decide
  exact ⟨wins, ((checkHu_sound tiAndPair_ready true true).1 wins).2⟩

/-- The totals of all legal decompositions, without and with a pao of the card. -/
def WinTotal (s : HandCards) (card : Card) (fetch : Bool) (total : Nat) : Prop :=
  (∃ split : Decomposition, split.Splits s.cards {card} s.eatCards ∧
    total = split.total s.cards s.eatCards) ∨
  (s.checkPao card (!fetch) = true ∧
    ∃ split : Decomposition,
      split.Splits (s.eatPao card).1.cards 0 (s.eatPao card).1.eatCards ∧
        total = split.total (s.eatPao card).1.cards (s.eatPao card).1.eatCards)

/-- The totals of the listed plans are the totals of the legal decompositions
that reach fifteen points. -/
theorem mem_plans_iff_winTotal {s : HandCards} {card : Card} (ready : s.Ready card)
    (valid : card.isValid = true) (enabled : s.isDisableHu = false)
    (noFlag : s.checkPaoFlag = false) (self fetch : Bool) (total : Nat) :
    (∃ entry ∈ (s.checkHu card self fetch).1.eatHuCardList, entry.xi = (total : Int)) ↔
      s.WinTotal card fetch total ∧ 15 ≤ total := by
  obtain ⟨list, cardFlags, done, inList⟩ := checkHu_spec enabled noFlag card self fetch
  have one : incoming card = {card} := if_pos valid
  rw [done]
  constructor
  · rintro ⟨entry, member, xi⟩
    rcases (inList entry).mp member with ⟨allowed, found⟩ | found
    · obtain ⟨legal, split, splits, same⟩ := ready.pao_legal allowed found
      have enough := legal.enough
      refine ⟨.inr ⟨allowed, split, splits, ?_⟩, by omega⟩
      exact_mod_cast xi.symm.trans same
    · obtain ⟨legal, split, splits, same⟩ := found.legal ready.books ready.upTo (by simp)
      have enough := legal.enough
      simp only [Bool.false_eq_true, if_false, one] at splits
      refine ⟨.inl ⟨split, splits, ?_⟩, by omega⟩
      exact_mod_cast xi.symm.trans same
  · rintro ⟨⟨split, splits, rfl⟩ | ⟨allowed, split, splits, rfl⟩, enough⟩
    · rw [← one] at splits
      have exists_plain : ∃ entry, s.Finds card false entry ∧
          entry.xi = (split.total s.cards s.eatCards : Int) :=
        exists_finds splits ready.books ready.upTo enough
      obtain ⟨entry, found, xi⟩ := exists_plain
      exact ⟨entry, (inList entry).mpr (.inr found), xi⟩
    · obtain ⟨books, range, -⟩ := ready.afterPao allowed
      have exists_pao : ∃ entry, (s.eatPao card).1.Finds card true entry ∧
          entry.xi = (split.total (s.eatPao card).1.cards (s.eatPao card).1.eatCards : Int) :=
        exists_finds splits books range enough
      obtain ⟨entry, found, xi⟩ := exists_pao
      exact ⟨entry, (inList entry).mpr (.inl ⟨allowed, found⟩), xi⟩

/-- The win check misses no win, and its best plan is the best decomposition. -/
theorem checkHu_best {s : HandCards} {card : Card} (ready : s.Ready card)
    (valid : card.isValid = true) (enabled : s.isDisableHu = false)
    (noFlag : s.checkPaoFlag = false) (self fetch : Bool)
    (winnable : ∃ total, s.WinTotal card fetch total ∧ 15 ≤ total) :
    (s.checkHu card self fetch).2 = true ∧
      ∃ best : Nat,
        IsGreatest { xi | ∃ entry ∈ (s.checkHu card self fetch).1.eatHuCardList, entry.xi = xi }
          (best : Int) ∧
        IsGreatest { total | s.WinTotal card fetch total } best := by
  have plans := mem_plans_iff_winTotal ready valid enabled noFlag self fetch
  obtain ⟨total, legal⟩ := winnable
  obtain ⟨entry, member, xi⟩ := (plans total).mpr legal
  constructor
  · obtain ⟨list, cardFlags, done, -⟩ := checkHu_spec enabled noFlag card self fetch
    rw [done] at member ⊢
    simpa using List.ne_nil_of_mem member
  · obtain ⟨best, inPlans, greatest⟩ := Finset.exists_max_image
      (s.checkHu card self fetch).1.eatHuCardList.toFinset (·.xi)
      ⟨entry, List.mem_toFinset.mpr member⟩
    have atLeast := greatest entry (List.mem_toFinset.mpr member)
    obtain ⟨number, same⟩ := Int.eq_ofNat_of_zero_le (show 0 ≤ best.xi by omega)
    have inList := List.mem_toFinset.mp inPlans
    refine ⟨number, ⟨⟨best, inList, same⟩, ?_⟩, ((plans number).mp ⟨best, inList, same⟩).1, ?_⟩
    · rintro _ ⟨other, otherMember, rfl⟩
      rw [← same]
      exact greatest other (List.mem_toFinset.mpr otherMember)
    · intro other otherLegal
      by_cases enough : 15 ≤ other
      · obtain ⟨plan, planMember, planXi⟩ := (plans other).mpr ⟨otherLegal, enough⟩
        have := greatest plan (List.mem_toFinset.mpr planMember)
        omega
      · omega

set_option maxRecDepth 20000 in
/-- The sample hand and a 3: the ti and 1-2-3 make fifteen points. -/
theorem checkHu_best_tiAndPair :
    (tiAndPair.checkHu (.makeCard 3 false) true true).2 = true ∧
      ∃ best : Nat,
        IsGreatest { xi | ∃ entry ∈ (tiAndPair.checkHu (.makeCard 3 false) true true).1.eatHuCardList,
          entry.xi = xi } (best : Int) ∧
        IsGreatest { total | tiAndPair.WinTotal (.makeCard 3 false) true total } best :=
  checkHu_best tiAndPair_ready (by decide) (by decide) (by decide) true true
    ⟨15, .inl ⟨⟨none, {.run false 0}, none⟩, ⟨by decide, by simp, by simp⟩, by decide⟩, le_refl _⟩

end HandCards

end CLibs.Cardlib
