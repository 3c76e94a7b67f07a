import CLibs.Cardlib.WinSearch
import CLibs.General.Cover

/-!
# Soundness and completeness of the search tree

Every plan of the tree splits the node's cards into combinations of the rules
and at most one pair, and every such split whose points suffice is found with
the same points. The second half is an exchange argument: in any split the
first single lies in some combination, so committing to it loses nothing.
-/

set_option autoImplicit false

namespace CLibs.Cardlib

open General

def pairEats : Option Card → List EatCard
  | none => []
  | some temp => [{ type := .eatDui, eatCard := temp, big := temp.isBig }]

namespace HuSearch

theorem mem_dan {cards : Cards} {temp : Card} :
    temp ∈ dan cards ↔ cards.getCardCount temp = 1 ∨ cards.getCardCount temp = 3 := by
  constructor
  · exact getCardCount_of_mem_dan
  · intro single
    have held : 0 < cards.getCardCount temp := by omega
    obtain ⟨i, rfl⟩ := exists_cardAt (Cards.isValid_of_getCardCount_pos held)
    refine List.mem_map.mpr ⟨i, List.mem_filter.mpr ⟨List.mem_finRange i, ?_⟩, rfl⟩
    simpa using single

theorem mem_dui {cards : Cards} {temp : Card} :
    temp ∈ dui cards ↔ cards.getCardCount temp = 2 ∨ cards.getCardCount temp = 3 := by
  constructor
  · exact getCardCount_of_mem_dui
  · intro pair
    have held : 0 < cards.getCardCount temp := by omega
    obtain ⟨i, rfl⟩ := exists_cardAt (Cards.isValid_of_getCardCount_pos held)
    refine List.mem_map.mpr ⟨i, List.mem_filter.mpr ⟨List.mem_finRange i, ?_⟩, rfl⟩
    simpa using pair

theorem dui_nodup (cards : Cards) : (dui cards).Nodup :=
  ((List.nodup_finRange 20).filter _).map cardAt_injective

theorem dan_sorted (cards : Cards) :
    (dan cards).Pairwise fun left right => getIndex left < getIndex right := by
  rw [dan, List.pairwise_map]
  simp only [getIndex_cardAt]
  exact (List.pairwise_lt_finRange 20).filter _

theorem upTo_takeMeld {cards : Cards} {bound : Int} (range : cards.UpTo bound) {temp : Card}
    {eat : EatCard} (held : 0 < cards.getCardCount temp)
    (member : eat ∈ (cards.optCardCount temp (-1)).__checkChi temp) :
    (takeMeld cards temp eat).UpTo bound := by
  have option := chiOption_of_mem_checkChi (Cards.isValid_of_getCardCount_pos held) member
  have nonneg : cards.Nonneg := fun card => (range card).1
  have after := option.nonneg (nonneg.optCardCount_neg held)
  intro card
  refine ⟨after card, ?_⟩
  calc (takeMeld cards temp eat).getCardCount card
      ≤ ((cards.optCardCount temp (-1)).optCardCount (eat.card 0) (-1)).getCardCount card :=
        Cards.getCardCount_optCardCount_neg_le _ _ _
    _ ≤ (cards.optCardCount temp (-1)).getCardCount card :=
        Cards.getCardCount_optCardCount_neg_le _ _ _
    _ ≤ cards.getCardCount card := Cards.getCardCount_optCardCount_neg_le _ _ _
    _ ≤ bound := (range card).2

theorem bag_of_finished {cards : Cards} (range : cards.UpTo 3) (noSingle : dan cards = [])
    (few : (dui cards).length ≤ 1) :
    ∃ pair : Option Card, dui cards = pair.toList ∧ cards.bag = meldsBag (pairEats pair) := by
  have counts : ∀ card, cards.getCardCount card = 0 ∨ card ∈ dui cards ∧
      cards.getCardCount card = 2 := by
    intro card
    have notSingle : card ∉ dan cards := by simp [noSingle]
    rw [mem_dan] at notSingle
    have := range card
    by_cases two : cards.getCardCount card = 2
    · exact .inr ⟨mem_dui.mpr (.inl two), two⟩
    · left
      omega
  match shape : dui cards, few with
  | [], _ =>
      refine ⟨none, rfl, ?_⟩
      ext card
      rw [Cards.count_bag]
      obtain zero | ⟨member, -⟩ := counts card
      · simp [zero, pairEats]
      · simp [shape] at member
  | [temp], _ =>
      refine ⟨some temp, rfl, ?_⟩
      have two : cards.getCardCount temp = 2 := by
        obtain zero | ⟨-, two⟩ := counts temp
        · have := getCardCount_of_mem_dui (show temp ∈ dui cards by simp [shape])
          omega
        · exact two
      ext card
      rw [Cards.count_bag]
      by_cases same : card = temp
      · simp [same, two, pairEats, EatCard.bag]
      · obtain zero | ⟨member, -⟩ := counts card
        · simp [zero, pairEats, EatCard.bag, same]
        · simp [shape, same] at member

/-! ## Soundness -/

/-- What a plan of the tree adds to the melds it started with. -/
structure Split (paoTimes : UInt8) (cards : Cards) (xi : Int) (eats : List EatCard)
    (entry : EatHuCards) (chis : List EatCard) (pair : Option Card) : Prop where
  huCards : entry.huCards = eats ++ chis ++ pairEats pair
  combos : ∀ eat ∈ chis, ∃ combo, eat.Realises combo
  bag : meldsBag (chis ++ pairEats pair) = cards.bag
  xi : entry.xi = xi + (meldsPoints chis : Int)
  enough : needHuXi ≤ entry.xi
  pairNeedsPao : pair.isSome → paoTimes ≠ 0

private theorem Split.meld {paoTimes : UInt8} {cards : Cards} {xi : Int} {eats : List EatCard}
    {entry : EatHuCards} {temp : Card} {eat : EatCard} {chis : List EatCard} {pair : Option Card}
    (held : 0 < cards.getCardCount temp)
    (member : eat ∈ (cards.optCardCount temp (-1)).__checkChi temp)
    (split : Split paoTimes (takeMeld cards temp eat) (xi + cardXi eat temp) (eats ++ [eat])
      entry chis pair) :
    Split paoTimes cards xi eats entry (eat :: chis) pair := by
  have option := chiOption_of_mem_checkChi (Cards.isValid_of_getCardCount_pos held) member
  obtain ⟨combo, realises⟩ := option.combo
  refine ⟨?_, ?_, ?_, ?_, split.enough, split.pairNeedsPao⟩
  · rw [split.huCards]
    simp
  · intro other otherMember
    rcases List.mem_cons.mp otherMember with rfl | rest
    · exact ⟨combo, realises⟩
    · exact split.combos other rest
  · rw [List.cons_append, meldsBag_cons, split.bag, realises.bag, ← realises.cards,
      option.eatCard, bag_takeMeld held member]
  · rw [split.xi, option.cardXi_eq, meldsPoints_cons]
    push_cast
    ring

private theorem finish_split {paoTimes : UInt8} {cards : Cards} {xi : Int} {eats : List EatCard}
    {entry : EatHuCards} {pair : Option Card} (bag : cards.bag = meldsBag (pairEats pair))
    (member : entry ∈ (finish paoTimes xi eats pair.toList ⟨cards, []⟩).list) :
    Split paoTimes cards xi eats entry [] pair := by
  unfold finish at member
  split at member
  · simp at member
  · next enough =>
    cases pair with
    | none =>
        have shape : entry = ⟨xi, eats⟩ := by simpa using member
        subst shape
        exact ⟨by simp [pairEats], by simp, bag.symm, by simp, by simpa using enough, by simp⟩
    | some temp =>
        simp only [Option.toList_some] at member
        split at member
        · simp at member
        · next pao =>
          have shape : entry = ⟨xi, eats ++ pairEats (some temp)⟩ := by
            simpa [pairEats] using member
          subst shape
          exact ⟨by simp, by simp, bag.symm, by simp, by simpa using enough, fun _ => pao⟩

theorem Wins.split {paoTimes : UInt8} {cards : Cards} {xi : Int} {eats : List EatCard}
    {entry : EatHuCards} (wins : Wins paoTimes cards xi eats entry) (range : cards.UpTo 3) :
    ∃ chis pair, Split paoTimes cards xi eats entry chis pair := by
  induction wins with
  | @single cards xi eats temp eat entry first member _ ih =>
      have held : 0 < cards.getCardCount temp := by
        have := getCardCount_of_mem_dan (List.mem_of_find?_eq_some first)
        omega
      obtain ⟨chis, pair, split⟩ := ih (upTo_takeMeld range held member)
      exact ⟨eat :: chis, pair, split.meld held member⟩
  | @pair cards xi eats temp eat entry _ _ inPairs member _ ih =>
      have held : 0 < cards.getCardCount temp := by
        have := getCardCount_of_mem_dui inPairs
        omega
      obtain ⟨chis, pair, split⟩ := ih (upTo_takeMeld range held member)
      exact ⟨eat :: chis, pair, split.meld held member⟩
  | finish noSingle few member =>
      obtain ⟨pair, shape, bag⟩ := bag_of_finished range noSingle few
      rw [shape] at member
      exact ⟨[], pair, finish_split bag member⟩

/-! ## Completeness -/

def combosPoints (combos : Multiset Combo) : Nat := (combos.map Combo.points).sum

@[simp] theorem combosPoints_cons (combo : Combo) (combos : Multiset Combo) :
    combosPoints (combo ::ₘ combos) = combo.points + combosPoints combos := by
  simp [combosPoints]

theorem getIndex_nextCard_lt {card : Card} (valid : card.isValid = true) {n : Int}
    (below : n = -1 ∨ n = -2) (nextValid : (nextCard card n).isValid = true) :
    getIndex (nextCard card n) < getIndex card := by
  have everyCard : ∀ i : Fin 20, ∀ n ∈ [(-1 : Int), -2],
      (nextCard (cardAt i) n).isValid = true → getIndex (nextCard (cardAt i) n) < i := by
    decide
  obtain ⟨i, rfl⟩ := exists_cardAt valid
  rw [getIndex_cardAt]
  exact everyCard i n (by simpa using below) nextValid

private theorem exists_meld {cards : Cards} {temp : Card} {extra : Multiset Card}
    {combo : Combo} {rest : Multiset Combo} (held : 0 < cards.getCardCount temp)
    (cover : (combo ::ₘ rest).bind Combo.bag + extra = cards.bag) (inside : temp ∈ combo.bag)
    (noTriple : ∀ n : Int, n = -1 ∨ n = -2 → cards.getCardCount (nextCard temp n) < 3) :
    ∃ eat ∈ (cards.optCardCount temp (-1)).__checkChi temp,
      rest.bind Combo.bag + extra = (takeMeld cards temp eat).bag ∧
      cardXi eat temp = (combo.points : Int) := by
  have available : combo.bag ≤ temp ::ₘ (cards.optCardCount temp (-1)).bag := by
    rw [← Cards.bag_eq_cons held, ← cover, Multiset.cons_bind, add_assoc]
    exact Multiset.le_add_right _ _
  obtain ⟨eat, member, realises⟩ := exists_mem_checkChi inside available (by
    intro n below
    have := Cards.getCardCount_optCardCount_neg_le cards temp (nextCard temp n)
    have := noTriple n below
    omega)
  have option := chiOption_of_mem_checkChi (Cards.isValid_of_getCardCount_pos held) member
  have split : (combo ::ₘ rest).bind Combo.bag + extra =
      combo.bag + (takeMeld cards temp eat).bag := by
    rw [cover, bag_takeMeld held member, ← realises.cards, option.eatCard]
  refine ⟨eat, member, bind_rest_of_bind_cons rfl split, ?_⟩
  rw [option.cardXi_eq, realises.points]

/-- The first single of a covered node lies in a combination, and no lower card
of its size is held three times. -/
private theorem first_single {cards : Cards} {temp : Card} {singles : List Card}
    {combos : Multiset Combo} {pair : Option Card}
    (cover : combos.bind Combo.bag + meldsBag (pairEats pair) = cards.bag)
    (shape : dan cards = temp :: singles) :
    temp ∈ combos.bind Combo.bag ∧
      ∀ n : Int, n = -1 ∨ n = -2 → cards.getCardCount (nextCard temp n) ≠ 3 := by
  have single := getCardCount_of_mem_dan (show temp ∈ dan cards by simp [shape])
  have held : 0 < cards.getCardCount temp := by omega
  have valid := Cards.isValid_of_getCardCount_pos held
  constructor
  · have counts := congrArg (Multiset.count temp) cover
    rw [Multiset.count_add, Cards.count_bag] at counts
    rw [← Multiset.count_pos]
    cases pair with
    | none =>
        simp only [pairEats, meldsBag_nil, Multiset.count_zero] at counts
        omega
    | some other =>
        simp only [pairEats, meldsBag_cons, meldsBag_nil, EatCard.bag, add_zero,
          Multiset.count_replicate] at counts
        split at counts <;> omega
  · intro n below three
    have lower : nextCard temp n ∈ dan cards := mem_dan.mpr (.inr three)
    have nextHeld : 0 < cards.getCardCount (nextCard temp n) := by omega
    have nextValid := Cards.isValid_of_getCardCount_pos nextHeld
    have before := getIndex_nextCard_lt valid below nextValid
    have sorted := dan_sorted cards
    rw [shape] at lower sorted
    rcases List.mem_cons.mp lower with same | later
    · rw [same] at before
      exact lt_irrefl _ before
    · exact lt_asymm before ((List.pairwise_cons.mp sorted).1 _ later)

private theorem broken_pair {cards : Cards} {combos : Multiset Combo} {pair : Option Card}
    (cover : combos.bind Combo.bag + meldsBag (pairEats pair) = cards.bag)
    (several : 1 < (dui cards).length) :
    ∃ temp ∈ dui cards, temp ∈ combos.bind Combo.bag := by
  obtain ⟨temp, member, different⟩ : ∃ temp ∈ dui cards, pair ≠ some temp := by
    match shape : dui cards, several with
    | first :: second :: others, _ =>
        have nodup := dui_nodup cards
        rw [shape] at nodup
        have distinct : first ≠ second := by
          rintro rfl
          simp at nodup
        by_cases same : pair = some first
        · refine ⟨second, by simp, ?_⟩
          rw [same]
          simpa using distinct
        · exact ⟨first, by simp, same⟩
  refine ⟨temp, member, ?_⟩
  have counts := congrArg (Multiset.count temp) cover
  have two := getCardCount_of_mem_dui member
  rw [Multiset.count_add, Cards.count_bag] at counts
  rw [← Multiset.count_pos]
  cases pair with
  | none =>
      simp only [pairEats, meldsBag_nil, Multiset.count_zero] at counts
      omega
  | some other =>
      have otherCard : other ≠ temp := by simpa using different
      simp only [pairEats, meldsBag_cons, meldsBag_nil, EatCard.bag, add_zero,
        Multiset.count_replicate, if_neg otherCard] at counts
      omega

private theorem only_pair_left {combos : Multiset Combo} {pair left : Option Card}
    (cover : combos.bind Combo.bag + meldsBag (pairEats pair) = meldsBag (pairEats left)) :
    combos = 0 ∧ pair = left := by
  have sizes := congrArg Multiset.card cover
  rw [Multiset.card_add, card_bind_of_card_eq Combo.card_bag] at sizes
  cases pair with
  | none =>
      cases left with
      | none =>
          simp only [pairEats, meldsBag_nil, Multiset.card_zero] at sizes
          exact ⟨Multiset.card_eq_zero.mp (by omega), rfl⟩
      | some other =>
          simp [pairEats, EatCard.bag] at sizes
          omega
  | some temp =>
      cases left with
      | none => simp [pairEats, EatCard.bag] at sizes
      | some other =>
          simp only [pairEats, meldsBag_cons, meldsBag_nil, EatCard.bag, add_zero,
            Multiset.card_replicate] at sizes
          obtain rfl : combos = 0 := Multiset.card_eq_zero.mp (by omega)
          have member : temp ∈ meldsBag (pairEats (some other)) := by
            rw [← cover]
            simp [pairEats, EatCard.bag]
          simp only [pairEats, meldsBag_cons, meldsBag_nil, EatCard.bag, add_zero,
            Multiset.mem_replicate] at member
          exact ⟨rfl, congrArg some member.2⟩

/-- Every split of a node into combinations and a permitted pair, with enough
points in all, is found with these points. -/
theorem exists_wins_of_cover {paoTimes : UInt8} (combos : Multiset Combo) {cards : Cards}
    {pair : Option Card} {xi : Int} {eats : List EatCard} (range : cards.UpTo 3)
    (cover : combos.bind Combo.bag + meldsBag (pairEats pair) = cards.bag)
    (allowed : pair.isSome → paoTimes ≠ 0)
    (enough : needHuXi ≤ xi + (combosPoints combos : Int)) :
    ∃ entry, Wins paoTimes cards xi eats entry ∧
      entry.xi = xi + (combosPoints combos : Int) := by
  -- the number of combinations decreases along the path the search must take
  induction size : combos.card using Nat.strong_induction_on generalizing combos cards xi eats with
  | _ size ih =>
  subst size
  have descend : ∀ temp, 0 < cards.getCardCount temp → temp ∈ combos.bind Combo.bag →
      (∀ n : Int, n = -1 ∨ n = -2 → cards.getCardCount (nextCard temp n) ≠ 3) →
      ∃ eat ∈ (cards.optCardCount temp (-1)).__checkChi temp, ∃ entry,
        Wins paoTimes (takeMeld cards temp eat) (xi + cardXi eat temp) (eats ++ [eat]) entry ∧
        entry.xi = xi + (combosPoints combos : Int) := by
    intro temp held inCover noTriple
    obtain ⟨combo, rest, rfl, inside⟩ := exists_block_of_mem_bind inCover
    obtain ⟨eat, member, restCover, points⟩ := exists_meld held cover inside fun n below => by
      have := (range (nextCard temp n)).2
      have := noTriple n below
      omega
    rw [combosPoints_cons, Nat.cast_add] at enough
    obtain ⟨entry, wins, xiEq⟩ := ih rest.card (by simp) rest (upTo_takeMeld range held member)
      restCover (show needHuXi ≤ xi + cardXi eat temp + (combosPoints rest : Int) by omega) rfl
    refine ⟨eat, member, entry, wins, ?_⟩
    rw [xiEq, points, combosPoints_cons, Nat.cast_add]
    ring
  match shape : dan cards with
  | temp :: singles =>
      obtain ⟨inCover, noTriple⟩ := first_single cover shape
      have single := getCardCount_of_mem_dan (show temp ∈ dan cards by simp [shape])
      obtain ⟨eat, member, entry, wins, xiEq⟩ := descend temp (by omega) inCover noTriple
      refine ⟨entry, .single ?_ member wins, xiEq⟩
      rw [shape, List.find?_cons_of_pos]
      simp [Edible, List.ne_nil_of_mem member]
  | [] =>
      have noTriple : ∀ card, cards.getCardCount card ≠ 3 := by
        intro card three
        have : card ∈ dan cards := mem_dan.mpr (.inr three)
        simp [shape] at this
      by_cases several : 1 < (dui cards).length
      · obtain ⟨temp, inPairs, inCover⟩ := broken_pair cover several
        have two := getCardCount_of_mem_dui inPairs
        obtain ⟨eat, member, entry, wins, xiEq⟩ := descend temp (by omega) inCover
          fun n _ => noTriple _
        exact ⟨entry, .pair shape several inPairs member wins, xiEq⟩
      · obtain ⟨left, pairs, bag⟩ := bag_of_finished range shape (by omega)
        obtain ⟨rfl, rfl⟩ := only_pair_left (cover.trans bag)
        have noCombo : combosPoints 0 = 0 := rfl
        rw [noCombo, Nat.cast_zero, add_zero] at enough
        have fin : Wins paoTimes cards xi eats ⟨xi, eats ++ pairEats pair⟩ := by
          refine .finish shape (by omega) ?_
          rw [pairs]
          cases pair with
          | none => simp [finish, pairEats, not_lt.mpr enough]
          | some temp => simp [finish, pairEats, not_lt.mpr enough, allowed]
        exact ⟨_, fin, by simp [noCombo]⟩

end HuSearch

end CLibs.Cardlib
