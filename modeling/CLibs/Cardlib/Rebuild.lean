import CLibs.Cardlib.Game

/-!
# Rebuilding a hand from its cards and melds

A reconnecting player gets a fresh hand from `getCards` and `getEatCards`. The
totals come out as in the live hand, except for the points the other players
see once a wei has been turned into a pao or a ti: the live hand then adds the
difference to a wei that it had never shown.
-/

set_option autoImplicit false

namespace CLibs.Cardlib

open General

def meldsPoints2 (eats : List EatCard) : Nat := (eats.map EatCard.points2).sum

@[simp] theorem meldsPoints2_nil : meldsPoints2 [] = 0 := rfl

@[simp] theorem meldsPoints2_cons (eat : EatCard) (eats : List EatCard) :
    meldsPoints2 (eat :: eats) = eat.points2 + meldsPoints2 eats := by
  simp [meldsPoints2]

@[simp] theorem meldsPoints2_append (left right : List EatCard) :
    meldsPoints2 (left ++ right) = meldsPoints2 left + meldsPoints2 right := by
  simp [meldsPoints2]

theorem EatCard.Realises.points2_eq {eat : EatCard} {combo : Combo}
    (realises : eat.Realises combo) : eat.points2 = eat.points := by
  have everyCombo : ∀ combo : Combo, combo.type ≠ .eatWei := by decide
  rw [points2, if_neg]
  rw [realises.type]
  exact everyCombo combo

namespace HandCards

/-- A hand that is given the cards and the melds of `s`. The constructor leaves
every field of `fresh` as it finds it. -/
def rebuild (fresh s : HandCards) : HandCards :=
  (fresh.addHandCards s.getCards).addEatCards s.eatCards

/-- The rebuilt hand has the same counts and totals. -/
structure Rebuilds (fresh s : HandCards) : Prop where
  cards : (fresh.rebuild s).cards = s.cards
  countCards : (fresh.rebuild s).countCards = s.countCards
  bigCards : (fresh.rebuild s).bigCards = s.bigCards
  smallCards : (fresh.rebuild s).smallCards = s.smallCards
  redCards : (fresh.rebuild s).redCards = s.redCards
  paoTimes : (fresh.rebuild s).paoTimes = s.paoTimes
  huXi : (fresh.rebuild s).huXi = s.huXi
  huXi2 : (fresh.rebuild s).huXi2 = s.huXi2

/-! ## The rebuilt totals -/

/-- Counting a meld: the counters grow by the cards of the meld. -/
theorem Counted.addBag {s t : HandCards} {bag new : Multiset Card} (counted : s.Counted bag)
    (big : t.bigCards = s.bigCards + UInt8.ofNat (new.countP (·.isBig = true)))
    (small : t.smallCards = s.smallCards + UInt8.ofNat (new.countP (·.isBig = false)))
    (red : t.redCards = s.redCards + UInt8.ofNat (new.countP (isHong · = true))) :
    t.Counted (bag + new) := by
  obtain ⟨oldBig, oldSmall, oldRed⟩ := counted
  refine ⟨?_, ?_, ?_⟩
  · rw [big, oldBig, Multiset.countP_add, UInt8.ofNat_add]
  · rw [small, oldSmall, Multiset.countP_add, UInt8.ofNat_add]
  · rw [red, oldRed, Multiset.countP_add, UInt8.ofNat_add]

theorem addSame_counted {s : HandCards} {bag : Multiset Card} (counted : s.Counted bag)
    (eat : EatCard) (num : Nat) :
    (s.addSame eat (UInt8.ofNat num)).Counted (bag + Multiset.replicate num eat.eatCard) := by
  refine counted.addBag ?_ ?_ ?_
  · cases size : eat.eatCard.isBig <;>
      simp [addSame, size, ← Multiset.coe_replicate, List.countP_replicate]
  · cases size : eat.eatCard.isBig <;>
      simp [addSame, size, ← Multiset.coe_replicate, List.countP_replicate]
  · cases color : isHong eat.eatCard <;>
      simp [addSame, color, ← Multiset.coe_replicate, List.countP_replicate]

private theorem pair_of_realises {eat : EatCard} {combo : Combo} (realises : eat.Realises combo) :
    ∃ temp1 temp2, eat.cards = [temp1, temp2] ∧ eat.card 0 = temp1 ∧ eat.card 1 = temp2 := by
  have size := congrArg Multiset.card realises.cards
  rw [Multiset.card_cons, Multiset.coe_card, Combo.card_bag] at size
  obtain ⟨temp1, temp2, shape⟩ := List.length_eq_two.mp (by omega : eat.cards.length = 2)
  exact ⟨temp1, temp2, shape, by simp [EatCard.card, shape], by simp [EatCard.card, shape]⟩

private theorem run_counts (big : Bool) (low : Fin 8) :
    (∀ card ∈ (Combo.run big low).bag, card.isBig = big) ∧
      (Combo.run big low).bag.countP (isHong · = true) ≤ 1 := by
  revert big low
  decide

private theorem hong_counts (big : Bool) :
    (∀ card ∈ (Combo.hong big).bag, card.isBig = big) ∧
      (Combo.hong big).bag.countP (isHong · = true) = 3 := by
  revert big
  decide

private theorem size_counts (bag : Multiset Card) (card : Card)
    (same : ∀ other ∈ bag, other.isBig = card.isBig) :
    bag.countP (·.isBig = true) = (if card.isBig then bag.card else 0) ∧
      bag.countP (·.isBig = false) = (if card.isBig then 0 else bag.card) := by
  cases size : card.isBig with
  | true =>
      refine ⟨?_, ?_⟩
      · rw [if_pos rfl, Multiset.countP_eq_card]
        intro other member
        rw [same other member, size]
      · rw [if_pos rfl, Multiset.countP_eq_zero]
        intro other member
        rw [same other member, size]
        decide
  | false =>
      refine ⟨?_, ?_⟩
      · rw [if_neg (by decide), Multiset.countP_eq_zero]
        intro other member
        rw [same other member, size]
        decide
      · rw [if_neg (by decide), Multiset.countP_eq_card]
        intro other member
        rw [same other member, size]

theorem addRun_counted {s : HandCards} {bag : Multiset Card} (counted : s.Counted bag)
    {eat : EatCard} {big : Bool} {low : Fin 8} (realises : eat.Realises (.run big low)) :
    (s.addRun eat).Counted (bag + eat.bag) := by
  obtain ⟨sizes, red⟩ := run_counts big low
  have inside : eat.eatCard ∈ eat.bag := by
    rw [realises.bag, ← realises.cards]
    exact Multiset.mem_cons_self _ _
  rw [← realises.bag] at sizes red
  obtain ⟨bigCount, smallCount⟩ := size_counts eat.bag eat.eatCard
    fun other member => (sizes other member).trans (sizes _ inside).symm
  have three : eat.bag.card = 3 := by rw [realises.bag, Combo.card_bag]
  obtain ⟨temp1, temp2, shape, first, second⟩ := pair_of_realises realises
  have bagShape : eat.bag = ↑[eat.eatCard, temp1, temp2] := by
    rw [realises.bag, ← realises.cards, shape]
    rfl
  rw [bagShape, Multiset.coe_countP] at red
  refine counted.addBag ?_ ?_ ?_
  · rw [bigCount, three]
    unfold addRun
    cases eat.eatCard.isBig <;> dsimp only <;> split_ifs <;> simp
  · rw [smallCount, three]
    unfold addRun
    cases eat.eatCard.isBig <;> dsimp only <;> split_ifs <;> simp
  · rw [bagShape, Multiset.coe_countP]
    cases color : isHong eat.eatCard <;> cases color1 : isHong temp1 <;>
      cases color2 : isHong temp2 <;>
      simp [addRun, first, second, color, color1, color2] at red ⊢

theorem addHong_counted {s t : HandCards} {bag : Multiset Card} (counted : s.Counted bag)
    {eat : EatCard} {big : Bool} (realises : eat.Realises (.hong big))
    (bigCards : t.bigCards = if eat.eatCard.isBig then s.bigCards + 3 else s.bigCards)
    (smallCards : t.smallCards = if eat.eatCard.isBig then s.smallCards else s.smallCards + 3)
    (redCards : t.redCards = s.redCards + 3) : t.Counted (bag + eat.bag) := by
  obtain ⟨sizes, red⟩ := hong_counts big
  have inside : eat.eatCard ∈ eat.bag := by
    rw [realises.bag, ← realises.cards]
    exact Multiset.mem_cons_self _ _
  rw [← realises.bag] at sizes red
  obtain ⟨bigCount, smallCount⟩ := size_counts eat.bag eat.eatCard
    fun other member => (sizes other member).trans (sizes _ inside).symm
  have three : eat.bag.card = 3 := by rw [realises.bag, Combo.card_bag]
  refine counted.addBag ?_ ?_ ?_
  · rw [bigCount, three, bigCards]
    cases eat.eatCard.isBig <;> simp
  · rw [smallCount, three, smallCards]
    cases eat.eatCard.isBig <;> simp
  · rw [red, redCards]
    rfl

theorem addSanta_counted {s : HandCards} {bag : Multiset Card} (counted : s.Counted bag)
    {eat : EatCard} {double : Bool} {point : Fin 10} (realises : eat.Realises (.santa double point)) :
    (((s.countIn eat.eatCard).countIn (eat.card 0)).countIn (eat.card 1)).Counted
      (bag + eat.bag) := by
  obtain ⟨temp1, temp2, shape, first, second⟩ := pair_of_realises realises
  have whole : bag + eat.bag = temp2 ::ₘ temp1 ::ₘ eat.eatCard ::ₘ bag := by
    rw [realises.bag, ← realises.cards, shape, ← Multiset.cons_coe, ← Multiset.cons_coe,
      Multiset.coe_nil]
    simp only [← Multiset.singleton_add]
    abel
  rw [first, second, whole]
  exact ((counted.countIn _).countIn _).countIn _

/-- `addEatCards` counts the cards of a table meld, whatever it does to the
points. -/
theorem addEatCard_counted {s : HandCards} {bag : Multiset Card} (counted : s.Counted bag)
    {eat : EatCard} (onTable : eat.OnTable) : (s.addEatCard eat).Counted (bag + eat.bag) := by
  cases onTable with
  | chi combo realises =>
      have type := realises.type
      cases combo with
      | run big low =>
          simp only [Combo.type] at type
          split at type
          · rw [addEatCard, type]
            exact addRun_counted (s := s.addXi _) counted realises
          · rw [addEatCard, type]
            exact addRun_counted counted realises
      | hong big =>
          rw [Combo.type] at type
          rw [addEatCard, type]
          exact addHong_counted (s := s.addXi _) counted realises rfl rfl rfl
      | santa double point =>
          rw [Combo.type] at type
          rw [addEatCard, type]
          exact addSanta_counted counted realises
  | same type valid big =>
      rcases type with type | type | type | type | type | type <;>
        rw [addEatCard, type, EatCard.bag, type]
      · exact addSame_counted (s := s.addXi _) counted eat 3
      · exact addSame_counted (s := { s with huXi := _ }) counted eat 3
      · exact addSame_counted (s := s.addXi _) counted eat 3
      · exact addSame_counted (s := { s.addXi _ with paoTimes := _ }) counted eat 4
      · exact addSame_counted (s := { s.addXi _ with paoTimes := _ }) counted eat 4
      · exact addSame_counted (s := { s.addXi _ with paoTimes := _ }) counted eat 4

private theorem addRun_frame (s : HandCards) (eat : EatCard) :
    ∃ big small red, s.addRun eat =
      { s with bigCards := big, smallCards := small, redCards := red } := by
  unfold addRun
  dsimp only
  split_ifs <;> exact ⟨_, _, _, rfl⟩

structure Totals (s t : HandCards) (points points2 fours : Nat) : Prop where
  huXi : t.huXi = s.huXi + UInt8.ofNat points
  huXi2 : t.huXi2 = s.huXi2 + UInt8.ofNat points2
  paoTimes : t.paoTimes = s.paoTimes + UInt8.ofNat fours
  cards : t.cards = s.cards
  countCards : t.countCards = s.countCards

theorem addEatCard_totals (s : HandCards) {eat : EatCard} (onTable : eat.OnTable) :
    s.Totals (s.addEatCard eat) eat.points eat.points2 ([eat].countP EatCard.isFour) := by
  cases onTable with
  | chi combo realises =>
      rw [realises.points2_eq, List.countP_singleton, realises.not_isFour]
      have type := realises.type
      cases combo with
      | run big low =>
          simp only [Combo.type] at type
          split at type
          · obtain ⟨_, _, _, added⟩ := addRun_frame (s.addXi (if eat.big then 6 else 3)) eat
            rw [addEatCard, type]
            simp only [added]
            cases size : eat.big <;> constructor <;> simp [EatCard.points, type, size, addXi]
          · obtain ⟨_, _, _, added⟩ := addRun_frame s eat
            rw [addEatCard, type]
            simp only [added]
            constructor <;> simp [EatCard.points, type]
      | hong big =>
          rw [Combo.type] at type
          rw [addEatCard, type]
          cases size : eat.big <;> constructor <;> simp [EatCard.points, type, size, addXi]
      | santa double point =>
          rw [Combo.type] at type
          rw [addEatCard, type]
          constructor <;> simp [EatCard.points, type, countIn]
  | same type valid big =>
      rcases type with type | type | type | type | type | type <;> rw [addEatCard, type] <;>
        cases size : eat.big <;> constructor <;>
        simp [EatCard.points, EatCard.points2, EatCard.isFour, type, size, addXi, addSame]

theorem addEatCards_loop {s : HandCards} {bag : Multiset Card} (eats : List EatCard)
    (melds : ∀ eat ∈ eats, eat.OnTable) (counted : s.Counted bag) :
    s.Totals (eats.foldl addEatCard s) (meldsPoints eats) (meldsPoints2 eats)
        (eats.countP EatCard.isFour) ∧
      (eats.foldl addEatCard s).Counted (bag + meldsBag eats) := by
  induction eats generalizing s bag with
  | nil =>
      refine ⟨⟨?_, ?_, ?_, rfl, rfl⟩, ?_⟩ <;> simp
      exact counted
  | cons eat rest ih =>
      have onTable := melds eat List.mem_cons_self
      have first := addEatCard_totals s onTable
      obtain ⟨totals, counts⟩ := ih (fun other member => melds other (List.mem_cons_of_mem _ member))
        (addEatCard_counted counted onTable)
      rw [List.foldl_cons]
      refine ⟨⟨?_, ?_, ?_, ?_, ?_⟩, ?_⟩
      · rw [totals.huXi, first.huXi, meldsPoints_cons, UInt8.ofNat_add, UInt8.add_assoc]
      · rw [totals.huXi2, first.huXi2, meldsPoints2_cons, UInt8.ofNat_add, UInt8.add_assoc]
      · rw [totals.paoTimes, first.paoTimes, UInt8.add_assoc, ← UInt8.ofNat_add,
          ← List.countP_append]
        rfl
      · rw [totals.cards, first.cards]
      · rw [totals.countCards, first.countCards]
      · rw [meldsBag_cons, ← add_assoc]
        exact counts

/-! ## The rebuilt hand -/

theorem coe_getCards (s : HandCards) : (s.getCards : Multiset Card) = s.cards.bag := by
  rw [getCards, Cards.bag, Fin.sum_univ_def]
  induction List.finRange 20 with
  | nil => rfl
  | cons i rest ih =>
      rw [List.flatMap_cons, ← Multiset.coe_add, ih, List.map_cons, List.sum_cons,
        Multiset.coe_replicate]

theorem addHandCards_bag (s : HandCards) {cards : List Card}
    (valid : ∀ card ∈ cards, card.isValid = true) :
    (s.addHandCards cards).cards.bag = cards ∧ (s.addHandCards cards).eatCards = [] := by
  induction cards using List.reverseRecOn with
  | nil => simp [addHandCards, clear, Cards.bag]
  | append_singleton cards card ih =>
      obtain ⟨bag, noMelds⟩ := ih fun other member => valid other (List.mem_append_left _ member)
      have cardValid := valid card (by simp)
      have step : s.addHandCards (cards ++ [card]) = (s.addHandCards cards).addCard card := by
        simp [addHandCards]
      have nonneg := (addHandCards_ledger s cards).nonneg
      rw [step, addCard, cardValid]
      refine ⟨?_, noMelds⟩
      change ((s.addHandCards cards).cards.optCardCount card 1).bag = _
      rw [Cards.bag_optCardCount_one cardValid (nonneg card), bag, ← Multiset.coe_add,
        ← Multiset.singleton_add, add_comm]
      rfl

/-- With right counters the rebuilt hand is the live one. -/
theorem Ledger.rebuilds {s : HandCards} (ledger : s.Ledger)
    (huXi2 : s.huXi2 = UInt8.ofNat (meldsPoints2 s.eatCards)) (fresh : HandCards) :
    fresh.Rebuilds s := by
  have valid : ∀ card ∈ s.getCards, card.isValid = true := by
    intro card member
    rw [← Multiset.mem_coe, coe_getCards] at member
    exact Cards.isValid_of_mem_bag member
  obtain ⟨bag, noMelds⟩ := addHandCards_bag fresh valid
  have dealt := addHandCards_ledger fresh s.getCards
  rw [coe_getCards] at bag
  have cards := Cards.eq_of_bag_eq dealt.nonneg ledger.nonneg bag
  have dealtBag : (fresh.addHandCards s.getCards).bag = s.cards.bag := by
    rw [HandCards.bag, bag, noMelds, meldsBag_nil, add_zero]
  have counted := dealt.counted
  rw [dealtBag] at counted
  obtain ⟨totals, big, small, red⟩ := addEatCards_loop
    (s := { fresh.addHandCards s.getCards with
      eatCards := s.eatCards, huXi := 0, huXi2 := 0, paoTimes := 0 })
    s.eatCards ledger.melds counted
  obtain ⟨liveBig, liveSmall, liveRed⟩ := ledger.counted
  constructor
  · exact totals.cards.trans cards
  · rw [ledger.count, ← cards, ← dealt.count]
    exact totals.countCards
  · exact big.trans liveBig.symm
  · exact small.trans liveSmall.symm
  · exact red.trans liveRed.symm
  · rw [ledger.paoTimes]
    exact totals.paoTimes.trans (UInt8.zero_add _)
  · rw [ledger.huXi]
    exact totals.huXi.trans (UInt8.zero_add _)
  · rw [huXi2]
    exact totals.huXi2.trans (UInt8.zero_add _)

/-! ## The shown points of the live hand -/

/-- `_huXi2` is what the other players see of the table melds. -/
def Shown (s : HandCards) : Prop := s.huXi2 = UInt8.ofNat (meldsPoints2 s.eatCards)

theorem Shown.of_same {s t : HandCards} (shown : s.Shown) (huXi2 : t.huXi2 = s.huXi2)
    (eatCards : t.eatCards = s.eatCards) : t.Shown := by
  rw [Shown, huXi2, eatCards]
  exact shown

theorem Shown.push {s t : HandCards} (shown : s.Shown) (eats : List EatCard)
    (huXi2 : t.huXi2 = s.huXi2 + UInt8.ofNat (meldsPoints2 eats))
    (eatCards : t.eatCards = s.eatCards ++ eats) : t.Shown := by
  rw [Shown, huXi2, eatCards, meldsPoints2_append, UInt8.ofNat_add, shown]

private theorem removeCard_frame (s : HandCards) (card : Card) (num : Nat) :
    ∃ cards count, (s.removeCard card num).1 =
      { s with cards := cards, countCards := count } := by
  unfold removeCard
  split_ifs <;> exact ⟨_, _, rfl⟩

theorem addCard_shown {s : HandCards} (shown : s.Shown) (card : Card) : (s.addCard card).Shown := by
  unfold addCard
  split
  · exact shown
  · exact shown.of_same rfl rfl

theorem addHandCards_shown (s : HandCards) (cards : List Card) : (s.addHandCards cards).Shown := by
  unfold addHandCards
  induction cards using List.reverseRecOn with
  | nil => rfl
  | append_singleton cards card ih =>
      rw [List.foldl_append]
      exact addCard_shown ih card

theorem outHandCard_shown {s : HandCards} (shown : s.Shown) (card : Card) :
    (s.outHandCard card).1.Shown := by
  obtain ⟨cards, count, removed⟩ := removeCard_frame s card 1
  unfold outHandCard
  split
  · exact shown
  · dsimp only
    split
    · exact shown
    · rw [removed, passCard]
      split
      · exact shown.of_same rfl rfl
      · exact shown.of_same rfl rfl

theorem layThree_shown {s : HandCards} (shown : s.Shown) {card : Card} {type : EatType}
    {xi xi2 : UInt8}
    (points : xi2 = UInt8.ofNat (EatCard.points2 ⟨type, card.isBig, card, []⟩)) :
    (s.layThree card type xi xi2).1.Shown := by
  obtain ⟨cards, count, removed⟩ := removeCard_frame s card 2
  simp only [layThree, removed]
  refine shown.push [⟨type, card.isBig, card, []⟩] ?_ rfl
  rw [meldsPoints2_cons, meldsPoints2_nil, add_zero, ← points]
  rfl

theorem layFour_shown {s : HandCards} (shown : s.Shown) {card : Card} {type : EatType} {xi : UInt8}
    (points : xi = UInt8.ofNat (EatCard.points2 ⟨type, card.isBig, card, []⟩)) :
    (s.layFour card type xi).1.Shown := by
  obtain ⟨cards, count, removed⟩ := removeCard_frame s card 3
  simp only [layFour, removed]
  refine shown.push [⟨type, card.isBig, card, []⟩] ?_ rfl
  rw [meldsPoints2_cons, meldsPoints2_nil, add_zero, ← points]
  rfl

theorem eatPeng_shown {s : HandCards} (shown : s.Shown) (card : Card) :
    (s.eatPeng card).1.Shown := by
  unfold eatPeng
  split
  · exact shown
  · split
    · exact shown
    · refine layThree_shown shown ?_
      cases card.isBig <;> rfl

theorem eatWei_shown {s : HandCards} (shown : s.Shown) (card : Card) : (s.eatWei card).1.Shown := by
  unfold eatWei
  split
  · exact shown
  · exact layThree_shown shown rfl

theorem eatWei2_shown {s : HandCards} (shown : s.Shown) (card : Card) :
    (s.eatWei2 card).1.Shown := by
  unfold eatWei2
  split
  · exact shown
  · refine layThree_shown shown ?_
    cases card.isBig <;> rfl

/-- The operation turns a wei on the table into a pao or a ti. -/
def Op.UpgradesWei (s : HandCards) : Op → Prop
  | eatPao card | eatTi card => s.getCardCount card ≠ 3 ∧
      ∃ before eat after, findMeld card s.eatCards = some (before, eat, after) ∧
        eat.type = .eatWei
  | _ => False

theorem eatPao_shown {s : HandCards} (ledger : s.Ledger) (shown : s.Shown) {card : Card}
    (noWei : ¬ (Op.eatPao card).UpgradesWei s) : (s.eatPao card).1.Shown := by
  unfold eatPao
  split
  · refine layFour_shown shown ?_
    cases card.isBig <;> rfl
  · next notThree =>
    split
    · exact shown
    · next before eat after found =>
      obtain ⟨split, same⟩ := findMeld_spec found
      dsimp only
      split
      · next peng =>
        have size := ((ledger.melds eat (by simp [split])).size (by rw [peng]; decide)).1
        rw [same] at size
        have points : meldsPoints2 (before ++ after ++ [{ eat with type := .eatPao }]) =
            meldsPoints2 s.eatCards + if card.isBig then 6 else 5 := by
          rw [split, size]
          simp only [meldsPoints2_append, meldsPoints2_cons, meldsPoints2_nil]
          cases big : eat.big <;> simp [EatCard.points2, EatCard.points, peng, big] <;> omega
        rw [Shown, upgradeMeld_eatCards, points, UInt8.ofNat_add, ← shown]
        change s.huXi2 + _ = _
        cases card.isBig <;> rfl
      · split
        · next wei => exact absurd ⟨notThree, before, eat, after, found, wei⟩ noWei
        · rw [countOut_countIn]
          exact shown

theorem eatTi_shown {s : HandCards} (shown : s.Shown) {card : Card}
    (noWei : ¬ (Op.eatTi card).UpgradesWei s) : (s.eatTi card).1.Shown := by
  unfold eatTi
  split
  · refine layFour_shown shown ?_
    cases card.isBig <;> rfl
  · next notThree =>
    split
    · exact shown
    · next before eat after found =>
      dsimp only
      split
      · next wei => exact absurd ⟨notThree, before, eat, after, found, wei⟩ noWei
      · rw [countOut_countIn]
        exact shown

theorem eatChi_shown {s : HandCards} (ledger : s.Ledger) (shown : s.Shown) {card : Card}
    {prior : EatChiCard} {plan : List EatCard} (offered : (s.checkChi card prior).2.2 = true)
    (offers : (s.checkChi card prior).2.1.Offers plan) : (s.eatChi card plan).1.Shown := by
  have gates := checkChi_gates offered
  obtain ⟨left, chiPlan⟩ := checkChi_offers gates ledger.nonneg offers
  have fits := chiPlan.fits gates.valid ledger.nonneg gates.few
  obtain ⟨rollsBack, lays⟩ := eatChi_spec ledger.nonneg chiPlan.ne_nil fits
  by_cases copy : 0 < left.getCardCount card
  · rw [rollsBack copy]
    exact shown
  · obtain ⟨cardFlags, result⟩ := lays (not_lt.mp copy)
    rw [result]
    refine shown.push plan ?_ rfl
    have same : plan.map EatCard.points2 = plan.map EatCard.points := by
      apply List.map_congr_left
      intro eat member
      obtain ⟨combo, realises⟩ := (fits.melds eat member).2.1
      exact realises.points2_eq
    rw [meldsPoints2, same]
    rfl

theorem firstBlood_shown {s : HandCards} (shown : s.Shown) : s.firstBlood.1.Shown := by
  have pass : ∀ (acc : HandCards × List Card) (i : Fin 20), acc.1.Shown →
      (firstBloodAt acc i).1.Shown := by
    intro acc i accShown
    unfold firstBloodAt
    split
    · obtain ⟨cards, count, removed⟩ := removeCard_frame
        (acc.1.pushEat ⟨.eatQishouTi, (cardAt i).isBig, cardAt i, []⟩) (cardAt i) 4
      simp only [removed]
      refine accShown.push [⟨.eatQishouTi, (cardAt i).isBig, cardAt i, []⟩] ?_ rfl
      change acc.1.huXi2 + _ = _
      cases (cardAt i).isBig <;> rfl
    · exact accShown
  have loop : ∀ (positions : List (Fin 20)) (acc : HandCards × List Card), acc.1.Shown →
      (positions.foldl firstBloodAt acc).1.Shown := by
    intro positions
    induction positions with
    | nil => exact fun acc accShown => accShown
    | cons i rest ih => exact fun acc accShown => ih _ (pass acc i accShown)
  have done := loop (List.finRange 20) (s, []) shown
  simp only [firstBlood]
  split
  · exact done.of_same rfl rfl
  · exact done

theorem delTianHuCard_shown {s : HandCards} (ledger : s.Ledger) (shown : s.Shown) (del : Card) :
    (s.delTianHuCard del).Shown := by
  unfold delTianHuCard
  extract_lets opening dropped unflagged xi counted
  split
  · next isOpening =>
    obtain ⟨eat, member, eatOpening⟩ := List.any_eq_true.mp isOpening
    obtain ⟨found, before, after, -, foundOpening, split, erased⟩ :=
      List.exists_of_eraseP member eatOpening
    obtain ⟨type, same⟩ := of_decide_eq_true foundOpening
    refine addCard_shown (addCard_shown (addCard_shown ?_ _) _) _
    have size := ((ledger.melds found (by simp [split])).size (by rw [type]; decide)).1
    rw [same] at size
    have points : meldsPoints2 s.eatCards =
        meldsPoints2 (before ++ after) + if del.isBig then 12 else 9 := by
      rw [split, size]
      simp only [meldsPoints2_append, meldsPoints2_cons]
      cases big : found.big <;> simp [EatCard.points2, EatCard.points, type, big] <;> omega
    have huXi2 : counted.huXi2 = s.huXi2 - xi := by
      simp only [counted, unflagged]
      split <;> rfl
    have eatCards : counted.eatCards = before ++ after := by
      rw [← erased]
      simp only [counted, unflagged]
      split <;> rfl
    rw [Shown, huXi2, eatCards, shown, points, UInt8.ofNat_add]
    have same : UInt8.ofNat (if del.isBig then 12 else 9) = xi := by
      simp only [xi]
      cases del.isBig <;> rfl
    rw [same, UInt8.add_sub_cancel]
  · obtain ⟨cards, count, removed⟩ := removeCard_frame s del 1
    rw [removed]
    exact shown.of_same rfl rfl

theorem Shown.of_unmoved {s t : HandCards} (shown : s.Shown) (unmoved : s.Unmoved t) :
    t.Shown := by
  rw [unmoved]
  exact shown

/-- Every operation but the upgrade of a wei keeps the shown points. -/
theorem Op.apply_shown {s : HandCards} (ledger : s.Ledger) (shown : s.Shown) {op : Op}
    (allowed : op.Allowed s) (noWei : ¬ op.UpgradesWei s) : (op.apply s).Shown := by
  cases op with
  | addHandCards cards => exact addHandCards_shown s cards
  | addCard card => exact addCard_shown shown card
  | firstBlood => exact firstBlood_shown shown
  | outHandCard card => exact outHandCard_shown shown card
  | eatPeng card => exact eatPeng_shown shown card
  | eatWei card => exact eatWei_shown shown card
  | eatWei2 card => exact eatWei2_shown shown card
  | eatPao card => exact eatPao_shown ledger shown noWei
  | eatTi card => exact eatTi_shown shown noWei
  | eatChi card plan =>
      obtain ⟨prior, offered, offers⟩ := allowed
      exact eatChi_shown ledger shown offered offers
  | delTianHuCard del => exact delTianHuCard_shown ledger shown del
  | checkChi card prior =>
      change (s.checkChi card prior).1.Shown
      rw [checkChi_fst s card prior ledger.nonneg]
      exact shown
  | checkHu card self fetch => exact shown.of_unmoved (checkHu_unmoved s card self fetch)
  | checkHuSelf self => exact shown.of_unmoved (checkHuSelf_unmoved s self)
  | isTing outCard => exact shown.of_unmoved (isTing_unmoved s outCard)

/-- In every game without such an upgrade the rebuilt hand is the live one. -/
theorem rebuilds_of_no_upgrade {ops : List Op} {s : HandCards}
    (run : (game.restrict fun s op => ¬ op.UpgradesWei s).Run ops s) (fresh : HandCards) :
    fresh.Rebuilds s := by
  have both : s.Ledger ∧ s.Shown := by
    refine System.Run.invariant (fun s => s.Ledger ∧ s.Shown) ?_ ?_ run
    · rintro s ⟨before, rfl⟩
      exact ⟨clear_ledger before, rfl⟩
    · rintro s op t ⟨ledger, shown⟩ ⟨noWei, allowed, rfl, -⟩
      exact ⟨Op.apply_ledger ledger allowed, Op.apply_shown ledger shown allowed noWei⟩
  exact both.1.rebuilds both.2 fresh

set_option maxRecDepth 20000 in
/-- The sample deal, where the pair is melded as a peng. -/
theorem rebuilds_of_no_upgrade_pairOfTwos :
    Rebuilds {} (((clear {}).addHandCards pairOfTwos).eatPeng (.makeCard 2 true)).1 := by
  have cleared : (game.restrict fun s op => ¬ op.UpgradesWei s).Run [] (clear {}) :=
    .start ⟨{}, rfl⟩
  have dealt : (game.restrict fun s op => ¬ op.UpgradesWei s).Run [.addHandCards pairOfTwos]
      ((clear {}).addHandCards pairOfTwos) :=
    cleared.step ⟨id, trivial, rfl, by decide⟩
  have peng : (game.restrict fun s op => ¬ op.UpgradesWei s).Run
      [.addHandCards pairOfTwos, .eatPeng (.makeCard 2 true)]
      (((clear {}).addHandCards pairOfTwos).eatPeng (.makeCard 2 true)).1 :=
    dealt.step ⟨id, trivial, rfl, by decide⟩
  exact rebuilds_of_no_upgrade peng {}

set_option maxRecDepth 20000 in
/-- The sample deal, where the pair becomes a wei and then a pao: the live hand
shows 3 points and the rebuilt one 9. -/
theorem not_rebuilds_wei_pao :
    game.Run [.addHandCards pairOfTwos, .eatWei (.makeCard 2 true), .eatPao (.makeCard 2 true)]
      ((((clear {}).addHandCards pairOfTwos).eatWei (.makeCard 2 true)).1.eatPao
        (.makeCard 2 true)).1 ∧
    ¬ Rebuilds {} ((((clear {}).addHandCards pairOfTwos).eatWei (.makeCard 2 true)).1.eatPao
        (.makeCard 2 true)).1 := by
  constructor
  · have cleared : game.Run [] (clear {}) := .start ⟨{}, rfl⟩
    have dealt : game.Run [.addHandCards pairOfTwos] ((clear {}).addHandCards pairOfTwos) :=
      cleared.step ⟨trivial, rfl, by decide⟩
    have wei : game.Run [.addHandCards pairOfTwos, .eatWei (.makeCard 2 true)]
        (((clear {}).addHandCards pairOfTwos).eatWei (.makeCard 2 true)).1 :=
      dealt.step ⟨trivial, rfl, by decide⟩
    exact wei.step ⟨trivial, rfl, by decide⟩
  · intro rebuilds
    exact absurd rebuilds.huXi2 (by decide)

end HandCards

end CLibs.Cardlib
