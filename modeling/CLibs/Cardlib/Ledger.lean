import CLibs.Cardlib.ChiEnumeration

/-!
# The running totals of a hand

The counters of `HandCards` against the cards and melds they summarise, byte by
byte modulo 256. Each operation keeps the ledger without any bound on the
number of copies; the bound only enters where bytes are read as numbers.
-/

set_option autoImplicit false

namespace CLibs.Cardlib

/-- A meld the operations put on the table: a combination of the rules, or three
or four equal cards. -/
inductive EatCard.OnTable (eat : EatCard) : Prop where
  | chi (combo : Combo) (realises : eat.Realises combo)
  | same (type : eat.type = .eatPeng ∨ eat.type = .eatWei ∨ eat.type = .eatWei2 ∨
        eat.type = .eatPao ∨ eat.type = .eatTi ∨ eat.type = .eatQishouTi)
      (valid : eat.eatCard.isValid = true) (big : eat.big = eat.eatCard.isBig)

theorem EatCard.OnTable.size {eat : EatCard} (onTable : eat.OnTable)
    (notChi : ∀ combo : Combo, eat.type ≠ combo.type) :
    eat.eatCard.isBig = eat.big ∧ eat.eatCard.isValid = true := by
  cases onTable with
  | chi combo realises => exact absurd realises.type (notChi combo)
  | same _ valid big => exact ⟨big.symm, valid⟩

namespace HandCards

def bag (s : HandCards) : Multiset Card := s.cards.bag + meldsBag s.eatCards

def Counted (s : HandCards) (bag : Multiset Card) : Prop :=
  s.bigCards = UInt8.ofNat (bag.countP (·.isBig = true)) ∧
  s.smallCards = UInt8.ofNat (bag.countP (·.isBig = false)) ∧
  s.redCards = UInt8.ofNat (bag.countP (isHong · = true))

/-- All counters are up to date, modulo 256. -/
structure Ledger (s : HandCards) : Prop where
  nonneg : s.cards.Nonneg
  count : s.countCards = UInt8.ofNat s.cards.total
  counted : s.Counted s.bag
  huXi : s.huXi = UInt8.ofNat (meldsPoints s.eatCards)
  paoTimes : s.paoTimes = UInt8.ofNat (s.eatCards.countP EatCard.isFour)
  melds : ∀ eat ∈ s.eatCards, eat.OnTable

/-! ## Size and color counters -/

theorem Counted.countIn {s : HandCards} {bag : Multiset Card} (counted : s.Counted bag)
    (card : Card) : (s.countIn card).Counted (card ::ₘ bag) := by
  obtain ⟨big, small, red⟩ := counted
  refine ⟨?_, ?_, ?_⟩
  · cases size : card.isBig <;> simp [HandCards.countIn, big, size]
  · cases size : card.isBig <;> simp [HandCards.countIn, small, size]
  · cases color : isHong card <;> simp [HandCards.countIn, red, color]

theorem Counted.countOut {s : HandCards} {bag : Multiset Card} {card : Card}
    (counted : s.Counted (card ::ₘ bag)) : (s.countOut card).Counted bag := by
  obtain ⟨big, small, red⟩ := counted
  refine ⟨?_, ?_, ?_⟩
  · cases size : card.isBig <;> simp [HandCards.countOut, big, size]
  · cases size : card.isBig <;> simp [HandCards.countOut, small, size]
  · cases color : isHong card <;> simp [HandCards.countOut, red, color]

/-! ## Cards leaving and entering the hand -/

theorem removeCard_spec (s : HandCards) {card : Card} {num : Nat} (valid : card.isValid = true)
    (held : (num : Int) ≤ s.getCardCount card) (nonneg : s.cards.Nonneg) :
    ∃ cards : Cards, s.removeCard card num =
        ({ s with cards := cards, countCards := s.countCards - UInt8.ofNat num }, true) ∧
      cards.Nonneg ∧ s.cards.bag = Multiset.replicate num card + cards.bag := by
  have count : s.cards (getIndex card) = s.getCardCount card :=
    (Cards.getCardCount_of_isValid s.cards valid).symm
  refine ⟨s.cards.optCardCount card (-num), ?_, ?_, ?_⟩
  · simp [removeCard, valid, count, held]
  · intro other
    rw [Cards.getCardCount_optCardCount _ valid]
    have := nonneg other
    split
    · next same =>
      subst same
      simp only [HandCards.getCardCount] at held
      omega
    · omega
  · ext other
    rw [Multiset.count_add, Cards.count_bag, Cards.count_bag,
      Cards.getCardCount_optCardCount _ valid, Multiset.count_replicate]
    by_cases same : other = card
    · subst same
      simp only [if_true, HandCards.getCardCount] at held ⊢
      omega
    · simp [same, Ne.symm same]

theorem total_of_bag {cards before : Cards} {taken : Multiset Card}
    (split : before.bag = taken + cards.bag) :
    UInt8.ofNat cards.total = UInt8.ofNat before.total - UInt8.ofNat taken.card := by
  have sizes := congrArg Multiset.card split
  rw [Cards.card_bag, Multiset.card_add, Cards.card_bag] at sizes
  rw [sizes, UInt8.ofNat_add, UInt8.add_comm, UInt8.add_sub_cancel]

theorem isValid_of_held {s : HandCards} {card : Card} {num : Int}
    (held : s.getCardCount card = num) (positive : 0 < num) : card.isValid = true :=
  Cards.isValid_of_getCardCount_pos (held ▸ positive)

theorem addCard_ledger {s : HandCards} (ledger : s.Ledger) (card : Card) :
    (s.addCard card).Ledger := by
  unfold addCard
  cases valid : card.isValid with
  | false => simpa using ledger
  | true =>
      have hand := Cards.bag_optCardCount_one valid (ledger.nonneg card)
      refine ⟨?_, ?_, ?_, ledger.huXi, ledger.paoTimes, ledger.melds⟩
      · intro other
        change 0 ≤ (s.cards.optCardCount card 1).getCardCount other
        rw [Cards.getCardCount_optCardCount _ valid]
        have := ledger.nonneg other
        split <;> omega
      · have sizes := congrArg Multiset.card hand
        rw [Cards.card_bag, Multiset.card_cons, Cards.card_bag] at sizes
        change s.countCards + 1 = UInt8.ofNat (s.cards.optCardCount card 1).total
        rw [sizes, ledger.count, UInt8.ofNat_add]
        rfl
      · have counted := ledger.counted.countIn card
        have whole : (s.cards.optCardCount card 1).bag + meldsBag s.eatCards = card ::ₘ s.bag := by
          rw [hand, Multiset.cons_add]
          rfl
        rw [← whole] at counted
        exact counted

theorem clear_ledger (s : HandCards) : s.clear.Ledger := by
  have empty : s.clear.cards.bag = 0 := by simp [clear, Cards.bag]
  refine ⟨?_, ?_, ?_, rfl, rfl, by simp [clear]⟩
  · rw [Cards.nonneg_iff]
    intro i
    exact le_refl 0
  · rw [← Cards.card_bag, empty]
    rfl
  · have whole : s.clear.bag = 0 := by
      rw [bag, empty]
      rfl
    rw [whole]
    exact ⟨rfl, rfl, rfl⟩

theorem addHandCards_ledger (s : HandCards) (cards : List Card) :
    (s.addHandCards cards).Ledger := by
  unfold addHandCards
  induction cards using List.reverseRecOn with
  | nil => exact clear_ledger s
  | append_singleton cards card ih =>
      rw [List.foldl_append]
      exact addCard_ledger ih card

theorem takeOut_ledger {s : HandCards} (ledger : s.Ledger) {card : Card}
    (held : 0 < s.getCardCount card) : ((s.removeCard card 1).1.countOut card).Ledger := by
  have valid := isValid_of_held rfl held
  have one : ((1 : Nat) : Int) ≤ s.getCardCount card := by omega
  obtain ⟨cards, removed, nonneg, split⟩ := s.removeCard_spec valid one ledger.nonneg
  have whole : card ::ₘ (cards.bag + meldsBag s.eatCards) = s.bag := by
    rw [bag, split, ← Multiset.cons_add]
    rfl
  have counted : (s.countOut card).Counted (cards.bag + meldsBag s.eatCards) := by
    apply Counted.countOut
    rw [whole]
    exact ledger.counted
  have count : s.countCards - 1 = UInt8.ofNat cards.total := by
    rw [total_of_bag split, ← ledger.count, Multiset.card_replicate]
    rfl
  rw [removed]
  exact ⟨nonneg, count, counted, ledger.huXi, ledger.paoTimes, ledger.melds⟩

theorem checkOut_spec {s : HandCards} {card : Card} (playable : s.checkOut card = true) :
    card.isValid = true ∧ 0 < s.getCardCount card ∧ s.getCardCount card < 3 := by
  cases valid : card.isValid with
  | false => simp [checkOut, valid] at playable
  | true =>
      rw [HandCards.getCardCount, Cards.getCardCount_of_isValid _ valid]
      simpa [checkOut, valid] using playable

theorem removeCard_succeeds {s : HandCards} {card : Card} {num : Nat}
    (valid : card.isValid = true) (held : (num : Int) ≤ s.getCardCount card) :
    (s.removeCard card num).2 = true := by
  rw [HandCards.getCardCount, Cards.getCardCount_of_isValid _ valid] at held
  simp [removeCard, valid, held]

theorem outHandCard_ledger {s : HandCards} (ledger : s.Ledger) (card : Card) :
    (s.outHandCard card).1.Ledger := by
  unfold outHandCard
  cases playable : s.checkOut card with
  | false => simpa using ledger
  | true =>
      obtain ⟨valid, held, -⟩ := checkOut_spec playable
      have done := takeOut_ledger ledger held
      have succeeds : (s.removeCard card 1).2 = true := removeCard_succeeds valid (by omega)
      simp only [succeeds, Bool.not_true, Bool.false_eq_true, if_false, passCard, valid]
      exact ⟨done.nonneg, done.count, done.counted, done.huXi, done.paoTimes, done.melds⟩

/-! ## Melds laid down from the hand -/

theorem layDown_bag {s t : HandCards} {card : Card} {num : Nat} {eat : EatCard}
    (split : s.cards.bag = Multiset.replicate num card + t.cards.bag)
    (meldBag : eat.bag = card ::ₘ Multiset.replicate num card)
    (eatCards : t.eatCards = s.eatCards ++ [eat]) : t.bag = card ::ₘ s.bag := by
  rw [bag, bag, split, eatCards, meldsBag_append, meldsBag_cons, meldBag, meldsBag_nil,
    ← Multiset.cons_add, ← Multiset.singleton_add, ← Multiset.singleton_add]
  abel

/-- The effect shared by the operations that lay down `num` equal cards of the
hand together with one incoming card. -/
theorem Ledger.layDown {s t : HandCards} {card : Card} {num : Nat} {eat : EatCard}
    (ledger : s.Ledger) (nonneg : t.cards.Nonneg)
    (split : s.cards.bag = Multiset.replicate num card + t.cards.bag)
    (meld : eat.OnTable) (meldBag : eat.bag = card ::ₘ Multiset.replicate num card)
    (count : t.countCards = s.countCards - UInt8.ofNat num)
    (counted : t.Counted (card ::ₘ s.bag)) (huXi : t.huXi = s.huXi + UInt8.ofNat eat.points)
    (paoTimes : t.paoTimes = s.paoTimes + UInt8.ofNat ([eat].countP EatCard.isFour))
    (eatCards : t.eatCards = s.eatCards ++ [eat]) : t.Ledger := by
  refine ⟨nonneg, ?_, ?_, ?_, ?_, ?_⟩
  · rw [count, ledger.count, total_of_bag split, Multiset.card_replicate]
  · rw [layDown_bag split meldBag eatCards]
    exact counted
  · rw [huXi, ledger.huXi, eatCards, meldsPoints_append, UInt8.ofNat_add]
    simp
  · rw [paoTimes, ledger.paoTimes, eatCards, List.countP_append, UInt8.ofNat_add]
  · intro other member
    rw [eatCards] at member
    rcases List.mem_append.mp member with old | new
    · exact ledger.melds other old
    · rw [List.mem_singleton.mp new]
      exact meld

theorem layThree_ledger {s : HandCards} (ledger : s.Ledger) {card : Card}
    (two : s.getCardCount card = 2) {type : EatType} {xi : UInt8} (xi2 : UInt8)
    (three : type = .eatPeng ∨ type = .eatWei ∨ type = .eatWei2)
    (points : xi = UInt8.ofNat (EatCard.points ⟨type, card.isBig, card, []⟩)) :
    (s.layThree card type xi xi2).1.Ledger := by
  have valid := isValid_of_held two (by decide)
  obtain ⟨cards, removed, nonneg, taken⟩ :=
    s.removeCard_spec valid (show ((2 : Nat) : Int) ≤ _ from two.ge) ledger.nonneg
  let eat : EatCard := ⟨type, card.isBig, card, []⟩
  have meld : eat.OnTable := .same (by simp only [eat]; tauto) valid rfl
  have meldBag : eat.bag = card ::ₘ Multiset.replicate 2 card := by
    rcases three with rfl | rfl | rfl <;> rfl
  have notFour : [eat].countP EatCard.isFour = 0 := by
    rcases three with rfl | rfl | rfl <;> rfl
  simp only [layThree, removed]
  refine Ledger.layDown ledger nonneg taken meld meldBag rfl (ledger.counted.countIn card)
    (points ▸ rfl) ?_ rfl
  rw [notFour]
  exact (UInt8.add_zero _).symm

theorem layFour_ledger {s : HandCards} (ledger : s.Ledger) {card : Card}
    (three : s.getCardCount card = 3) {type : EatType} {xi : UInt8}
    (four : type = .eatPao ∨ type = .eatTi)
    (points : xi = UInt8.ofNat (EatCard.points ⟨type, card.isBig, card, []⟩)) :
    (s.layFour card type xi).1.Ledger := by
  have valid := isValid_of_held three (by decide)
  obtain ⟨cards, removed, nonneg, taken⟩ :=
    s.removeCard_spec valid (show ((3 : Nat) : Int) ≤ _ from three.ge) ledger.nonneg
  let eat : EatCard := ⟨type, card.isBig, card, []⟩
  have meld : eat.OnTable := .same (by simp only [eat]; tauto) valid rfl
  have meldBag : eat.bag = card ::ₘ Multiset.replicate 3 card := by
    rcases four with rfl | rfl <;> rfl
  have isFour : [eat].countP EatCard.isFour = 1 := by
    rcases four with rfl | rfl <;> rfl
  simp only [layFour, removed]
  refine Ledger.layDown ledger nonneg taken meld meldBag rfl (ledger.counted.countIn card)
    (points ▸ rfl) ?_ rfl
  rw [isFour]
  rfl

theorem eatPeng_ledger {s : HandCards} (ledger : s.Ledger) (card : Card) :
    (s.eatPeng card).1.Ledger := by
  unfold eatPeng
  split
  · exact ledger
  · next two =>
    split
    · exact ledger
    · refine layThree_ledger ledger (not_not.mp two) _ (by simp) ?_
      cases card.isBig <;> rfl

theorem eatWei_ledger {s : HandCards} (ledger : s.Ledger) (card : Card) :
    (s.eatWei card).1.Ledger := by
  unfold eatWei
  split
  · exact ledger
  · next two =>
    refine layThree_ledger ledger (not_not.mp two) _ (by simp) ?_
    cases card.isBig <;> rfl

theorem eatWei2_ledger {s : HandCards} (ledger : s.Ledger) (card : Card) :
    (s.eatWei2 card).1.Ledger := by
  unfold eatWei2
  split
  · exact ledger
  · next two =>
    refine layThree_ledger ledger (not_not.mp two) _ (by simp) ?_
    cases card.isBig <;> rfl

/-! ## Upgrading a table meld -/

theorem findMeld_spec {card : Card} {eats before after : List EatCard} {eat : EatCard}
    (found : findMeld card eats = some (before, eat, after)) :
    eats = before ++ eat :: after ∧ eat.eatCard = card := by
  induction eats generalizing before with
  | nil => simp [findMeld] at found
  | cons head rest ih =>
      simp only [findMeld] at found
      split at found
      · next same =>
        cases found
        exact ⟨rfl, same⟩
      · obtain ⟨⟨restBefore, restEat, restAfter⟩, restFound, shape⟩ := Option.map_eq_some_iff.mp found
        cases shape
        obtain ⟨split, same⟩ := ih restFound
        exact ⟨by rw [split]; rfl, same⟩

theorem moveToEnd_eq (before : List EatCard) (eat : EatCard) (after : List EatCard) :
    moveToEnd before eat after = before ++ after ++ [eat] := by
  cases after <;> simp [moveToEnd]

private theorem size_of_found {s : HandCards} (ledger : s.Ledger) {card : Card}
    {before after : List EatCard} {eat : EatCard}
    (found : findMeld card s.eatCards = some (before, eat, after))
    (three : eat.type = .eatPeng ∨ eat.type = .eatWei) :
    card.isBig = eat.big ∧ card.isValid = true := by
  obtain ⟨split, same⟩ := findMeld_spec found
  rw [← same]
  refine (ledger.melds eat (by simp [split])).size ?_
  rcases three with type | type <;> rw [type] <;> decide

@[simp] theorem upgradeMeld_eatCards (s : HandCards) (before after : List EatCard) (eat : EatCard)
    (type : EatType) (xi : UInt8) :
    (s.upgradeMeld before eat after type xi).1.eatCards =
      before ++ after ++ [{ eat with type := type }] :=
  moveToEnd_eq _ _ _

theorem upgradeMeld_bag {s : HandCards} {card : Card} {before after : List EatCard} {eat : EatCard}
    {type : EatType} (found : findMeld card s.eatCards = some (before, eat, after))
    (three : eat.type = .eatPeng ∨ eat.type = .eatWei) (four : type = .eatPao ∨ type = .eatTi)
    (xi : UInt8) :
    ((s.countIn card).upgradeMeld before eat after type xi).1.bag = card ::ₘ s.bag := by
  obtain ⟨split, same⟩ := findMeld_spec found
  have newBag : EatCard.bag { eat with type := type } = card ::ₘ eat.bag := by
    rcases three with three | three <;> rcases four with rfl | rfl <;>
      simp [EatCard.bag, three, same, Multiset.replicate_succ]
  have hand : ((s.countIn card).upgradeMeld before eat after type xi).1.cards = s.cards := rfl
  rw [bag, upgradeMeld_eatCards, hand, bag, split]
  simp only [meldsBag_append, meldsBag_cons, meldsBag_nil, newBag, ← Multiset.singleton_add]
  abel

theorem upgradeMeld_ledger {s : HandCards} (ledger : s.Ledger) {card : Card}
    {before after : List EatCard} {eat : EatCard} {type : EatType} {xi : UInt8}
    (found : findMeld card s.eatCards = some (before, eat, after))
    (three : eat.type = .eatPeng ∨ eat.type = .eatWei)
    (four : type = .eatPao ∨ type = .eatTi)
    (points : UInt8.ofNat eat.points + xi =
      UInt8.ofNat (EatCard.points { eat with type := type })) :
    ((s.countIn card).upgradeMeld before eat after type xi).1.Ledger := by
  obtain ⟨split, same⟩ := findMeld_spec found
  obtain ⟨size, valid⟩ := size_of_found ledger found three
  refine ⟨ledger.nonneg, ledger.count, ?_, ?_, ?_, ?_⟩
  · rw [upgradeMeld_bag found three four]
    exact ledger.counted.countIn card
  · rw [upgradeMeld_eatCards]
    change s.huXi + xi = _
    have old : s.huXi = UInt8.ofNat (meldsPoints before) + UInt8.ofNat (meldsPoints after) +
        UInt8.ofNat eat.points := by
      rw [ledger.huXi, split, meldsPoints_append, meldsPoints_cons, ← UInt8.ofNat_add,
        ← UInt8.ofNat_add]
      congr 1
      omega
    rw [old, UInt8.add_assoc, points]
    simp [UInt8.add_assoc]
  · rw [upgradeMeld_eatCards]
    change s.paoTimes + 1 = _
    have notFour : eat.isFour = false := by
      rcases three with three | three <;> simp [EatCard.isFour, three]
    have isFour : EatCard.isFour { eat with type := type } = true := by
      rcases four with rfl | rfl <;> simp [EatCard.isFour]
    rw [ledger.paoTimes, split]
    simp [List.countP_append, notFour, isFour, UInt8.add_assoc]
  · intro other member
    rw [upgradeMeld_eatCards] at member
    simp only [List.mem_append, List.mem_singleton] at member
    rcases member with old | rfl
    · apply ledger.melds
      rw [split]
      simp only [List.mem_append, List.mem_cons]
      tauto
    · exact .same (by simp only; tauto) (by rw [same]; exact valid) (by rw [same]; exact size.symm)

@[simp] theorem countOut_countIn (s : HandCards) (card : Card) :
    (s.countIn card).countOut card = s := by
  cases size : card.isBig <;> cases color : isHong card <;>
    simp [countIn, countOut, size, color]

theorem eatPao_ledger {s : HandCards} (ledger : s.Ledger) (card : Card) :
    (s.eatPao card).1.Ledger := by
  unfold eatPao
  split
  · next three =>
    refine layFour_ledger ledger three (.inl rfl) ?_
    cases card.isBig <;> rfl
  · split
    · exact ledger
    · next before eat after found =>
      dsimp only
      split
      · next peng =>
        refine upgradeMeld_ledger ledger found (.inl peng) (.inl rfl) ?_
        rw [(size_of_found ledger found (.inl peng)).1]
        cases size : eat.big <;> simp [EatCard.points, peng, size]
      · split
        · next wei =>
          refine upgradeMeld_ledger ledger found (.inr wei) (.inl rfl) ?_
          cases size : eat.big <;> simp [EatCard.points, wei, size]
        · rw [countOut_countIn]
          exact ledger

/-- A successful `EatPao` puts the incoming card and its copies of the hand into
one table meld. -/
theorem eatPao_taken {s : HandCards} (nonneg : s.cards.Nonneg) {card : Card}
    (succeeds : (s.eatPao card).2 = true) :
    (s.eatPao card).1.bag = card ::ₘ s.bag ∧
      (∃ eat ∈ (s.eatPao card).1.eatCards, eat.type = .eatPao ∧ eat.eatCard = card) ∧
      ∀ other, (s.eatPao card).1.getCardCount other ≤ s.getCardCount other := by
  unfold eatPao at succeeds ⊢
  split at succeeds
  · next three =>
    have valid := isValid_of_held three (by decide)
    obtain ⟨cards, removed, left, taken⟩ :=
      s.removeCard_spec valid (show ((3 : Nat) : Int) ≤ _ from three.ge) nonneg
    rw [if_pos three]
    simp only [layFour, removed]
    refine ⟨layDown_bag taken rfl rfl, ?_, ?_⟩
    · refine ⟨⟨.eatPao, card.isBig, card, []⟩, ?_, rfl, rfl⟩
      simp [clearPassHu, pushEat]
    · intro other
      change cards.getCardCount other ≤ s.cards.getCardCount other
      rw [left.count_eq, nonneg.count_eq, taken, Multiset.count_add]
      omega
  · next notThree =>
    rw [if_neg notThree]
    split at succeeds
    · simp at succeeds
    · next before eat after found =>
      obtain ⟨-, same⟩ := findMeld_spec found
      have upgraded : ∀ xi, eat.type = .eatPeng ∨ eat.type = .eatWei →
          ((s.countIn card).upgradeMeld before eat after .eatPao xi).1.bag = card ::ₘ s.bag ∧
          (∃ pao ∈ ((s.countIn card).upgradeMeld before eat after .eatPao xi).1.eatCards,
            pao.type = .eatPao ∧ pao.eatCard = card) ∧
          ∀ other, ((s.countIn card).upgradeMeld before eat after .eatPao xi).1.getCardCount other ≤
            s.getCardCount other := by
        intro xi three
        refine ⟨upgradeMeld_bag found three (.inl rfl) xi, ?_, fun other => le_refl _⟩
        exact ⟨{ eat with type := .eatPao }, by simp, rfl, same⟩
      dsimp only at succeeds ⊢
      split at succeeds
      · next peng =>
        rw [if_pos peng]
        exact upgraded _ (.inl peng)
      · next notPeng =>
        rw [if_neg notPeng]
        split at succeeds
        · next wei =>
          rw [if_pos wei]
          exact upgraded _ (.inr wei)
        · simp at succeeds

theorem eatTi_ledger {s : HandCards} (ledger : s.Ledger) (card : Card) :
    (s.eatTi card).1.Ledger := by
  unfold eatTi
  split
  · next three =>
    refine layFour_ledger ledger three (.inr rfl) ?_
    cases card.isBig <;> rfl
  · split
    · exact ledger
    · next before eat after found =>
      dsimp only
      split
      · next wei =>
        refine upgradeMeld_ledger ledger found (.inr wei) (.inr rfl) ?_
        cases size : eat.big <;> simp [EatCard.points, wei, size]
      · rw [countOut_countIn]
        exact ledger

/-! ## Opening ti melds -/

theorem firstBloodAt_ledger {acc : HandCards × List Card} (ledger : acc.1.Ledger) (i : Fin 20) :
    (firstBloodAt acc i).1.Ledger := by
  unfold firstBloodAt
  split
  · next four =>
    have held : ((4 : Nat) : Int) ≤ acc.1.getCardCount (cardAt i) := by
      simp [HandCards.getCardCount, four]
    let eat : EatCard := ⟨.eatQishouTi, (cardAt i).isBig, cardAt i, []⟩
    obtain ⟨cards, removed, nonneg, taken⟩ :=
      (acc.1.pushEat eat).removeCard_spec (cardAt_isValid i) held ledger.nonneg
    have whole : cards.bag + meldsBag (acc.1.eatCards ++ [eat]) = acc.1.bag := by
      have hand : acc.1.cards.bag = Multiset.replicate 4 (cardAt i) + cards.bag := taken
      have meld : eat.bag = Multiset.replicate 4 (cardAt i) := rfl
      rw [bag, hand, meldsBag_append, meldsBag_cons, meldsBag_nil, meld]
      abel
    have counted := ledger.counted
    rw [← whole] at counted
    simp only [eat] at removed
    simp only [removed]
    refine ⟨nonneg, ?_, counted, ?_, ?_, ?_⟩
    · change acc.1.countCards - 4 = UInt8.ofNat cards.total
      rw [total_of_bag taken, Multiset.card_replicate, ledger.count]
      rfl
    · change acc.1.huXi + _ = UInt8.ofNat (meldsPoints (acc.1.eatCards ++ [eat]))
      rw [ledger.huXi, meldsPoints_append, UInt8.ofNat_add]
      simp only [meldsPoints_cons, meldsPoints_nil, EatCard.points, eat]
      cases (cardAt i).isBig <;> rfl
    · change acc.1.paoTimes + 1 = UInt8.ofNat ((acc.1.eatCards ++ [eat]).countP EatCard.isFour)
      rw [ledger.paoTimes, List.countP_append, UInt8.ofNat_add]
      rfl
    · intro other member
      rcases List.mem_append.mp member with old | new
      · exact ledger.melds other old
      · rw [List.mem_singleton.mp new]
        exact .same (by simp) (cardAt_isValid i) rfl
  · exact ledger

theorem firstBlood_ledger {s : HandCards} (ledger : s.Ledger) : s.firstBlood.1.Ledger := by
  have loop : ∀ (positions : List (Fin 20)) (acc : HandCards × List Card), acc.1.Ledger →
      (positions.foldl firstBloodAt acc).1.Ledger := by
    intro positions
    induction positions with
    | nil => exact fun acc valid => valid
    | cons i rest ih => exact fun acc valid => ih _ (firstBloodAt_ledger valid i)
  have done := loop (List.finRange 20) (s, []) ledger
  simp only [firstBlood]
  split
  · exact ⟨done.nonneg, done.count, done.counted, done.huXi, done.paoTimes, done.melds⟩
  · exact done

/-! ## Taking a dealt card back -/

theorem Counted.dropSame {s t : HandCards} {bag : Multiset Card} {card : Card} {num : Nat}
    (counted : s.Counted (Multiset.replicate num card + bag))
    (big : t.bigCards = if card.isBig then s.bigCards - UInt8.ofNat num else s.bigCards)
    (small : t.smallCards = if card.isBig then s.smallCards else s.smallCards - UInt8.ofNat num)
    (red : t.redCards = if isHong card then s.redCards - UInt8.ofNat num else s.redCards) :
    t.Counted bag := by
  obtain ⟨oldBig, oldSmall, oldRed⟩ := counted
  simp only [Multiset.countP_add, ← Multiset.coe_replicate, Multiset.coe_countP,
    List.countP_replicate, UInt8.ofNat_add] at oldBig oldSmall oldRed
  refine ⟨?_, ?_, ?_⟩
  · cases size : card.isBig <;>
      simp [big, size, oldBig, UInt8.add_comm (UInt8.ofNat num)]
  · cases size : card.isBig <;>
      simp [small, size, oldSmall, UInt8.add_comm (UInt8.ofNat num)]
  · cases color : isHong card <;>
      simp [red, color, oldRed, UInt8.add_comm (UInt8.ofNat num)]

theorem Ledger.of_flags {s : HandCards} (ledger : s.Ledger) (flags : UInt8) :
    { s with flags := flags }.Ledger :=
  ⟨ledger.nonneg, ledger.count, ledger.counted, ledger.huXi, ledger.paoTimes, ledger.melds⟩

/-- An opening ti leaves the table with its points and its four cards. -/
theorem Ledger.dropOpening {s : HandCards} (ledger : s.Ledger) {del : Card}
    {before after : List EatCard} {eat : EatCard} (split : s.eatCards = before ++ eat :: after)
    (type : eat.type = .eatQishouTi) (same : eat.eatCard = del) :
    { s with
      eatCards := before ++ after
      paoTimes := s.paoTimes - 1
      huXi := s.huXi - if del.isBig then 12 else 9
      huXi2 := s.huXi2 - if del.isBig then 12 else 9
      redCards := if isHong del then s.redCards - 4 else s.redCards
      bigCards := if del.isBig then s.bigCards - 4 else s.bigCards
      smallCards := if del.isBig then s.smallCards else s.smallCards - 4 }.Ledger := by
  have size := ((ledger.melds eat (by simp [split])).size (by rw [type]; decide)).1
  have eatBag : eat.bag = Multiset.replicate 4 del := by
    simp [EatCard.bag, type, same]
  have eatPoints : (if del.isBig then 12 else 9 : UInt8) = UInt8.ofNat eat.points := by
    rw [same] at size
    cases big : eat.big <;> simp [EatCard.points, type, size, big]
  have counted : s.Counted (Multiset.replicate 4 del +
      (s.cards.bag + meldsBag (before ++ after))) := by
    have whole : s.bag = Multiset.replicate 4 del +
        (s.cards.bag + meldsBag (before ++ after)) := by
      rw [bag, split, meldsBag_append, meldsBag_append, meldsBag_cons, eatBag]
      abel
    rw [← whole]
    exact ledger.counted
  refine ⟨ledger.nonneg, ledger.count, counted.dropSame rfl rfl rfl, ?_, ?_, ?_⟩
  · have points : meldsPoints s.eatCards = meldsPoints (before ++ after) + eat.points := by
      rw [split, meldsPoints_append, meldsPoints_append, meldsPoints_cons]
      omega
    change s.huXi - _ = _
    rw [eatPoints, ledger.huXi, points, UInt8.ofNat_add, UInt8.add_sub_cancel]
  · have fours : s.eatCards.countP EatCard.isFour =
        (before ++ after).countP EatCard.isFour + 1 := by
      have four : eat.isFour = true := by simp [EatCard.isFour, type]
      simp only [split, List.countP_append, List.countP_cons, four, if_true]
      omega
    change s.paoTimes - 1 = _
    rw [ledger.paoTimes, fours, UInt8.ofNat_add]
    exact UInt8.add_sub_cancel _ _
  · intro other member
    refine ledger.melds other ?_
    simp only [split, List.mem_append, List.mem_cons] at member ⊢
    tauto

theorem delTianHuCard_ledger {s : HandCards} (ledger : s.Ledger) {del : Card}
    (there : 0 < s.getCardCount del ∨
      ∃ eat ∈ s.eatCards, eat.type = .eatQishouTi ∧ eat.eatCard = del) :
    (s.delTianHuCard del).Ledger := by
  unfold delTianHuCard
  extract_lets opening dropped unflagged xi counted
  split
  · next isOpening =>
    obtain ⟨eat, member, eatOpening⟩ := List.any_eq_true.mp isOpening
    obtain ⟨found, before, after, -, foundOpening, split, erased⟩ :=
      List.exists_of_eraseP member eatOpening
    obtain ⟨type, same⟩ := of_decide_eq_true foundOpening
    refine addCard_ledger (addCard_ledger (addCard_ledger ?_ _) _) _
    have done := ledger.dropOpening split type same
    rw [← erased] at done
    simp only [counted, unflagged]
    split
    · exact done.of_flags _
    · exact done
  · next noOpening =>
    have held : 0 < s.getCardCount del := by
      rcases there with held | ⟨eat, member, type, same⟩
      · exact held
      · refine absurd (List.any_eq_true.mpr ⟨eat, member, ?_⟩) noOpening
        exact decide_eq_true ⟨type, same⟩
    exact takeOut_ledger ledger held

end HandCards

end CLibs.Cardlib
