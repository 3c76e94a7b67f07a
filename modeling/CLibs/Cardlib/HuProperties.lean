import CLibs.Cardlib.Hu
import CLibs.Cardlib.WinPlans

/-!
# The settlement agrees with the win check

`_Hu` picks the best plan of the last win check, finds out again whether the
winning card went into a meld or into a pao, and counts the points anew.
-/

set_option autoImplicit false

namespace CLibs.Cardlib

theorem settledXi_eq (eat : EatCard) : settledXi eat = (eat.points : Int) := by
  cases type : eat.type <;> cases size : eat.big <;>
    simp [settledXi, EatCard.points, type, size]

theorem sum_settledXi (eats : List EatCard) :
    (eats.map settledXi).sum = (meldsPoints eats : Int) := by
  induction eats with
  | nil => rfl
  | cons eat rest ih =>
      rw [List.map_cons, List.sum_cons, ih, settledXi_eq, meldsPoints_cons, Nat.cast_add]

/-! ## The best plan -/

private theorem chooseNext_loop (list : List EatHuCards) (positive : ∀ entry ∈ list, 0 < entry.xi) :
    (list.foldl chooseNext (0, 0, 0)).2.2 = list.length ∧
      ((list = [] ∧ (list.foldl chooseNext (0, 0, 0)).1 = 0) ∨
        ∃ best, list[(list.foldl chooseNext (0, 0, 0)).2.1]? = some best ∧
          best.xi = (list.foldl chooseNext (0, 0, 0)).1 ∧
          ∀ entry ∈ list, entry.xi ≤ (list.foldl chooseNext (0, 0, 0)).1) := by
  induction list using List.reverseRecOn with
  | nil => simp
  | append_singleton list last ih =>
      obtain ⟨index, best⟩ := ih fun entry member => positive entry (List.mem_append_left _ member)
      have lastPositive := positive last (by simp)
      rw [List.foldl_append, List.foldl_cons, List.foldl_nil]
      generalize list.foldl chooseNext (0, 0, 0) = acc at index best
      unfold chooseNext
      split
      · next better =>
        refine ⟨by simp [index], .inr ⟨last, by simp [index], rfl, ?_⟩⟩
        intro entry member
        rcases List.mem_append.mp member with old | new
        · rcases best with ⟨rfl, -⟩ | ⟨best, -, -, most⟩
          · simp at old
          · exact le_of_lt (lt_of_le_of_lt (most entry old) better)
        · rw [List.mem_singleton.mp new]
      · next notBetter =>
        refine ⟨by simp [index], .inr ?_⟩
        rcases best with ⟨-, zero⟩ | ⟨best, atIndex, same, most⟩
        · omega
        · refine ⟨best, ?_, same, ?_⟩
          · rw [List.getElem?_append_left (List.getElem?_eq_some_iff.mp atIndex).1]
            exact atIndex
          · intro entry member
            rcases List.mem_append.mp member with old | new
            · exact most entry old
            · rw [List.mem_singleton.mp new]
              exact not_lt.mp notBetter

theorem chooseBestHu_spec {s : HandCards} (some : s.eatHuCardList ≠ [])
    (positive : ∀ entry ∈ s.eatHuCardList, 0 < entry.xi) :
    ∃ best ∈ s.eatHuCardList, s.__chooseBestHu = { s with eatHuCards := best.huCards } ∧
      ∀ entry ∈ s.eatHuCardList, entry.xi ≤ best.xi := by
  obtain ⟨-, ⟨none, -⟩ | ⟨best, atIndex, same, most⟩⟩ := chooseNext_loop s.eatHuCardList positive
  · exact absurd none some
  · refine ⟨best, List.mem_of_getElem? atIndex, ?_, ?_⟩
    · simp only [HandCards.__chooseBestHu, List.getD_eq_getElem?_getD, atIndex, Option.getD_some]
    · rw [same]
      exact most

/-! ## The melds of a plan -/

/-- A meld as the win search makes it. -/
inductive EatCard.Planned (eat : EatCard) : Prop where
  | same (type : eat.type = .eatKan ∨ eat.type = .eatPeng ∨ eat.type = .eatDui)
      (cards : eat.cards = [])
  | chi (combo : Combo) (realises : eat.Realises combo)

namespace EatCard.Planned

variable {eat : EatCard}

theorem type_ne_eatNone (planned : eat.Planned) : eat.type ≠ .eatNone := by
  cases planned with
  | same type cards => rcases type with type | type | type <;> simp [type]
  | chi combo realises =>
      have everyCombo : ∀ combo : Combo, combo.type ≠ .eatNone := by decide
      rw [realises.type]
      exact everyCombo combo

theorem mem_bag (planned : eat.Planned) {card : Card} :
    card ∈ eat.bag ↔ card = eat.eatCard ∨ card ∈ eat.cards := by
  cases planned with
  | same type cards =>
      rcases type with type | type | type <;> simp [EatCard.bag, type, cards]
  | chi combo realises =>
      rw [realises.bag, ← realises.cards, Multiset.mem_cons, Multiset.mem_coe]

theorem points_le (planned : eat.Planned) : eat.points ≤ 3 * eat.bag.card := by
  cases planned with
  | same type cards =>
      rcases type with type | type | type <;> cases size : eat.big <;>
        simp [EatCard.points, EatCard.bag, type, size]
  | chi combo realises =>
      have everyCombo : ∀ combo : Combo, combo.points ≤ 3 * 3 := by decide
      rw [realises.points, realises.bag, Combo.card_bag]
      exact everyCombo combo

theorem turned (planned : eat.Planned) (some : eat.cards ≠ []) :
    ∃ temp1 temp2, eat.cards = [temp1, temp2] ∧
      ∀ (card : Card) (cards : List Card), card ::ₘ (cards : Multiset Card) = eat.eatCard ::ₘ (eat.cards : Multiset Card) →
        EatCard.bag { eat with eatCard := card, cards := cards } = eat.bag := by
  cases planned with
  | same type cards => exact absurd cards some
  | chi combo realises =>
      have size := congrArg Multiset.card realises.cards
      rw [Multiset.card_cons, Multiset.coe_card, Combo.card_bag] at size
      obtain ⟨temp1, temp2, shape⟩ := List.length_eq_two.mp (by omega : eat.cards.length = 2)
      refine ⟨temp1, temp2, shape, ?_⟩
      intro card cards same
      have turnedRealises : EatCard.Realises { eat with eatCard := card, cards := cards } combo :=
        ⟨realises.type, same.trans realises.cards, realises.points⟩
      rw [turnedRealises.bag, realises.bag]

end EatCard.Planned

theorem LegalEntry.planned {hand : Cards} {incoming : Multiset Card} {table : List EatCard}
    {entry : EatHuCards} (legal : LegalEntry hand incoming table entry) :
    ∀ eat ∈ entry.huCards, eat.Planned := by
  obtain ⟨peng, chis, pair, huCards, -, melds, -⟩ := legal.shape
  intro eat member
  rw [huCards] at member
  simp only [List.mem_append] at member
  rcases member with ((kan | inPeng) | chi) | inPair
  · obtain ⟨i, -, rfl⟩ := List.mem_map.mp kan
    exact .same (.inl rfl) rfl
  · cases peng with
    | none => simp [pengEats] at inPeng
    | some card =>
        obtain rfl := List.mem_singleton.mp inPeng
        exact .same (.inr (.inl rfl)) rfl
  · obtain ⟨combo, realises⟩ := melds eat chi
    exact .chi combo realises
  · cases pair with
    | none => simp [pairEats] at inPair
    | some card =>
        obtain rfl := List.mem_singleton.mp inPair
        exact .same (.inr (.inr rfl)) rfl

/-! ## Taking the winning card's meld out of the plan -/

theorem takeHuCard_some {huCard : Card} {eats rest : List EatCard} {eat : EatCard}
    (planned : ∀ it ∈ eats, it.Planned) (taken : takeHuCard huCard eats = some (eat, rest)) :
    eat.bag + meldsBag rest = meldsBag eats ∧ eat.points + meldsPoints rest = meldsPoints eats ∧
      eat.type ≠ .eatNone := by
  induction eats generalizing rest with
  | nil => simp [takeHuCard] at taken
  | cons it tail ih =>
      have itPlanned := planned it List.mem_cons_self
      -- the three ways to take this very meld
      have here : ∀ (card : Card) (cards : List Card),
          card ::ₘ (cards : Multiset Card) = it.eatCard ::ₘ (it.cards : Multiset Card) →
          (it.cards ≠ [] ∨ (card = it.eatCard ∧ cards = it.cards)) →
          EatCard.bag { it with eatCard := card, cards := cards } + meldsBag tail =
              meldsBag (it :: tail) ∧
            EatCard.points { it with eatCard := card, cards := cards } + meldsPoints tail =
              meldsPoints (it :: tail) ∧ it.type ≠ .eatNone := by
        intro card cards same shape
        refine ⟨?_, by rw [meldsPoints_cons]; rfl, itPlanned.type_ne_eatNone⟩
        rcases shape with some | ⟨rfl, rfl⟩
        · obtain ⟨-, -, -, turned⟩ := itPlanned.turned some
          rw [turned card cards same, meldsBag_cons]
        · rw [meldsBag_cons]
      simp only [takeHuCard] at taken
      split_ifs at taken with first second third
      · cases taken
        exact here _ _ rfl (.inr ⟨rfl, rfl⟩)
      · obtain ⟨temp1, temp2, shape, -⟩ := itPlanned.turned second.1
        cases taken
        refine here _ _ ?_ (.inl second.1)
        have hu : huCard = temp1 := by rw [← second.2, EatCard.card, shape]; rfl
        rw [shape, hu]
        simp only [List.set_cons_zero, ← Multiset.cons_coe, Multiset.coe_nil,
          ← Multiset.singleton_add]
        abel
      · obtain ⟨temp1, temp2, shape, -⟩ := itPlanned.turned third.1
        cases taken
        refine here _ _ ?_ (.inl third.1)
        have hu : huCard = temp2 := by rw [← third.2, EatCard.card, shape]; rfl
        rw [shape, hu]
        simp only [List.set_cons_succ, List.set_cons_zero, ← Multiset.cons_coe, Multiset.coe_nil,
          ← Multiset.singleton_add]
        abel
      · obtain ⟨⟨below, belowRest⟩, found, same⟩ := Option.map_eq_some_iff.mp taken
        cases same
        obtain ⟨bag, points, type⟩ :=
          ih (fun other member => planned other (List.mem_cons_of_mem _ member)) found
        refine ⟨?_, ?_, type⟩
        · rw [meldsBag_cons, meldsBag_cons, ← bag]
          abel
        · rw [meldsPoints_cons, meldsPoints_cons, ← points]
          exact Nat.add_left_comm _ _ _

theorem takeHuCard_none {huCard : Card} {eats : List EatCard} (planned : ∀ it ∈ eats, it.Planned)
    (taken : takeHuCard huCard eats = none) :
    ∀ it ∈ eats, it.type ≠ .eatKan → huCard ∉ it.bag := by
  induction eats with
  | nil => simp
  | cons it tail ih =>
      simp only [takeHuCard] at taken
      split_ifs at taken with first second third
      have below := ih (fun other member => planned other (List.mem_cons_of_mem _ member))
        (Option.map_eq_none_iff.mp taken)
      intro other member notKan
      rcases List.mem_cons.mp member with rfl | inTail
      · have otherPlanned := planned other List.mem_cons_self
        rw [otherPlanned.mem_bag]
        rintro (same | inCards)
        · exact first ⟨same.symm, notKan⟩
        · have some : other.cards ≠ [] := List.ne_nil_of_mem inCards
          obtain ⟨temp1, temp2, shape, -⟩ := otherPlanned.turned some
          rw [shape] at inCards
          simp only [List.mem_cons, List.not_mem_nil, or_false] at inCards
          rcases inCards with rfl | rfl
          · exact second ⟨some, by simp [EatCard.card, shape]⟩
          · exact third ⟨some, by simp [EatCard.card, shape]⟩
      · exact below other inTail notKan

theorem takeHuCard_absent {huCard : Card} {eats : List EatCard} (planned : ∀ it ∈ eats, it.Planned)
    (absent : huCard ∉ meldsBag eats) : takeHuCard huCard eats = none := by
  induction eats with
  | nil => rfl
  | cons it tail ih =>
      rw [meldsBag_cons, Multiset.mem_add, not_or] at absent
      have itPlanned := planned it List.mem_cons_self
      have notHere := absent.1
      rw [itPlanned.mem_bag, not_or] at notHere
      have below := ih (fun other member => planned other (List.mem_cons_of_mem _ member)) absent.2
      simp only [takeHuCard, below, Option.map_none]
      split_ifs with first second third
      · exact notHere.1 first.1.symm
      · obtain ⟨temp1, temp2, shape, -⟩ := itPlanned.turned second.1
        refine notHere.2 ?_
        rw [← second.2]
        simp [EatCard.card, shape]
      · obtain ⟨temp1, temp2, shape, -⟩ := itPlanned.turned third.1
        refine notHere.2 ?_
        rw [← third.2]
        simp [EatCard.card, shape]
      · rfl

namespace HandCards

def settledMelds (s : HandCards) : List EatCard :=
  s.huEat.1.eatCards ++ s.huEat.1.eatHuCards ++
    if s.huEat.2.type ≠ .eatNone then [s.huEat.2] else []

/-- `_Hu` after the best plan has been chosen. -/
theorem hu_spec {s : HandCards} (out : HuReport)
    (enough : 15 ≤ meldsPoints s.__chooseBestHu.settledMelds) :
    (s._Hu out false).2.2 = true ∧
      (s._Hu out false).2.1.eatCards = s.__chooseBestHu.settledMelds ∧
      (s._Hu out false).2.1.huXi =
        UInt32.ofInt (meldsPoints s.__chooseBestHu.settledMelds : Int) := by
  have xi := sum_settledXi s.__chooseBestHu.settledMelds
  have reached : ¬ (s.__chooseBestHu.settledMelds.map settledXi).sum < HuSearch.needHuXi := by
    rw [xi, HuSearch.needHuXi]
    omega
  unfold settledMelds at reached xi ⊢
  simp only [_Hu, Bool.false_eq_true, false_and, if_false]
  rw [if_neg reached]
  exact ⟨rfl, rfl, congrArg UInt32.ofInt xi⟩

private theorem lastMoved {table : List EatCard} (plan : List EatCard) (some : table ≠ [])
    (melds : ∀ eat ∈ table, eat.OnTable) :
    (table.getLastD {}).type ≠ .eatNone ∧
      meldsBag (table.dropLast ++ plan ++ [table.getLastD {}]) = meldsBag table + meldsBag plan ∧
      meldsPoints (table.dropLast ++ plan ++ [table.getLastD {}]) =
        meldsPoints table + meldsPoints plan := by
  have last : table.getLastD {} = table.getLast some := by
    rw [List.getLastD_eq_getLast?, List.getLast?_eq_some_getLast some, Option.getD_some]
  rw [last]
  have whole := List.dropLast_append_getLast some
  refine ⟨?_, ?_, ?_⟩
  · cases melds _ (List.getLast_mem some) with
    | chi combo realises =>
        have everyCombo : ∀ combo : Combo, combo.type ≠ .eatNone := by decide
        rw [realises.type]
        exact everyCombo combo
    | same type _ _ => rcases type with type | type | type | type | type | type <;> simp [type]
  · conv_rhs => rw [← whole]
    simp only [meldsBag_append]
    abel
  · conv_rhs => rw [← whole]
    simp only [meldsPoints_append]
    omega

theorem settledMelds_table {s : HandCards} (notValid : s.huCard.isValid = false)
    (melds : ∀ eat ∈ s.eatCards, eat.OnTable) :
    meldsBag s.settledMelds = meldsBag s.eatCards + meldsBag s.eatHuCards ∧
      meldsPoints s.settledMelds = meldsPoints s.eatCards + meldsPoints s.eatHuCards := by
  by_cases none : s.eatCards = []
  · simp [settledMelds, huEat, notValid, none]
  · have notEmpty : s.eatCards.isEmpty = false := by simpa using none
    obtain ⟨type, bag, points⟩ := lastMoved s.eatHuCards none melds
    have step : s.huEat =
        ({ s with eatCards := s.eatCards.dropLast }, s.eatCards.getLastD {}) := by
      simp only [huEat, notValid, notEmpty, Bool.false_eq_true, if_false]
    rw [settledMelds, step, if_pos type]
    exact ⟨bag, points⟩

theorem settledMelds_pao {s : HandCards} (valid : s.huCard.isValid = true)
    (absent : takeHuCard s.huCard s.eatHuCards = none)
    (succeeds : (s.eatPao s.huCard).2 = true) (some : (s.eatPao s.huCard).1.eatCards ≠ [])
    (melds : ∀ eat ∈ (s.eatPao s.huCard).1.eatCards, eat.OnTable) :
    meldsBag s.settledMelds =
        meldsBag (s.eatPao s.huCard).1.eatCards + meldsBag s.eatHuCards ∧
      meldsPoints s.settledMelds =
        meldsPoints (s.eatPao s.huCard).1.eatCards + meldsPoints s.eatHuCards := by
  have samePlan : (s.eatPao s.huCard).1.eatHuCards = s.eatHuCards := by
    rw [eatPao_frame]
  obtain ⟨type, bag, points⟩ := lastMoved s.eatHuCards some melds
  have step : s.huEat =
      ({ (s.eatPao s.huCard).1 with
        huCard := .invalid
        eatCards := (s.eatPao s.huCard).1.eatCards.dropLast },
        (s.eatPao s.huCard).1.eatCards.getLastD {}) := by
    simp only [huEat, valid, if_true, absent, succeeds]
  rw [settledMelds, step, if_pos type]
  simp only [samePlan]
  exact ⟨bag, points⟩

theorem settledMelds_meld {s : HandCards} {hand : Cards} {entry : EatHuCards}
    (valid : s.huCard.isValid = true) (plan : s.eatHuCards = entry.huCards)
    (legal : LegalEntry hand {s.huCard} s.eatCards entry) :
    meldsBag s.settledMelds = meldsBag s.eatCards + meldsBag entry.huCards ∧
      meldsPoints s.settledMelds = meldsPoints s.eatCards + meldsPoints entry.huCards := by
  cases taken : takeHuCard s.huCard s.eatHuCards with
  | some found =>
      obtain ⟨eat, rest⟩ := found
      have step : s.huEat = ({ s with eatHuCards := rest }, eat) := by
        simp only [huEat, valid, if_true, taken]
      rw [plan] at taken
      obtain ⟨bag, points, type⟩ := takeHuCard_some legal.planned taken
      simp only [settledMelds, step, type, ne_eq, not_false_eq_true, if_true, meldsBag_append,
        meldsBag_cons, meldsBag_nil, meldsPoints_append, meldsPoints_cons, meldsPoints_nil]
      rw [← bag, ← points]
      refine ⟨by abel, by omega⟩
  | none =>
      -- the winning card is in no meld but a triple: impossible
      rw [plan] at taken
      have absent := takeHuCard_none legal.planned taken
      obtain ⟨peng, chis, pair, huCards, -, melds, -⟩ := legal.shape
      have others : meldsBag (pengEats peng ++ chis ++ pairEats pair) =
          (kanless hand).bag + {s.huCard} := by
        have whole := legal.bag
        rw [huCards, ← bag_kanless hand] at whole
        simp only [meldsBag_append, add_assoc] at whole ⊢
        exact add_left_cancel whole
      have member : s.huCard ∈ meldsBag (pengEats peng ++ chis ++ pairEats pair) := by
        rw [others]
        simp
      obtain ⟨it, inOthers, inBag⟩ := mem_meldsBag.mp member
      have notKan : it.type ≠ .eatKan := by
        simp only [List.mem_append] at inOthers
        rcases inOthers with (inPeng | chi) | inPair
        · cases peng with
          | none => simp [pengEats] at inPeng
          | some card => simp [List.mem_singleton.mp inPeng, pengEat]
        · obtain ⟨combo, realises⟩ := melds it chi
          have everyCombo : ∀ combo : Combo, combo.type ≠ .eatKan := by decide
          rw [realises.type]
          exact everyCombo combo
        · cases pair with
          | none => simp [pairEats] at inPair
          | some card => simp [List.mem_singleton.mp inPair]
      refine absurd inBag (absent it ?_ notKan)
      rw [huCards]
      simp only [List.mem_append] at inOthers ⊢
      tauto

theorem eatPao_congr {s t : HandCards} (cards : t.cards = s.cards)
    (eatCards : t.eatCards = s.eatCards) (card : Card) :
    (t.eatPao card).1.cards = (s.eatPao card).1.cards ∧
      (t.eatPao card).1.eatCards = (s.eatPao card).1.eatCards ∧
      (t.eatPao card).2 = (s.eatPao card).2 := by
  have count : t.getCardCount card = s.getCardCount card := by
    rw [HandCards.getCardCount, cards]
    rfl
  unfold eatPao
  rw [count, eatCards]
  split
  · refine ⟨?_, ?_, rfl⟩
    · change (t.removeCard card 3).1.cards = (s.removeCard card 3).1.cards
      unfold removeCard
      rw [cards]
      split_ifs
      · exact cards
      · rfl
      · exact cards
    · change (t.removeCard card 3).1.eatCards ++ _ = (s.removeCard card 3).1.eatCards ++ _
      unfold removeCard
      split_ifs <;> simp only [eatCards]
  · split
    · exact ⟨cards, eatCards, rfl⟩
    · dsimp only
      split
      · exact ⟨cards, rfl, rfl⟩
      · split
        · exact ⟨cards, rfl, rfl⟩
        · rw [countOut_countIn, countOut_countIn]
          exact ⟨cards, eatCards, rfl⟩

/-! ## The check and the settlement -/

private theorem planPoints_le {eats : List EatCard} (planned : ∀ eat ∈ eats, eat.Planned) :
    meldsPoints eats ≤ 3 * (meldsBag eats).card := by
  induction eats with
  | nil => simp
  | cons eat rest ih =>
      have restPoints := ih fun other member => planned other (List.mem_cons_of_mem _ member)
      have eatPoints := (planned eat List.mem_cons_self).points_le
      rw [meldsPoints_cons, meldsBag_cons, Multiset.card_add]
      omega

private theorem toNat_ofInt_natCast {number : Nat} (small : number < 2 ^ 32) :
    (UInt32.ofInt (number : Int)).toNat = number := by
  unfold UInt32.ofInt
  rw [UInt32.toNat_ofNat']
  omega

theorem Ready.fourCopies {s : HandCards} {card : Card} (ready : s.Ready card) : s.FourCopies := by
  intro i
  have most := ready.copies i
  rw [Multiset.count_add] at most
  omega

/-- What `_Hu` has to make of a plan: every card in one meld, and the points of
the plan. -/
structure SettlesPlan (s : HandCards) (cards : Multiset Card) (entry : EatHuCards) : Prop where
  bag : meldsBag s.settledMelds = cards
  points : (meldsPoints s.settledMelds : Int) = entry.xi
  enough : 15 ≤ entry.xi
  small : entry.xi < 2 ^ 32

private theorem legalEntry_small {s : HandCards} {incoming : Multiset Card} {entry : EatHuCards}
    (legal : LegalEntry s.cards incoming s.eatCards entry)
    (melds : ∀ eat ∈ s.eatCards, eat.OnTable) (copies : s.FourCopies) (one : incoming.card ≤ 1) :
    entry.xi < 2 ^ 32 := by
  have whole := card_bag_le melds copies
  rw [HandCards.bag, Multiset.card_add] at whole
  have tablePoints := (meldsPoints_le melds).1
  have planPoints := planPoints_le legal.planned
  rw [legal.bag, Multiset.card_add] at planPoints
  have xi := legal.xi
  omega

theorem Ready.settles_meld {s t : HandCards} {card : Card} {entry : EatHuCards}
    (ready : s.Ready card) (legal : LegalEntry s.cards (incoming card) s.eatCards entry)
    (huCard : t.huCard = card) (eatCards : t.eatCards = s.eatCards)
    (plan : t.eatHuCards = entry.huCards) :
    t.SettlesPlan (incoming card + s.bag) entry := by
  have both : meldsBag t.settledMelds = meldsBag s.eatCards + meldsBag entry.huCards ∧
      meldsPoints t.settledMelds = meldsPoints s.eatCards + meldsPoints entry.huCards := by
    cases valid : card.isValid with
    | true =>
        rw [incoming, if_pos valid, ← huCard, ← eatCards] at legal
        rw [← eatCards]
        exact settledMelds_meld (by rw [huCard, valid]) plan legal
    | false =>
        rw [← plan, ← eatCards]
        refine settledMelds_table (by rw [huCard, valid]) ?_
        rw [eatCards]
        exact ready.books.melds
  refine ⟨?_, ?_, legal.enough, ?_⟩
  · rw [both.1, legal.bag, HandCards.bag]
    abel
  · rw [both.2, legal.xi, Nat.cast_add]
  · refine legalEntry_small legal ready.books.melds ready.fourCopies ?_
    unfold incoming
    split <;> simp

theorem Ready.settles_pao {s t : HandCards} {card : Card} {isOut : Bool} {entry : EatHuCards}
    (ready : s.Ready card) (allowed : s.checkPao card isOut = true)
    (found : (s.eatPao card).1.Finds card true entry)
    (huCard : t.huCard = card) (cards : t.cards = s.cards) (eatCards : t.eatCards = s.eatCards)
    (plan : t.eatHuCards = entry.huCards) :
    t.SettlesPlan (incoming card + s.bag) entry := by
  have valid := checkPao_isValid allowed
  have legal := (ready.pao_legal allowed found).1
  obtain ⟨books, -, gone⟩ := ready.afterPao allowed
  have succeeds := eatPao_succeeds allowed
  obtain ⟨bag, ⟨eat, inTable, -⟩, -⟩ := eatPao_taken ready.books.ledger.nonneg succeeds
  obtain ⟨sameCards, sameTable, sameResult⟩ := eatPao_congr cards eatCards card
  have paoCopies : (s.eatPao card).1.FourCopies := by
    intro i
    have most := ready.copies i
    rw [incoming, if_pos valid, Multiset.singleton_add, ← bag] at most
    exact most
  have absent : takeHuCard card entry.huCards = none := by
    refine takeHuCard_absent legal.planned ?_
    rw [legal.bag, add_zero, ← Multiset.count_eq_zero, Cards.count_bag,
      show (s.eatPao card).1.cards.getCardCount card = 0 from gone]
    rfl
  obtain ⟨meldBag, meldPoints⟩ := settledMelds_pao (s := t) (by rw [huCard, valid])
    (by rw [huCard, plan, absent]) (by rw [huCard, sameResult, succeeds])
    (by rw [huCard, sameTable]; exact List.ne_nil_of_mem inTable)
    (by rw [huCard, sameTable]; exact books.melds)
  rw [huCard, sameTable, plan] at meldBag meldPoints
  refine ⟨?_, ?_, legal.enough, legalEntry_small legal books.melds paoCopies (by simp)⟩
  · rw [meldBag, legal.bag, add_zero, add_comm, incoming, if_pos valid, Multiset.singleton_add]
    exact bag
  · rw [meldPoints, legal.xi, Nat.cast_add]

/-- `_Hu` reports a win with the points of the best plan, and shows exactly
`cards`. -/
structure Settles (s : HandCards) (out : HuReport) (cards : Multiset Card) : Prop where
  wins : (s._Hu out false).2.2 = true
  huXi : IsGreatest { xi | ∃ entry ∈ s.eatHuCardList, entry.xi = xi }
    ((s._Hu out false).2.1.huXi.toNat : Int)
  bag : meldsBag (s._Hu out false).2.1.eatCards = cards

theorem settles_of_plans {s : HandCards} {cards : Multiset Card} (out : HuReport)
    (some : s.eatHuCardList ≠ [])
    (plans : ∀ entry ∈ s.eatHuCardList,
      SettlesPlan { s with eatHuCards := entry.huCards } cards entry) :
    s.Settles out cards := by
  have positive : ∀ entry ∈ s.eatHuCardList, 0 < entry.xi := by
    intro entry member
    have enough := (plans entry member).enough
    omega
  obtain ⟨best, member, chosen, most⟩ := chooseBestHu_spec some positive
  have settled := plans best member
  rw [← chosen] at settled
  have points := settled.points
  have enough := settled.enough
  have small := settled.small
  obtain ⟨wins, eatCards, huXi⟩ := hu_spec (s := s) out (by omega)
  have reported : ((s._Hu out false).2.1.huXi.toNat : Int) = best.xi := by
    rw [huXi, toNat_ofInt_natCast (by omega), points]
  refine ⟨wins, ?_, by rw [eatCards, settled.bag]⟩
  rw [reported]
  refine ⟨⟨best, member, rfl⟩, ?_⟩
  rintro _ ⟨entry, inList, rfl⟩
  exact most entry inList

/-- After a successful win check `_Hu` succeeds as well, reports the points of
the best plan, and its melds are the hand, the table and the incoming card. -/
theorem hu_agrees_with_checkHu {s : HandCards} {card : Card} (ready : s.Ready card)
    (self fetch : Bool) (out : HuReport) :
    ((s.checkHu card self fetch).2 = true →
      (s.checkHu card self fetch).1.Settles out (incoming card + s.bag)) ∧
    ((s.checkHuSelf self).2 = true → (s.checkHuSelf self).1.Settles out s.bag) := by
  constructor
  · intro wins
    obtain ⟨enabled, noFlag⟩ := checkHu_open wins
    obtain ⟨list, cardFlags, done, inList⟩ := checkHu_spec enabled noFlag card self fetch
    rw [done] at wins ⊢
    refine settles_of_plans out (by simpa using wins) ?_
    intro entry member
    rcases (inList entry).mp member with ⟨allowed, found⟩ | found
    · exact ready.settles_pao allowed found rfl rfl rfl rfl
    · exact ready.settles_meld (found.legal ready.books ready.upTo (by simp)).1 rfl rfl rfl
  · intro wins
    obtain ⟨enabled, noFlag⟩ := checkHuSelf_open wins
    obtain ⟨list, done, inList⟩ := checkHuSelf_spec enabled noFlag self
    rw [done] at wins ⊢
    have without : s.Ready .invalid := by
      refine ⟨ready.books, ready.range, fun i => ?_⟩
      rw [incoming, if_neg (by decide), zero_add]
      exact ready.fourCopies i
    have none : incoming .invalid + s.bag = s.bag := by
      rw [incoming, if_neg (by decide), zero_add]
    rw [← none]
    refine settles_of_plans out (by simpa using wins) ?_
    intro entry member
    have legal := (((inList entry).mp member).legal ready.books ready.upTo (by simp)).1
    exact without.settles_meld legal rfl rfl rfl

set_option maxRecDepth 20000 in
/-- The sample hand wins with a 3 and settles the ti and 1-2-3. -/
theorem hu_agrees_with_checkHu_tiAndPair :
    (tiAndPair.checkHu (.makeCard 3 false) true true).1.Settles {}
      (incoming (.makeCard 3 false) + tiAndPair.bag) :=
  (hu_agrees_with_checkHu tiAndPair_ready true true {}).1 (by decide)

end HandCards

end CLibs.Cardlib
