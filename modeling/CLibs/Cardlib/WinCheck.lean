import CLibs.Cardlib.WinSearchProperties
import CLibs.Cardlib.Ledger

/-!
# The win checks on a hand

What `_checkHu`, `_checkPaoHu`, `checkHu` and `IsTing` change: the list of
plans, the incoming card, the pass flags, and nothing of the game.
-/

set_option autoImplicit false

namespace CLibs.Cardlib

/-! ## Setting the triples aside -/

def kanEat (card : Card) : EatCard := { type := .eatKan, eatCard := card, big := card.isBig }

def kanEats (cards : Cards) : List EatCard :=
  ((List.finRange 20).filter fun i => cards i = 3).map fun i => kanEat (cardAt i)

def kanless (cards : Cards) : Cards := fun i => if cards i = 3 then 0 else cards i

theorem kanEat_points (i : Fin 20) :
    ((kanEat (cardAt i)).points : Int) = if 10 ≤ (i : Nat) then 6 else 3 := by
  revert i
  decide

private theorem kanLoop_positions (positions : List (Fin 20)) (distinct : positions.Nodup)
    (loop : KanLoop) :
    positions.foldl KanLoop.next loop =
      { tmpCards := fun i => if i ∈ positions ∧ loop.tmpCards i = 3 then 0 else loop.tmpCards i
        xi := loop.xi + (meldsPoints ((positions.filter fun i => loop.tmpCards i = 3).map
          fun i => kanEat (cardAt i)) : Int)
        eats := loop.eats ++ (positions.filter fun i => loop.tmpCards i = 3).map
          fun i => kanEat (cardAt i) } := by
  induction positions generalizing loop with
  | nil => simp
  | cons i rest ih =>
      obtain ⟨notInRest, restDistinct⟩ := List.nodup_cons.mp distinct
      rw [List.foldl_cons, ih restDistinct]
      unfold KanLoop.next
      split
      · next three =>
        -- the update at `i` is not seen by the positions after it
        have unseen : rest.filter (fun j => Function.update loop.tmpCards i 0 j = 3) =
            rest.filter (fun j => loop.tmpCards j = 3) := by
          apply List.filter_congr
          intro j member
          have different : j ≠ i := by
            rintro rfl
            exact notInRest member
          simp [Function.update_of_ne different]
        simp only [unseen, List.filter_cons, three, decide_true, if_true, List.map_cons,
          meldsPoints_cons, ← kanEat_points, KanLoop.mk.injEq]
        refine ⟨?_, ?_, ?_⟩
        · funext j
          by_cases same : j = i
          · subst same
            simp [three]
          · simp [same]
        · push_cast
          ring
        · simp [kanEat]
      · next notThree =>
        simp only [List.filter_cons, notThree, decide_false, Bool.false_eq_true, if_false,
          KanLoop.mk.injEq, and_true]
        funext j
        by_cases same : j = i
        · subst same
          simp [notThree]
        · simp [same]

theorem kanLoop_eq (cards : Cards) (xi : Int) :
    (List.finRange 20).foldl KanLoop.next { tmpCards := cards, xi := xi } =
      { tmpCards := kanless cards, xi := xi + (meldsPoints (kanEats cards) : Int),
        eats := kanEats cards } := by
  rw [kanLoop_positions _ (List.nodup_finRange 20)]
  simp only [List.mem_finRange, true_and, List.nil_append]
  rfl

theorem getCardCount_kanless (cards : Cards) (card : Card) :
    (kanless cards).getCardCount card =
      if cards.getCardCount card = 3 then 0 else cards.getCardCount card := by
  cases valid : card.isValid with
  | true => simp only [Cards.getCardCount_of_isValid _ valid, kanless]
  | false => simp [Cards.getCardCount, valid]

theorem bag_kanless (cards : Cards) : meldsBag (kanEats cards) + (kanless cards).bag = cards.bag := by
  have kans : meldsBag (kanEats cards) =
      ∑ i, if cards i = 3 then Multiset.replicate 3 (cardAt i) else 0 := by
    rw [meldsBag, kanEats, List.map_map, Fin.sum_univ_def]
    induction List.finRange 20 with
    | nil => rfl
    | cons i rest ih =>
        by_cases three : cards i = 3
        · simp only [List.filter_cons, three, decide_true, if_true, List.map_cons, List.sum_cons, ih]
          rfl
        · simpa [List.filter_cons, three] using ih
  rw [kans, Cards.bag, Cards.bag, ← Finset.sum_add_distrib]
  refine Finset.sum_congr rfl fun i _ => ?_
  by_cases three : cards i = 3 <;> simp [kanless, three]

theorem kanless_upTo {cards : Cards} (range : cards.UpTo 3) : (kanless cards).UpTo 2 := by
  intro card
  have := range card
  rw [getCardCount_kanless]
  split <;> omega

/-! ## One search of a hand -/

def pengEat (card : Card) : EatCard := { type := .eatPeng, eatCard := card, big := card.isBig }

namespace HandCards

open HuSearch

/-- The plans `_checkHu` finds in a hand: with the incoming card in a peng, or
with it counted in (unless a pao has taken it already). -/
def Finds (s : HandCards) (card : Card) (paohu : Bool) (entry : EatHuCards) : Prop :=
  ((kanless s.cards).getCardCount card = 2 ∧
    Wins s.paoTimes ((kanless s.cards).setCardCount card 0)
      (s.huXi.toNat + (meldsPoints (kanEats s.cards ++ [pengEat card]) : Int))
      (kanEats s.cards ++ [pengEat card]) entry) ∨
  Wins s.paoTimes (if paohu then kanless s.cards else (kanless s.cards).optCardCount card 1)
    (s.huXi.toNat + (meldsPoints (kanEats s.cards) : Int)) (kanEats s.cards) entry

theorem searchHu_spec (s : HandCards) (tmpCards : Cards) (xi : Int) (eats : List EatCard) :
    ∃ list, s.searchHu tmpCards xi eats = ({ s with eatHuCardList := list }, tmpCards) ∧
      ∀ entry, entry ∈ list ↔ entry ∈ s.eatHuCardList ∨ Wins s.paoTimes tmpCards xi eats entry := by
  have adds := checkHu_adds s.paoTimes (tmpCards.total + 1) ⟨tmpCards, s.eatHuCardList⟩ xi eats
    (Nat.lt_succ_self _)
  refine ⟨_, ?_, adds.list⟩
  simp only [searchHu, adds.cards]

private theorem setCardCount_back {cards : Cards} {card : Card}
    (two : cards.getCardCount card = 2) :
    (cards.setCardCount card 0).setCardCount card 2 = cards := by
  have held : 0 < cards.getCardCount card := by omega
  have valid := Cards.isValid_of_getCardCount_pos held
  apply Cards.ext_getCardCount
  intro other
  rw [Cards.getCardCount_setCardCount _ valid, Cards.getCardCount_setCardCount _ valid]
  split
  · next same => rw [same, two]
  · rfl

theorem pengEat_points (card : Card) :
    ((pengEat card).points : Int) = if card.isBig then 3 else 1 := by
  cases big : card.isBig <;> simp [pengEat, EatCard.points, big]

/-- `_checkHu` adds exactly the plans of the hand and touches nothing else. -/
theorem checkHuOn_spec (s : HandCards) (card : Card) (paohu : Bool) :
    ∃ list, s._checkHu card paohu =
        ({ s with huCard := card, eatHuCardList := list }, !list.isEmpty) ∧
      ∀ entry, entry ∈ list ↔ entry ∈ s.eatHuCardList ∨ s.Finds card paohu entry := by
  simp only [_checkHu, kanLoop_eq]
  -- the search that is always made, after whatever the first one found
  have last : ∀ found, ∃ list,
      (if !paohu then
        searchHu { s with huCard := card, eatHuCardList := found }
          ((kanless s.cards).optCardCount card 1)
          (s.huXi.toNat + (meldsPoints (kanEats s.cards) : Int)) (kanEats s.cards)
      else
        searchHu { s with huCard := card, eatHuCardList := found } (kanless s.cards)
          (s.huXi.toNat + (meldsPoints (kanEats s.cards) : Int)) (kanEats s.cards)).1 =
        { s with huCard := card, eatHuCardList := list } ∧
      ∀ entry, entry ∈ list ↔ entry ∈ found ∨
        Wins s.paoTimes (if paohu then kanless s.cards else (kanless s.cards).optCardCount card 1)
          (s.huXi.toNat + (meldsPoints (kanEats s.cards) : Int)) (kanEats s.cards) entry := by
    intro found
    cases paohu with
    | false =>
        obtain ⟨list, done, inList⟩ :=
          searchHu_spec { s with huCard := card, eatHuCardList := found } _ _ _
        exact ⟨list, congrArg Prod.fst done, inList⟩
    | true =>
        obtain ⟨list, done, inList⟩ :=
          searchHu_spec { s with huCard := card, eatHuCardList := found } _ _ _
        exact ⟨list, congrArg Prod.fst done, inList⟩
  by_cases two : (kanless s.cards).getCardCount card = 2
  · obtain ⟨pengList, pengDone, inPengList⟩ := searchHu_spec { s with huCard := card }
      ((kanless s.cards).setCardCount card 0)
      (s.huXi.toNat + (meldsPoints (kanEats s.cards ++ [pengEat card]) : Int))
      (kanEats s.cards ++ [pengEat card])
    obtain ⟨list, done, inList⟩ := last pengList
    have points : (s.huXi.toNat + (meldsPoints (kanEats s.cards ++ [pengEat card]) : Int)) =
        s.huXi.toNat + (meldsPoints (kanEats s.cards) : Int) + if card.isBig then 3 else 1 := by
      rw [← pengEat_points, meldsPoints_append, meldsPoints_cons, meldsPoints_nil]
      push_cast
      ring
    rw [points] at pengDone
    refine ⟨list, ?_, ?_⟩
    · simp only [pengEat] at pengDone
      simp only [two, if_true, pengDone, setCardCount_back two, done]
    · intro entry
      rw [inList, inPengList, Finds, or_assoc]
      simp only [two, true_and]
  · obtain ⟨list, done, inList⟩ := last s.eatHuCardList
    refine ⟨list, ?_, ?_⟩
    · simp only [two, if_false, done]
    · intro entry
      rw [inList, Finds]
      simp only [two, false_and, false_or]

/-! ## Searching with a pao -/

theorem eatPao_frame (s : HandCards) (card : Card) :
    (s.eatPao card).1 = { s with
      eatCards := (s.eatPao card).1.eatCards
      cards := (s.eatPao card).1.cards
      countCards := (s.eatPao card).1.countCards
      cardFlags := (s.eatPao card).1.cardFlags
      bigCards := (s.eatPao card).1.bigCards
      smallCards := (s.eatPao card).1.smallCards
      redCards := (s.eatPao card).1.redCards
      paoTimes := (s.eatPao card).1.paoTimes
      huXi := (s.eatPao card).1.huXi
      huXi2 := (s.eatPao card).1.huXi2 } := by
  unfold eatPao
  split
  · simp only [layFour, removeCard]
    split
    · rfl
    · split <;> rfl
  · split
    · rfl
    · dsimp only
      split
      · rfl
      · split
        · rfl
        · rw [countOut_countIn]

theorem eatPao_plans (s : HandCards) (self : Bool) (list : List EatHuCards) (card : Card) :
    (eatPao { s with self := self, eatHuCardList := list } card).1 =
      { (s.eatPao card).1 with self := self, eatHuCardList := list } := by
  have same : getCardCount { s with self := self, eatHuCardList := list } card =
      s.getCardCount card := rfl
  unfold eatPao
  rw [same]
  split
  · simp only [layFour, removeCard]
    split
    · rfl
    · split <;> rfl
  · dsimp only
    cases findMeld card s.eatCards with
    | none => rfl
    | some found =>
        dsimp only
        split
        · rfl
        · split
          · rfl
          · simp only [countOut_countIn]

theorem eatPao_succeeds {s : HandCards} {card : Card} {isOut : Bool}
    (allowed : s.checkPao card isOut = true) : (s.eatPao card).2 = true := by
  unfold checkPao at allowed
  cases valid : card.isValid with
  | false => simp [valid] at allowed
  | true =>
      rw [← Cards.getCardCount_of_isValid s.cards valid] at allowed
      simp only [valid, Bool.not_true, Bool.false_eq_true, if_false] at allowed
      unfold eatPao
      split
      · rfl
      · next notThree =>
        rw [if_neg (show ¬ s.cards.getCardCount card = 3 from notThree)] at allowed
        split
        · next notFound => simp [notFound] at allowed
        · next before eat after found =>
          simp only [found] at allowed
          dsimp only
          split
          · rfl
          · next notPeng =>
            split
            · rfl
            · next notWei => simp [notWei, notPeng] at allowed

theorem checkPaoFlag_eatPao (s : HandCards) (card : Card) :
    (s.eatPao card).1.checkPaoFlag = s.checkPaoFlag := by
  rw [eatPao_frame]
  rfl

/-- `_checkPaoHu` adds the plans of the hand after the pao and takes the pao
back, but for the pass flags. -/
theorem checkPaoHu_spec {s : HandCards} (noFlag : s.checkPaoFlag = false) (card : Card)
    (fetch : Bool) :
    ∃ list cardFlags huCard, (s._checkPaoHu card fetch).1 =
        { s with huCard := huCard, eatHuCardList := list, cardFlags := cardFlags } ∧
      ∀ entry, entry ∈ list ↔ entry ∈ s.eatHuCardList ∨
        (s.checkPao card (!fetch) = true ∧ (s.eatPao card).1.Finds card true entry) := by
  unfold _checkPaoHu
  by_cases allowed : s.checkPao card (!fetch) = true
  · obtain ⟨list, done, inList⟩ := checkHuOn_spec (s.eatPao card).1 card true
    have samePlans : (s.eatPao card).1.eatHuCardList = s.eatHuCardList := by
      rw [eatPao_frame]
    refine ⟨list, (s.eatPao card).1.cardFlags, card, ?_, ?_⟩
    · simp only [allowed, if_true, eatPao_succeeds allowed, checkPaoFlag_eatPao, noFlag,
        Bool.not_true, Bool.false_eq_true, if_false, done]
      rw [eatPao_frame]
    · intro entry
      rw [inList, samePlans]
      simp only [allowed, true_and]
  · refine ⟨s.eatHuCardList, s.cardFlags, s.huCard, ?_, ?_⟩
    · rw [if_neg allowed]
    · intro entry
      exact (or_iff_left fun found => allowed found.1).symm

/-! ## The entry points -/

theorem checkHu_spec {s : HandCards} (enabled : s.isDisableHu = false)
    (noFlag : s.checkPaoFlag = false) (card : Card) (self fetch : Bool) :
    ∃ list cardFlags, s.checkHu card self fetch =
        ({ s with huCard := card, eatHuCardList := list, cardFlags := cardFlags, self := self },
          !list.isEmpty) ∧
      ∀ entry, entry ∈ list ↔
        (s.checkPao card (!fetch) = true ∧ (s.eatPao card).1.Finds card true entry) ∨
          s.Finds card false entry := by
  obtain ⟨paoList, cardFlags, huCard, paoDone, inPaoList⟩ :=
    checkPaoHu_spec (s := { s with self := self, eatHuCardList := [] }) noFlag card fetch
  obtain ⟨list, done, inList⟩ := checkHuOn_spec
    { s with huCard := huCard, eatHuCardList := paoList, cardFlags := cardFlags, self := self }
    card false
  refine ⟨list, cardFlags, ?_, ?_⟩
  · simp only [checkHu, enabled, noFlag, isPassHu, Bool.false_eq_true, if_false, paoDone, done]
  · intro entry
    rw [inList, inPaoList, eatPao_plans]
    simp only [List.not_mem_nil, false_or]
    rfl

theorem checkHu_closed {s : HandCards} (closed : s.isDisableHu = true ∨ s.checkPaoFlag = true)
    (card : Card) (self fetch : Bool) : s.checkHu card self fetch = (s, false) := by
  unfold checkHu
  rcases closed with disabled | flagged
  · rw [if_pos disabled]
  · rw [if_pos flagged, ite_self]

theorem checkHuSelf_spec {s : HandCards} (enabled : s.isDisableHu = false)
    (noFlag : s.checkPaoFlag = false) (self : Bool) :
    ∃ list, s.checkHuSelf self =
        ({ s with huCard := .invalid, eatHuCardList := list, self := self }, !list.isEmpty) ∧
      ∀ entry, entry ∈ list ↔ s.Finds .invalid false entry := by
  obtain ⟨list, done, inList⟩ :=
    checkHuOn_spec { s with self := self, eatHuCardList := [] } .invalid false
  refine ⟨list, ?_, ?_⟩
  · simp only [checkHuSelf, enabled, noFlag, Bool.false_eq_true, if_false, done]
  · intro entry
    rw [inList]
    simp only [List.not_mem_nil, false_or]
    rfl

/-! ## The checks leave the game alone -/

/-- `t` differs from `s` at most in the results of a win check and in flags. -/
def Unmoved (s t : HandCards) : Prop :=
  t = { s with
    huCard := t.huCard
    eatHuCardList := t.eatHuCardList
    self := t.self
    cardFlags := t.cardFlags
    flags := t.flags }

theorem Unmoved.trans {s t u : HandCards} (first : s.Unmoved t) (second : t.Unmoved u) :
    s.Unmoved u := by
  unfold Unmoved at *
  rw [first] at second
  exact second

theorem Ledger.of_unmoved {s t : HandCards} (ledger : s.Ledger) (unmoved : s.Unmoved t) :
    t.Ledger := by
  rw [unmoved]
  exact ⟨ledger.nonneg, ledger.count, ledger.counted, ledger.huXi, ledger.paoTimes, ledger.melds⟩

theorem checkHu_unmoved (s : HandCards) (card : Card) (self fetch : Bool) :
    s.Unmoved (s.checkHu card self fetch).1 := by
  by_cases closed : s.isDisableHu = true ∨ s.checkPaoFlag = true
  · rw [checkHu_closed closed]
    rfl
  · simp only [not_or, Bool.not_eq_true] at closed
    obtain ⟨list, cardFlags, done, -⟩ := checkHu_spec closed.1 closed.2 card self fetch
    rw [done]
    rfl

theorem checkHuSelf_unmoved (s : HandCards) (self : Bool) :
    s.Unmoved (s.checkHuSelf self).1 := by
  cases enabled : s.isDisableHu with
  | true =>
      simp only [checkHuSelf, enabled, if_true]
      rfl
  | false =>
      cases noFlag : s.checkPaoFlag with
      | true =>
          simp only [checkHuSelf, enabled, noFlag, Bool.false_eq_true, if_false, if_true]
          rfl
      | false =>
          obtain ⟨list, done, -⟩ := checkHuSelf_spec enabled noFlag self
          rw [done]
          rfl

theorem tingLoop_unmoved (positions : List (Fin 20)) (acc : HandCards × List Card) :
    acc.1.Unmoved (positions.foldl tingAt acc).1 := by
  induction positions generalizing acc with
  | nil => rfl
  | cons i rest ih =>
      exact (checkHu_unmoved acc.1 (cardAt i) true false).trans (ih _)

theorem Unmoved.countBack {s t : HandCards} {card : Card}
    (unmoved : (s.optCardCount card (-1)).Unmoved t) : s.Unmoved (t.optCardCount card 1) := by
  have back : t.cards.optCardCount card 1 = s.cards := by
    rw [unmoved]
    exact Cards.optCardCount_cancel _ _
  unfold Unmoved HandCards.optCardCount
  rw [back]
  conv_lhs => rw [unmoved]
  rfl

/-- `IsTing` counts a card out, asks for every card and counts it in again. -/
theorem isTing_unmoved (s : HandCards) (outCard : Card) : s.Unmoved (s.isTing outCard).1 := by
  unfold isTing
  extract_lets paoFlag cleared counted done back
  have clearing : s.Unmoved cleared := by
    simp only [cleared]
    split <;> rfl
  have asking : cleared.Unmoved back := (tingLoop_unmoved _ (counted, [])).countBack
  have setting : back.Unmoved (if paoFlag then back.setPaoFlag else back) := by
    split <;> rfl
  exact (clearing.trans asking).trans setting

end HandCards

end CLibs.Cardlib
