import CLibs.Cardlib.EatChi
import CLibs.Cardlib.WinCheck

/-!
# What leaves the hand alone

A move that fails changes nothing at all. A check changes its scratch fields, and
nothing else unless it tries a pao: the trial clears the pass-hu flags and does not
put them back.
-/

set_option autoImplicit false

namespace CLibs.Cardlib

namespace HandCards

/-! ## Failed moves -/

/-- `t` differs from `s` at most in what `EatChi` puts back. -/
def ChiTouched (s t : HandCards) : Prop :=
  t = { s with
    eatCards := t.eatCards
    cards := t.cards
    countCards := t.countCards
    huXi := t.huXi
    huXi2 := t.huXi2 }

theorem ChiTouched.trans {s t u : HandCards} (first : s.ChiTouched t) (second : t.ChiTouched u) :
    s.ChiTouched u := by
  unfold ChiTouched at *
  rw [first] at second
  exact second

theorem removeCard_chiTouched (s : HandCards) (card : Card) (num : Nat) :
    s.ChiTouched (s.removeCard card num).1 := by
  unfold removeCard
  split
  · rfl
  · split <;> rfl

theorem layChi_chiTouched (acc : HandCards × Bool) (eat : EatCard) :
    acc.1.ChiTouched (layChi acc eat).1 := by
  unfold layChi
  dsimp only
  split <;> rfl

theorem eatChiNext_chiTouched (acc : HandCards × Bool) (eat : EatCard) :
    acc.1.ChiTouched (eatChiNext acc eat).1 := by
  have removals := ((removeCard_chiTouched acc.1 eat.eatCard 1).trans
    (removeCard_chiTouched _ (eat.card 0) 1)).trans (removeCard_chiTouched _ (eat.card 1) 1)
  exact removals.trans (layChi_chiTouched (_, acc.2) eat)

theorem eatChiLoop_chiTouched (eats : List EatCard) (acc : HandCards × Bool) :
    acc.1.ChiTouched (eats.foldl eatChiNext acc).1 := by
  induction eats generalizing acc with
  | nil => rfl
  | cons eat rest ih => exact (eatChiNext_chiTouched acc eat).trans (ih _)

theorem eatChi_of_failed {s : HandCards} {card : Card} {eats : List EatCard}
    (failed : (s.eatChi card eats).2 = false) : (s.eatChi card eats).1 = s := by
  cases eats with
  | nil => rfl
  | cons first rest =>
      have touched := (((removeCard_chiTouched s (first.card 0) 1).trans
        (removeCard_chiTouched _ (first.card 1) 1)).trans
        (layChi_chiTouched (_, false) first)).trans (eatChiLoop_chiTouched rest _)
      simp only [eatChi] at failed ⊢
      split at failed
      · next refused => rw [if_pos refused]
      · next admitted =>
        rw [if_neg admitted]
        split at failed
        · next copy => rw [if_pos copy, touched]
        · cases failed

theorem outHandCard_of_failed {s : HandCards} {card : Card}
    (failed : (s.outHandCard card).2 = false) : (s.outHandCard card).1 = s := by
  unfold outHandCard at failed ⊢
  split at failed
  · next refused => rw [if_pos refused]
  · next playable =>
    rw [if_neg playable]
    dsimp only at failed ⊢
    split at failed
    · next missing => rw [if_pos missing]
    · cases failed

theorem eatPeng_of_failed {s : HandCards} {card : Card} (failed : (s.eatPeng card).2 = false) :
    (s.eatPeng card).1 = s := by
  unfold eatPeng at failed ⊢
  split at failed
  · next few => rw [if_pos few]
  · next pair =>
    rw [if_neg pair]
    split at failed
    · next inactive => rw [if_pos inactive]
    · cases failed

theorem eatWei_of_failed {s : HandCards} {card : Card} (failed : (s.eatWei card).2 = false) :
    (s.eatWei card).1 = s := by
  unfold eatWei at failed ⊢
  split at failed
  · next few => rw [if_pos few]
  · cases failed

theorem eatWei2_of_failed {s : HandCards} {card : Card} (failed : (s.eatWei2 card).2 = false) :
    (s.eatWei2 card).1 = s := by
  unfold eatWei2 at failed ⊢
  split at failed
  · next few => rw [if_pos few]
  · cases failed

/-- Counting the card in and out again is no trace of the meld that was found. -/
theorem eatPao_of_failed {s : HandCards} {card : Card} (failed : (s.eatPao card).2 = false) :
    (s.eatPao card).1 = s := by
  unfold eatPao at failed ⊢
  split at failed
  · cases failed
  · next notThree =>
    rw [if_neg notThree]
    cases found : findMeld card s.eatCards with
    | none => rfl
    | some meld =>
        obtain ⟨before, eat, after⟩ := meld
        simp only [found] at failed ⊢
        split at failed
        · cases failed
        · next notPeng =>
          rw [if_neg notPeng]
          split at failed
          · cases failed
          · next notWei => rw [if_neg notWei, countOut_countIn]

theorem eatTi_of_failed {s : HandCards} {card : Card} (failed : (s.eatTi card).2 = false) :
    (s.eatTi card).1 = s := by
  unfold eatTi at failed ⊢
  split at failed
  · cases failed
  · next notThree =>
    rw [if_neg notThree]
    cases found : findMeld card s.eatCards with
    | none => rfl
    | some meld =>
        obtain ⟨before, eat, after⟩ := meld
        simp only [found] at failed ⊢
        split at failed
        · cases failed
        · next notWei => rw [if_neg notWei, countOut_countIn]

/-- The moves that can be refused, each for one card. -/
inductive Move where
  | outHandCard
  | eatChi (eats : List EatCard)
  | eatPeng
  | eatWei
  | eatWei2
  | eatPao
  | eatTi

def Move.apply (s : HandCards) (card : Card) : Move → HandCards × Bool
  | outHandCard => s.outHandCard card
  | eatChi eats => s.eatChi card eats
  | eatPeng => s.eatPeng card
  | eatWei => s.eatWei card
  | eatWei2 => s.eatWei2 card
  | eatPao => s.eatPao card
  | eatTi => s.eatTi card

/-- A move that returns false leaves every field as it was. -/
theorem failed_move_untouched (s : HandCards) (card : Card) (move : Move)
    (failed : (move.apply s card).2 = false) : (move.apply s card).1 = s := by
  cases move with
  | outHandCard => exact outHandCard_of_failed failed
  | eatChi eats => exact eatChi_of_failed failed
  | eatPeng => exact eatPeng_of_failed failed
  | eatWei => exact eatWei_of_failed failed
  | eatWei2 => exact eatWei2_of_failed failed
  | eatPao => exact eatPao_of_failed failed
  | eatTi => exact eatTi_of_failed failed

/-- Two twos, a three and a four. -/
def twoTwosThreeFour : HandCards :=
  (clear {}).addHandCards
    [Card.makeCard 2 false, Card.makeCard 2 false, Card.makeCard 3 false, Card.makeCard 4 false]

/-- A two chied with a three and a four leaves two twos behind, which no meld of the
plan takes: the meld is taken back. -/
theorem failed_move_untouched_twosLeft :
    (twoTwosThreeFour.eatChi (Card.makeCard 2 false)
      [chiEat .eatShunZi false (Card.makeCard 2 false) (Card.makeCard 3 false)
        (Card.makeCard 4 false)]).1 = twoTwosThreeFour :=
  failed_move_untouched twoTwosThreeFour (Card.makeCard 2 false)
    (.eatChi [chiEat .eatShunZi false (Card.makeCard 2 false) (Card.makeCard 3 false)
      (Card.makeCard 4 false)]) (by decide)

/-! ## Checks -/

/-- `t` differs from `s` at most in the scratch fields of the checks. -/
def SameGame (s t : HandCards) : Prop :=
  t = { s with
    self := t.self
    huCard := t.huCard
    eatHuCards := t.eatHuCards
    eatHuCardList := t.eatHuCardList }

theorem SameGame.trans {s t u : HandCards} (first : s.SameGame t) (second : t.SameGame u) :
    s.SameGame u := by
  unfold SameGame at *
  rw [first] at second
  exact second

theorem SameGame.symm {s t : HandCards} (same : s.SameGame t) : t.SameGame s := by
  unfold SameGame at *
  rw [same]

theorem SameGame.optCardCount {s t : HandCards} (same : s.SameGame t) (card : Card) (num : Int) :
    (s.optCardCount card num).SameGame (t.optCardCount card num) := by
  unfold SameGame HandCards.optCardCount at *
  rw [same]

theorem SameGame.setPaoFlag {s t : HandCards} (same : s.SameGame t) :
    s.setPaoFlag.SameGame t.setPaoFlag := by
  unfold SameGame HandCards.setPaoFlag at *
  rw [same]

theorem SameGame.clearPassHu {s t : HandCards} (same : s.SameGame t) :
    s.clearPassHu.SameGame t.clearPassHu := by
  unfold SameGame HandCards.clearPassHu at *
  rw [same]

/-- No card is marked as one that was not won with. -/
def NoPassHu (s : HandCards) : Prop := ∀ i, s.cardFlags i &&& 2 = 0

instance (s : HandCards) : Decidable s.NoPassHu := inferInstanceAs (Decidable (∀ _, _))

private theorem and_not_two_eq_iff (flags : UInt8) : flags &&& ~~~2 = flags ↔ flags &&& 2 = 0 := by
  have every : ∀ bits : BitVec 8, bits &&& ~~~2 = bits ↔ bits &&& 2 = 0 := by decide
  simpa [← UInt8.toBitVec_inj] using every flags.toBitVec

theorem sameGame_clearPassHu_iff (s : HandCards) : s.SameGame s.clearPassHu ↔ s.NoPassHu := by
  constructor
  · intro same i
    have flags : s.clearPassHu.cardFlags = s.cardFlags := by rw [same]
    exact (and_not_two_eq_iff _).mp (congrFun flags i)
  · intro none
    have flags : s.clearPassHu.cardFlags = s.cardFlags :=
      funext fun i => (and_not_two_eq_iff _).mpr (none i)
    unfold SameGame
    rw [← flags]
    rfl

/-- The check of `card` tries a pao. -/
def TriesPao (s : HandCards) (card : Card) (fetch : Bool) : Prop :=
  s.isDisableHu = false ∧ s.checkPaoFlag = false ∧ s.checkPao card (!fetch) = true

instance (s : HandCards) (card : Card) (fetch : Bool) : Decidable (s.TriesPao card fetch) :=
  inferInstanceAs (Decidable (_ ∧ _))

theorem SameGame.triesPao_iff {s t : HandCards} (same : s.SameGame t) (card : Card) (fetch : Bool) :
    t.TriesPao card fetch ↔ s.TriesPao card fetch := by
  rw [same]
  rfl

theorem eatPao_cardFlags {s : HandCards} {card : Card} (taken : (s.eatPao card).2 = true) :
    (s.eatPao card).1.cardFlags = s.clearPassHu.cardFlags := by
  unfold eatPao at taken ⊢
  split at taken
  · next three =>
    rw [if_pos three]
    simp only [layFour, removeCard]
    split
    · rfl
    · split <;> rfl
  · next notThree =>
    rw [if_neg notThree]
    cases found : findMeld card s.eatCards with
    | none => simp [found] at taken
    | some meld =>
        obtain ⟨before, eat, after⟩ := meld
        simp only [found] at taken ⊢
        split at taken
        · next peng =>
          rw [if_pos peng]
          rfl
        · next notPeng =>
          rw [if_neg notPeng]
          split at taken
          · next wei =>
            rw [if_pos wei]
            rfl
          · cases taken

theorem checkHuOn_sameGame (s : HandCards) (card : Card) (paohu : Bool) :
    s.SameGame (s._checkHu card paohu).1 := by
  obtain ⟨list, done, -⟩ := checkHuOn_spec s card paohu
  rw [done]
  rfl

/-- `_checkPaoHu` puts everything back but the pass-hu flags. -/
theorem checkPaoHu_effect {s : HandCards} (noFlag : s.checkPaoFlag = false) (card : Card)
    (fetch : Bool) :
    (if s.checkPao card (!fetch) then s.clearPassHu else s).SameGame
      (s._checkPaoHu card fetch).1 := by
  unfold _checkPaoHu
  by_cases allowed : s.checkPao card (!fetch) = true
  · have taken := eatPao_succeeds allowed
    obtain ⟨list, done, -⟩ := checkHuOn_spec (s.eatPao card).1 card true
    simp only [allowed, if_true, taken, checkPaoFlag_eatPao, noFlag, Bool.not_true,
      Bool.false_eq_true, if_false, done]
    rw [eatPao_frame, eatPao_cardFlags taken]
    rfl
  · rw [if_neg allowed, if_neg allowed]
    rfl

theorem checkHu_effect (s : HandCards) (card : Card) (self fetch : Bool) :
    (if s.TriesPao card fetch then s.clearPassHu else s).SameGame
      (s.checkHu card self fetch).1 := by
  by_cases closed : s.isDisableHu = true ∨ s.checkPaoFlag = true
  · have noPao : ¬ s.TriesPao card fetch := by
      rintro ⟨enabled, noFlag, -⟩
      simp [enabled, noFlag] at closed
    rw [checkHu_closed closed, if_neg noPao]
    rfl
  · simp only [not_or, Bool.not_eq_true] at closed
    have tries : s.TriesPao card fetch ↔ s.checkPao card (!fetch) = true := by
      simp [TriesPao, closed]
    simp only [checkHu, closed, isPassHu, Bool.false_eq_true, if_false, tries]
    -- the trial starts from a state that has forgotten the last check
    have trial := checkPaoHu_effect (s := { s with self := self, eatHuCardList := [] })
      closed.2 card fetch
    refine SameGame.trans ?_ (trial.trans (checkHuOn_sameGame _ card false))
    have sameTest : checkPao { s with self := self, eatHuCardList := [] } card (!fetch) =
        s.checkPao card (!fetch) := rfl
    rw [sameTest]
    split <;> rfl

/-! ## Trying every card -/

/-- The loop of `IsTing` clears the pass-hu flags if one of its checks tries a pao. -/
theorem tingLoop_effect (positions : List (Fin 20)) (acc : HandCards × List Card) :
    (if ∃ i ∈ positions, acc.1.TriesPao (cardAt i) false then acc.1.clearPassHu
      else acc.1).SameGame (positions.foldl tingAt acc).1 := by
  induction positions generalizing acc with
  | nil =>
      rw [if_neg (by simp)]
      rfl
  | cons i rest ih =>
      have first := checkHu_effect acc.1 (cardAt i) true false
      have others := ih (tingAt acc i)
      change SameGame _ (rest.foldl tingAt (tingAt acc i)).1
      change SameGame _ (tingAt acc i).1 at first
      by_cases tries : acc.1.TriesPao (cardAt i) false
      · rw [if_pos tries] at first
        rw [if_pos ⟨i, List.mem_cons_self, tries⟩]
        refine SameGame.trans ?_ others
        split
        · -- clearing twice is clearing once
          have twice := first.clearPassHu
          have once : acc.1.clearPassHu.clearPassHu = acc.1.clearPassHu := by
            simp [HandCards.clearPassHu, UInt8.and_assoc]
          rwa [once] at twice
        · exact first
      · rw [if_neg tries] at first
        refine SameGame.trans ?_ others
        have sameTests : (∃ j ∈ i :: rest, acc.1.TriesPao (cardAt j) false) ↔
            ∃ j ∈ rest, (tingAt acc i).1.TriesPao (cardAt j) false := by
          simp only [List.mem_cons, exists_eq_or_imp, tries, false_or, first.triesPao_iff]
        by_cases later : ∃ j ∈ rest, (tingAt acc i).1.TriesPao (cardAt j) false
        · rw [if_pos later, if_pos (sameTests.mpr later)]
          exact first.clearPassHu
        · rw [if_neg later, if_neg (fun some => later (sameTests.mp some))]
          exact first

theorem setPaoFlag_clearPaoFlag {s : HandCards} (flag : s.checkPaoFlag = true) :
    s.clearPaoFlag.setPaoFlag = s := by
  have every : ∀ bits : BitVec 8, bits &&& 8 ≠ 0 → (bits &&& ~~~8) ||| 8 = bits := by decide
  have back : (s.flags &&& ~~~((1 : UInt8) <<< 3)) ||| ((1 : UInt8) <<< 3) = s.flags := by
    simpa [← UInt8.toBitVec_inj] using
      every s.flags.toBitVec (by simpa [checkPaoFlag, ← UInt8.toBitVec_inj] using flag)
  unfold clearPaoFlag setPaoFlag
  rw [back]

theorem optCardCount_optCardCount (s : HandCards) (card : Card) :
    (s.optCardCount card (-1)).optCardCount card 1 = s := by
  unfold HandCards.optCardCount
  rw [Cards.optCardCount_cancel]

private theorem clearPaoFlag_flags (s : HandCards) :
    s.clearPaoFlag.checkPaoFlag = false ∧ s.clearPaoFlag.isDisableHu = s.isDisableHu := by
  have every : ∀ bits : BitVec 8, (bits &&& ~~~8) &&& 8 = 0 ∧ (bits &&& ~~~8) &&& 2 = bits &&& 2 := by
    decide
  have bits := every s.flags.toBitVec
  constructor
  · simpa [checkPaoFlag, clearPaoFlag, ← UInt8.toBitVec_inj] using bits.1
  · have same : s.clearPaoFlag.flags &&& ((1 : UInt8) <<< 1) =
        s.flags &&& ((1 : UInt8) <<< 1) := by
      simpa [clearPaoFlag, ← UInt8.toBitVec_inj] using bits.2
    rw [isDisableHu, same, isDisableHu]

/-- `IsTing` tries a pao with one of the twenty cards. -/
def TingTriesPao (s : HandCards) (outCard : Card) : Prop :=
  s.isDisableHu = false ∧ ∃ i, (s.optCardCount outCard (-1)).checkPao (cardAt i) true = true

instance (s : HandCards) (outCard : Card) : Decidable (s.TingTriesPao outCard) :=
  inferInstanceAs (Decidable (_ ∧ _))

/-- The state in which `IsTing` asks for the cards. -/
def tingState (s : HandCards) (outCard : Card) : HandCards :=
  (if s.checkPaoFlag then s.clearPaoFlag else s).optCardCount outCard (-1)

theorem tingState_triesPao_iff (s : HandCards) (outCard card : Card) :
    (s.tingState outCard).TriesPao card false ↔
      s.isDisableHu = false ∧ (s.optCardCount outCard (-1)).checkPao card true = true := by
  have sameTest : (s.tingState outCard).checkPao card true =
      (s.optCardCount outCard (-1)).checkPao card true := by
    unfold tingState
    split <;> rfl
  unfold TriesPao
  rw [Bool.not_false, sameTest]
  cases flag : s.checkPaoFlag with
  | false =>
      have same : s.tingState outCard = s.optCardCount outCard (-1) := by
        rw [tingState, flag]
        rfl
      have noFlag : (s.optCardCount outCard (-1)).checkPaoFlag = s.checkPaoFlag := rfl
      have sameDisable : (s.optCardCount outCard (-1)).isDisableHu = s.isDisableHu := rfl
      rw [same, noFlag, flag, sameDisable]
      simp only [true_and]
  | true =>
      have cleared := clearPaoFlag_flags s
      have same : s.tingState outCard = s.clearPaoFlag.optCardCount outCard (-1) := by
        rw [tingState, flag]
        rfl
      have noFlag : (s.clearPaoFlag.optCardCount outCard (-1)).checkPaoFlag =
          s.clearPaoFlag.checkPaoFlag := rfl
      have sameDisable : (s.clearPaoFlag.optCardCount outCard (-1)).isDisableHu =
          s.clearPaoFlag.isDisableHu := rfl
      rw [same, noFlag, sameDisable, cleared.1, cleared.2]
      simp only [true_and]

/-- What `IsTing` leaves in the end: the counts and the pao flag are back. -/
theorem isTing_effect (s : HandCards) (outCard : Card) :
    (if s.TingTriesPao outCard then s.clearPassHu else s).SameGame (s.isTing outCard).1 := by
  have loop := tingLoop_effect (List.finRange 20) (s.tingState outCard, [])
  have tests : (∃ i ∈ List.finRange 20, (s.tingState outCard).TriesPao (cardAt i) false) ↔
      s.TingTriesPao outCard := by
    simp only [List.mem_finRange, true_and, tingState_triesPao_iff, TingTriesPao, exists_and_left]
  simp only [tests] at loop
  have back := loop.optCardCount outCard 1
  have result : (s.isTing outCard).1 =
      if s.checkPaoFlag then
        (((List.finRange 20).foldl tingAt (s.tingState outCard, [])).1.optCardCount outCard
          1).setPaoFlag
      else ((List.finRange 20).foldl tingAt (s.tingState outCard, [])).1.optCardCount outCard 1 :=
    rfl
  rw [result]
  generalize ((List.finRange 20).foldl tingAt (s.tingState outCard, [])).1.optCardCount outCard 1 =
    after at back ⊢
  -- clearing the pass-hu flags does not meet the counts or the pao flag
  have passHu : ∀ u : HandCards, (u.clearPassHu.optCardCount outCard 1) =
      (u.optCardCount outCard 1).clearPassHu := fun _ => rfl
  have paoFlag : ∀ u : HandCards, u.clearPassHu.setPaoFlag = u.setPaoFlag.clearPassHu :=
    fun _ => rfl
  cases flag : s.checkPaoFlag with
  | false =>
      rw [tingState, flag] at back
      simp only [Bool.false_eq_true, if_false, apply_ite (HandCards.optCardCount · outCard 1),
        passHu, optCardCount_optCardCount] at back ⊢
      exact back
  | true =>
      rw [tingState, flag] at back
      have set := back.setPaoFlag
      simp only [if_true, apply_ite (HandCards.optCardCount · outCard 1), passHu,
        optCardCount_optCardCount, apply_ite HandCards.setPaoFlag, paoFlag,
        setPaoFlag_clearPaoFlag flag] at set ⊢
      exact set

/-! ## Chi checks -/

@[simp] theorem biInner_next_cards (card : Card) (loop : BiInner) (it : EatCard) :
    (BiInner.next card loop it).cards = loop.cards := by
  have restored : (if 0 < (loop.cards.optCards it.cards (-1)).getCardCount card then
      ((loop.cards.optCards it.cards (-1)).optCardCount card (-1)).optCardCount card 1
    else loop.cards.optCards it.cards (-1)).optCards it.cards 1 = loop.cards := by
    split
    · rw [Cards.optCardCount_cancel, Cards.optCards_cancel]
    · rw [Cards.optCards_cancel]
  unfold BiInner.next
  extract_lets cards curCard eats2 after back
  have same : back = loop.cards := restored
  split
  · exact same
  · split <;> exact same

theorem secondMelds_cards (cards : Cards) (card : Card) (cardNum cut : Int) :
    (secondMelds cards card cardNum cut).cards = cards := by
  have loop : ∀ (eats : List EatCard) (loop : BiInner),
      (eats.foldl (BiInner.next card) loop).cards = loop.cards := by
    intro eats
    induction eats with
    | nil => exact fun _ => rfl
    | cons it rest ih =>
        intro loop
        rw [List.foldl_cons, ih, biInner_next_cards]
  unfold secondMelds
  split
  · dsimp only
    split
    · exact loop _ _
    · rfl
  · rfl

@[simp] theorem biOuter_next_cards (card : Card) (cardNum : Int) (loop : BiOuter) (iter : EatCard) :
    (BiOuter.next card cardNum loop iter).cards = loop.cards := by
  have restored := secondMelds_cards (loop.cards.optCards iter.cards (-1)) card cardNum
    ((loop.cards.optCards iter.cards (-1)).getCardCount card)
  unfold BiOuter.next
  extract_lets cards cut found eats back
  have same : back = loop.cards := by
    simp only [back, found, cut, cards, restored, Cards.optCards_cancel]
  split
  · exact same
  · split <;> exact same

theorem checkBi_untouched (s : HandCards) (card : Card) (eatChi : EatChiCard) (cardNum : Int) :
    (s._checkBi card eatChi cardNum).1 = s := by
  have loop : ∀ (eats : List EatCard) (loop : BiOuter),
      (eats.foldl (BiOuter.next card cardNum) loop).cards = loop.cards := by
    intro eats
    induction eats with
    | nil => exact fun _ => rfl
    | cons iter rest ih =>
        intro loop
        rw [List.foldl_cons, ih, biOuter_next_cards]
  unfold _checkBi
  split
  · rfl
  · simp only [loop, Cards.optCardCount_cancel]

theorem checkChi_untouched (s : HandCards) (card : Card) (eatChi : EatChiCard) :
    (s.checkChi card eatChi).1 = s := by
  by_cases gates : s.ChiGates card
  · rw [checkChi_eq gates]
    split
    · rfl
    · exact checkBi_untouched s card _ _
  · rw [checkChi_of_not_gates gates]

/-! ## The four checks -/

inductive Check where
  | checkChi (card : Card) (eatChi : EatChiCard)
  | checkHu (card : Card) (self fetch : Bool)
  | checkHuSelf (self : Bool)
  | isTing (outCard : Card)

def Check.apply (s : HandCards) : Check → HandCards
  | checkChi card eatChi => (s.checkChi card eatChi).1
  | checkHu card self fetch => (s.checkHu card self fetch).1
  | checkHuSelf self => (s.checkHuSelf self).1
  | isTing outCard => (s.isTing outCard).1

/-- The check tries a pao. -/
def Check.TriesPao (s : HandCards) : Check → Prop
  | checkChi _ _ => False
  | checkHu card _ fetch => s.TriesPao card fetch
  | checkHuSelf _ => False
  | isTing outCard => s.TingTriesPao outCard

theorem sameGame_iff_of_effect {s t : HandCards} {tries : Prop} [Decidable tries]
    (effect : (if tries then s.clearPassHu else s).SameGame t) :
    s.SameGame t ↔ ¬ tries ∨ s.NoPassHu := by
  by_cases tried : tries
  · rw [if_pos tried] at effect
    rw [← sameGame_clearPassHu_iff]
    constructor
    · exact fun same => .inr (same.trans effect.symm)
    · rintro (not | same)
      · exact absurd tried not
      · exact same.trans effect
  · rw [if_neg tried] at effect
    exact iff_of_true effect (.inl tried)

theorem checkHuSelf_effect (s : HandCards) (self : Bool) : s.SameGame (s.checkHuSelf self).1 := by
  unfold checkHuSelf
  split
  · rfl
  · split
    · rfl
    · exact checkHuOn_sameGame { s with self := self, eatHuCardList := [] } .invalid false

/-- A check leaves everything but its scratch fields as it was, exactly if it tries no
pao or no card is marked as one that was not won with. -/
theorem check_untouched_iff (s : HandCards) (check : Check) :
    s.SameGame (check.apply s) ↔ ¬ check.TriesPao s ∨ s.NoPassHu := by
  cases check with
  | checkChi card eatChi =>
      refine iff_of_true ?_ (.inl id)
      rw [Check.apply, checkChi_untouched]
      rfl
  | checkHu card self fetch =>
      have exactly := sameGame_iff_of_effect (checkHu_effect s card self fetch)
      exact exactly
  | checkHuSelf self => exact iff_of_true (checkHuSelf_effect s self) (.inl id)
  | isTing outCard =>
      have exactly := sameGame_iff_of_effect (isTing_effect s outCard)
      exact exactly

/-- Three ones in the hand, and a two that was not won with. -/
def threeOnesPassedTwo : HandCards :=
  { cards := Function.update (fun _ => 0) (getIndex (Card.makeCard 1 false)) 3
    countCards := 3
    smallCards := 3
    cardFlags := Function.update (fun _ => 0) (getIndex (Card.makeCard 2 false)) 2 }

theorem not_check_untouched : ¬ ∀ (s : HandCards) (check : Check), s.SameGame (check.apply s) := by
  intro always
  have effect := checkHu_effect threeOnesPassedTwo (Card.makeCard 1 false) true false
  rw [if_pos (by decide)] at effect
  have same := (always threeOnesPassedTwo
    (.checkHu (Card.makeCard 1 false) true false)).trans effect.symm
  exact absurd ((sameGame_clearPassHu_iff _).mp same 1) (by decide)

end HandCards

end CLibs.Cardlib
