import CLibs.Cardlib.Bookkeeping

/-!
# Games of one player

The operations a game calls on a hand, as a transition system. A run starts
with `clear`; the only promise about the deck is that it has four copies of
each card.
-/

set_option autoImplicit false

namespace CLibs.Cardlib

open General

namespace HandCards

inductive Op where
  | addHandCards (cards : List Card)
  | addCard (card : Card)
  | firstBlood
  | outHandCard (card : Card)
  | eatPeng (card : Card)
  | eatWei (card : Card)
  | eatWei2 (card : Card)
  | eatPao (card : Card)
  | eatTi (card : Card)
  | eatChi (card : Card) (plan : List EatCard)
  | delTianHuCard (del : Card)
  | checkChi (card : Card) (prior : EatChiCard)
  | checkHu (card : Card) (self fetch : Bool)
  | checkHuSelf (self : Bool)
  | isTing (outCard : Card)

def Op.apply (s : HandCards) : Op → HandCards
  | addHandCards cards => s.addHandCards cards
  | addCard card => s.addCard card
  | firstBlood => s.firstBlood.1
  | outHandCard card => (s.outHandCard card).1
  | eatPeng card => (s.eatPeng card).1
  | eatWei card => (s.eatWei card).1
  | eatWei2 card => (s.eatWei2 card).1
  | eatPao card => (s.eatPao card).1
  | eatTi card => (s.eatTi card).1
  | eatChi card plan => (s.eatChi card plan).1
  | delTianHuCard del => s.delTianHuCard del
  | checkChi card prior => (s.checkChi card prior).1
  | checkHu card self fetch => (s.checkHu card self fetch).1
  | checkHuSelf self => (s.checkHuSelf self).1
  | isTing outCard => (s.isTing outCard).1

/-- What the callers keep to: cards added are cards, chi plans come from the
current offer, and a card taken back was dealt. -/
def Op.Allowed (s : HandCards) : Op → Prop
  | addCard card => card.isValid = true
  | eatChi card plan => ∃ prior, (s.checkChi card prior).2.2 = true ∧
      (s.checkChi card prior).2.1.Offers plan
  | delTianHuCard del => 0 < s.getCardCount del ∨
      ∃ eat ∈ s.eatCards, eat.type = .eatQishouTi ∧ eat.eatCard = del
  | _ => True

/-- One player's game with four copies of each card. -/
def game : System HandCards Op where
  start s := ∃ before : HandCards, s = before.clear
  step s op t := op.Allowed s ∧ t = op.apply s ∧ t.FourCopies

theorem Op.apply_ledger {s : HandCards} (ledger : s.Ledger) {op : Op} (allowed : op.Allowed s) :
    (op.apply s).Ledger := by
  cases op with
  | addHandCards cards => exact addHandCards_ledger s cards
  | addCard card => exact addCard_ledger ledger card
  | firstBlood => exact firstBlood_ledger ledger
  | outHandCard card => exact outHandCard_ledger ledger card
  | eatPeng card => exact eatPeng_ledger ledger card
  | eatWei card => exact eatWei_ledger ledger card
  | eatWei2 card => exact eatWei2_ledger ledger card
  | eatPao card => exact eatPao_ledger ledger card
  | eatTi card => exact eatTi_ledger ledger card
  | eatChi card plan =>
      obtain ⟨prior, offered, offers⟩ := allowed
      exact eatChi_ledger ledger offered offers
  | delTianHuCard del => exact delTianHuCard_ledger ledger allowed
  | checkChi card prior =>
      change (s.checkChi card prior).1.Ledger
      rw [checkChi_fst s card prior ledger.nonneg]
      exact ledger
  | checkHu card self fetch => exact ledger.of_unmoved (checkHu_unmoved s card self fetch)
  | checkHuSelf self => exact ledger.of_unmoved (checkHuSelf_unmoved s self)
  | isTing outCard => exact ledger.of_unmoved (isTing_unmoved s outCard)

theorem clear_fourCopies (s : HandCards) : s.clear.FourCopies := by
  intro i
  have empty : s.clear.bag = 0 := by
    simp [bag, clear, Cards.bag]
  simp [empty]

/-- The counters are right in every state of every game. -/
theorem game_bookkeeping {ops : List Op} {s : HandCards} (run : game.Run ops s) :
    s.Bookkeeping := by
  have both : s.Ledger ∧ s.FourCopies := by
    refine System.Run.invariant (fun s => s.Ledger ∧ s.FourCopies) ?_ ?_ run
    · rintro s ⟨before, rfl⟩
      exact ⟨clear_ledger before, clear_fourCopies before⟩
    · rintro s op t ⟨ledger, -⟩ ⟨allowed, rfl, copies⟩
      exact ⟨Op.apply_ledger ledger allowed, copies⟩
  exact both.1.bookkeeping both.2

set_option maxRecDepth 20000 in
/-- The pair of big 2s becomes a wei and the fourth one makes it a pao. -/
theorem game_bookkeeping_pairOfTwos :
    ((((clear {}).addHandCards pairOfTwos).eatWei (.makeCard 2 true)).1.eatPao
      (.makeCard 2 true)).1.Bookkeeping := by
  have cleared : game.Run [] (clear {}) := .start ⟨{}, rfl⟩
  have dealt : game.Run [.addHandCards pairOfTwos] ((clear {}).addHandCards pairOfTwos) :=
    cleared.step ⟨trivial, rfl, by decide⟩
  have wei : game.Run [.addHandCards pairOfTwos, .eatWei (.makeCard 2 true)]
      (((clear {}).addHandCards pairOfTwos).eatWei (.makeCard 2 true)).1 :=
    dealt.step ⟨trivial, rfl, by decide⟩
  have pao : game.Run [.addHandCards pairOfTwos, .eatWei (.makeCard 2 true),
      .eatPao (.makeCard 2 true)]
      ((((clear {}).addHandCards pairOfTwos).eatWei (.makeCard 2 true)).1.eatPao
        (.makeCard 2 true)).1 :=
    wei.step ⟨trivial, rfl, by decide⟩
  exact game_bookkeeping pao

end HandCards

end CLibs.Cardlib
