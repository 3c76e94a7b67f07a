import CLibs.Cardlib.Ledger

/-!
# The robot's own hand

`Client::cbSomeOneEat` repeats on the robot's `handcards` what the server did to the
hand of its seat. The message says only which action it was and which card was
taken, and the robot takes a fixed number of copies out per action.
-/

set_option autoImplicit false

namespace CLibs.Cardlib

/-- `removeCard` with any `int`: a negative number puts cards back. -/
def HandCards.removeCardNum (s : HandCards) (card : Card) (num : Int) : HandCards × Bool :=
  if !card.isValid then (s, false)
  else if num ≤ s.cards (getIndex card) then
    ({ s with
      cards := s.cards.optCardCount card (-num)
      countCards := s.countCards - UInt8.ofInt num }, true)
  else (s, false)

theorem HandCards.removeCardNum_natCast (s : HandCards) (card : Card) (num : Nat) :
    s.removeCardNum card num = s.removeCard card num := by
  have byte : UInt8.ofInt (num : Int) = UInt8.ofNat num := by
    rw [← UInt8.toNat_inj]
    simp only [UInt8.ofInt, UInt8.toNat_ofNat']
    omega
  simp only [removeCardNum, removeCard, byte]

end CLibs.Cardlib

namespace CLibs.Robot

open Cardlib HandCards

inductive Action where
  | pass
  | chi
  | peng
  | wei
  | pao
  | ti
  | hu
  /-- No choice was made yet. -/
  | ending

/-- The values of `_Action_code`. -/
def Action.code : Action → Int
  | .chi => 1
  | .peng => 2
  | .wei => 3
  | .pao => 4
  | .ti => 5
  | .hu => 6
  | .ending => 7
  | .pass => 0

structure EatEntry where
  card : Int
  cards : List Int := []

/-- The fields of `SERVER_GAME_SOMEONE_EAT_BC` that the robot reads. -/
structure SomeOneEat where
  seatid : Int
  action : Int
  eatCards : List EatEntry

structure Player where
  seatid : UInt8
  handcards : HandCards

namespace Player

/-- The branch for a chi: the incoming card joins the hand, and every card of the
melds leaves it. -/
def removeChi (hand : HandCards) (cardval : Int) (eatCards : List EatEntry) : HandCards :=
  eatCards.foldl
    (fun hand entry =>
      entry.cards.foldl (fun hand val => (hand.removeCardNum (Card.ofVal val) 1).1) hand)
    (hand.removeCardNum (Card.ofVal cardval) (-1)).1

/-- `cbSomeOneEat`. `cardval` is what the variable of that name holds before the loop
that sets it. -/
def cbSomeOneEat (player : Player) (cardval : Int) (val : SomeOneEat) : Player :=
  let cardval := val.eatCards.foldl (fun _ entry => entry.card) cardval
  if player.seatid.toNat = val.seatid then
    let hand := player.handcards
    { player with
      handcards :=
        if val.action = Action.peng.code ∨ val.action = Action.wei.code then
          (hand.removeCardNum (Card.ofVal cardval) 2).1
        else if val.action = Action.pao.code ∨ val.action = Action.ti.code then
          (hand.removeCardNum (Card.ofVal cardval) 4).1
        else if val.action = Action.chi.code then removeChi hand cardval val.eatCards
        else hand }
  else player

end Player

/-- The moves with one card that the server tells a seat about. -/
inductive SeatMove where
  | eatPeng
  | eatWei
  | eatPao
  | eatTi

namespace SeatMove

def apply (server : HandCards) (card : Card) : SeatMove → HandCards × Bool
  | eatPeng => server.eatPeng card
  | eatWei => server.eatWei card
  | eatPao => server.eatPao card
  | eatTi => server.eatTi card

def action : SeatMove → Action
  | eatPeng => .peng
  | eatWei => .wei
  | eatPao => .pao
  | eatTi => .ti

/-- A pao or a ti takes no card out of the hand. -/
def Mirrored (server : HandCards) (card : Card) : SeatMove → Prop
  | eatPeng => True
  | eatWei => True
  | eatPao => server.getCardCount card < 3
  | eatTi => server.getCardCount card < 3

end SeatMove

/-- The message to `seatid` about one card; `cards` are the other cards it names. -/
def eatMessage (seatid : UInt8) (action : Action) (card : Card) (cards : List Int) : SomeOneEat where
  seatid := seatid.toNat
  action := action.code
  eatCards := [{ card := card.val, cards := cards }]

/-! ## What leaves the hand -/

@[simp] theorem ofVal_val (card : Card) : Card.ofVal card.val = card := by
  rcases card with ⟨val, rfl | admitted⟩
  · rfl
  · simp [Card.ofVal, admitted]

/-- The counts after `num` copies of `card` were asked for. -/
def countsWithout (cards : Cards) (card : Card) (num : Int) : Cards :=
  if num ≤ cards.getCardCount card then cards.optCardCount card (-num) else cards

theorem removeCardNum_cards (s : HandCards) (card : Card) {num : Int} (positive : 0 < num) :
    (s.removeCardNum card num).1.cards = countsWithout s.cards card num := by
  unfold removeCardNum countsWithout
  cases valid : card.isValid with
  | false =>
      have none : s.cards.getCardCount card = 0 := by simp [Cards.getCardCount, valid]
      rw [none, if_neg (not_le.mpr positive)]
      rfl
  | true =>
      rw [Cards.getCardCount_of_isValid _ valid]
      simp only [Bool.not_true, Bool.false_eq_true, if_false]
      split <;> rfl

theorem removeCard_cards (s : HandCards) (card : Card) {num : Nat} (positive : 0 < num) :
    (s.removeCard card num).1.cards = countsWithout s.cards card num := by
  rw [← removeCardNum_natCast, removeCardNum_cards s card (by exact_mod_cast positive)]

theorem eatPeng_cards {server : HandCards} {card : Card} (done : (server.eatPeng card).2 = true) :
    (server.eatPeng card).1.cards = countsWithout server.cards card 2 := by
  unfold eatPeng at done ⊢
  split at done
  · cases done
  · next pair =>
    rw [if_neg pair]
    split at done
    · cases done
    · next active =>
      rw [if_neg active]
      exact removeCard_cards server card (by decide)

theorem eatWei_cards {server : HandCards} {card : Card} (done : (server.eatWei card).2 = true) :
    (server.eatWei card).1.cards = countsWithout server.cards card 2 := by
  unfold eatWei at done ⊢
  split at done
  · cases done
  · next pair =>
    rw [if_neg pair]
    exact removeCard_cards server card (by decide)

theorem eatPao_cards {server : HandCards} {card : Card} (done : (server.eatPao card).2 = true) :
    (server.eatPao card).1.cards =
      if server.getCardCount card = 3 then countsWithout server.cards card 3
      else server.cards := by
  unfold eatPao at done ⊢
  split at done
  · next three =>
    rw [if_pos three, if_pos three]
    exact removeCard_cards server card (by decide)
  · next notThree =>
    rw [if_neg notThree, if_neg notThree]
    cases found : findMeld card server.eatCards with
    | none => simp [found] at done
    | some meld =>
        obtain ⟨before, eat, after⟩ := meld
        dsimp only
        split
        · rfl
        · split <;> rfl

theorem eatTi_cards {server : HandCards} {card : Card} (done : (server.eatTi card).2 = true) :
    (server.eatTi card).1.cards =
      if server.getCardCount card = 3 then countsWithout server.cards card 3
      else server.cards := by
  unfold eatTi at done ⊢
  split at done
  · next three =>
    rw [if_pos three, if_pos three]
    exact removeCard_cards server card (by decide)
  · next notThree =>
    rw [if_neg notThree, if_neg notThree]
    cases found : findMeld card server.eatCards with
    | none => simp [found] at done
    | some meld =>
        obtain ⟨before, eat, after⟩ := meld
        dsimp only
        split <;> rfl

theorem optCardCount_eq_self_iff {cards : Cards} {card : Card} (valid : card.isValid = true)
    (num : Int) : cards.optCardCount card num = cards ↔ num = 0 := by
  constructor
  · intro same
    have count := congrArg (Cards.getCardCount · card) same
    simp only [Cards.getCardCount_optCardCount _ valid, if_true] at count
    omega
  · rintro rfl
    apply Cards.ext_getCardCount
    intro other
    rw [Cards.getCardCount_optCardCount _ valid]
    split <;> omega

/-- Asking for four copies does what a pao or a ti did exactly if the hand has fewer than three. -/
theorem countsWithout_four_iff (cards : Cards) (card : Card) :
    (countsWithout cards card 4 =
      if cards.getCardCount card = 3 then countsWithout cards card 3 else cards) ↔
      cards.getCardCount card < 3 := by
  have valid : 0 < cards.getCardCount card → card.isValid = true :=
    Cards.isValid_of_getCardCount_pos
  unfold countsWithout
  by_cases few : cards.getCardCount card < 3
  · rw [if_neg (by omega), if_neg (by omega)]
    simp [few]
  · by_cases three : cards.getCardCount card = 3
    · rw [if_neg (by omega), if_pos three, if_pos (by omega), eq_comm,
        optCardCount_eq_self_iff (valid (by omega))]
      omega
    · rw [if_pos (by omega), if_neg three, optCardCount_eq_self_iff (valid (by omega))]
      omega

/-! ## Mirroring -/

/-- How many copies the robot takes out for a move. -/
def SeatMove.asked : SeatMove → Int
  | eatPeng => 2
  | eatWei => 2
  | eatPao => 4
  | eatTi => 4

theorem cbSomeOneEat_cards (player : Player) (cardval : Int) (move : SeatMove) (card : Card)
    (others : List Int) :
    (player.cbSomeOneEat cardval
        (eatMessage player.seatid move.action card others)).handcards.cards =
      countsWithout player.handcards.cards card move.asked := by
  unfold Player.cbSomeOneEat eatMessage
  simp only [List.foldl_cons, List.foldl_nil, if_true, ofVal_val]
  cases move with
  | eatPeng => exact removeCardNum_cards _ _ (by decide)
  | eatWei => exact removeCardNum_cards _ _ (by decide)
  | eatPao => exact removeCardNum_cards _ _ (by decide)
  | eatTi => exact removeCardNum_cards _ _ (by decide)

@[simp] theorem cbSomeOneEat_seatid (player : Player) (cardval : Int) (val : SomeOneEat) :
    (player.cbSomeOneEat cardval val).seatid = player.seatid := by
  unfold Player.cbSomeOneEat
  dsimp only
  split <;> rfl

/-- The robot hears of one opening ti after the other. -/
def Player.hearOpening (player : Player) (cardval : Int) (others : List Int) (cards : List Card) :
    Player :=
  cards.foldl
    (fun player card => player.cbSomeOneEat cardval (eatMessage player.seatid .ti card others))
    player

/-- One position of the deal: the server lays four cards down, and so does the robot. -/
theorem hearOpening_firstBloodAt {player : Player} {cardval : Int} {others : List Int}
    {acc : HandCards × List Card}
    (same : (player.hearOpening cardval others acc.2).handcards.cards = acc.1.cards) (i : Fin 20) :
    (player.hearOpening cardval others (firstBloodAt acc i).2).handcards.cards =
      (firstBloodAt acc i).1.cards := by
  unfold firstBloodAt
  split
  · have heard : player.hearOpening cardval others (acc.2 ++ [cardAt i]) =
        (player.hearOpening cardval others acc.2).cbSomeOneEat cardval
          (eatMessage (player.hearOpening cardval others acc.2).seatid .ti (cardAt i) others) :=
      List.foldl_append
    have asked := cbSomeOneEat_cards (player.hearOpening cardval others acc.2) cardval .eatTi
      (cardAt i) others
    dsimp only
    rw [heard]
    refine asked.trans ?_
    rw [same]
    exact (removeCard_cards
      (acc.1.pushEat { big := (cardAt i).isBig, eatCard := cardAt i, type := .eatQishouTi })
      (cardAt i) (show 0 < 4 by decide)).symm
  · exact same

theorem hearOpening_firstBlood {server : HandCards} {player : Player}
    (same : player.handcards.cards = server.cards) (cardval : Int) (others : List Int) :
    (player.hearOpening cardval others server.firstBlood.2).handcards.cards =
      server.firstBlood.1.cards := by
  have loop : ∀ (positions : List (Fin 20)) (acc : HandCards × List Card),
      (player.hearOpening cardval others acc.2).handcards.cards = acc.1.cards →
      (player.hearOpening cardval others (positions.foldl firstBloodAt acc).2).handcards.cards =
        (positions.foldl firstBloodAt acc).1.cards := by
    intro positions
    induction positions with
    | nil => exact fun _ mirrored => mirrored
    | cons i rest ih =>
        intro acc mirrored
        exact ih _ (hearOpening_firstBloodAt mirrored i)
  have done := loop (List.finRange 20) (server, []) same
  rw [firstBlood]
  refine done.trans ?_
  split <;> rfl

/-- The robot's counts are the server's again after a peng and a wei, after a pao and a
ti exactly if the hand held fewer than three copies, and after the opening. -/
theorem hand_mirrors_iff {server : HandCards} {player : Player}
    (same : player.handcards.cards = server.cards) (cardval : Int) (others : List Int) :
    (∀ (card : Card) (move : SeatMove), (move.apply server card).2 = true →
      ((player.cbSomeOneEat cardval
          (eatMessage player.seatid move.action card others)).handcards.cards =
        (move.apply server card).1.cards ↔ move.Mirrored server card)) ∧
    (player.hearOpening cardval others server.firstBlood.2).handcards.cards =
      server.firstBlood.1.cards := by
  refine ⟨?_, hearOpening_firstBlood same cardval others⟩
  intro card move done
  rw [cbSomeOneEat_cards, same]
  cases move with
  | eatPeng => exact iff_of_true (eatPeng_cards done).symm trivial
  | eatWei => exact iff_of_true (eatWei_cards done).symm trivial
  | eatPao =>
      rw [SeatMove.apply, eatPao_cards done]
      exact countsWithout_four_iff server.cards card
  | eatTi =>
      rw [SeatMove.apply, eatTi_cards done]
      exact countsWithout_four_iff server.cards card

def threeOnes : HandCards :=
  { cards := Function.update (fun _ => 0) (getIndex (Card.makeCard 1 false)) 3
    countCards := 3
    smallCards := 3 }

theorem hand_mirrors_iff_threeOnes :
    (({ seatid := 2, handcards := threeOnes } : Player).cbSomeOneEat 0
        (eatMessage 2 .ti (Card.makeCard 1 false) [])).handcards.cards =
      (threeOnes.eatTi (Card.makeCard 1 false)).1.cards ↔
    threeOnes.getCardCount (Card.makeCard 1 false) < 3 :=
  (hand_mirrors_iff (rfl : ({ seatid := 2, handcards := threeOnes } : Player).handcards.cards = threeOnes.cards) 0 []).1
    (Card.makeCard 1 false) .eatTi (by decide)

/-- The server lays three ones and the fourth down as a ti; the robot, asked for four
copies, keeps its three. -/
theorem not_hand_mirrors :
    ¬ ∀ (server : HandCards) (player : Player), player.handcards.cards = server.cards →
      ∀ (cardval : Int) (others : List Int) (card : Card) (move : SeatMove),
        (move.apply server card).2 = true →
        (player.cbSomeOneEat cardval
            (eatMessage player.seatid move.action card others)).handcards.cards =
          (move.apply server card).1.cards := by
  intro always
  have mirrored := always threeOnes { seatid := 2, handcards := threeOnes } rfl 0 []
    (Card.makeCard 1 false) .eatTi (by decide)
  exact absurd (congrFun mirrored 0) (by decide)

end CLibs.Robot
