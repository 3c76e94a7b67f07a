import CLibs.Cardlib.Card

/-!
# The hand and its table melds

State and bookkeeping operations of `HandCards`. The byte counters are `UInt8`
and wrap as `uint8_t` does. The entries of `_cards` are integers: every
modelled operation tests an entry before it subtracts from it.
-/

set_option autoImplicit false

namespace CLibs.Cardlib

inductive EatType where
  | eatNone
  | eatShunZi
  | eatHong
  | eatSanta
  | eatPeng
  | eatWei
  | eatWei2
  | eatPao
  | eatTi
  | eatQishouTi
  | eatKan
  | eatDui
  | eatDan
  | eat123
deriving DecidableEq, Repr

/-- A meld: its incoming card and its auxiliary cards. -/
structure EatCard where
  type : EatType := .eatNone
  big : Bool := false
  eatCard : Card := .invalid
  cards : List Card := []
deriving DecidableEq

/-- `cards[k]` of a meld. The source never tests the length; a missing card
reads as the invalid one. -/
def EatCard.card (eat : EatCard) (k : Nat) : Card := eat.cards.getD k .invalid

structure EatHuCards where
  xi : Int := 0
  huCards : List EatCard := []
deriving DecidableEq

/-- Follow-up melds of the chi option at position `idx`: the first of `cats` is
the second meld, the others are the choices for a third one. -/
structure EatBi where
  idx : Nat
  cats : List EatCard
deriving DecidableEq

structure EatChiCard where
  eats : List EatCard := []
  bi : List EatBi := []
deriving DecidableEq

structure CardInfo where
  fetch : Bool
  card : Card
deriving DecidableEq

/-- The `int8_t cards[20]` arrays of counts, as integers that do not overflow. -/
abbrev Cards := Fin 20 → Int

namespace Cards

def getCardCount (cards : Cards) (card : Card) : Int :=
  if !card.isValid then 0 else cards (getIndex card)

def optCardCount (cards : Cards) (card : Card) (num : Int) : Cards :=
  if !card.isValid then cards
  else Function.update cards (getIndex card) (cards (getIndex card) + num)

def setCardCount (cards : Cards) (card : Card) (num : Int) : Cards :=
  if !card.isValid then cards else Function.update cards (getIndex card) num

end Cards

structure HandCards where
  eatCards : List EatCard := []
  eatHuCards : List EatCard := []
  eatHuCardList : List EatHuCards := []
  huCard : Card := .invalid
  outCards : List CardInfo := []
  cards : Cards := fun _ => 0
  countCards : UInt8 := 0
  cardFlags : Fin 20 → UInt8 := fun _ => 0
  bigCards : UInt8 := 0
  smallCards : UInt8 := 0
  redCards : UInt8 := 0
  paoTimes : UInt8 := 0
  huXi : UInt8 := 0
  huXi2 : UInt8 := 0
  self : Bool := false
  flags : UInt8 := 0

namespace HandCards

/-- `clear`. The results of the last win check are left as they are. -/
def clear (s : HandCards) : HandCards :=
  { s with
    cards := fun _ => 0
    cardFlags := fun _ => 0
    countCards := 0
    bigCards := 0
    smallCards := 0
    redCards := 0
    paoTimes := 0
    eatCards := []
    outCards := []
    huXi := 0
    huXi2 := 0
    flags := 0 }

def getCardCount (s : HandCards) (card : Card) : Int := s.cards.getCardCount card

def optCardCount (s : HandCards) (card : Card) (num : Int) : HandCards :=
  { s with cards := s.cards.optCardCount card num }

/-- The lines with which the source counts one more card of its size and color. -/
def countIn (s : HandCards) (card : Card) : HandCards :=
  { s with
    redCards := if isHong card then s.redCards + 1 else s.redCards
    bigCards := if card.isBig then s.bigCards + 1 else s.bigCards
    smallCards := if card.isBig then s.smallCards else s.smallCards + 1 }

/-- The lines with which the source counts one card of its size and color less. -/
def countOut (s : HandCards) (card : Card) : HandCards :=
  { s with
    redCards := if isHong card then s.redCards - 1 else s.redCards
    bigCards := if card.isBig then s.bigCards - 1 else s.bigCards
    smallCards := if card.isBig then s.smallCards else s.smallCards - 1 }

def addCard (s : HandCards) (card : Card) : HandCards :=
  if !card.isValid then s
  else
    let s := { s with
      cards := s.cards.optCardCount card 1
      countCards := s.countCards + 1 }
    s.countIn card

def addHandCards (s : HandCards) (cards : List Card) : HandCards :=
  cards.foldl addCard s.clear

/-! ## Flags -/

def checkPaoFlag (s : HandCards) : Bool := s.flags &&& ((1 : UInt8) <<< 3) != 0

def clearPaoFlag (s : HandCards) : HandCards := { s with flags := s.flags &&& ~~~((1 : UInt8) <<< 3) }

def setPaoFlag (s : HandCards) : HandCards := { s with flags := s.flags ||| ((1 : UInt8) <<< 3) }

def isDisableHu (s : HandCards) : Bool := s.flags &&& ((1 : UInt8) <<< 1) != 0

def isDisableEat (s : HandCards) : Bool := s.flags &&& ((1 : UInt8) <<< 2) != 0

def passCard (s : HandCards) (card : Card) : HandCards :=
  if !card.isValid then s
  else { s with
    cardFlags := Function.update s.cardFlags (getIndex card) (s.cardFlags (getIndex card) ||| 1) }

def isPass (s : HandCards) (card : Card) : Bool :=
  if !card.isValid then true else s.cardFlags (getIndex card) &&& 1 != 0

/-- `_isPassHu`, whose first statement is `return false`. -/
def isPassHu (_ : HandCards) (_ : Card) : Bool := false

def isPassPeng (s : HandCards) (card : Card) : Bool :=
  if !card.isValid then true else s.cardFlags (getIndex card) &&& 4 != 0

def clearPassHu (s : HandCards) : HandCards :=
  { s with cardFlags := fun i => s.cardFlags i &&& ~~~2 }

/-! ## Taking cards out of the hand -/

/-- `_getActiveCard`: cards that are neither missing nor part of a triple. -/
def getActiveCard (s : HandCards) : Int :=
  (List.finRange 20).foldl
    (fun numActive i => if 0 < s.cards i ∧ s.cards i < 3 then numActive + s.cards i else numActive) 0

def removeCard (s : HandCards) (card : Card) (num : Nat := 1) : HandCards × Bool :=
  if !card.isValid then (s, false)
  else if (num : Int) ≤ s.cards (getIndex card) then
    ({ s with
      cards := s.cards.optCardCount card (-num)
      countCards := s.countCards - UInt8.ofNat num }, true)
  else (s, false)

def checkOut (s : HandCards) (card : Card) : Bool :=
  if !card.isValid then false
  else decide (0 < s.cards (getIndex card) ∧ s.cards (getIndex card) < 3)

def outHandCard (s : HandCards) (card : Card) : HandCards × Bool :=
  if !s.checkOut card then (s, false)
  else
    let removed := s.removeCard card 1
    if !removed.2 then (s, false)
    else ((removed.1.countOut card).passCard card, true)

/-- `getCards`: the hand, position by position. -/
def getCards (s : HandCards) : List Card :=
  (List.finRange 20).flatMap fun i => List.replicate (s.cards i).toNat (cardAt i)

/-! ## Table melds -/

def addXi (s : HandCards) (xi : UInt8) : HandCards :=
  { s with huXi := s.huXi + xi, huXi2 := s.huXi2 + xi }

def pushEat (s : HandCards) (eat : EatCard) : HandCards :=
  { s with eatCards := s.eatCards ++ [eat] }

def firstBloodAt (acc : HandCards × List Card) (i : Fin 20) : HandCards × List Card :=
  if acc.1.cards i = 4 then
    let card := cardAt i
    let s := acc.1.pushEat { big := card.isBig, eatCard := card, type := .eatQishouTi }
    let s := (s.removeCard card 4).1
    let s := s.addXi (if card.isBig then 12 else 9)
    ({ s with paoTimes := s.paoTimes + 1 }, acc.2 ++ [card])
  else acc

/-- `__firstBlood`: lay down every card held four times. -/
def firstBlood (s : HandCards) : HandCards × List Card :=
  let done := (List.finRange 20).foldl firstBloodAt (s, [])
  (if 2 ≤ done.1.paoTimes then done.1.setPaoFlag else done.1, done.2)

def delTianHuCard (s : HandCards) (del : Card) : HandCards :=
  let opening := fun eat : EatCard => decide (eat.type = .eatQishouTi ∧ eat.eatCard = del)
  if s.eatCards.any opening then
    let s := { s with eatCards := s.eatCards.eraseP opening, paoTimes := s.paoTimes - 1 }
    let s := if s.paoTimes < 2 then s.clearPaoFlag else s
    let xi : UInt8 := if del.isBig then 12 else 9
    let s := { s with
      huXi := s.huXi - xi
      huXi2 := s.huXi2 - xi
      redCards := if isHong del then s.redCards - 4 else s.redCards
      bigCards := if del.isBig then s.bigCards - 4 else s.bigCards
      smallCards := if del.isBig then s.smallCards else s.smallCards - 4 }
    ((s.addCard del).addCard del).addCard del
  else ((s.removeCard del 1).1).countOut del

/-- The melds before, at and after the first one whose `eatCard` is `card`. -/
def findMeld (card : Card) : List EatCard → Option (List EatCard × EatCard × List EatCard)
  | [] => none
  | eat :: rest =>
      if eat.eatCard = card then some ([], eat, rest)
      else (findMeld card rest).map fun found => (eat :: found.1, found.2.1, found.2.2)

/-- The meld list after the found meld became `eat`: `eat` stays where it is
when it is the last one and moves to the end otherwise. -/
def moveToEnd (before : List EatCard) (eat : EatCard) (after : List EatCard) : List EatCard :=
  if after.isEmpty then before ++ [eat] else before ++ after ++ [eat]

/-- The part after the tests that `EatPeng`, `EatWei` and `EatWei2` share: two
cards of the hand and the incoming card become a meld. `xi2` is what the other
players see of its points. -/
def layThree (s : HandCards) (card : Card) (type : EatType) (xi xi2 : UInt8) :
    HandCards × Bool :=
  let s := (s.removeCard card 2).1
  let s := s.countIn card
  let s := { s with huXi := s.huXi + xi, huXi2 := s.huXi2 + xi2 }
  let s := s.pushEat { big := card.isBig, eatCard := card, type := type }
  (s.clearPassHu, true)

def eatPeng (s : HandCards) (card : Card) : HandCards × Bool :=
  if s.getCardCount card ≠ 2 then (s, false)
  else if s.getActiveCard ≤ 2 then (s, false)
  else
    let xi : UInt8 := if card.isBig then 3 else 1
    s.layThree card .eatPeng xi xi

def eatWei (s : HandCards) (card : Card) : HandCards × Bool :=
  if s.getCardCount card ≠ 2 then (s, false)
  else s.layThree card .eatWei (if card.isBig then 6 else 3) 0

def eatWei2 (s : HandCards) (card : Card) : HandCards × Bool :=
  if s.getCardCount card ≠ 2 then (s, false)
  else
    let xi : UInt8 := if card.isBig then 6 else 3
    s.layThree card .eatWei2 xi xi

/-- The branch of `EatPao` and `EatTi` for a triple held in the hand. -/
def layFour (s : HandCards) (card : Card) (type : EatType) (xi : UInt8) : HandCards × Bool :=
  let s := (s.removeCard card 3).1
  let s := s.countIn card
  let s := s.addXi xi
  let s := s.pushEat { big := card.isBig, eatCard := card, type := type }
  let s := { s with paoTimes := s.paoTimes + 1 }
  (s.clearPassHu, true)

/-- The branch of `EatPao` and `EatTi` that turns a table meld into `type`. -/
def upgradeMeld (s : HandCards) (before : List EatCard) (eat : EatCard) (after : List EatCard)
    (type : EatType) (xi : UInt8) : HandCards × Bool :=
  let s := { s with eatCards := moveToEnd before { eat with type := type } after }
  let s := s.addXi xi
  let s := { s with paoTimes := s.paoTimes + 1 }
  (s.clearPassHu, true)

def eatPao (s : HandCards) (card : Card) : HandCards × Bool :=
  if s.getCardCount card = 3 then s.layFour card .eatPao (if card.isBig then 9 else 6)
  else
    match findMeld card s.eatCards with
    | none => (s, false)
    | some (before, eat, after) =>
        let s := s.countIn card
        if eat.type = .eatPeng then
          s.upgradeMeld before eat after .eatPao (if card.isBig then 6 else 5)
        else if eat.type = .eatWei then s.upgradeMeld before eat after .eatPao 3
        else (s.countOut card, false)

def eatTi (s : HandCards) (card : Card) : HandCards × Bool :=
  if s.getCardCount card = 3 then s.layFour card .eatTi (if card.isBig then 12 else 9)
  else
    match findMeld card s.eatCards with
    | none => (s, false)
    | some (before, eat, after) =>
        let s := s.countIn card
        if eat.type = .eatWei then s.upgradeMeld before eat after .eatTi 6
        else (s.countOut card, false)

/-- Put a chi meld on the table; the flag is `clearHu`. -/
def layChi (acc : HandCards × Bool) (eat : EatCard) : HandCards × Bool :=
  let s := acc.1.pushEat eat
  if eat.type = .eat123 ∨ eat.type = .eatHong then (s.addXi (if eat.big then 6 else 3), true)
  else (s, acc.2)

/-- One pass of the loop of `EatChi` over the melds after the first. -/
def eatChiNext (acc : HandCards × Bool) (eat : EatCard) : HandCards × Bool :=
  let s := (acc.1.removeCard eat.eatCard).1
  let s := (s.removeCard (eat.card 0)).1
  let s := (s.removeCard (eat.card 1)).1
  layChi (s, acc.2) eat

def eatChi (s : HandCards) (card : Card) (eats : List EatCard) : HandCards × Bool :=
  match eats with
  | [] => (s, false)
  | first :: rest =>
      let c1 := s.getCardCount (first.card 0)
      let c2 := s.getCardCount (first.card 1)
      if c1 ≤ 0 ∨ c2 ≤ 0 ∨ 2 < c1 ∨ 2 < c2 then (s, false)
      else
        let t := (s.removeCard (first.card 0)).1
        let t := (t.removeCard (first.card 1)).1
        let done := rest.foldl eatChiNext (layChi (t, false) first)
        if 0 < done.1.getCardCount card then
          ({ done.1 with
            eatCards := s.eatCards
            huXi := s.huXi
            huXi2 := s.huXi2
            cards := s.cards
            countCards := s.countCards }, false)
        else
          let t := done.1.countIn card
          (if done.2 then t.clearPassHu else t, true)

/-! ## Rebuilding the table melds -/

/-- Cards of `addEatCards` for a run: three of one size, at most one of them red. -/
def addRun (s : HandCards) (eat : EatCard) : HandCards :=
  let isBig := eat.eatCard.isBig
  let s := { s with
    bigCards := if isBig then s.bigCards + 3 else s.bigCards
    smallCards := if isBig then s.smallCards else s.smallCards + 3 }
  if isHong eat.eatCard then { s with redCards := s.redCards + 1 }
  else
    let s := if isHong (eat.card 0) then { s with redCards := s.redCards + 1 } else s
    if isHong (eat.card 1) then { s with redCards := s.redCards + 1 } else s

/-- Cards of `addEatCards` for a meld of `num` equal cards. -/
def addSame (s : HandCards) (eat : EatCard) (num : UInt8) : HandCards :=
  { s with
    bigCards := if eat.eatCard.isBig then s.bigCards + num else s.bigCards
    smallCards := if eat.eatCard.isBig then s.smallCards else s.smallCards + num
    redCards := if isHong eat.eatCard then s.redCards + num else s.redCards }

def addEatCard (s : HandCards) (eat : EatCard) : HandCards :=
  match eat.type with
  | .eatShunZi => s.addRun eat
  | .eatSanta => ((s.countIn eat.eatCard).countIn (eat.card 0)).countIn (eat.card 1)
  | .eat123 => (s.addXi (if eat.big then 6 else 3)).addRun eat
  | .eatHong =>
      let s := s.addXi (if eat.big then 6 else 3)
      { s with
        bigCards := if eat.eatCard.isBig then s.bigCards + 3 else s.bigCards
        smallCards := if eat.eatCard.isBig then s.smallCards else s.smallCards + 3
        redCards := s.redCards + 3 }
  | .eatPeng => (s.addXi (if eat.big then 3 else 1)).addSame eat 3
  | .eatWei => { s with huXi := s.huXi + if eat.big then 6 else 3 }.addSame eat 3
  | .eatWei2 => (s.addXi (if eat.big then 6 else 3)).addSame eat 3
  | .eatPao =>
      let s := s.addXi (if eat.big then 9 else 6)
      { s with paoTimes := s.paoTimes + 1 }.addSame eat 4
  | .eatTi | .eatQishouTi =>
      let s := s.addXi (if eat.big then 12 else 9)
      { s with paoTimes := s.paoTimes + 1 }.addSame eat 4
  | .eatNone | .eatKan | .eatDui | .eatDan => s

def addEatCards (s : HandCards) (eats : List EatCard) : HandCards :=
  eats.foldl addEatCard { s with eatCards := eats, huXi := 0, huXi2 := 0, paoTimes := 0 }

end HandCards

end CLibs.Cardlib
