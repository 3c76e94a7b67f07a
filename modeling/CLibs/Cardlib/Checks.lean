import CLibs.Cardlib.HandCards

/-!
# Chi, pao and win checks

The what-if part of `HandCards`. The searches count cards out of a shared array
and back in again; the array is threaded through every step, so that what they
leave behind is a theorem and not a convention.
-/

set_option autoImplicit false
set_option linter.style.nameCheck false

namespace CLibs.Cardlib

def pushIf (cond : Prop) [Decidable cond] (eat : EatCard) : List EatCard :=
  if cond then [eat] else []

def chiEat (type : EatType) (big : Bool) (card temp1 temp2 : Card) : EatCard :=
  { type := type, big := big, eatCard := card, cards := [temp1, temp2] }

namespace Cards

/-! ## The two meld enumerators -/

/-- The 2-7-10 block of both enumerators, for the admission test `ok`. -/
def hongEats (ok : Int → Int → Prop) [DecidableRel ok] (cards : Cards) (card : Card) :
    List EatCard :=
  let eat := fun p q : Int =>
    let temp1 := Card.makeCard p card.isBig
    let temp2 := Card.makeCard q card.isBig
    pushIf (ok (cards.getCardCount temp1) (cards.getCardCount temp2))
      (chiEat .eatHong card.isBig card temp1 temp2)
  if card.getPoint = 2 then eat 7 10
  else if card.getPoint = 7 then eat 2 10
  else if card.getPoint = 10 then eat 2 7
  else []

/-- The melds of the win search that contain `card`, which has already been
counted out of `cards`. Only the first run keeps the test against triples. -/
def __checkChi (cards : Cards) (card : Card) : List EatCard :=
  let point := card.getPoint
  let isBig := card.isBig
  let next := fun n : Int => Card.makeCard (point + n) isBig
  let count := cards.getCardCount
  let small := Card.makeCard point false
  let large := Card.makeCard point true
  hongEats (fun c1 c2 => 0 < c1 ∧ 0 < c2) cards card ++
  pushIf (0 < count (next (-1)) ∧ 0 < count (next (-2)) ∧
      count (next (-1)) < 3 ∧ count (next (-2)) < 3)
    (chiEat (if point = 3 then .eat123 else .eatShunZi) isBig card (next (-1)) (next (-2))) ++
  pushIf (0 < count (next (-1)) ∧ 0 < count (next 1))
    (chiEat (if point = 2 then .eat123 else .eatShunZi) isBig card (next 1) (next (-1))) ++
  pushIf (0 < count (next 1) ∧ 0 < count (next 2))
    (chiEat (if point = 1 then .eat123 else .eatShunZi) isBig card (next 2) (next 1)) ++
  pushIf (isBig = true ∧ 2 ≤ count small) (chiEat .eatSanta false card small small) ++
  pushIf (isBig = false ∧ 2 ≤ count large) (chiEat .eatSanta true card large large) ++
  pushIf (2 ≤ count small + count large ∧ 0 < count small ∧ 0 < count large)
    (chiEat .eatSanta isBig card small large)

/-- The melds a player may chi `card` with: no triple of the hand is touched. -/
def _checkChi (cards : Cards) (card : Card) : List EatCard :=
  let point := card.getPoint
  let isBig := card.isBig
  let next := fun n : Int => Card.makeCard (point + n) isBig
  let count := cards.getCardCount
  let small := Card.makeCard point false
  let large := Card.makeCard point true
  let ok := fun c1 c2 : Int => 0 < c1 ∧ 0 < c2 ∧ c1 < 3 ∧ c2 < 3
  pushIf (ok (count (next 1)) (count (next 2)))
    (chiEat (if point = 1 then .eat123 else .eatShunZi) isBig card (next 1) (next 2)) ++
  pushIf (ok (count (next 1)) (count (next (-1))))
    (chiEat (if point = 2 then .eat123 else .eatShunZi) isBig card (next (-1)) (next 1)) ++
  pushIf (ok (count (next (-1))) (count (next (-2))))
    (chiEat (if point = 3 then .eat123 else .eatShunZi) isBig card (next (-2)) (next (-1))) ++
  pushIf (isBig = true ∧ count small = 2) (chiEat .eatSanta false card small small) ++
  pushIf (isBig = false ∧ count large = 2) (chiEat .eatSanta true card large large) ++
  pushIf (2 ≤ count small + count large ∧ count small < 3 ∧ count large < 3 ∧
      0 < count small ∧ 0 < count large)
    (chiEat .eatSanta isBig card small large) ++
  hongEats ok cards card

def optCards (cards : Cards) (temps : List Card) (num : Int) : Cards :=
  temps.foldl (fun cards temp => cards.optCardCount temp num) cards

end Cards

/-! ## Forced follow-up melds -/

/-- What the inner loop of `_checkBi` carries: the count array, the second
melds before the iterator (their number is `index`), the list `eats2` that is
declared outside the loop, and the third melds found so far. -/
structure BiInner where
  cards : Cards
  kept : List EatCard := []
  eats2 : List EatCard := []
  eatBi : List EatBi := []

def BiInner.next (card : Card) (loop : BiInner) (it : EatCard) : BiInner :=
  let cards := loop.cards.optCards it.cards (-1)
  let curCard := cards.getCardCount card
  -- `eats2` keeps its old value when no copy of `card` is left
  let eats2 := if 0 < curCard then (cards.optCardCount card (-1))._checkChi card else loop.eats2
  let cards := if 0 < curCard then (cards.optCardCount card (-1)).optCardCount card 1 else cards
  let cards := cards.optCards it.cards 1
  if eats2.isEmpty ∧ 0 < curCard then { loop with cards := cards, eats2 := eats2 }
  else if eats2.isEmpty then
    { loop with cards := cards, eats2 := eats2, kept := loop.kept ++ [it] }
  else
    { cards := cards, eats2 := [], kept := loop.kept ++ [it],
      eatBi := loop.eatBi ++ [{ idx := loop.kept.length, cats := eats2 }] }

/-- What the outer loop of `_checkBi` carries; `kept` holds the options before
the iterator, so its length is `idx`. -/
structure BiOuter where
  cards : Cards
  kept : List EatCard := []
  bi : List EatBi := []

/-- The second melds after `iter` and, per second meld, the third ones. -/
def secondMelds (cards : Cards) (card : Card) (cardNum cut : Int) : BiInner :=
  if 0 ≤ cut then
    let eats := cards._checkChi card
    if cardNum = 2 then eats.foldl (BiInner.next card) { cards := cards }
    else { cards := cards, kept := eats }
  else { cards := cards }

def BiOuter.next (card : Card) (cardNum : Int) (loop : BiOuter) (iter : EatCard) : BiOuter :=
  let cards := loop.cards.optCards iter.cards (-1)
  let cut := cards.getCardCount card
  let found := secondMelds cards card cardNum cut
  let eats := found.kept
  let cards := found.cards.optCards iter.cards 1
  if eats.isEmpty ∧ 0 ≤ cut then { loop with cards := cards }
  else if eats.isEmpty then { loop with cards := cards, kept := loop.kept ++ [iter] }
  else
    { cards := cards
      kept := loop.kept ++ [iter]
      bi := loop.bi ++ eats.zipIdx.map fun eat =>
        { idx := loop.kept.length
          cats := eat.1 :: (found.eatBi.filter (·.idx = eat.2)).flatMap (·.cats) } }

namespace HandCards

/-- `_checkBi`: keep the chi options after which every further copy of `card`
can be melded too, and list the ways to do so. -/
def _checkBi (s : HandCards) (card : Card) (eatChi : EatChiCard) (cardNum : Int) :
    HandCards × EatChiCard × Bool :=
  if eatChi.eats.isEmpty then (s, eatChi, false)
  else
    let done := eatChi.eats.foldl (BiOuter.next card cardNum)
      { cards := s.cards.optCardCount card (-1), bi := eatChi.bi }
    ({ s with cards := done.cards.optCardCount card 1 },
      { eats := done.kept, bi := done.bi }, !done.kept.isEmpty)

def checkChi (s : HandCards) (card : Card) (eatChi : EatChiCard) :
    HandCards × EatChiCard × Bool :=
  if !card.isValid then (s, eatChi, false)
  else if s.isDisableEat then (s, eatChi, false)
  else if s.isPass card then (s, eatChi, false)
  else
    let cardNum := s.getCardCount card
    if 3 ≤ cardNum then (s, eatChi, false)
    else if s.getActiveCard ≤ 2 then (s, eatChi, false)
    else
      let eats := s.cards._checkChi card
      if cardNum = 0 then (s, { eats := eats, bi := [] }, !eats.isEmpty)
      else s._checkBi card { eats := eats, bi := [] } cardNum

/-- `checkPao`; `isOut` tells that the card was played from a hand. -/
def checkPao (s : HandCards) (card : Card) (isOut : Bool) : Bool :=
  if !card.isValid then false
  else if s.cards (getIndex card) = 3 then true
  else
    match findMeld card s.eatCards with
    | none => false
    | some (_, eat, _) =>
        if eat.type = .eatWei then true
        else decide (eat.type = .eatPeng ∧ isOut = false)

end HandCards

/-! ## The win search -/

/-- What `__checkHu` writes: the shared count array and `_eatHuCardList`. -/
structure HuSearch where
  cards : Cards
  list : List EatHuCards

namespace HuSearch

def optCardCount (search : HuSearch) (card : Card) (num : Int) : HuSearch :=
  { search with cards := search.cards.optCardCount card num }

def dan (cards : Cards) : List Card :=
  ((List.finRange 20).filter fun i => cards i = 1 ∨ cards i = 3).map cardAt

def dui (cards : Cards) : List Card :=
  ((List.finRange 20).filter fun i => cards i = 2 ∨ cards i = 3).map cardAt

/-- Points of a meld made by the search around the single `temp`. -/
def cardXi (eat : EatCard) (temp : Card) : Int :=
  if eat.type = .eatHong ∨ eat.type = .eat123 then (if temp.isBig then 6 else 3) else 0

/-- The loop over `cceats`: meld `temp` in every way and search on. -/
def eatEach (recurse : HuSearch → Int → List EatCard → HuSearch) (temp : Card) (xi : Int)
    (eats : List EatCard) (search : HuSearch) (eat : EatCard) : HuSearch :=
  let search := (search.optCardCount (eat.card 0) (-1)).optCardCount (eat.card 1) (-1)
  let search := recurse search (xi + cardXi eat temp) (eats ++ [eat])
  (search.optCardCount (eat.card 0) 1).optCardCount (eat.card 1) 1

/-- The loop over `dan`. It returns from `__checkHu` (the flag) at the first
single that can be melded. -/
def danLoop (recurse : HuSearch → Int → List EatCard → HuSearch) (xi : Int)
    (eats : List EatCard) : List Card → HuSearch → HuSearch × Bool
  | [], search => (search, false)
  | temp :: rest, search =>
      let search := search.optCardCount temp (-1)
      let cceats := search.cards.__checkChi temp
      if cceats.isEmpty then danLoop recurse xi eats rest (search.optCardCount temp 1)
      else ((cceats.foldl (eatEach recurse temp xi eats) search).optCardCount temp 1, true)

def duiNext (recurse : HuSearch → Int → List EatCard → HuSearch) (xi : Int)
    (eats : List EatCard) (search : HuSearch) (temp : Card) : HuSearch :=
  let search := search.optCardCount temp (-1)
  let cceats := search.cards.__checkChi temp
  (cceats.foldl (eatEach recurse temp xi eats) search).optCardCount temp 1

def needHuXi : Int := 15

/-- The end of `__checkHu`, reached with no single and at most one pair left. -/
def finish (paoTimes : UInt8) (xi : Int) (eats : List EatCard) (pairs : List Card)
    (search : HuSearch) : HuSearch :=
  if xi < needHuXi then search
  else
    match pairs with
    | [] => { search with list := search.list ++ [{ xi := xi, huCards := eats }] }
    | temp :: _ =>
        if paoTimes = 0 then search
        else
          let eats := eats ++ [{ type := .eatDui, eatCard := temp, big := temp.isBig }]
          { search with list := search.list ++ [{ xi := xi, huCards := eats }] }

/-- `__checkHu`. Every recursive call has three cards fewer, so the recursion
is bounded by `fuel`; callers pass more fuel than there are cards. -/
def __checkHu (paoTimes : UInt8) : Nat → HuSearch → Int → List EatCard → HuSearch
  | 0, search, _, _ => search
  | fuel + 1, search, xi, eats =>
      let pairs := dui search.cards
      let singles := dan search.cards
      let afterDan := danLoop (__checkHu paoTimes fuel) xi eats singles search
      if afterDan.2 then afterDan.1
      else if !singles.isEmpty then afterDan.1
      else if 1 < pairs.length then
        pairs.foldl (duiNext (__checkHu paoTimes fuel) xi eats) afterDan.1
      else finish paoTimes xi eats pairs afterDan.1

end HuSearch

def Cards.total (cards : Cards) : Nat := ∑ i, (cards i).toNat

/-- State of the loop of `_checkHu` that sets the triples aside. -/
structure KanLoop where
  tmpCards : Cards
  xi : Int
  eats : List EatCard := []

def KanLoop.next (loop : KanLoop) (i : Fin 20) : KanLoop :=
  if loop.tmpCards i = 3 then
    let temp := cardAt i
    { tmpCards := Function.update loop.tmpCards i 0
      xi := loop.xi + if 10 ≤ (i : Nat) then 6 else 3
      eats := loop.eats ++ [{ type := .eatKan, eatCard := temp, big := temp.isBig }] }
  else loop

namespace HandCards

def searchHu (s : HandCards) (tmpCards : Cards) (xi : Int) (eats : List EatCard) :
    HandCards × Cards :=
  let done := HuSearch.__checkHu s.paoTimes (tmpCards.total + 1)
    { cards := tmpCards, list := s.eatHuCardList } xi eats
  ({ s with eatHuCardList := done.list }, done.cards)

def _checkHu (s : HandCards) (card : Card) (paohu : Bool) : HandCards × Bool :=
  let s := { s with huCard := card }
  let kan := (List.finRange 20).foldl KanLoop.next { tmpCards := s.cards, xi := s.huXi.toNat }
  let tmpCards := kan.tmpCards
  let afterPeng :=
    if tmpCards.getCardCount card = 2 then
      let eats := kan.eats ++ [{ type := .eatPeng, eatCard := card, big := card.isBig }]
      let done := s.searchHu (tmpCards.setCardCount card 0)
        (kan.xi + if card.isBig then 3 else 1) eats
      (done.1, done.2.setCardCount card 2)
    else (s, tmpCards)
  let done :=
    if !paohu then
      afterPeng.1.searchHu (afterPeng.2.optCardCount card 1) kan.xi kan.eats
    else afterPeng.1.searchHu afterPeng.2 kan.xi kan.eats
  (done.1, !done.1.eatHuCardList.isEmpty)

/-- `_checkPaoHu`: search again as if the card had been taken for a pao, then
put everything the pao changed back, except after the two early returns. -/
def _checkPaoHu (s : HandCards) (card : Card) (fetch : Bool) : HandCards × Bool :=
  if s.checkPao card (!fetch) then
    let pao := s.eatPao card
    if !pao.2 then (pao.1, false)
    else if pao.1.checkPaoFlag then (pao.1, false)
    else
      let done := pao.1._checkHu card true
      ({ done.1 with
        eatCards := s.eatCards
        cards := s.cards
        bigCards := s.bigCards
        smallCards := s.smallCards
        redCards := s.redCards
        paoTimes := s.paoTimes
        huXi := s.huXi
        huXi2 := s.huXi2
        countCards := s.countCards }, done.2)
  else (s, false)

def checkHu (s : HandCards) (card : Card) (self fetch : Bool) : HandCards × Bool :=
  if s.isDisableHu then (s, false)
  else if s.checkPaoFlag then (s, false)
  else if s.isPassHu card then (s, false)
  else
    let s := { s with self := self, eatHuCardList := [] }
    let s := (s._checkPaoHu card fetch).1
    let s := (s._checkHu card false).1
    (s, !s.eatHuCardList.isEmpty)

/-- `checkHu(self)`: does the hand win as it is? -/
def checkHuSelf (s : HandCards) (self : Bool) : HandCards × Bool :=
  if s.isDisableHu then (s, false)
  else if s.checkPaoFlag then (s, false)
  else
    let s := { s with self := self, eatHuCardList := [] }
    s._checkHu .invalid false

def tingAt (acc : HandCards × List Card) (i : Fin 20) : HandCards × List Card :=
  let checked := acc.1.checkHu (cardAt i) true false
  (checked.1, if checked.2 then acc.2 ++ [cardAt i] else acc.2)

def isTing (s : HandCards) (outCard : Card) : HandCards × List Card × Bool :=
  let paoFlag := s.checkPaoFlag
  let s := if paoFlag then s.clearPaoFlag else s
  let s := s.optCardCount outCard (-1)
  let done := (List.finRange 20).foldl tingAt (s, [])
  let s := done.1.optCardCount outCard 1
  (if paoFlag then s.setPaoFlag else s, done.2, !done.2.isEmpty)

end HandCards

end CLibs.Cardlib
