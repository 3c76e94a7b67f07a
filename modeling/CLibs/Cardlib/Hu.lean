import CLibs.Cardlib.Checks

/-!
# Settling a win

`_Hu` and the opening win `_qiShouHu`. The results that the source returns
through references are the fields of `HuReport`; an early return leaves the
later ones as the caller had them. The parameters `cardNum` and `tingHu` of
`_Hu` are never read.
-/

set_option autoImplicit false
set_option linter.style.nameCheck false

namespace CLibs.Cardlib

/-- The win flags. `HU_PINGHU` is no flag at all. -/
def huPingHu : UInt32 := 0

def huZiMo : UInt32 := (1 : UInt32) <<< 1

def huHongHu : UInt32 := (1 : UInt32) <<< 2

def huJiaHong : UInt32 := (1 : UInt32) <<< 3

def huZhenDian : UInt32 := (1 : UInt32) <<< 4

def huWuHu : UInt32 := (1 : UInt32) <<< 5

def huDuiDui : UInt32 := (1 : UInt32) <<< 6

structure HuReport where
  huqishouhu : Bool := false
  eatCards : List EatCard := []
  huFlags : UInt32 := 0
  huXi : UInt32 := 0
  rate : UInt32 := 0
  parm : List (Int × Int) := []

/-- Flags and rate for the number of red cards. -/
def redRate (redCards : UInt8) : UInt32 × UInt32 :=
  if 10 ≤ redCards ∧ redCards < 13 then (huHongHu, 2)
  else if 13 ≤ redCards then (huJiaHong, 4)
  else if redCards = 1 then (huZhenDian, 3)
  else if redCards = 0 then (huWuHu, 4)
  else (0, 0)

def isDuizi (eats : List EatCard) : Bool :=
  eats.all fun eat => decide (eat.type = .eatWei ∨ eat.type = .eatKan ∨ eat.type = .eatWei2 ∨
    eat.type = .eatPeng ∨ eat.type = .eatPao ∨ eat.type = .eatTi ∨ eat.type = .eatQishouTi ∨
    eat.type = .eatDui)

def rated (out : HuReport) (self : Bool) (redCards : UInt8) (eats : List EatCard) : HuReport :=
  let red := redRate redCards
  let rate := red.2 + if isDuizi eats then 4 else 0
  { out with
    huFlags := out.huFlags ||| red.1 ||| (if isDuizi eats then huDuiDui else 0) |||
      if self then huZiMo else 0
    rate := if rate ≤ 1 then rate + 1 else rate }

/-- The points the last loop of `_Hu` gives a meld. -/
def settledXi (eat : EatCard) : Int :=
  match eat.type with
  | .eat123 | .eatHong => if eat.big then 6 else 3
  | .eatWei | .eatWei2 | .eatKan => if eat.big then 6 else 3
  | .eatPao => if eat.big then 9 else 6
  | .eatTi | .eatQishouTi => if eat.big then 12 else 9
  | .eatPeng => if eat.big then 3 else 1
  | .eatNone | .eatShunZi | .eatSanta | .eatDui | .eatDan => 0

/-- One pass of the loop of `__chooseBestHu` over `maxXi`, `maxIndex`, `index`. -/
def chooseNext (acc : Int × Nat × Nat) (entry : EatHuCards) : Int × Nat × Nat :=
  if acc.1 < entry.xi then (entry.xi, acc.2.2, acc.2.2 + 1) else (acc.1, acc.2.1, acc.2.2 + 1)

/-- The loop of `_Hu` that takes the meld with the winning card out of the plan
and turns it around so that the winning card is its incoming card. -/
def takeHuCard (huCard : Card) : List EatCard → Option (EatCard × List EatCard)
  | [] => none
  | it :: rest =>
      if it.eatCard = huCard ∧ it.type ≠ .eatKan then some (it, rest)
      else if it.cards ≠ [] ∧ it.card 0 = huCard then
        some ({ it with eatCard := huCard, cards := it.cards.set 0 it.eatCard }, rest)
      else if it.cards ≠ [] ∧ it.card 1 = huCard then
        some ({ it with eatCard := huCard, cards := it.cards.set 1 it.eatCard }, rest)
      else (takeHuCard huCard rest).map fun taken => (taken.1, it :: taken.2)

namespace HandCards

/-! ## The opening win -/

def _isQishouHu (s : HandCards) (self : Bool) : HandCards × Bool :=
  let kan := ((List.finRange 20).filter fun i => s.cards i = 3).length
  let ti := (s.eatCards.filter fun eat => eat.type = .eatQishouTi).length
  if 3 ≤ ti ∨ 5 ≤ kan ∨ (ti = 1 ∧ kan = 4) ∨ (ti = 2 ∧ kan = 3) then ({ s with self := self }, true)
  else (s, false)

/-- The triples and quadruples of `_qiShouHu`, with the points so far. -/
def qiShouKan (acc : HandCards × UInt32) (i : Fin 20) : HandCards × UInt32 :=
  let temp := cardAt i
  let s := acc.1
  if s.cards i = 3 then
    ({ s with
      eatHuCards := s.eatHuCards ++ [{ type := .eatKan, eatCard := temp, big := temp.isBig }]
      cards := Function.update s.cards i 0 }, acc.2 + if temp.isBig then 6 else 3)
  else if s.cards i = 4 then
    ({ s with
      eatHuCards := s.eatHuCards ++ [{ type := .eatTi, eatCard := temp, big := temp.isBig }]
      cards := Function.update s.cards i 0 }, acc.2 + if temp.isBig then 12 else 9)
  else acc

/-- The body of the `while` loop of `_qiShouHu` for one 2-7-10 or 1-2-3. -/
def qiShouMeld (c1 c2 c3 : Card) (acc : HandCards × UInt32) : HandCards × UInt32 :=
  let s := ((acc.1.optCardCount c1 (-1)).optCardCount c2 (-1)).optCardCount c3 (-1)
  let eat : EatCard :=
    { type := if c1.getPoint = 1 then .eat123 else .eatHong, big := c1.isBig, eatCard := c1,
      cards := [c2, c3] }
  ({ s with eatHuCards := s.eatHuCards ++ [eat] }, acc.2 + if c1.isBig then 6 else 3)

/-- The `while` loop: the three counts go down together, so it runs as often as
the smallest of them says. -/
def qiShouMelds (acc : HandCards × UInt32) (triple : Card × Card × Card) : HandCards × UInt32 :=
  let n1 := acc.1.getCardCount triple.1
  let n2 := acc.1.getCardCount triple.2.1
  let n3 := acc.1.getCardCount triple.2.2
  (qiShouMeld triple.1 triple.2.1 triple.2.2)^[(min n1 (min n2 n3)).toNat] acc

def qiShouTriples : List (Card × Card × Card) :=
  [(.ofVal 0x02, .ofVal 0x07, .ofVal 0x0A), (.ofVal 0x01, .ofVal 0x02, .ofVal 0x03),
    (.ofVal 0x12, .ofVal 0x17, .ofVal 0x1A), (.ofVal 0x11, .ofVal 0x12, .ofVal 0x13)]

/-- Pairs and, four at a time, what is left. `big` of these two melds is never
written by the source. -/
def qiShouRest (cards : Cards) (acc : List EatCard × List Card) (i : Fin 20) :
    List EatCard × List Card :=
  let temp := cardAt i
  if cards i ≤ 0 then acc
  else if cards i = 2 then (acc.1 ++ [{ type := .eatDui, eatCard := temp }], acc.2)
  else
    let dan := acc.2 ++ [temp]
    if 4 ≤ dan.length then (acc.1 ++ [{ type := .eatDan, cards := dan }], []) else (acc.1, dan)

def _qiShouHu (s : HandCards) (out : HuReport) : HandCards × HuReport :=
  let kans := (List.finRange 20).foldl qiShouKan ({ s with eatHuCards := [] }, 0)
  let table := kans.1.eatCards.foldl
    (fun huXi eat => huXi + if eat.eatCard.isBig then 12 else 9) kans.2
  let melds := qiShouTriples.foldl qiShouMelds (kans.1, table)
  let rest := (List.finRange 20).foldl (qiShouRest melds.1.cards) (melds.1.eatHuCards, [])
  let eats := rest.1 ++ if rest.2.isEmpty then [] else [{ type := .eatDan, cards := rest.2 }]
  let out := { out with huFlags := huPingHu, huXi := melds.2, rate := 0, parm := [] }
  ({ melds.1 with eatHuCards := eats }, rated out s.self s.redCards eats)

/-! ## The ordinary win -/

/-- `__chooseBestHu`: the first plan with the most points. -/
def __chooseBestHu (s : HandCards) : HandCards :=
  let maxIndex := (s.eatHuCardList.foldl chooseNext (0, 0, 0)).2.1
  { s with eatHuCards := (s.eatHuCardList.getD maxIndex {}).huCards }

def huEat (s : HandCards) : HandCards × EatCard :=
  if s.huCard.isValid then
    match takeHuCard s.huCard s.eatHuCards with
    | some (eat, rest) => ({ s with eatHuCards := rest }, eat)
    | none =>
        let pao := s.eatPao s.huCard
        if pao.2 then
          ({ pao.1 with huCard := .invalid, eatCards := pao.1.eatCards.dropLast },
            pao.1.eatCards.getLastD {})
        else (pao.1, {})
  else if s.eatCards.isEmpty then (s, {})
  else ({ s with eatCards := s.eatCards.dropLast }, s.eatCards.getLastD {})

def _Hu (s : HandCards) (out : HuReport) (qishouhu : Bool) : HandCards × HuReport × Bool :=
  let out := { out with huFlags := huPingHu, eatCards := [] }
  let opening := s._isQishouHu s.self
  if qishouhu ∧ opening.2 then
    let done := opening.1._qiShouHu out
    (done.1, { done.2 with huqishouhu := true }, true)
  else
    let taken := s.__chooseBestHu.huEat
    let s := taken.1
    let last := if taken.2.type ≠ .eatNone then [taken.2] else []
    let eatCards := s.eatCards ++ s.eatHuCards ++ last
    let s := { s with eatHuCards := s.eatHuCards ++ last }
    let xi := (eatCards.map settledXi).sum
    let out := { out with eatCards := eatCards }
    if xi < HuSearch.needHuXi then (s, out, false)
    else
      let s := if s.huCard.isValid then s.countIn s.huCard else s
      let out := { out with huXi := UInt32.ofInt xi, rate := 0, parm := [] }
      (s, rated out s.self s.redCards eatCards, true)

end HandCards

end CLibs.Cardlib
