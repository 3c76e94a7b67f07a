import Mathlib.Algebra.BigOperators.Fin
import Mathlib.Algebra.BigOperators.Group.Finset.Basic
import Mathlib.Data.Multiset.Count
import Mathlib.Tactic

/-!
# Character cards

The `Card` class of the card library. Small cards 1-10 are the values
0x01-0x0A, big cards 1-10 the values 0x11-0x1A, and 0 is the invalid card that
every constructor falls back to.
-/

set_option autoImplicit false

namespace CLibs.Cardlib

def isCard (val : Int) : Bool :=
  if 0x11 ≤ val ∧ val ≤ 0x1A then true
  else if 0x01 ≤ val ∧ val ≤ 0x0A then true
  else false

/-- A card value that passed `Card(int val)`: no other value can be stored. -/
structure Card where
  val : Nat
  admissible : val = 0 ∨ isCard val = true
deriving DecidableEq

namespace Card

def invalid : Card := ⟨0, .inl rfl⟩

instance : Inhabited Card := ⟨invalid⟩

/-- `Card(int val)`: anything that is not a card becomes the invalid card. -/
def ofVal (val : Int) : Card :=
  if valid : isCard val.toNat = true then ⟨val.toNat, .inr valid⟩ else invalid

def isValid (card : Card) : Bool := card.val != 0

def getPoint (card : Card) : Int :=
  if !card.isValid then 0 else ((card.val &&& 0x0F : Nat) : Int)

def isBig (card : Card) : Bool := decide (card.val >>> 4 > 0)

def makeCard (point : Int) (big : Bool) : Card :=
  ofVal (if big then point + (1 <<< 4 : Nat) else point)

end Card

/-- `HandCards::__isHong`: the red points. -/
def isHong (card : Card) : Bool :=
  card.getPoint == 2 || card.getPoint == 7 || card.getPoint == 10

/-- `HandCards::_getIndex`. Every modelled caller has checked `IsValid` first,
so the position is one of the twenty entries of `_cards`. -/
def getIndex (card : Card) : Fin 20 :=
  Fin.ofNat 20 ((card.getPoint - 1).toNat + if card.isBig then 10 else 0)

/-- `Card::makeCard(i + 1 - (i >= 10 ? 10 : 0), i >= 10)`, the card of a
position of `_cards`. -/
def cardAt (i : Fin 20) : Card :=
  Card.makeCard ((i : Int) + 1 - if 10 ≤ (i : Nat) then 10 else 0) (decide (10 ≤ (i : Nat)))

@[simp] theorem getIndex_cardAt (i : Fin 20) : getIndex (cardAt i) = i := by
  revert i
  decide

@[simp] theorem cardAt_isValid (i : Fin 20) : (cardAt i).isValid = true := by
  revert i
  decide

theorem cardAt_injective : Function.Injective cardAt := by
  intro left right same
  rw [← getIndex_cardAt left, same, getIndex_cardAt]

namespace Card

@[simp] theorem isValid_invalid : invalid.isValid = false := rfl

theorem val_bounds {card : Card} (valid : card.isValid = true) :
    (1 ≤ card.val ∧ card.val ≤ 10) ∨ (17 ≤ card.val ∧ card.val ≤ 26) := by
  rcases card with ⟨val, rfl | admitted⟩
  · simp [isValid] at valid
  · simp only [isCard] at admitted
    split at admitted
    · dsimp only
      omega
    · split at admitted
      · dsimp only
        omega
      · cases admitted

end Card

/-- The twenty positions and the valid cards are the same thing. -/
theorem cardAt_getIndex {card : Card} (valid : card.isValid = true) :
    cardAt (getIndex card) = card := by
  have everyCard : ∀ (val : Fin 27) (admissible : (val : Nat) = 0 ∨ isCard (val : Nat) = true),
      (⟨val, admissible⟩ : Card).isValid = true →
        cardAt (getIndex ⟨val, admissible⟩) = ⟨val, admissible⟩ := by
    decide
  have bounds := Card.val_bounds valid
  have small : card.val < 27 := by omega
  exact everyCard ⟨card.val, small⟩ card.admissible valid

theorem exists_cardAt {card : Card} (valid : card.isValid = true) : ∃ i, card = cardAt i :=
  ⟨getIndex card, (cardAt_getIndex valid).symm⟩

theorem getIndex_inj {left right : Card} (leftValid : left.isValid = true)
    (rightValid : right.isValid = true) :
    getIndex left = getIndex right ↔ left = right := by
  constructor
  · intro same
    rw [← cardAt_getIndex leftValid, same, cardAt_getIndex rightValid]
  · exact congrArg getIndex

namespace Card

theorem getPoint_bounds {card : Card} (valid : card.isValid = true) :
    1 ≤ card.getPoint ∧ card.getPoint ≤ 10 := by
  obtain ⟨i, rfl⟩ := exists_cardAt valid
  revert i
  decide

theorem makeCard_getPoint_isBig {card : Card} (valid : card.isValid = true) :
    makeCard card.getPoint card.isBig = card := by
  obtain ⟨i, rfl⟩ := exists_cardAt valid
  revert i
  decide

/-- Stepping off either end of a suit gives the invalid card. The bounds leave
out the points from which `makeCard` would reach the other suit. -/
theorem makeCard_isValid_iff {point : Int} (low : -5 ≤ point) (high : point ≤ 16) (big : Bool) :
    (makeCard point big).isValid = true ↔ 1 ≤ point ∧ point ≤ 10 := by
  interval_cases point <;> cases big <;> decide

theorem getPoint_makeCard {point : Int} (low : 1 ≤ point) (high : point ≤ 10) (big : Bool) :
    (makeCard point big).getPoint = point := by
  interval_cases point <;> cases big <;> rfl

theorem isBig_makeCard {point : Int} (low : 1 ≤ point) (high : point ≤ 10) (big : Bool) :
    (makeCard point big).isBig = big := by
  interval_cases point <;> cases big <;> rfl

theorem makeCard_inj {left right : Int} {leftBig rightBig : Bool}
    (leftLow : 1 ≤ left) (leftHigh : left ≤ 10) (rightLow : 1 ≤ right) (rightHigh : right ≤ 10) :
    makeCard left leftBig = makeCard right rightBig ↔ left = right ∧ leftBig = rightBig := by
  constructor
  · intro same
    have points := congrArg getPoint same
    have sizes := congrArg isBig same
    rw [getPoint_makeCard leftLow leftHigh, getPoint_makeCard rightLow rightHigh] at points
    rw [isBig_makeCard leftLow leftHigh, isBig_makeCard rightLow rightHigh] at sizes
    exact ⟨points, sizes⟩
  · rintro ⟨rfl, rfl⟩
    rfl

end Card

end CLibs.Cardlib
