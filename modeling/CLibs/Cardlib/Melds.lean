import CLibs.Cardlib.CardBag

/-!
# The melds of the rules

The three-card combinations as the rules name them, the cards and points of a
meld record, and what a record must look like to stand for a combination.
-/

set_option autoImplicit false

namespace CLibs.Cardlib

/-- Three consecutive points of one size, 2-7-10 of one size, or a santa: three
cards of one point in both sizes, two of them of size `double`. -/
inductive Combo where
  | run (big : Bool) (low : Fin 8)
  | hong (big : Bool)
  | santa (double : Bool) (point : Fin 10)
deriving DecidableEq, Fintype

namespace Combo

def cards : Combo → List Card
  | run big low =>
      [.makeCard ((low : Int) + 1) big, .makeCard ((low : Int) + 2) big,
        .makeCard ((low : Int) + 3) big]
  | hong big => [.makeCard 2 big, .makeCard 7 big, .makeCard 10 big]
  | santa double point =>
      [.makeCard ((point : Int) + 1) double, .makeCard ((point : Int) + 1) double,
        .makeCard ((point : Int) + 1) (!double)]

def bag (combo : Combo) : Multiset Card := combo.cards

def type : Combo → EatType
  | run _ low => if low = 0 then .eat123 else .eatShunZi
  | hong _ => .eatHong
  | santa _ _ => .eatSanta

def points : Combo → Nat
  | run big low => if low = 0 then (if big then 6 else 3) else 0
  | hong big => if big then 6 else 3
  | santa _ _ => 0

@[simp] theorem card_bag (combo : Combo) : combo.bag.card = 3 := by
  cases combo <;> rfl

theorem isValid_of_mem_bag {combo : Combo} {card : Card} (member : card ∈ combo.bag) :
    card.isValid = true := by
  have everyCombo : ∀ combo : Combo, ∀ card ∈ combo.cards, card.isValid = true := by
    decide
  exact everyCombo combo card (Multiset.mem_coe.mp member)

end Combo

namespace EatCard

def bag (eat : EatCard) : Multiset Card :=
  match eat.type with
  | .eatPeng | .eatWei | .eatWei2 | .eatKan => Multiset.replicate 3 eat.eatCard
  | .eatPao | .eatTi | .eatQishouTi => Multiset.replicate 4 eat.eatCard
  | .eatDui => Multiset.replicate 2 eat.eatCard
  | .eatShunZi | .eatHong | .eatSanta | .eat123 => eat.eatCard ::ₘ (eat.cards : Multiset Card)
  | .eatDan => eat.cards
  | .eatNone => 0

def points (eat : EatCard) : Nat :=
  match eat.type with
  | .eat123 | .eatHong | .eatWei | .eatWei2 | .eatKan => if eat.big then 6 else 3
  | .eatPao => if eat.big then 9 else 6
  | .eatTi | .eatQishouTi => if eat.big then 12 else 9
  | .eatPeng => if eat.big then 3 else 1
  | .eatShunZi | .eatSanta | .eatDui | .eatDan | .eatNone => 0

/-- The points of a meld that the other players see. -/
def points2 (eat : EatCard) : Nat := if eat.type = .eatWei then 0 else eat.points

/-- Pao and ti melds, the ones `_paoTimes` counts. -/
def isFour (eat : EatCard) : Bool :=
  decide (eat.type = .eatPao ∨ eat.type = .eatTi ∨ eat.type = .eatQishouTi)

/-- The record stands for the combination. -/
structure Realises (eat : EatCard) (combo : Combo) : Prop where
  type : eat.type = combo.type
  cards : eat.eatCard ::ₘ (eat.cards : Multiset Card) = combo.bag
  points : eat.points = combo.points

theorem Realises.bag {eat : EatCard} {combo : Combo} (realises : eat.Realises combo) :
    eat.bag = combo.bag := by
  have type := realises.type
  have cards := realises.cards
  cases combo with
  | run big low =>
      simp only [Combo.type] at type
      split at type <;> simpa only [EatCard.bag, type] using cards
  | hong big => simpa only [EatCard.bag, type, Combo.type] using cards
  | santa double point => simpa only [EatCard.bag, type, Combo.type] using cards

theorem Realises.isValid {eat : EatCard} {combo : Combo} (realises : eat.Realises combo) :
    eat.eatCard.isValid = true := by
  have member : eat.eatCard ∈ combo.bag := by
    rw [← realises.cards]
    exact Multiset.mem_cons_self _ _
  exact Combo.isValid_of_mem_bag member

theorem Realises.not_isFour {eat : EatCard} {combo : Combo} (realises : eat.Realises combo) :
    eat.isFour = false := by
  have everyCombo : ∀ combo : Combo, EatCard.isFour { type := combo.type } = false := by
    decide
  rw [isFour, realises.type]
  exact everyCombo combo

end EatCard

def meldsBag (eats : List EatCard) : Multiset Card := (eats.map EatCard.bag).sum

def meldsPoints (eats : List EatCard) : Nat := (eats.map EatCard.points).sum

@[simp] theorem meldsBag_nil : meldsBag [] = 0 := rfl

@[simp] theorem meldsBag_cons (eat : EatCard) (eats : List EatCard) :
    meldsBag (eat :: eats) = eat.bag + meldsBag eats := by
  simp [meldsBag]

@[simp] theorem meldsBag_append (left right : List EatCard) :
    meldsBag (left ++ right) = meldsBag left + meldsBag right := by
  simp [meldsBag]

theorem mem_meldsBag {eats : List EatCard} {card : Card} :
    card ∈ meldsBag eats ↔ ∃ eat ∈ eats, card ∈ eat.bag := by
  induction eats with
  | nil => simp
  | cons eat rest ih => simp [ih]

@[simp] theorem meldsPoints_nil : meldsPoints [] = 0 := rfl

@[simp] theorem meldsPoints_cons (eat : EatCard) (eats : List EatCard) :
    meldsPoints (eat :: eats) = eat.points + meldsPoints eats := by
  simp [meldsPoints]

@[simp] theorem meldsPoints_append (left right : List EatCard) :
    meldsPoints (left ++ right) = meldsPoints left + meldsPoints right := by
  simp [meldsPoints]

end CLibs.Cardlib
