import CLibs.Cardlib.CardBag
import CLibs.General.Table

/-!
# The groups of a hand

`getHandCards`, which puts the cards of a hand into groups for the client, and that the
groups are the hand.
-/

set_option autoImplicit false

namespace CLibs.Cardlib

open General

/-- `MAP_CARDS_t`, from the value of a card to a count. -/
abbrev MapCards := Table Int Int

/-- `iter->second--` for the entry of `key`. -/
def MapCards.dec (cards : MapCards) (key : Int) : MapCards := cards.insert key (cards.get key 0 - 1)

/-- `operator<`. -/
def Card.less (l r : Card) : Bool :=
  if l.isBig && !r.isBig then false
  else if !l.isBig && r.isBig then true
  else decide (l.val < r.val)

def compCards : List Card → List Card → Bool
  | [], _ => true
  | _, [] => false
  | _ :: l1 :: _, _ :: r1 :: _ => decide (l1.val < r1.val)
  | l0 :: _, r0 :: _ => decide (l0.val < r0.val)

/-- `std::sort` on the groups: in which order it leaves them is its own affair. That it
only reorders them is assumed for every comparison, also for one that is no strict weak
ordering, of which the standard says nothing. -/
structure GroupSort where
  sort : (List Card → List Card → Bool) → List (List Card) → List (List Card)
  perm : ∀ comp groups, (sort comp groups).Perm groups

/-- `std::sort` on the cards of a group, in their order. -/
def sortCards (cards : List Card) : List Card :=
  cards.insertionSort fun l r => r.less l = false

/-- The maps of single cards and of pairs, and the groups so far. -/
structure Grouping where
  dan : MapCards
  dui : MapCards
  handCards : List (List Card)

namespace Grouping

/-- The loop over `_cards`: the map of the cards held once or twice, and a group for each
card held more often. -/
def countCard (cards : Cards) (s : MapCards × List (List Card)) (i : Fin 20) :
    MapCards × List (List Card) :=
  let num := cards i
  let temp := cardAt i
  if num = 1 ∨ num = 2 then (s.1.insert temp.val num, s.2)
  else if 0 < num then (s.1, s.2 ++ [List.replicate num.toNat temp])
  else s

/-- The loop over `_tmpCards`. -/
def divide (tmpCards : MapCards) (s : Grouping) (val : Int) : Grouping :=
  let cardNum := tmpCards.get val 0
  if cardNum = 0 then s
  else if cardNum = 1 then { s with dan := s.dan.insert val cardNum }
  else if cardNum = 2 then { s with dui := s.dui.insert val cardNum }
  else s

/-- Three single cards make a group, if those of `key1` and `key2` are there with that
of `val`. -/
def takeThree (s : Grouping) (val key1 key2 : Int) (cards : List Card) : Option Grouping :=
  if 0 < s.dan.get key1 0 ∧ 0 < s.dan.get key2 0 then
    some { s with
      dan := ((s.dan.dec key1).dec key2).dec val
      handCards := s.handCards ++ [cards] }
  else none

def takePair (s : Grouping) (val key : Int) : Option Grouping :=
  if key ∈ s.dui then
    some
      { dan := s.dan.dec val
        dui := s.dui.erase key
        handCards := s.handCards ++ [[.ofVal val, .ofVal key, .ofVal key]] }
  else none

/-- The group of 2, 7 and 10 with the card `temp`. -/
def takeHong (s : Grouping) (temp : Card) : Option Grouping :=
  let ptVal := temp.getPoint
  let cc1 := Card.makeCard 2 temp.isBig
  let cc2 := Card.makeCard 7 temp.isBig
  let cc3 := Card.makeCard 10 temp.isBig
  if ptVal = 2 then s.takeThree temp.val cc2.val cc3.val [temp, cc2, cc3]
  else if ptVal = 7 then s.takeThree temp.val cc1.val cc3.val [cc1, temp, cc3]
  else if ptVal = 10 then s.takeThree temp.val cc1.val cc2.val [cc1, cc2, temp]
  else none

/-- The first loop over `dan`. -/
def joinSingle (s : Grouping) (val : Int) : Grouping :=
  if s.dan.get val 0 = 0 then s
  else
    let temp := Card.ofVal val
    let c1 := val + 1
    let c2 := val + 2
    let c3 := val - 1
    let c4 := val - 2
    (s.takeHong temp
      |>.or (s.takeThree val c1 c2 [temp, .ofVal c1, .ofVal c2])
      |>.or (s.takeThree val c1 c3 [.ofVal c3, temp, .ofVal c1])
      |>.or (s.takeThree val c3 c4 [.ofVal c4, .ofVal c3, temp])
      |>.or (s.takePair val (Card.makeCard temp.getPoint (!temp.isBig)).val)
      |>.getD s)

def addHong (temp : Card) (s : MapCards × List Card) (card1 : Card) : MapCards × List Card :=
  if card1.val ≠ temp.val ∧ 0 < s.1.get card1.val 0 then (s.1.dec card1.val, s.2 ++ [card1]) else s

def addFirst (s : MapCards × List Card) : List Card → MapCards × List Card
  | [] => s
  | card1 :: others =>
      if card1.isValid ∧ 0 < s.1.get card1.val 0 then (s.1.dec card1.val, s.2 ++ [card1])
      else addFirst s others

/-- The second loop over `dan`. -/
def groupSingle (s : Grouping) (val : Int) : Grouping :=
  if s.dan.get val 0 = 0 then s
  else
    let temp := Card.ofVal val
    let ptVal := temp.getPoint
    let isBig := temp.isBig
    let start := (s.dan.dec val, [temp])
    let taken :=
      if ptVal = 2 ∨ ptVal = 7 ∨ ptVal = 10 then
        [Card.makeCard 2 isBig, Card.makeCard 7 isBig, Card.makeCard 10 isBig].foldl (addHong temp) start
      else
        addFirst start [.ofVal (val - 1), .ofVal (val + 1), .ofVal (val - 2), .ofVal (val + 2)]
    { s with
      dan := taken.1
      handCards := s.handCards ++ [if 1 < taken.2.length then sortCards taken.2 else taken.2] }

/-- The loop over `dui`. -/
def groupPair (handCards : List (List Card)) (val : Int) : List (List Card) :=
  handCards ++ [[.ofVal val, .ofVal val]]

def start (cards : Cards) : Grouping :=
  let counted := (List.finRange 20).foldl (countCard cards) (∅, [])
  counted.1.sortedKeys.foldl (divide counted.1) { dan := ∅, dui := ∅, handCards := counted.2 }

def joined (cards : Cards) : Grouping :=
  let s := start cards
  s.dan.sortedKeys.foldl joinSingle s

def grouped (cards : Cards) : Grouping :=
  let s := joined cards
  s.dan.sortedKeys.foldl groupSingle s

def groups (cards : Cards) : List (List Card) :=
  let s := grouped cards
  s.dui.sortedKeys.foldl groupPair s.handCards

end Grouping

def HandCards.getHandCards (std : GroupSort) (s : HandCards) : List (List Card) :=
  std.sort compCards (Grouping.groups s.cards)

/-! ## Cards by their values -/

theorem isCard_iff {val : Int} :
    isCard val = true ↔ (1 ≤ val ∧ val ≤ 10) ∨ (17 ≤ val ∧ val ≤ 26) := by
  unfold isCard
  split_ifs with big small
  · exact ⟨fun _ => .inr big, fun _ => rfl⟩
  · exact ⟨fun _ => .inl small, fun _ => rfl⟩
  · exact ⟨nofun, fun either => (either.elim small big).elim⟩

namespace Card

theorem ofVal_of_isCard {val : Int} (valid : isCard val = true) : ((ofVal val).val : Int) = val := by
  have bounds := isCard_iff.mp valid
  have same : ((val.toNat : Nat) : Int) = val := Int.toNat_of_nonneg (by omega)
  rw [ofVal, dif_pos (by rw [same]; exact valid)]
  exact same

theorem ofVal_of_not_isCard {val : Int} (notCard : isCard val = false) : ofVal val = invalid := by
  unfold ofVal
  by_cases low : 0 ≤ val
  · rw [dif_neg (by rw [Int.toNat_of_nonneg low, notCard]; decide)]
  · have zero : isCard (val.toNat : Int) = false := by
      rw [Int.toNat_of_nonpos (by omega)]
      rfl
    rw [dif_neg (by rw [zero]; decide)]

theorem isValid_ofVal (val : Int) : (ofVal val).isValid = isCard val := by
  cases isThere : isCard val with
  | false => rw [ofVal_of_not_isCard isThere, isValid_invalid]
  | true =>
      have same := ofVal_of_isCard isThere
      have positive : val ≠ 0 := by
        rintro rfl
        cases isThere
      rw [isValid, bne_iff_ne]
      omega

theorem ofVal_val {card : Card} (valid : card.isValid = true) : ofVal card.val = card := by
  obtain ⟨i, rfl⟩ := exists_cardAt valid
  revert i
  decide

theorem isCard_val {card : Card} (valid : card.isValid = true) : isCard card.val = true := by
  rw [← isValid_ofVal, ofVal_val valid, valid]

theorem isValid_of_isCard_val {card : Card} (isThere : isCard card.val = true) :
    card.isValid = true := by
  rw [isValid, bne_iff_ne]
  intro zero
  rw [zero] at isThere
  cases isThere

theorem ofVal_inj {val other : Int} (valid : isCard val = true) (otherValid : isCard other = true) :
    ofVal val = ofVal other ↔ val = other := by
  constructor
  · intro same
    rw [← ofVal_of_isCard valid, same, ofVal_of_isCard otherValid]
  · exact congrArg ofVal

end Card

/-- The number of cards of a value; 0 for a value of no card. -/
def Cards.held (cards : Cards) (val : Int) : Int := cards.getCardCount (.ofVal val)

theorem Cards.isCard_of_held {cards : Cards} {val : Int} (some : cards.held val ≠ 0) :
    isCard val = true := by
  by_contra notCard
  rw [Bool.not_eq_true] at notCard
  exact some (by rw [held, Card.ofVal_of_not_isCard notCard, getCardCount_invalid])

theorem MapCards.get_dec (cards : MapCards) (key other : Int) :
    (cards.dec key).get other 0 = cards.get other 0 - if other = key then 1 else 0 := by
  rw [dec, Table.get_insert]
  split
  · next same => rw [same]
  · rw [Int.sub_zero]

theorem MapCards.mem_dec {cards : MapCards} {key other : Int} :
    other ∈ cards.dec key ↔ other = key ∨ other ∈ cards :=
  AList.mem_insert cards

theorem MapCards.mem_of_pos {cards : MapCards} {key : Int} (there : 0 < cards.get key 0) :
    key ∈ cards := by
  by_contra missing
  rw [Table.get_of_notMem missing] at there
  exact absurd there (by decide)

/-! ## The start -/

namespace Grouping

/-- The group of a card that is held three times or more. -/
def manyOf (cards : Cards) (i : Fin 20) : List Card := List.replicate (cards i).toNat (cardAt i)

theorem val_cardAt_inj {i j : Fin 20} (same : ((cardAt i).val : Int) = (cardAt j).val) : i = j := by
  refine cardAt_injective ?_
  rw [← Card.ofVal_val (cardAt_isValid i), same, Card.ofVal_val (cardAt_isValid j)]

/-- The first loop, after the positions `done`. -/
structure Counted (cards : Cards) (done : List (Fin 20)) (s : MapCards × List (List Card)) : Prop where
  get : ∀ i, s.1.get (cardAt i).val 0 =
    if i ∈ done ∧ (cards i = 1 ∨ cards i = 2) then cards i else 0
  keys : ∀ key, key ∈ s.1 → ∃ i, key = (cardAt i).val
  many : s.2 = (done.filter fun i => 2 < cards i).map (manyOf cards)

theorem counted (cards : Cards) (nonneg : ∀ i, 0 ≤ cards i) (done : List (Fin 20)) :
    Counted cards done (done.foldl (countCard cards) (∅, [])) := by
  induction done using List.reverseRecOn with
  | nil => exact ⟨by simp, by simp, rfl⟩
  | append_singleton done i ih =>
      have low := nonneg i
      rw [List.foldl_append, List.foldl_cons, List.foldl_nil]
      generalize done.foldl (countCard cards) (∅, []) = s at ih ⊢
      unfold countCard
      dsimp only
      by_cases few : cards i = 1 ∨ cards i = 2
      · rw [if_pos few]
        refine ⟨?_, ?_, ?_⟩
        · intro j
          rw [Table.get_insert]
          by_cases same : j = i
          · subst same
            simp [few]
          · rw [if_neg fun equal => same (val_cardAt_inj equal), ih.get]
            simp [same]
        · intro key member
          rcases (AList.mem_insert _).mp member with rfl | old
          · exact ⟨i, rfl⟩
          · exact ih.keys key old
        · rw [ih.many, List.filter_append, List.filter_singleton,
            decide_eq_false (show ¬ 2 < cards i by omega), cond_false, List.append_nil]
      · have get : ∀ j, s.1.get (cardAt j).val 0 =
            if j ∈ done ++ [i] ∧ (cards j = 1 ∨ cards j = 2) then cards j else 0 := by
          intro j
          rw [ih.get]
          by_cases same : j = i
          · subst same
            simp [few]
          · simp [same]
        rw [if_neg few]
        split_ifs with some
        · refine ⟨get, ih.keys, ?_⟩
          rw [ih.many, List.filter_append, List.filter_singleton,
            decide_eq_true (show 2 < cards i by omega), cond_true, List.map_append]
          rfl
        · refine ⟨get, ih.keys, ?_⟩
          rw [ih.many, List.filter_append, List.filter_singleton,
            decide_eq_false (show ¬ 2 < cards i by omega), cond_false, List.append_nil]

theorem held_cardAt (cards : Cards) (i : Fin 20) : cards.held (cardAt i).val = cards i := by
  rw [Cards.held, Card.ofVal_val (cardAt_isValid i), Cards.getCardCount_cardAt]

theorem exists_cardAt_val {val : Int} (valid : isCard val = true) :
    ∃ i, ((cardAt i).val : Int) = val := by
  rw [← Card.isValid_ofVal] at valid
  obtain ⟨i, same⟩ := exists_cardAt valid
  rw [Card.isValid_ofVal] at valid
  exact ⟨i, by rw [← same, Card.ofVal_of_isCard valid]⟩

theorem Counted.get_all {cards : Cards} {s : MapCards × List (List Card)}
    (counted : Counted cards (List.finRange 20) s) (val : Int) :
    s.1.get val 0 = if cards.held val = 1 ∨ cards.held val = 2 then cards.held val else 0 := by
  by_cases valid : isCard val = true
  · obtain ⟨i, rfl⟩ := exists_cardAt_val valid
    rw [counted.get, held_cardAt]
    simp
  · have none : cards.held val = 0 := by
      by_contra some
      exact valid (Cards.isCard_of_held some)
    have missing : val ∉ s.1 := by
      intro member
      obtain ⟨i, rfl⟩ := counted.keys val member
      exact valid (Card.isCard_val (cardAt_isValid i))
    rw [Table.get_of_notMem missing, none]
    rfl

/-- The second loop, after the values `done`. -/
structure Divided (tmpCards : MapCards) (many : List (List Card)) (done : List Int) (s : Grouping) :
    Prop where
  dan : ∀ val, s.dan.lookup val = if val ∈ done ∧ tmpCards.get val 0 = 1 then some 1 else none
  dui : ∀ val, s.dui.lookup val = if val ∈ done ∧ tmpCards.get val 0 = 2 then some 2 else none
  many : s.handCards = many

/-- The entries of one count, when the key `key` is looked at. -/
theorem lookup_divide {tmpCards table after : MapCards} {done : List Int} {key count : Int}
    (before : ∀ val, table.lookup val =
      if val ∈ done ∧ tmpCards.get val 0 = count then some count else none)
    (now : after = if tmpCards.get key 0 = count then table.insert key count else table) (val : Int) :
    after.lookup val =
      if val ∈ done ++ [key] ∧ tmpCards.get val 0 = count then some count else none := by
  rw [now]
  by_cases same : val = key
  · subst same
    by_cases isCount : tmpCards.get val 0 = count
    · rw [if_pos isCount, AList.lookup_insert, if_pos ⟨by simp, isCount⟩]
    · rw [if_neg isCount, before, if_neg fun both => isCount both.2, if_neg fun both => isCount both.2]
  · have kept : (if tmpCards.get key 0 = count then table.insert key count else table).lookup val =
        table.lookup val := by
      split
      · exact AList.lookup_insert_ne same
      · rfl
    rw [kept, before]
    simp [same]

theorem divided (tmpCards : MapCards) (many : List (List Card)) (done : List Int) :
    Divided tmpCards many done
      (done.foldl (divide tmpCards) { dan := ∅, dui := ∅, handCards := many }) := by
  induction done using List.reverseRecOn with
  | nil => exact ⟨by simp, by simp, rfl⟩
  | append_singleton done key ih =>
      rw [List.foldl_append, List.foldl_cons, List.foldl_nil]
      generalize done.foldl (divide tmpCards) _ = s at ih ⊢
      have step : divide tmpCards s key =
          { dan := if tmpCards.get key 0 = 1 then s.dan.insert key 1 else s.dan
            dui := if tmpCards.get key 0 = 2 then s.dui.insert key 2 else s.dui
            handCards := s.handCards } := by
        unfold divide
        dsimp only
        by_cases one : tmpCards.get key 0 = 1
        · simp [one]
        · by_cases two : tmpCards.get key 0 = 2
          · simp [two]
          · simp [one, two]
      rw [step]
      exact ⟨lookup_divide ih.dan rfl, lookup_divide ih.dui rfl, ih.many⟩

/-- The maps of single cards and pairs before any of them is used. -/
structure Started (cards : Cards) (s : Grouping) : Prop where
  dan : ∀ val, s.dan.lookup val = if cards.held val = 1 then some 1 else none
  dui : ∀ val, s.dui.lookup val = if cards.held val = 2 then some 2 else none
  many : s.handCards = ((List.finRange 20).filter fun i => 2 < cards i).map (manyOf cards)

theorem started {cards : Cards} (nonneg : ∀ i, 0 ≤ cards i) : Started cards (start cards) := by
  have first := counted cards nonneg (List.finRange 20)
  unfold start
  generalize (List.finRange 20).foldl (countCard cards) (∅, []) = tmp at first ⊢
  have second := divided tmp.1 tmp.2 tmp.1.sortedKeys
  have entry : ∀ {val count : Int}, count = 1 ∨ count = 2 →
      (val ∈ tmp.1.sortedKeys ∧ tmp.1.get val 0 = count ↔ cards.held val = count) := by
    intro val count few
    have get := first.get_all val
    constructor
    · rintro ⟨-, isCount⟩
      rw [get] at isCount
      split_ifs at isCount <;> omega
    · intro isHeld
      rw [if_pos (isHeld ▸ few), isHeld] at get
      refine ⟨Table.mem_sortedKeys.mpr ?_, get⟩
      by_contra missing
      rw [Table.get_of_notMem missing] at get
      omega
  refine ⟨?_, ?_, second.many.trans first.many⟩
  · intro val
    simp only [second.dan, entry (.inl rfl)]
  · intro val
    simp only [second.dui, entry (.inr rfl)]

end Grouping

end CLibs.Cardlib
