import CLibs.Cardlib.Hu
import CLibs.Cardlib.Ledger
import Mathlib.Order.Bounds.Basic

/-!
# The opening win

`_qiShouHu` cuts the hand into triples, quadruples, 2-7-10 and 1-2-3 sets, pairs
and single cards. It takes the 2-7-10 sets first, although the 1-2-3 sets need
the same 2s; the number of sets is the greatest possible all the same.
-/

set_option autoImplicit false
set_option linter.style.nameCheck false

namespace CLibs.Cardlib

/-! ## Disjoint scoring sets -/

/-- Disjoint 1-2-3 and 2-7-10 sets of one size within a bag of cards. -/
structure DisjointSets (big : Bool) (bag : Multiset Card) (sets : List Combo) : Prop where
  scoring : ∀ combo ∈ sets, combo = .run big 0 ∨ combo = .hong big
  within : (sets.map Combo.bag).sum ≤ bag

/-- The most sets that the 2s and the other cards of both kinds allow. -/
def mostSets (big : Bool) (bag : Multiset Card) : Nat :=
  min (bag.count (.makeCard 2 big))
    (min (bag.count (.makeCard 7 big)) (bag.count (.makeCard 10 big)) +
      min (bag.count (.makeCard 1 big)) (bag.count (.makeCard 3 big)))

private theorem count_hong_bag (big : Bool) :
    (Combo.hong big).bag.count (.makeCard 1 big) = 0 ∧
    (Combo.hong big).bag.count (.makeCard 2 big) = 1 ∧
    (Combo.hong big).bag.count (.makeCard 3 big) = 0 ∧
    (Combo.hong big).bag.count (.makeCard 7 big) = 1 ∧
    (Combo.hong big).bag.count (.makeCard 10 big) = 1 := by
  cases big <;> decide

private theorem count_run_bag (big : Bool) :
    (Combo.run big 0).bag.count (.makeCard 1 big) = 1 ∧
    (Combo.run big 0).bag.count (.makeCard 2 big) = 1 ∧
    (Combo.run big 0).bag.count (.makeCard 3 big) = 1 ∧
    (Combo.run big 0).bag.count (.makeCard 7 big) = 0 ∧
    (Combo.run big 0).bag.count (.makeCard 10 big) = 0 := by
  cases big <;> decide

theorem DisjointSets.length_le {big : Bool} {bag : Multiset Card} {sets : List Combo}
    (disjoint : DisjointSets big bag sets) : sets.length ≤ mostSets big bag := by
  have cards : ∃ hongs runs, sets.length = hongs + runs ∧
      (sets.map Combo.bag).sum = hongs • (Combo.hong big).bag + runs • (Combo.run big 0).bag := by
    have scoring := disjoint.scoring
    clear disjoint
    induction sets with
    | nil => exact ⟨0, 0, rfl, by simp⟩
    | cons combo rest ih =>
        obtain ⟨hongs, runs, length, sum⟩ :=
          ih fun other member => scoring other (List.mem_cons_of_mem _ member)
        rw [List.map_cons, List.sum_cons, sum, List.length_cons, length]
        rcases scoring combo List.mem_cons_self with rfl | rfl
        · exact ⟨hongs, runs + 1, by omega, by rw [succ_nsmul]; abel⟩
        · exact ⟨hongs + 1, runs, by omega, by rw [succ_nsmul]; abel⟩
  obtain ⟨hongs, runs, length, sum⟩ := cards
  obtain ⟨hong1, hong2, hong3, hong7, hong10⟩ := count_hong_bag big
  obtain ⟨run1, run2, run3, run7, run10⟩ := count_run_bag big
  have within : ∀ card, hongs * (Combo.hong big).bag.count card +
      runs * (Combo.run big 0).bag.count card ≤ bag.count card := by
    intro card
    have count := Multiset.count_le_of_le card disjoint.within
    rwa [sum, Multiset.count_add, Multiset.count_nsmul, Multiset.count_nsmul] at count
  have ones := within (.makeCard 1 big)
  have twos := within (.makeCard 2 big)
  have threes := within (.makeCard 3 big)
  have sevens := within (.makeCard 7 big)
  have tens := within (.makeCard 10 big)
  rw [hong1, run1] at ones
  rw [hong2, run2] at twos
  rw [hong3, run3] at threes
  rw [hong7, run7] at sevens
  rw [hong10, run10] at tens
  unfold mostSets
  omega

theorem Cards.bag_take {cards : Cards} (nonneg : cards.Nonneg) {taken : List Card}
    (held : (taken : Multiset Card) ≤ cards.bag) :
    let left := taken.foldl (fun cards card => cards.optCardCount card (-1)) cards
    cards.bag = (taken : Multiset Card) + left.bag ∧ left.Nonneg := by
  induction taken generalizing cards with
  | nil => exact ⟨by simp, nonneg⟩
  | cons card taken ih =>
      have member : card ∈ cards.bag := Multiset.mem_of_le held (by simp)
      have split := bag_eq_cons (mem_bag.mp member)
      rw [split, ← Multiset.cons_coe, Multiset.cons_le_cons_iff] at held
      obtain ⟨rest, restNonneg⟩ := ih (nonneg.optCardCount_neg (mem_bag.mp member)) held
      refine ⟨?_, restNonneg⟩
      rw [split, List.foldl_cons, rest, ← Multiset.cons_coe, Multiset.cons_add]

theorem Cards.UpTo.of_bag_le {cards left : Cards} {bound : Int}
    (range : cards.UpTo bound) (nonneg : left.Nonneg) (within : left.bag ≤ cards.bag) :
    left.UpTo bound := by
  intro card
  have fewer := Multiset.count_le_of_le card within
  have upper := range card
  rw [Cards.count_bag, Cards.count_bag] at fewer
  have lower := nonneg card
  omega

/-! ## The melds of an opening win -/

namespace EatCard

/-- The points that the opening win counts for a meld of the hand or the table. -/
def openingXi (eat : EatCard) : Nat :=
  match eat.type with
  | .eatTi | .eatQishouTi => if eat.eatCard.isBig then 12 else 9
  | .eatKan | .eat123 | .eatHong => if eat.eatCard.isBig then 6 else 3
  | .eatNone | .eatShunZi | .eatSanta | .eatPeng | .eatWei | .eatWei2 | .eatPao | .eatDui
  | .eatDan => 0

def isSet (big : Bool) (eat : EatCard) : Bool :=
  decide ((eat.type = .eat123 ∨ eat.type = .eatHong) ∧ eat.eatCard.isBig = big)

/-- Pairs and batches of at most four single cards. -/
inductive Loose (eat : EatCard) : Prop where
  | dui (type : eat.type = .eatDui) (valid : eat.eatCard.isValid = true)
  | dan (type : eat.type = .eatDan) (some : eat.cards ≠ []) (few : eat.cards.length ≤ 4)

/-- The melds into which an opening win cuts the hand. -/
inductive Opening (eat : EatCard) : Prop where
  | same (type : eat.type = .eatKan ∨ eat.type = .eatTi) (valid : eat.eatCard.isValid = true)
  | set (big : Bool) (combo : Combo) (scoring : combo = .run big 0 ∨ combo = .hong big)
      (realises : eat.Realises combo)
  | loose (loose : eat.Loose)

theorem Loose.openingXi {eat : EatCard} (loose : eat.Loose) : eat.openingXi = 0 := by
  cases loose with
  | dui type => simp [EatCard.openingXi, type]
  | dan type => simp [EatCard.openingXi, type]

theorem Loose.not_isSet {eat : EatCard} (loose : eat.Loose) (big : Bool) :
    eat.isSet big = false := by
  cases loose with
  | dui type => simp [isSet, type]
  | dan type => simp [isSet, type]

end EatCard

def openingPoints (eats : List EatCard) : Nat := (eats.map EatCard.openingXi).sum

@[simp] theorem openingPoints_append (left right : List EatCard) :
    openingPoints (left ++ right) = openingPoints left + openingPoints right := by
  simp [openingPoints]

theorem openingPoints_singleton (eat : EatCard) : openingPoints [eat] = eat.openingXi := by
  simp [openingPoints]

/-- How many 1-2-3 and 2-7-10 melds of the size `big` there are. -/
def setCount (big : Bool) (eats : List EatCard) : Nat := eats.countP (EatCard.isSet big)

namespace HandCards

/-- The cards that are in neither a triple nor a quadruple. -/
def setAside (cards : Cards) : Cards := fun i => if cards i = 3 ∨ cards i = 4 then 0 else cards i

/-- A state on the way: the cards are in the melds or still in the hand, and
`base` and the melds make up the points. -/
structure Opened (s : HandCards) (base : UInt32) (acc : HandCards × UInt32) : Prop where
  eatCards : acc.1.eatCards = s.eatCards
  nonneg : acc.1.cards.Nonneg
  bag : s.cards.bag = meldsBag acc.1.eatHuCards + acc.1.cards.bag
  huXi : acc.2 = base + UInt32.ofNat (openingPoints acc.1.eatHuCards)
  melds : ∀ eat ∈ acc.1.eatHuCards, eat.Opening

theorem Opened.lay {s : HandCards} {base : UInt32} {acc : HandCards × UInt32}
    (opened : s.Opened base acc) {eat : EatCard} (opening : eat.Opening) {left : Cards}
    (nonneg : left.Nonneg) (split : acc.1.cards.bag = eat.bag + left.bag) {xi : UInt32}
    (points : xi = UInt32.ofNat eat.openingXi) :
    s.Opened base ({ acc.1 with eatHuCards := acc.1.eatHuCards ++ [eat], cards := left },
      acc.2 + xi) := by
  refine ⟨opened.eatCards, nonneg, ?_, ?_, ?_⟩
  · rw [opened.bag, split, meldsBag_append, meldsBag_cons, meldsBag_nil, add_zero, add_assoc]
  · rw [opened.huXi, points, openingPoints_append, openingPoints_singleton, UInt32.ofNat_add,
      UInt32.add_assoc]
  · intro other member
    rcases List.mem_append.mp member with old | new
    · exact opened.melds other old
    · rw [List.mem_singleton.mp new]
      exact opening

/-! ## Triples and quadruples -/

theorem bag_update_zero {cards : Cards} (nonneg : cards.Nonneg) (i : Fin 20) :
    Cards.Nonneg (Function.update cards i 0) ∧
      cards.bag = Multiset.replicate (cards i).toNat (cardAt i) +
        Cards.bag (Function.update cards i 0) := by
  have plain := (Cards.nonneg_iff _).mp nonneg
  have zeroed : Cards.Nonneg (Function.update cards i 0) := by
    refine (Cards.nonneg_iff _).mpr fun j => ?_
    by_cases same : j = i
    · subst same
      simp
    · rw [Function.update_of_ne same]
      exact plain j
  refine ⟨zeroed, ?_⟩
  simp only [Cards.bag]
  rw [← Finset.add_sum_erase _ _ (Finset.mem_univ i), ← Finset.add_sum_erase (a := i) _
    (fun j => Multiset.replicate (Function.update cards i 0 j).toNat (cardAt j))
    (Finset.mem_univ i)]
  simp only [Function.update_self, Int.toNat_zero, Multiset.replicate_zero, zero_add]
  congr 1
  refine Finset.sum_congr rfl fun j member => ?_
  rw [Function.update_of_ne (Finset.ne_of_mem_erase member)]

theorem Opened.qiShouKan {s : HandCards} {base : UInt32} {acc : HandCards × UInt32}
    (opened : s.Opened base acc) (i : Fin 20) :
    s.Opened base (qiShouKan acc i) ∧
      (qiShouKan acc i).1.cards = Function.update acc.1.cards i (setAside acc.1.cards i) ∧
      ∀ big, setCount big (qiShouKan acc i).1.eatHuCards = setCount big acc.1.eatHuCards := by
  obtain ⟨nonneg, split⟩ := bag_update_zero opened.nonneg i
  unfold HandCards.qiShouKan
  dsimp only
  split
  · next three =>
    refine ⟨opened.lay (.same (.inl rfl) (cardAt_isValid i)) nonneg ?_ ?_, ?_, ?_⟩
    · rw [split, three]
      rfl
    · simp only [EatCard.openingXi]
      split <;> rfl
    · simp [setAside, three]
    · intro big
      simp [setCount, EatCard.isSet]
  · next notThree =>
    split
    · next four =>
      refine ⟨opened.lay (.same (.inr rfl) (cardAt_isValid i)) nonneg ?_ ?_, ?_, ?_⟩
      · rw [split, four]
        rfl
      · simp only [EatCard.openingXi]
        split <;> rfl
      · simp [setAside, four]
      · intro big
        simp [setCount, EatCard.isSet]
    · next notFour =>
      refine ⟨opened, ?_, fun _ => rfl⟩
      simp [setAside, notThree, notFour]

/-- The loop over the positions sets the triples and quadruples aside. -/
theorem Opened.kans {s : HandCards} {base : UInt32} {acc : HandCards × UInt32}
    (opened : s.Opened base acc) (positions : List (Fin 20)) (once : positions.Nodup) :
    let done := positions.foldl HandCards.qiShouKan acc
    s.Opened base done ∧
      (∀ i, done.1.cards i = if i ∈ positions then setAside acc.1.cards i else acc.1.cards i) ∧
      ∀ big, setCount big done.1.eatHuCards = setCount big acc.1.eatHuCards := by
  induction positions using List.reverseRecOn with
  | nil => exact ⟨opened, by simp, fun _ => rfl⟩
  | append_singleton positions last ih =>
      obtain ⟨before, -, apart⟩ := List.nodup_append.mp once
      have fresh : last ∉ positions := fun member => apart last member last (by simp) rfl
      obtain ⟨start, cards, sets⟩ := ih before
      obtain ⟨next, nextCards, nextSets⟩ := start.qiShouKan last
      rw [List.foldl_append, List.foldl_cons, List.foldl_nil]
      refine ⟨next, ?_, fun big => (nextSets big).trans (sets big)⟩
      intro i
      rw [nextCards]
      by_cases same : i = last
      · subst same
        have untouched := cards i
        rw [if_neg fresh] at untouched
        simp [setAside, untouched]
      · rw [Function.update_of_ne same, cards]
        simp [same]

/-! ## 2-7-10 and 1-2-3 -/

/-- The meld that the `while` loop makes of a set. -/
def setMeld (c1 c2 c3 : Card) : EatCard :=
  { type := if c1.getPoint = 1 then .eat123 else .eatHong, big := c1.isBig, eatCard := c1,
    cards := [c2, c3] }

theorem setMeld_openingXi (c1 c2 c3 : Card) :
    (setMeld c1 c2 c3).openingXi = if c1.isBig then 6 else 3 := by
  by_cases first : c1.getPoint = 1 <;> simp [setMeld, EatCard.openingXi, first]

theorem setMeld_isSet (c1 c2 c3 : Card) (big : Bool) :
    (setMeld c1 c2 c3).isSet big = decide (c1.isBig = big) := by
  by_cases first : c1.getPoint = 1 <;> simp [setMeld, EatCard.isSet, first]

/-- The three cards are those of a scoring set, each of them once. -/
structure IsSet (c1 c2 c3 : Card) (combo : Combo) (big : Bool) : Prop where
  cards : combo.cards = [c1, c2, c3]
  scoring : combo = .run big 0 ∨ combo = .hong big
  realises : (setMeld c1 c2 c3).Realises combo
  size : c1.isBig = big
  nodup : [c1, c2, c3].Nodup

theorem IsSet.opening {c1 c2 c3 : Card} {combo : Combo} {big : Bool}
    (isSet : IsSet c1 c2 c3 combo big) : (setMeld c1 c2 c3).Opening :=
  .set big combo isSet.scoring isSet.realises

theorem Opened.qiShouMeld {s : HandCards} {base : UInt32} {acc : HandCards × UInt32}
    (opened : s.Opened base acc) {c1 c2 c3 : Card} {combo : Combo} {big : Bool}
    (isSet : IsSet c1 c2 c3 combo big) (held : combo.bag ≤ acc.1.cards.bag) :
    s.Opened base (qiShouMeld c1 c2 c3 acc) ∧
      acc.1.cards.bag = combo.bag + (qiShouMeld c1 c2 c3 acc).1.cards.bag ∧
      (qiShouMeld c1 c2 c3 acc).1.eatHuCards = acc.1.eatHuCards ++ [setMeld c1 c2 c3] := by
  have taken : combo.bag = ([c1, c2, c3] : List Card) := by rw [Combo.bag, isSet.cards]
  rw [taken] at held ⊢
  obtain ⟨split, nonneg⟩ := Cards.bag_take opened.nonneg held
  refine ⟨?_, split, rfl⟩
  refine opened.lay isSet.opening nonneg ?_ ?_
  · rw [isSet.realises.bag, taken]
    exact split
  · rw [setMeld_openingXi]
    split <;> rfl

theorem Opened.iterate {s : HandCards} {base : UInt32} {acc : HandCards × UInt32}
    (opened : s.Opened base acc) {c1 c2 c3 : Card} {combo : Combo} {big : Bool}
    (isSet : IsSet c1 c2 c3 combo big) (times : Nat) (held : times • combo.bag ≤ acc.1.cards.bag) :
    let done := (HandCards.qiShouMeld c1 c2 c3)^[times] acc
    s.Opened base done ∧ acc.1.cards.bag = times • combo.bag + done.1.cards.bag ∧
      done.1.eatHuCards = acc.1.eatHuCards ++ List.replicate times (setMeld c1 c2 c3) := by
  induction times with
  | zero => exact ⟨opened, by simp, by simp⟩
  | succ times ih =>
      rw [succ_nsmul] at held
      obtain ⟨start, split, melds⟩ := ih (le_trans (Multiset.le_add_right _ _) held)
      rw [split] at held
      obtain ⟨next, nextSplit, nextMelds⟩ :=
        start.qiShouMeld isSet (Multiset.add_le_add_iff_left.mp held)
      rw [Function.iterate_succ_apply']
      refine ⟨next, ?_, ?_⟩
      · rw [split, nextSplit, succ_nsmul, add_assoc]
      · rw [nextMelds, melds, List.append_assoc, List.replicate_succ']

/-- The `while` loop makes as many sets as the scarcest of the three cards allows. -/
theorem Opened.qiShouMelds {s : HandCards} {base : UInt32} {acc : HandCards × UInt32}
    (opened : s.Opened base acc) {c1 c2 c3 : Card} {combo : Combo} {big : Bool}
    (isSet : IsSet c1 c2 c3 combo big) :
    let times := min (acc.1.cards.bag.count c1)
      (min (acc.1.cards.bag.count c2) (acc.1.cards.bag.count c3))
    let done := HandCards.qiShouMelds acc (c1, c2, c3)
    s.Opened base done ∧ acc.1.cards.bag = times • combo.bag + done.1.cards.bag ∧
      done.1.eatHuCards = acc.1.eatHuCards ++ List.replicate times (setMeld c1 c2 c3) := by
  intro times
  have number : (min (acc.1.getCardCount c1)
      (min (acc.1.getCardCount c2) (acc.1.getCardCount c3))).toNat = times := by
    simp only [HandCards.getCardCount, opened.nonneg.count_eq]
    omega
  have held : times • combo.bag ≤ acc.1.cards.bag := by
    rw [Multiset.le_iff_count]
    intro card
    rw [Multiset.count_nsmul, Combo.bag, isSet.cards]
    have atMost := List.nodup_iff_count_le_one.mp isSet.nodup card
    by_cases member : card ∈ [c1, c2, c3]
    · have enough : times ≤ acc.1.cards.bag.count card := by
        simp only [List.mem_cons, List.not_mem_nil, or_false] at member
        rcases member with rfl | rfl | rfl <;> omega
      rw [Multiset.coe_count]
      exact le_trans (Nat.mul_le_mul_left times atMost) (by omega)
    · rw [Multiset.coe_count, List.count_eq_zero_of_not_mem member]
      omega
  unfold HandCards.qiShouMelds
  dsimp only
  rw [number]
  exact opened.iterate isSet times held

theorem setCount_replicate {c1 c2 c3 : Card} {combo : Combo} {big : Bool}
    (isSet : IsSet c1 c2 c3 combo big) (size : Bool) (times : Nat) (eats : List EatCard) :
    setCount size (eats ++ List.replicate times (setMeld c1 c2 c3)) =
      setCount size eats + if size = big then times else 0 := by
  rw [setCount, List.countP_append, List.countP_replicate, setMeld_isSet, isSet.size, setCount]
  by_cases same : size = big
  · subst same
    simp
  · simp [same, Ne.symm same]

theorem isSet_hong (big : Bool) :
    IsSet (.makeCard 2 big) (.makeCard 7 big) (.makeCard 10 big) (.hong big) big := by
  cases big with
  | false => exact ⟨by decide, by decide, ⟨by decide, by decide, by decide⟩, by decide, by decide⟩
  | true => exact ⟨by decide, by decide, ⟨by decide, by decide, by decide⟩, by decide, by decide⟩

theorem isSet_run (big : Bool) :
    IsSet (.makeCard 1 big) (.makeCard 2 big) (.makeCard 3 big) (.run big 0) big := by
  cases big with
  | false => exact ⟨by decide, by decide, ⟨by decide, by decide, by decide⟩, by decide, by decide⟩
  | true => exact ⟨by decide, by decide, ⟨by decide, by decide, by decide⟩, by decide, by decide⟩

def bothSets (acc : HandCards × UInt32) (big : Bool) : HandCards × UInt32 :=
  HandCards.qiShouMelds
    (HandCards.qiShouMelds acc (.makeCard 2 big, .makeCard 7 big, .makeCard 10 big))
    (.makeCard 1 big, .makeCard 2 big, .makeCard 3 big)

theorem qiShouTriples_foldl (acc : HandCards × UInt32) :
    qiShouTriples.foldl HandCards.qiShouMelds acc = bothSets (bothSets acc false) true := by
  rfl

private theorem count_other_size {size big : Bool} {point : Int} (other : size ≠ big)
    (known : point ∈ [1, 2, 3, 7, 10]) :
    (Combo.hong big).bag.count (.makeCard point size) = 0 ∧
      (Combo.run big 0).bag.count (.makeCard point size) = 0 := by
  have everyPoint : ∀ size big : Bool, size ≠ big → ∀ point ∈ ([1, 2, 3, 7, 10] : List Int),
      (Combo.hong big).bag.count (.makeCard point size) = 0 ∧
        (Combo.run big 0).bag.count (.makeCard point size) = 0 := by
    decide
  exact everyPoint size big other point known

/-- Taking the 2-7-10 sets first costs none: what they leave of the 2s goes to
1-2-3 sets as far as these have a 1 and a 3. -/
theorem Opened.bothSets {s : HandCards} {base : UInt32} {acc : HandCards × UInt32}
    (opened : s.Opened base acc) (big : Bool) :
    let done := HandCards.bothSets acc big
    s.Opened base done ∧ done.1.cards.bag ≤ acc.1.cards.bag ∧
      (∃ sets, DisjointSets big acc.1.cards.bag sets ∧
        sets.length = mostSets big acc.1.cards.bag) ∧
      (∀ size, setCount size done.1.eatHuCards =
        setCount size acc.1.eatHuCards + if size = big then mostSets big acc.1.cards.bag else 0) ∧
      ∀ size, size ≠ big → mostSets size done.1.cards.bag = mostSets size acc.1.cards.bag := by
  obtain ⟨middle, split, melds⟩ := opened.qiShouMelds (isSet_hong big)
  obtain ⟨done, splitDone, meldsDone⟩ := middle.qiShouMelds (isSet_run big)
  unfold HandCards.bothSets
  generalize HandCards.qiShouMelds acc _ = mid at middle split melds done splitDone meldsDone ⊢
  generalize HandCards.qiShouMelds mid _ = last at done splitDone meldsDone ⊢
  generalize hongTimes : min (acc.1.cards.bag.count (.makeCard 2 big)) _ = hongs at split melds
  generalize runTimes : min (mid.1.cards.bag.count (.makeCard 1 big)) _ = runs
    at splitDone meldsDone
  obtain ⟨hong1, hong2, hong3, hong7, hong10⟩ := count_hong_bag big
  have midCount : ∀ card, acc.1.cards.bag.count card =
      hongs * (Combo.hong big).bag.count card + mid.1.cards.bag.count card := by
    intro card
    rw [split, Multiset.count_add, Multiset.count_nsmul]
  have lastCount : ∀ card, mid.1.cards.bag.count card =
      runs * (Combo.run big 0).bag.count card + last.1.cards.bag.count card := by
    intro card
    rw [splitDone, Multiset.count_add, Multiset.count_nsmul]
  have most : hongs + runs = mostSets big acc.1.cards.bag := by
    have ones := midCount (.makeCard 1 big)
    have twos := midCount (.makeCard 2 big)
    have threes := midCount (.makeCard 3 big)
    rw [hong1] at ones
    rw [hong2] at twos
    rw [hong3] at threes
    unfold mostSets
    omega
  have whole : acc.1.cards.bag =
      hongs • (Combo.hong big).bag + runs • (Combo.run big 0).bag + last.1.cards.bag := by
    rw [split, splitDone, add_assoc]
  refine ⟨done, ?_, ⟨List.replicate hongs (.hong big) ++ List.replicate runs (.run big 0), ?_, ?_⟩,
    ?_, ?_⟩
  · rw [whole]
    exact Multiset.le_add_left _ _
  · refine ⟨?_, ?_⟩
    · intro combo member
      rcases List.mem_append.mp member with hong | run
      · exact .inr (List.eq_of_mem_replicate hong)
      · exact .inl (List.eq_of_mem_replicate run)
    · rw [whole, List.map_append, List.sum_append, List.map_replicate, List.map_replicate,
        List.sum_replicate, List.sum_replicate]
      exact Multiset.le_add_right _ _
  · simpa using most
  · intro size
    rw [meldsDone, setCount_replicate (isSet_run big), melds, setCount_replicate (isSet_hong big),
      ← most]
    split <;> omega
  · intro size other
    have same : ∀ point ∈ ([1, 2, 3, 7, 10] : List Int),
        last.1.cards.bag.count (.makeCard point size) =
          acc.1.cards.bag.count (.makeCard point size) := by
      intro point known
      obtain ⟨hong, run⟩ := count_other_size other known
      rw [midCount, lastCount, hong, run]
      omega
    simp only [mostSets, same 1 (by simp), same 2 (by simp), same 3 (by simp), same 7 (by simp),
      same 10 (by simp)]

/-! ## Pairs and single cards -/

/-- The last loop batches the single cards by four and loses none of them. -/
theorem qiShouRest_foldl {cards : Cards} (few : cards.UpTo 2) (positions : List (Fin 20))
    (start : List EatCard) :
    let done := positions.foldl (qiShouRest cards) (start, [])
    ∃ more, done.1 = start ++ more ∧ (∀ eat ∈ more, eat.Loose) ∧ done.2.length < 4 ∧
      meldsBag more + (done.2 : Multiset Card) =
        (positions.map fun i => Multiset.replicate (cards i).toNat (cardAt i)).sum := by
  induction positions using List.reverseRecOn with
  | nil => exact ⟨[], by simp, by simp, by simp, by simp⟩
  | append_singleton positions last ih =>
      obtain ⟨more, melds, loose, short, bag⟩ := ih
      have range := few (cardAt last)
      rw [Cards.getCardCount_cardAt] at range
      rw [List.foldl_append, List.foldl_cons, List.foldl_nil, List.map_append, List.sum_append,
        ← bag, List.map_singleton, List.sum_singleton]
      generalize positions.foldl (qiShouRest cards) (start, []) = acc at melds short bag ⊢
      unfold qiShouRest
      dsimp only
      split
      · next none =>
        have zero : cards last = 0 := by omega
        exact ⟨more, melds, loose, short, by simp [zero]⟩
      · next some =>
        split
        · next two =>
          refine ⟨more ++ [{ type := .eatDui, eatCard := cardAt last }], ?_, ?_, short, ?_⟩
          · rw [melds, List.append_assoc]
          · intro eat member
            rcases List.mem_append.mp member with old | new
            · exact loose eat old
            · rw [List.mem_singleton.mp new]
              exact .dui rfl (cardAt_isValid last)
          · rw [meldsBag_append, meldsBag_cons, meldsBag_nil, two, add_zero]
            exact add_right_comm _ _ _
        · next notTwo =>
          have one : cards last = 1 := by omega
          have single : Multiset.replicate (cards last).toNat (cardAt last) =
              (([cardAt last] : List Card) : Multiset Card) := by
            rw [one]
            rfl
          rw [single]
          split
          · next full =>
            refine ⟨more ++ [{ type := .eatDan, cards := acc.2 ++ [cardAt last] }], ?_, ?_, ?_, ?_⟩
            · rw [melds, List.append_assoc]
            · intro eat member
              rcases List.mem_append.mp member with old | new
              · exact loose eat old
              · rw [List.mem_singleton.mp new]
                exact .dan rfl (by simp) (by simp; omega)
            · simp
            · rw [meldsBag_append, meldsBag_cons, meldsBag_nil]
              simp only [EatCard.bag, add_zero, Multiset.coe_nil, ← Multiset.coe_add, add_assoc]
          · next room =>
            refine ⟨more, melds, loose, not_le.mp room, ?_⟩
            rw [← Multiset.coe_add, add_assoc]

/-- The last melds of an opening win: what is left over, whole. -/
theorem qiShouRest_melds {cards : Cards} (few : cards.UpTo 2) (start : List EatCard) :
    let rest := (List.finRange 20).foldl (qiShouRest cards) (start, [])
    ∃ more, rest.1 ++ (if rest.2.isEmpty then [] else [{ type := .eatDan, cards := rest.2 }]) =
        start ++ more ∧ (∀ eat ∈ more, eat.Loose) ∧ meldsBag more = cards.bag := by
  obtain ⟨more, melds, loose, short, bag⟩ := qiShouRest_foldl few (List.finRange 20) start
  rw [← Fin.sum_univ_def] at bag
  dsimp only
  generalize (List.finRange 20).foldl (qiShouRest cards) (start, []) = rest at melds short bag ⊢
  cases left : rest.2 with
  | nil =>
      rw [left] at bag
      exact ⟨more, by simp [melds], loose, by simpa [Cards.bag] using bag⟩
  | cons card cards' =>
      rw [left] at bag short
      refine ⟨more ++ [{ type := .eatDan, cards := card :: cards' }], ?_, ?_, ?_⟩
      · simp [melds]
      · intro eat member
        rcases List.mem_append.mp member with old | new
        · exact loose eat old
        · rw [List.mem_singleton.mp new]
          exact .dan rfl (by simp) (le_of_lt short)
      · rw [meldsBag_append, meldsBag_cons, meldsBag_nil, add_zero]
        exact bag

/-! ## The whole cut -/

theorem upTo_setAside {cards : Cards} (copies : ∀ i, 0 ≤ cards i ∧ cards i ≤ 4) :
    (setAside cards).UpTo 2 := by
  intro card
  unfold Cards.getCardCount
  cases card.isValid with
  | false => simp
  | true =>
      have range := copies (getIndex card)
      simp only [Bool.not_true, Bool.false_eq_true, if_false, setAside]
      split <;> omega

/-- The points of the table melds, all of them opening quadruples. -/
theorem table_foldl (eats : List EatCard) (opening : ∀ eat ∈ eats, eat.type = .eatQishouTi)
    (huXi : UInt32) :
    eats.foldl (fun huXi eat => huXi + if eat.eatCard.isBig then 12 else 9) huXi =
      huXi + UInt32.ofNat (openingPoints eats) := by
  induction eats generalizing huXi with
  | nil => simp [openingPoints]
  | cons eat rest ih =>
      have points : UInt32.ofNat eat.openingXi = if eat.eatCard.isBig then 12 else 9 := by
        simp only [EatCard.openingXi, opening eat List.mem_cons_self]
        split <;> rfl
      rw [List.foldl_cons, ih fun other member => opening other (List.mem_cons_of_mem _ member),
        ← points, UInt32.add_assoc, ← UInt32.ofNat_add, openingPoints, openingPoints, List.map_cons,
        List.sum_cons]

theorem setCount_loose (big : Bool) (eats : List EatCard) {more : List EatCard}
    (loose : ∀ eat ∈ more, eat.Loose) : setCount big (eats ++ more) = setCount big eats := by
  have none : more.countP (EatCard.isSet big) = 0 := by
    rw [List.countP_eq_zero]
    intro eat member
    simp [(loose eat member).not_isSet]
  rw [setCount, List.countP_append, none, add_zero, setCount]

theorem openingPoints_loose (eats : List EatCard) {more : List EatCard}
    (loose : ∀ eat ∈ more, eat.Loose) : openingPoints (eats ++ more) = openingPoints eats := by
  have none : openingPoints more = 0 := by
    rw [openingPoints, List.sum_eq_zero]
    intro xi member
    obtain ⟨eat, inMore, rfl⟩ := List.mem_map.mp member
    exact (loose eat inMore).openingXi
  rw [openingPoints_append, none, add_zero]

/-- The melds of the opening win are the hand cut into pieces, the points are
those of its triples, quadruples and sets and of the table, and no other choice
of disjoint sets has more of them. -/
theorem qiShouHu_cuts {s : HandCards} (out : HuReport)
    (copies : ∀ i, 0 ≤ s.cards i ∧ s.cards i ≤ 4)
    (table : ∀ eat ∈ s.eatCards, eat.type = .eatQishouTi) :
    let done := s._qiShouHu out
    meldsBag done.1.eatHuCards = s.cards.bag ∧
    (∀ eat ∈ done.1.eatHuCards, eat.Opening) ∧
    done.2.huXi = UInt32.ofNat (openingPoints s.eatCards + openingPoints done.1.eatHuCards) ∧
    ∀ big, IsGreatest {number | ∃ sets, DisjointSets big (setAside s.cards).bag sets ∧
      sets.length = number} (setCount big done.1.eatHuCards) := by
  have entry : s.Opened 0 ({ s with eatHuCards := [] }, 0) := by
    refine ⟨rfl, ?_, by simp, by simp [openingPoints], by simp⟩
    exact (Cards.nonneg_iff _).mpr fun i => (copies i).1
  obtain ⟨kans, kansCards, kansSets⟩ := entry.kans (List.finRange 20) (List.nodup_finRange 20)
  unfold HandCards._qiShouHu
  generalize (List.finRange 20).foldl HandCards.qiShouKan ({ s with eatHuCards := [] }, 0) = first
    at kans kansCards kansSets ⊢
  have aside : first.1.cards = setAside s.cards := by
    funext i
    simpa using kansCards i
  have scored : s.Opened (UInt32.ofNat (openingPoints s.eatCards)) (first.1,
      first.1.eatCards.foldl (fun huXi eat => huXi + if eat.eatCard.isBig then 12 else 9) first.2) := by
    rw [kans.eatCards, table_foldl s.eatCards table, kans.huXi]
    refine ⟨kans.eatCards, kans.nonneg, kans.bag, ?_, kans.melds⟩
    dsimp only
    rw [UInt32.zero_add, UInt32.add_comm]
  dsimp only
  generalize first.1.eatCards.foldl _ first.2 = points at scored ⊢
  rw [qiShouTriples_foldl, ← aside]
  obtain ⟨small, smallLe, smallSets, smallCount, smallOther⟩ := scored.bothSets false
  obtain ⟨done, doneLe, bigSets, bigCount, -⟩ := small.bothSets true
  rw [smallOther true (by simp)] at bigSets bigCount
  generalize HandCards.bothSets (HandCards.bothSets (first.1, points) false) true = last at *
  have few : last.1.cards.UpTo 2 := (upTo_setAside copies).of_bag_le done.nonneg
    (aside ▸ le_trans doneLe smallLe)
  obtain ⟨more, melds, loose, moreBag⟩ := qiShouRest_melds few last.1.eatHuCards
  rw [melds]
  refine ⟨?_, ?_, ?_, ?_⟩
  · rw [meldsBag_append, moreBag, done.bag]
  · intro eat member
    rcases List.mem_append.mp member with old | new
    · exact done.melds eat old
    · exact .loose (loose eat new)
  · rw [openingPoints_loose _ loose, UInt32.ofNat_add]
    exact done.huXi
  · intro big
    have number : setCount big (last.1.eatHuCards ++ more) = mostSets big first.1.cards.bag := by
      rw [setCount_loose big _ loose, bigCount, smallCount, kansSets]
      cases big <;> simp [setCount]
    rw [number]
    refine ⟨?_, ?_⟩
    · cases big with
      | false => exact smallSets
      | true =>
          obtain ⟨sets, disjoint, length⟩ := bigSets
          exact ⟨sets, ⟨disjoint.scoring, le_trans disjoint.within smallLe⟩, length⟩
    · rintro _ ⟨sets, disjoint, rfl⟩
      exact disjoint.length_le

/-- A sample hand: three 5s, one 2 that both sets need, and the rest of both sets. -/
def contestedTwo : List Card :=
  [.makeCard 5 false, .makeCard 5 false, .makeCard 5 false, .makeCard 1 false, .makeCard 2 false,
    .makeCard 3 false, .makeCard 7 false, .makeCard 10 false]

/-- Only one of the two sets can be made. -/
theorem qiShouHu_cuts_contestedTwo :
    IsGreatest {number | ∃ sets, DisjointSets false
        (setAside (addHandCards {} contestedTwo).cards).bag sets ∧ sets.length = number}
      (setCount false ((addHandCards {} contestedTwo)._qiShouHu {}).1.eatHuCards) :=
  (qiShouHu_cuts {} (by decide) (by decide)).2.2.2 false

end HandCards

end CLibs.Cardlib
