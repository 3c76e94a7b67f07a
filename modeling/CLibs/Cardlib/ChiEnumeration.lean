import CLibs.Cardlib.Melds

/-!
# What the meld enumerators list

Both enumerators list melds of the rules around the given card whose other two
cards are in the count array, and they miss none that passes their tests.
-/

set_option autoImplicit false

namespace CLibs.Cardlib

open Card

/-! ## Records that stand for combinations -/

private theorem chiEat_realises_run (big : Bool) (low : Fin 8) {card temp1 temp2 : Card}
    (cards : card ::ₘ {temp1, temp2} = (Combo.run big low).bag) :
    (chiEat (if low = 0 then .eat123 else .eatShunZi) big card temp1 temp2).Realises
      (.run big low) := by
  refine ⟨rfl, cards, ?_⟩
  by_cases first : low = 0 <;> simp [chiEat, EatCard.points, Combo.points, first]

private theorem chiEat_realises_hong (big : Bool) {card temp1 temp2 : Card}
    (cards : card ::ₘ {temp1, temp2} = (Combo.hong big).bag) :
    (chiEat .eatHong big card temp1 temp2).Realises (.hong big) :=
  ⟨rfl, cards, rfl⟩

private theorem chiEat_realises_santa (flag double : Bool) (point : Fin 10)
    {card temp1 temp2 : Card}
    (cards : card ::ₘ {temp1, temp2} = (Combo.santa double point).bag) :
    (chiEat .eatSanta flag card temp1 temp2).Realises (.santa double point) :=
  ⟨rfl, cards, rfl⟩

private theorem bag_three {a b c : Card} :
    (↑[a, b, c] : Multiset Card) = a ::ₘ {b, c} ∧ (↑[a, b, c] : Multiset Card) = b ::ₘ {a, c} ∧
      (↑[a, b, c] : Multiset Card) = c ::ₘ {a, b} := by
  refine ⟨rfl, ?_, ?_⟩ <;> ext x <;>
    simp only [Multiset.insert_eq_cons, Multiset.count_cons, Multiset.coe_count,
      List.count_cons, Multiset.count_singleton, List.count_nil, beq_iff_eq] <;> grind

/-! ## The neighbours of a card -/

abbrev nextCard (card : Card) (n : Int) : Card := makeCard (card.getPoint + n) card.isBig

private theorem nextCard_point {card : Card} (valid : card.isValid = true) {n : Int}
    (low : -2 ≤ n) (high : n ≤ 2) (nextValid : (nextCard card n).isValid = true) :
    1 ≤ card.getPoint + n ∧ card.getPoint + n ≤ 10 := by
  have bounds := getPoint_bounds valid
  exact (makeCard_isValid_iff (by omega) (by omega) card.isBig).mp nextValid

private theorem exists_low {point offset : Int} (low : 1 ≤ point - offset)
    (high : point - offset + 2 ≤ 10) : ∃ first : Fin 8, point = (first : Int) + 1 + offset :=
  ⟨⟨(point - offset - 1).toNat, by omega⟩, by dsimp only; omega⟩

private theorem low_zero_iff (low : Fin 8) (offset : Int) :
    (low : Int) + 1 + offset = 1 + offset ↔ low = 0 := by
  rw [Fin.ext_iff]
  simp only [Fin.val_zero]
  omega

private theorem run_around {card : Card} {low : Fin 8}
    {offset : Int} (point : card.getPoint = (low : Int) + 1 + offset) :
    (Combo.run card.isBig low).bag =
      ↑[nextCard card (0 - offset), nextCard card (1 - offset), nextCard card (2 - offset)] := by
  simp only [Combo.bag, Combo.cards, nextCard, point]
  ring_nf

private theorem nextCard_zero {card : Card} (valid : card.isValid = true) :
    nextCard card 0 = card := by
  simp only [nextCard, add_zero]
  exact makeCard_getPoint_isBig valid

private theorem exists_santa_point {card : Card} (valid : card.isValid = true) :
    ∃ point : Fin 10, card.getPoint = (point : Int) + 1 := by
  have bounds := getPoint_bounds valid
  exact ⟨⟨(card.getPoint - 1).toNat, by omega⟩, by dsimp only; omega⟩

/-! ## Soundness -/

/-- A meld around `card` whose other two cards are there to be taken. -/
structure ChiOption (cards : Cards) (card : Card) (eat : EatCard) : Prop where
  eatCard : eat.eatCard = card
  combo : ∃ combo, eat.Realises combo
  pair : ∃ temp1 temp2, eat.cards = [temp1, temp2] ∧ 0 < cards.getCardCount temp1 ∧
    0 < cards.getCardCount temp2 ∧ (temp1 = temp2 → 2 ≤ cards.getCardCount temp1)

private theorem run_nodup (big : Bool) (low : Fin 8) : (Combo.run big low).bag.Nodup := by
  revert big low
  decide

private theorem hong_nodup (big : Bool) : (Combo.hong big).bag.Nodup := by
  revert big
  decide

private theorem ne_of_nodup_three {card temp1 temp2 : Card} {bag : Multiset Card}
    (nodup : bag.Nodup) (cards : card ::ₘ {temp1, temp2} = bag) : temp1 ≠ temp2 := by
  rintro rfl
  rw [← cards] at nodup
  simp [Multiset.nodup_cons] at nodup

private theorem runOption {cards : Cards} {card temp1 temp2 : Card} {big : Bool} {low : Fin 8}
    (bag : card ::ₘ {temp1, temp2} = (Combo.run big low).bag)
    (held1 : 0 < cards.getCardCount temp1) (held2 : 0 < cards.getCardCount temp2) :
    ChiOption cards card
      (chiEat (if low = 0 then .eat123 else .eatShunZi) big card temp1 temp2) := by
  refine ⟨rfl, ⟨_, chiEat_realises_run big low bag⟩, temp1, temp2, rfl, held1, held2, ?_⟩
  intro same
  exact absurd same (ne_of_nodup_three (run_nodup big low) bag)

private theorem hongOption {cards : Cards} {card temp1 temp2 : Card} {big : Bool}
    (bag : card ::ₘ {temp1, temp2} = (Combo.hong big).bag)
    (held1 : 0 < cards.getCardCount temp1) (held2 : 0 < cards.getCardCount temp2) :
    ChiOption cards card (chiEat .eatHong big card temp1 temp2) := by
  refine ⟨rfl, ⟨_, chiEat_realises_hong big bag⟩, temp1, temp2, rfl, held1, held2, ?_⟩
  intro same
  exact absurd same (ne_of_nodup_three (hong_nodup big) bag)

private theorem mem_hongEats_option {ok : Int → Int → Prop} [DecidableRel ok] {cards : Cards}
    {card : Card} {eat : EatCard} (valid : card.isValid = true)
    (positive : ∀ c1 c2, ok c1 c2 → 0 < c1 ∧ 0 < c2)
    (member : eat ∈ Cards.hongEats ok cards card) : ChiOption cards card eat := by
  have self := makeCard_getPoint_isBig valid
  simp only [Cards.hongEats, pushIf] at member
  split at member
  · next point =>
    split at member
    · next held =>
      rw [List.mem_singleton] at member
      subst member
      obtain ⟨held1, held2⟩ := positive _ _ held
      refine hongOption ?_ held1 held2
      rw [Combo.bag, Combo.cards, bag_three.1, ← point, self]
    · simp at member
  · split at member
    · next point =>
      split at member
      · next held =>
        rw [List.mem_singleton] at member
        subst member
        obtain ⟨held1, held2⟩ := positive _ _ held
        refine hongOption ?_ held1 held2
        rw [Combo.bag, Combo.cards, bag_three.2.1, ← point, self]
      · simp at member
    · split at member
      · next point =>
        split at member
        · next held =>
          rw [List.mem_singleton] at member
          subst member
          obtain ⟨held1, held2⟩ := positive _ _ held
          refine hongOption ?_ held1 held2
          rw [Combo.bag, Combo.cards, bag_three.2.2, ← point, self]
        · simp at member
      · simp at member

private theorem mem_hongEats_lt {ok : Int → Int → Prop} [DecidableRel ok] {cards : Cards}
    {card : Card} {eat : EatCard} (below : ∀ c1 c2, ok c1 c2 → c1 < 3 ∧ c2 < 3)
    (member : eat ∈ Cards.hongEats ok cards card) :
    ∀ temp ∈ eat.cards, cards.getCardCount temp < 3 := by
  simp only [Cards.hongEats, pushIf] at member
  split_ifs at member <;> simp only [List.mem_singleton, List.not_mem_nil] at member
  all_goals
    subst member
    next held => simpa [chiEat] using below _ _ held

/-- `card` is the card number `offset` of a run whose others are `n1` and `n2`
points away. -/
def RunPlace (offset n1 n2 : Int) : Prop :=
  (offset = 0 ∧ n1 = 1 ∧ n2 = 2) ∨ (offset = 1 ∧ n1 = -1 ∧ n2 = 1) ∨
    (offset = 2 ∧ n1 = -2 ∧ n2 = -1)

private theorem run_bag_at {card : Card} (valid : card.isValid = true) {offset n1 n2 : Int}
    (place : RunPlace offset n1 n2) {low : Fin 8}
    (point : card.getPoint = (low : Int) + 1 + offset) :
    card ::ₘ {nextCard card n1, nextCard card n2} = (Combo.run card.isBig low).bag := by
  have self := nextCard_zero valid
  rw [run_around point]
  rcases place with ⟨rfl, rfl, rfl⟩ | ⟨rfl, rfl, rfl⟩ | ⟨rfl, rfl, rfl⟩
  · rw [bag_three.1]
    norm_num [self]
  · rw [bag_three.2.1]
    norm_num [self]
  · rw [bag_three.2.2]
    norm_num [self]

private theorem run_type_at {card : Card} {offset : Int} {low : Fin 8}
    (point : card.getPoint = (low : Int) + 1 + offset) :
    (if card.getPoint = 1 + offset then EatType.eat123 else .eatShunZi) =
      if low = 0 then .eat123 else .eatShunZi := by
  rw [point]
  exact if_congr (low_zero_iff low offset) rfl rfl

/-- The runs around `card`. The two enumerators name the other two cards in
opposite orders. -/
private theorem runOption_at {cards : Cards} {card : Card} (valid : card.isValid = true)
    {offset n1 n2 : Int} (place : RunPlace offset n1 n2)
    (held1 : 0 < cards.getCardCount (nextCard card n1))
    (held2 : 0 < cards.getCardCount (nextCard card n2)) :
    ChiOption cards card (chiEat (if card.getPoint = 1 + offset then .eat123 else .eatShunZi)
        card.isBig card (nextCard card n1) (nextCard card n2)) ∧
      ChiOption cards card (chiEat (if card.getPoint = 1 + offset then .eat123 else .eatShunZi)
        card.isBig card (nextCard card n2) (nextCard card n1)) := by
  have bounds := getPoint_bounds valid
  have small : -2 ≤ n1 ∧ n1 ≤ 2 ∧ -2 ≤ n2 ∧ n2 ≤ 2 := by
    simp only [RunPlace] at place
    omega
  have valid1 := nextCard_point valid small.1 small.2.1 (Cards.isValid_of_getCardCount_pos held1)
  have valid2 := nextCard_point valid small.2.2.1 small.2.2.2
    (Cards.isValid_of_getCardCount_pos held2)
  have range : 1 ≤ card.getPoint - offset ∧ card.getPoint - offset + 2 ≤ 10 := by
    simp only [RunPlace] at place
    omega
  obtain ⟨low, point⟩ := exists_low range.1 range.2
  have bag := run_bag_at valid place point
  rw [run_type_at point]
  refine ⟨runOption bag held1 held2, runOption ?_ held2 held1⟩
  rw [Multiset.pair_comm]
  exact bag

private theorem santaOption {cards : Cards} {card : Card} (valid : card.isValid = true)
    (flag : Bool) {size1 size2 : Bool} (mixed : size1 ≠ card.isBig ∨ size2 ≠ card.isBig)
    (held1 : 0 < cards.getCardCount (makeCard card.getPoint size1))
    (held2 : 0 < cards.getCardCount (makeCard card.getPoint size2))
    (twice : size1 = size2 → 2 ≤ cards.getCardCount (makeCard card.getPoint size1)) :
    ChiOption cards card (chiEat .eatSanta flag card (makeCard card.getPoint size1)
      (makeCard card.getPoint size2)) := by
  obtain ⟨point, pointEq⟩ := exists_santa_point valid
  have self := makeCard_getPoint_isBig valid
  have bounds := getPoint_bounds valid
  -- the size that occurs twice among the three cards
  have bag : card ::ₘ {makeCard card.getPoint size1, makeCard card.getPoint size2} =
      (Combo.santa (if size1 = size2 then size1 else card.isBig) point).bag := by
    rw [Combo.bag, Combo.cards, ← pointEq]
    nth_rewrite 1 [← self]
    cases big : card.isBig <;> cases size1 <;> cases size2 <;> simp [big] at mixed ⊢ <;>
      first
        | exact bag_three.2.2.symm
        | exact bag_three.2.1.symm
        | exact (congrArg _ (Multiset.pair_comm _ _)).trans bag_three.1.symm
  refine ⟨rfl, ⟨_, chiEat_realises_santa flag _ point bag⟩, _, _, rfl, held1, held2, ?_⟩
  intro same
  exact twice ((makeCard_inj bounds.1 bounds.2 bounds.1 bounds.2).mp same).2

/-- Every meld of the win search's enumerator is an option around the card. -/
theorem chiOption_of_mem_checkChi {cards : Cards} {card : Card} {eat : EatCard}
    (valid : card.isValid = true) (member : eat ∈ cards.__checkChi card) :
    ChiOption cards card eat := by
  simp only [Cards.__checkChi, pushIf, List.mem_append] at member
  rcases member with (((((member | member) | member) | member) | member) | member) | member
  · exact mem_hongEats_option valid (fun _ _ ok => ok) member
  all_goals
    split at member
    case isFalse => simp at member
    rw [List.mem_singleton] at member
    subst member
  · next held => exact (runOption_at valid (.inr (.inr ⟨rfl, rfl, rfl⟩)) held.2.1 held.1).2
  · next held => exact (runOption_at valid (.inr (.inl ⟨rfl, rfl, rfl⟩)) held.1 held.2).2
  · next held => exact (runOption_at valid (.inl ⟨rfl, rfl, rfl⟩) held.1 held.2).2
  · next held =>
    exact santaOption valid _ (.inl (by simp [held.1])) (by omega) (by omega) fun _ => held.2
  · next held =>
    exact santaOption valid _ (.inl (by simp [held.1])) (by omega) (by omega) fun _ => held.2
  · next held =>
    refine santaOption valid _ ?_ held.2.1 held.2.2 (by simp)
    cases card.isBig <;> simp

/-- The same for the enumerator of the players, which also leaves triples alone. -/
theorem chiOption_of_mem_playerChi {cards : Cards} {card : Card} {eat : EatCard}
    (valid : card.isValid = true) (member : eat ∈ cards._checkChi card) :
    ChiOption cards card eat ∧ ∀ temp ∈ eat.cards, cards.getCardCount temp < 3 := by
  simp only [Cards._checkChi, pushIf, List.mem_append] at member
  rcases member with (((((member | member) | member) | member) | member) | member) | member
  case inr =>
    refine ⟨mem_hongEats_option valid (fun _ _ ok => ⟨ok.1, ok.2.1⟩) member, ?_⟩
    exact mem_hongEats_lt (fun _ _ ok => ok.2.2) member
  all_goals
    split at member
    case isFalse => simp at member
    rw [List.mem_singleton] at member
    subst member
  · next held =>
    refine ⟨(runOption_at valid (.inl ⟨rfl, rfl, rfl⟩) held.1 held.2.1).1, ?_⟩
    simp [chiEat, held.2.2]
  · next held =>
    refine ⟨(runOption_at valid (.inr (.inl ⟨rfl, rfl, rfl⟩)) held.2.1 held.1).1, ?_⟩
    simp [chiEat, held.2.2]
  · next held =>
    refine ⟨(runOption_at valid (.inr (.inr ⟨rfl, rfl, rfl⟩)) held.2.1 held.1).1, ?_⟩
    simp [chiEat, held.2.2]
  · next held =>
    refine ⟨santaOption valid _ (.inl (by simp [held.1])) (by omega) (by omega)
      fun _ => by omega, ?_⟩
    simp [chiEat, held.2]
  · next held =>
    refine ⟨santaOption valid _ (.inl (by simp [held.1])) (by omega) (by omega)
      fun _ => by omega, ?_⟩
    simp [chiEat, held.2]
  · next held =>
    refine ⟨santaOption valid _ ?_ held.2.2.2.1 held.2.2.2.2 (by simp), ?_⟩
    · cases card.isBig <;> simp
    · simp [chiEat, held.2]

/-! ## Completeness -/

private theorem combo_place {combo : Combo} {card : Card} (inside : card ∈ combo.bag) :
    match combo with
    | .run big low => card.isBig = big ∧
        (card.getPoint = (low : Int) + 1 + 0 ∨ card.getPoint = (low : Int) + 1 + 1 ∨
          card.getPoint = (low : Int) + 1 + 2)
    | .hong big => card.isBig = big ∧
        (card.getPoint = 2 ∨ card.getPoint = 7 ∨ card.getPoint = 10)
    | .santa _ point => card.getPoint = (point : Int) + 1 := by
  have inRun : ∀ big low, ∀ card ∈ (Combo.run big low).cards, card.isBig = big ∧
      (card.getPoint = (low : Int) + 1 + 0 ∨ card.getPoint = (low : Int) + 1 + 1 ∨
        card.getPoint = (low : Int) + 1 + 2) := by
    decide
  have inHong : ∀ big, ∀ card ∈ (Combo.hong big).cards, card.isBig = big ∧
      (card.getPoint = 2 ∨ card.getPoint = 7 ∨ card.getPoint = 10) := by
    decide
  have inSanta : ∀ double point, ∀ card ∈ (Combo.santa double point).cards,
      card.getPoint = (point : Int) + 1 := by
    decide
  have member := Multiset.mem_coe.mp inside
  cases combo with
  | run big low => exact inRun big low card member
  | hong big => exact inHong big card member
  | santa double point => exact inSanta double point card member

private theorem pair_of_available {cards : Cards} {combo : Combo} {card temp1 temp2 : Card}
    (bag : card ::ₘ {temp1, temp2} = combo.bag) (available : combo.bag ≤ card ::ₘ cards.bag) :
    0 < cards.getCardCount temp1 ∧ 0 < cards.getCardCount temp2 ∧
      (temp1 = temp2 → 2 ≤ cards.getCardCount temp1) := by
  rw [← bag, Multiset.cons_le_cons_iff] at available
  refine ⟨Cards.mem_bag.mp (Multiset.mem_of_le available (by simp)),
    Cards.mem_bag.mp (Multiset.mem_of_le available (by simp)), ?_⟩
  rintro rfl
  have counts := Multiset.count_le_of_le temp1 available
  rw [Cards.count_bag] at counts
  simp only [Multiset.insert_eq_cons, Multiset.count_cons_self, Multiset.count_singleton_self]
    at counts
  omega

/-- The other two cards of a santa around `card`: two of the other size, or one
of each size. -/
private theorem santa_bag_at {card : Card} (valid : card.isValid = true) {double : Bool}
    {point : Fin 10} (pointEq : card.getPoint = (point : Int) + 1) :
    (card.isBig ≠ double ∧
      card ::ₘ {makeCard card.getPoint double, makeCard card.getPoint double} =
        (Combo.santa double point).bag) ∨
    (card.isBig = double ∧
      card ::ₘ {makeCard card.getPoint false, makeCard card.getPoint true} =
        (Combo.santa double point).bag) := by
  have self := makeCard_getPoint_isBig valid
  rw [Combo.bag, Combo.cards, ← pointEq]
  by_cases same : card.isBig = double
  · right
    refine ⟨same, ?_⟩
    subst same
    nth_rewrite 1 [← self]
    cases card.isBig
    · exact bag_three.1.symm
    · exact (congrArg _ (Multiset.pair_comm _ _)).trans bag_three.1.symm
  · left
    refine ⟨same, ?_⟩
    have other : card.isBig = !double := Bool.eq_not.mpr same
    nth_rewrite 1 [← self]
    rw [other]
    exact bag_three.2.2.symm

private theorem exists_mem_hongEats (ok : Int → Int → Prop) [DecidableRel ok] (cards : Cards)
    {card : Card} (valid : card.isValid = true)
    (point : card.getPoint = 2 ∨ card.getPoint = 7 ∨ card.getPoint = 10)
    (accepted : ∀ temp1 temp2, card ::ₘ {temp1, temp2} = (Combo.hong card.isBig).bag →
      ok (cards.getCardCount temp1) (cards.getCardCount temp2)) :
    ∃ eat ∈ Cards.hongEats ok cards card, eat.Realises (.hong card.isBig) := by
  have self := makeCard_getPoint_isBig valid
  rcases point with point | point | point
  · have bag : card ::ₘ {makeCard 7 card.isBig, makeCard 10 card.isBig} =
        (Combo.hong card.isBig).bag := by
      rw [Combo.bag, Combo.cards, bag_three.1, ← point, self]
    refine ⟨_, ?_, chiEat_realises_hong card.isBig bag⟩
    simp [Cards.hongEats, pushIf, point, accepted _ _ bag]
  · have bag : card ::ₘ {makeCard 2 card.isBig, makeCard 10 card.isBig} =
        (Combo.hong card.isBig).bag := by
      rw [Combo.bag, Combo.cards, bag_three.2.1, ← point, self]
    refine ⟨_, ?_, chiEat_realises_hong card.isBig bag⟩
    simp [Cards.hongEats, pushIf, point, accepted _ _ bag]
  · have bag : card ::ₘ {makeCard 2 card.isBig, makeCard 7 card.isBig} =
        (Combo.hong card.isBig).bag := by
      rw [Combo.bag, Combo.cards, bag_three.2.2, ← point, self]
    refine ⟨_, ?_, chiEat_realises_hong card.isBig bag⟩
    simp [Cards.hongEats, pushIf, point, accepted _ _ bag]

/-- The win search's enumerator misses no combination whose other cards are
there, as long as no card before `card` in its size is held three times. -/
theorem exists_mem_checkChi {cards : Cards} {card : Card} {combo : Combo}
    (inside : card ∈ combo.bag) (available : combo.bag ≤ card ::ₘ cards.bag)
    (noTriple : ∀ n : Int, n = -1 ∨ n = -2 → cards.getCardCount (nextCard card n) < 3) :
    ∃ eat ∈ cards.__checkChi card, eat.Realises combo := by
  have valid := Combo.isValid_of_mem_bag inside
  have self := makeCard_getPoint_isBig valid
  have place := combo_place inside
  cases combo with
  | run big low =>
      obtain ⟨rfl, point | point | point⟩ := place
      · have bag := run_bag_at valid (.inl ⟨rfl, rfl, rfl⟩) point
        obtain ⟨held1, held2, -⟩ := pair_of_available bag available
        rw [Multiset.pair_comm] at bag
        refine ⟨_, ?_, chiEat_realises_run card.isBig low bag⟩
        rw [← run_type_at point]
        simp [Cards.__checkChi, pushIf, held1, held2]
      · have bag := run_bag_at valid (.inr (.inl ⟨rfl, rfl, rfl⟩)) point
        obtain ⟨held1, held2, -⟩ := pair_of_available bag available
        rw [Multiset.pair_comm] at bag
        refine ⟨_, ?_, chiEat_realises_run card.isBig low bag⟩
        rw [← run_type_at point]
        simp [Cards.__checkChi, pushIf, held1, held2]
      · have bag := run_bag_at valid (.inr (.inr ⟨rfl, rfl, rfl⟩)) point
        obtain ⟨held1, held2, -⟩ := pair_of_available bag available
        rw [Multiset.pair_comm] at bag
        refine ⟨_, ?_, chiEat_realises_run card.isBig low bag⟩
        rw [← run_type_at point]
        have below1 := noTriple (-1) (.inl rfl)
        have below2 := noTriple (-2) (.inr rfl)
        simp [Cards.__checkChi, pushIf, held1, held2, below1, below2]
  | hong big =>
      obtain ⟨rfl, point⟩ := place
      obtain ⟨eat, member, realises⟩ := exists_mem_hongEats (fun c1 c2 => 0 < c1 ∧ 0 < c2) cards
        valid point fun temp1 temp2 bag =>
          ⟨(pair_of_available bag available).1, (pair_of_available bag available).2.1⟩
      refine ⟨eat, ?_, realises⟩
      simp [Cards.__checkChi, member]
  | santa double point =>
      obtain ⟨different, bag⟩ | ⟨same, bag⟩ := santa_bag_at valid place
      · obtain ⟨held1, -, twice⟩ := pair_of_available bag available
        have twoHeld := twice rfl
        refine ⟨_, ?_, chiEat_realises_santa double double point bag⟩
        cases double
        · have big : card.isBig = true := by simpa using different
          simp [Cards.__checkChi, pushIf, big, twoHeld]
        · have small : card.isBig = false := by simpa using different
          simp [Cards.__checkChi, pushIf, small, twoHeld]
      · obtain ⟨held1, held2, -⟩ := pair_of_available bag available
        refine ⟨_, ?_, chiEat_realises_santa card.isBig double point bag⟩
        have together : 2 ≤ cards.getCardCount (makeCard card.getPoint false) +
            cards.getCardCount (makeCard card.getPoint true) := by
          omega
        simp [Cards.__checkChi, pushIf, held1, held2, together]

theorem exists_mem_playerChi {cards : Cards} {card : Card} {combo : Combo}
    (inside : card ∈ combo.bag) (available : combo.bag ≤ card ::ₘ cards.bag)
    (few : ∀ temp ∈ combo.bag, cards.getCardCount temp < 3) :
    ∃ eat ∈ cards._checkChi card, eat.Realises combo := by
  have valid := Combo.isValid_of_mem_bag inside
  have place := combo_place inside
  have fewPair : ∀ temp1 temp2, card ::ₘ {temp1, temp2} = combo.bag →
      cards.getCardCount temp1 < 3 ∧ cards.getCardCount temp2 < 3 := by
    intro temp1 temp2 bag
    exact ⟨few temp1 (by simp [← bag]), few temp2 (by simp [← bag])⟩
  cases combo with
  | run big low =>
      obtain ⟨rfl, point | point | point⟩ := place
      · have bag := run_bag_at valid (.inl ⟨rfl, rfl, rfl⟩) point
        obtain ⟨held1, held2, -⟩ := pair_of_available bag available
        obtain ⟨below1, below2⟩ := fewPair _ _ bag
        refine ⟨_, ?_, chiEat_realises_run card.isBig low bag⟩
        rw [← run_type_at point]
        simp [Cards._checkChi, pushIf, held1, held2, below1, below2]
      · have bag := run_bag_at valid (.inr (.inl ⟨rfl, rfl, rfl⟩)) point
        obtain ⟨held1, held2, -⟩ := pair_of_available bag available
        obtain ⟨below1, below2⟩ := fewPair _ _ bag
        refine ⟨_, ?_, chiEat_realises_run card.isBig low bag⟩
        rw [← run_type_at point]
        simp [Cards._checkChi, pushIf, held1, held2, below1, below2]
      · have bag := run_bag_at valid (.inr (.inr ⟨rfl, rfl, rfl⟩)) point
        obtain ⟨held1, held2, -⟩ := pair_of_available bag available
        obtain ⟨below1, below2⟩ := fewPair _ _ bag
        refine ⟨_, ?_, chiEat_realises_run card.isBig low bag⟩
        rw [← run_type_at point]
        simp [Cards._checkChi, pushIf, held1, held2, below1, below2]
  | hong big =>
      obtain ⟨rfl, point⟩ := place
      obtain ⟨eat, member, realises⟩ := exists_mem_hongEats
        (fun c1 c2 => 0 < c1 ∧ 0 < c2 ∧ c1 < 3 ∧ c2 < 3) cards valid point fun temp1 temp2 bag =>
          ⟨(pair_of_available bag available).1, (pair_of_available bag available).2.1,
            fewPair temp1 temp2 bag⟩
      refine ⟨eat, ?_, realises⟩
      simp [Cards._checkChi, member]
  | santa double point =>
      obtain ⟨different, bag⟩ | ⟨same, bag⟩ := santa_bag_at valid place
      · obtain ⟨held1, -, twice⟩ := pair_of_available bag available
        have twoHeld : cards.getCardCount (makeCard card.getPoint double) = 2 := by
          have atLeast := twice rfl
          have below := (fewPair _ _ bag).1
          omega
        refine ⟨_, ?_, chiEat_realises_santa double double point bag⟩
        cases double
        · have big : card.isBig = true := by simpa using different
          simp [Cards._checkChi, pushIf, big, twoHeld]
        · have small : card.isBig = false := by simpa using different
          simp [Cards._checkChi, pushIf, small, twoHeld]
      · obtain ⟨held1, held2, -⟩ := pair_of_available bag available
        obtain ⟨below1, below2⟩ := fewPair _ _ bag
        refine ⟨_, ?_, chiEat_realises_santa card.isBig double point bag⟩
        have together : 2 ≤ cards.getCardCount (makeCard card.getPoint false) +
            cards.getCardCount (makeCard card.getPoint true) := by
          omega
        simp [Cards._checkChi, pushIf, held1, held2, below1, below2, together]

/-! ## Taking the cards of an option -/

private theorem ChiOption.held {cards : Cards} {card : Card} {eat : EatCard}
    (option : ChiOption cards card eat) :
    ∃ temp1 temp2, eat.cards = [temp1, temp2] ∧ 0 < cards.getCardCount temp1 ∧
      0 < (cards.optCardCount temp1 (-1)).getCardCount temp2 := by
  obtain ⟨temp1, temp2, shape, held1, held2, twice⟩ := option.pair
  refine ⟨temp1, temp2, shape, held1, ?_⟩
  rw [Cards.getCardCount_optCardCount _ (Cards.isValid_of_getCardCount_pos held1)]
  split
  · next same =>
    subst same
    have := twice rfl
    omega
  · omega

theorem ChiOption.bag_eq {cards : Cards} {card : Card} {eat : EatCard}
    (option : ChiOption cards card eat) :
    cards.bag = (eat.cards : Multiset Card) +
      ((cards.optCardCount (eat.card 0) (-1)).optCardCount (eat.card 1) (-1)).bag := by
  obtain ⟨temp1, temp2, shape, held, after⟩ := option.held
  simp only [EatCard.card, shape, List.getD_cons_zero, List.getD_cons_succ]
  rw [Cards.bag_eq_cons held, Cards.bag_eq_cons after]
  rfl

theorem ChiOption.nonneg {cards : Cards} {card : Card} {eat : EatCard}
    (option : ChiOption cards card eat) (nonneg : cards.Nonneg) :
    ((cards.optCardCount (eat.card 0) (-1)).optCardCount (eat.card 1) (-1)).Nonneg := by
  obtain ⟨temp1, temp2, shape, held, after⟩ := option.held
  simp only [EatCard.card, shape, List.getD_cons_zero, List.getD_cons_succ]
  exact (nonneg.optCardCount_neg held).optCardCount_neg after

theorem ChiOption.cardXi_eq {cards : Cards} {card : Card} {eat : EatCard}
    (option : ChiOption cards card eat) : HuSearch.cardXi eat card = (eat.points : Int) := by
  obtain ⟨combo, realises⟩ := option.combo
  have inside : card ∈ combo.bag := by
    rw [← realises.cards, option.eatCard]
    exact Multiset.mem_cons_self _ _
  have place := combo_place inside
  rw [realises.points, HuSearch.cardXi, realises.type]
  cases combo with
  | run big low =>
      obtain ⟨rfl, -⟩ := place
      by_cases first : low = 0
      · cases big : card.isBig <;> simp [Combo.type, Combo.points, first]
      · simp [Combo.type, Combo.points, first]
  | hong big =>
      obtain ⟨rfl, -⟩ := place
      cases big : card.isBig <;> simp [Combo.type, Combo.points]
  | santa double point => simp [Combo.type, Combo.points]

end CLibs.Cardlib
