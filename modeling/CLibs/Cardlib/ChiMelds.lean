import CLibs.Cardlib.ChiEnumeration

/-!
# The sets of melds

What the two enumerators list, without the order of the melds and of their cards, against
the melds of the rules.
-/

set_option autoImplicit false
set_option linter.style.nameCheck false

namespace CLibs.Cardlib

open Card

/-- The size of the cards, of which a santa has two. -/
def Combo.big : Combo → Bool
  | .run big _ => big
  | .hong big => big
  | .santa double _ => double

/-- A meld as a type, a size, the card that is taken and the bag of the other two. -/
abbrev Meld := EatType × Bool × Card × Multiset Card

def EatCard.meld (eat : EatCard) : Meld := (eat.type, eat.big, eat.eatCard, eat.cards)

/-- The melds of a list, in no order. -/
def meldSet (eats : List EatCard) : Set Meld := { meld | ∃ eat ∈ eats, eat.meld = meld }

/-- The two cards can be taken from the counts. -/
def Cards.Available (cards : Cards) (a b : Card) : Prop :=
  0 < cards.getCardCount a ∧ 0 < cards.getCardCount b ∧ (a = b → 2 ≤ cards.getCardCount a)

/-- The melds of the rules with `card` and two cards that can be taken. -/
def ruleMelds (cards : Cards) (card : Card) : Set Meld :=
  { meld | ∃ (combo : Combo) (a b : Card), card ::ₘ {a, b} = combo.bag ∧ cards.Available a b ∧
    meld = (combo.type, combo.big, card, {a, b}) }

/-! ## The size of a meld -/

/-- The size that the enumerators note: that of two equal cards in a santa, and otherwise
that of the card. -/
def Sized (card : Card) (eat : EatCard) : Prop :=
  ∃ a b, eat.cards = [a, b] ∧
    eat.big = if eat.type = .eatSanta ∧ a = b then a.isBig else card.isBig

theorem sized_of_ne_santa {type : EatType} (other : type ≠ .eatSanta) (card a b : Card) :
    Sized card (chiEat type card.isBig card a b) :=
  ⟨a, b, rfl, (if_neg fun both => other both.1).symm⟩

theorem sized_run (card a b : Card) (first : Prop) [Decidable first] :
    Sized card (chiEat (if first then .eat123 else .eatShunZi) card.isBig card a b) := by
  refine sized_of_ne_santa ?_ card a b
  split
  · decide
  · decide

theorem mem_pushIf {cond : Prop} [Decidable cond] {eat entry : EatCard} :
    eat ∈ pushIf cond entry ↔ cond ∧ eat = entry := by
  by_cases holds : cond
  · simp [pushIf, holds]
  · simp [pushIf, holds]

theorem sized_hongEats {ok : Int → Int → Prop} [DecidableRel ok] {cards : Cards} {card : Card}
    {eat : EatCard} (member : eat ∈ Cards.hongEats ok cards card) : Sized card eat := by
  simp only [Cards.hongEats] at member
  split_ifs at member <;> simp only [mem_pushIf, List.not_mem_nil] at member
  all_goals exact member.2 ▸ sized_of_ne_santa (by decide) ..

theorem sized_double {card : Card} (valid : card.isValid = true) (size : Bool) :
    Sized card (chiEat .eatSanta size card (makeCard card.getPoint size)
      (makeCard card.getPoint size)) := by
  have bounds := getPoint_bounds valid
  refine ⟨_, _, rfl, ?_⟩
  rw [if_pos ⟨rfl, rfl⟩, isBig_makeCard bounds.1 bounds.2]
  rfl

theorem sized_mixed {card : Card} (valid : card.isValid = true) :
    Sized card (chiEat .eatSanta card.isBig card (makeCard card.getPoint false)
      (makeCard card.getPoint true)) := by
  have bounds := getPoint_bounds valid
  refine ⟨_, _, rfl, (if_neg ?_).symm⟩
  rintro ⟨-, same⟩
  cases ((makeCard_inj bounds.1 bounds.2 bounds.1 bounds.2).mp same).2

theorem sized_of_mem_checkChi {cards : Cards} {card : Card} {eat : EatCard}
    (valid : card.isValid = true) (member : eat ∈ cards.__checkChi card) : Sized card eat := by
  simp only [Cards.__checkChi, List.mem_append, mem_pushIf] at member
  rcases member with (((((hong | run) | run) | run) | small) | large) | mixed
  · exact sized_hongEats hong
  · exact run.2 ▸ sized_run ..
  · exact run.2 ▸ sized_run ..
  · exact run.2 ▸ sized_run ..
  · exact small.2 ▸ sized_double valid false
  · exact large.2 ▸ sized_double valid true
  · exact mixed.2 ▸ sized_mixed valid

theorem sized_of_mem_playerChi {cards : Cards} {card : Card} {eat : EatCard}
    (valid : card.isValid = true) (member : eat ∈ cards._checkChi card) : Sized card eat := by
  simp only [Cards._checkChi, List.mem_append, mem_pushIf] at member
  rcases member with (((((run | run) | run) | small) | large) | mixed) | hong
  · exact run.2 ▸ sized_run ..
  · exact run.2 ▸ sized_run ..
  · exact run.2 ▸ sized_run ..
  · exact small.2 ▸ sized_double valid false
  · exact large.2 ▸ sized_double valid true
  · exact mixed.2 ▸ sized_mixed valid
  · exact sized_hongEats hong

/-- The size of a santa is that of two of its three cards. -/
theorem EatCard.Realises.big_eq {eat : EatCard} {combo : Combo} (realises : eat.Realises combo)
    (sized : Sized eat.eatCard eat) : eat.big = combo.big := by
  have plain : ∀ combo : Combo, combo.type ≠ .eatSanta →
      ∀ card ∈ combo.cards, card.isBig = combo.big := by
    decide
  have majority : ∀ combo : Combo, combo.type = .eatSanta →
      combo.big = decide (2 ≤ combo.cards.countP Card.isBig) := by
    decide
  have apart : ∀ combo : Combo, combo.type = .eatSanta →
      ∀ a ∈ combo.cards, ∀ b ∈ combo.cards, a.isBig = b.isBig → a = b := by
    decide
  obtain ⟨a, b, shape, flag⟩ := sized
  have perm : [eat.eatCard, a, b].Perm combo.cards := by
    have cards := realises.cards
    rw [shape] at cards
    exact Multiset.coe_eq_coe.mp cards
  have inside : ∀ card ∈ [eat.eatCard, a, b], card ∈ combo.cards := fun _ => perm.mem_iff.mp
  by_cases santa : combo.type = .eatSanta
  · rw [flag, majority combo santa, ← perm.countP_eq]
    by_cases same : a = b
    · subst same
      rw [if_pos ⟨realises.type.trans santa, rfl⟩]
      cases size : a.isBig <;> cases card : eat.eatCard.isBig <;> simp [size, card]
    · have sizes : a.isBig ≠ b.isBig := fun equal =>
        same (apart combo santa a (inside a (by simp)) b (inside b (by simp)) equal)
      rw [if_neg fun both => same both.2]
      cases first : a.isBig <;> cases second : b.isBig <;> cases card : eat.eatCard.isBig <;>
        simp_all
  · rw [flag, if_neg fun both => santa (realises.type ▸ both.1)]
    exact plain combo santa _ (inside _ (by simp))

/-! ## The sets -/

section Sets

variable {cards : Cards} {card : Card} {eat : EatCard} {combo : Combo} {a b : Card}

theorem meld_eq (option : ChiOption cards card eat) (sized : Sized card eat)
    (realises : eat.Realises combo) (bag : card ::ₘ {a, b} = combo.bag) :
    eat.meld = (combo.type, combo.big, card, {a, b}) := by
  have same := option.eatCard
  subst same
  have others : (eat.cards : Multiset Card) = {a, b} :=
    (Multiset.cons_inj_right _).mp (realises.cards.trans bag.symm)
  rw [EatCard.meld, realises.type, realises.big_eq sized, others]

theorem mem_ruleMelds (option : ChiOption cards card eat) (sized : Sized card eat) :
    eat.meld ∈ ruleMelds cards card := by
  obtain ⟨combo, realises⟩ := option.combo
  obtain ⟨a, b, shape, available⟩ := option.pair
  have bag : card ::ₘ {a, b} = combo.bag := by
    rw [← realises.cards, option.eatCard, shape]
    rfl
  exact ⟨combo, a, b, bag, available, meld_eq option sized realises bag⟩

theorem Cards.Available.bag_le (available : cards.Available a b) : {a, b} ≤ cards.bag := by
  obtain ⟨first, second, twice⟩ := available
  rw [Multiset.insert_eq_cons, Multiset.le_iff_count]
  intro x
  rw [Multiset.count_cons, Multiset.count_singleton, Cards.count_bag]
  by_cases isFirst : x = a
  · subst isFirst
    by_cases isSecond : x = b
    · have held := twice isSecond
      rw [if_pos isSecond, if_pos rfl]
      omega
    · rw [if_neg isSecond, if_pos rfl]
      omega
  · rw [if_neg isFirst]
    by_cases isSecond : x = b
    · subst isSecond
      rw [if_pos rfl]
      omega
    · rw [if_neg isSecond]
      exact Nat.zero_le _

theorem getCardCount_lt {bound : Int} (few : ∀ i, 0 ≤ cards i ∧ cards i < bound)
    (card : Card) : cards.getCardCount card < bound := by
  cases valid : card.isValid with
  | true =>
      obtain ⟨i, rfl⟩ := exists_cardAt valid
      rw [Cards.getCardCount_cardAt]
      exact (few i).2
  | false =>
      have positive := few 0
      simp only [Cards.getCardCount, valid]
      exact positive.1.trans_lt positive.2

theorem meldSet_subset {eats : List EatCard}
    (sound : ∀ eat ∈ eats, ChiOption cards card eat ∧ Sized card eat) :
    meldSet eats ⊆ ruleMelds cards card := by
  rintro _ ⟨eat, member, rfl⟩
  exact mem_ruleMelds (sound eat member).1 (sound eat member).2

/-- A list of melds of the rules that has every combination has every meld. -/
theorem meldSet_eq {eats : List EatCard}
    (sound : ∀ eat ∈ eats, ChiOption cards card eat ∧ Sized card eat)
    (complete : ∀ combo : Combo, card ∈ combo.bag → combo.bag ≤ card ::ₘ cards.bag →
      ∃ eat ∈ eats, eat.Realises combo) :
    meldSet eats = ruleMelds cards card := by
  refine (meldSet_subset sound).antisymm ?_
  rintro _ ⟨combo, a, b, bag, available, rfl⟩
  have inside : card ∈ combo.bag := bag ▸ Multiset.mem_cons_self _ _
  have within : combo.bag ≤ card ::ₘ cards.bag :=
    bag ▸ (Multiset.cons_le_cons_iff _).mpr available.bag_le
  obtain ⟨eat, member, realises⟩ := complete combo inside within
  exact ⟨eat, member, meld_eq (sound eat member).1 (sound eat member).2 realises bag⟩

theorem sound_checkChi (valid : card.isValid = true) :
    ∀ eat ∈ cards.__checkChi card, ChiOption cards card eat ∧ Sized card eat :=
  fun _ member => ⟨chiOption_of_mem_checkChi valid member, sized_of_mem_checkChi valid member⟩

theorem sound_playerChi (valid : card.isValid = true) :
    ∀ eat ∈ cards._checkChi card, ChiOption cards card eat ∧ Sized card eat :=
  fun _ member =>
    ⟨(chiOption_of_mem_playerChi valid member).1, sized_of_mem_playerChi valid member⟩

/-- Without a triple in the counts both enumerators list exactly the melds of the rules, and
whatever the counts are, they list no others. -/
theorem enumerators_list_rule_melds (cards : Cards) (card : Card) (valid : card.isValid = true) :
    ((∀ i, 0 ≤ cards i ∧ cards i ≤ 2) →
        meldSet (cards.__checkChi card) = ruleMelds cards card ∧
          meldSet (cards._checkChi card) = ruleMelds cards card) ∧
      meldSet (cards.__checkChi card) ⊆ ruleMelds cards card ∧
        meldSet (cards._checkChi card) ⊆ ruleMelds cards card := by
  refine ⟨fun range => ?_, meldSet_subset (sound_checkChi valid),
    meldSet_subset (sound_playerChi valid)⟩
  have few := getCardCount_lt fun i => ⟨(range i).1, Int.lt_add_one_of_le (range i).2⟩
  exact ⟨meldSet_eq (sound_checkChi valid) fun _ inside within =>
      exists_mem_checkChi inside within fun _ _ => few _,
    meldSet_eq (sound_playerChi valid) fun _ inside within =>
      exists_mem_playerChi inside within fun _ _ => few _⟩

/-- Around the small two, with two copies of every card. -/
theorem enumerators_list_rule_melds_two :
    (meldSet (Cards.__checkChi (fun _ => 2) (makeCard 2 false)) =
          ruleMelds (fun _ => 2) (makeCard 2 false) ∧
        meldSet (Cards._checkChi (fun _ => 2) (makeCard 2 false)) =
          ruleMelds (fun _ => 2) (makeCard 2 false)) ∧
      meldSet (Cards.__checkChi (fun _ => 2) (makeCard 2 false)) ⊆
          ruleMelds (fun _ => 2) (makeCard 2 false) ∧
        meldSet (Cards._checkChi (fun _ => 2) (makeCard 2 false)) ⊆
          ruleMelds (fun _ => 2) (makeCard 2 false) := by
  have listed := enumerators_list_rule_melds (fun _ => 2) (makeCard 2 false) (by decide)
  exact ⟨listed.1 (by decide), listed.2⟩

end Sets

end CLibs.Cardlib
