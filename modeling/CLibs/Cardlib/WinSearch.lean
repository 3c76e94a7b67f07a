import CLibs.Cardlib.ChiEnumeration

/-!
# The win search as a search tree

`__checkHu` restores the shared count array and appends to the plan list
exactly the plans at the leaves of a search tree. The tree is stated without
fuel, so more fuel than cards is always enough.
-/

set_option autoImplicit false

namespace CLibs.Cardlib

namespace HuSearch

def Edible (cards : Cards) (temp : Card) : Bool :=
  !((cards.optCardCount temp (-1)).__checkChi temp).isEmpty

def takeMeld (cards : Cards) (temp : Card) (eat : EatCard) : Cards :=
  ((cards.optCardCount temp (-1)).optCardCount (eat.card 0) (-1)).optCardCount (eat.card 1) (-1)

/-- The plans below a node of the search tree. -/
inductive Wins (paoTimes : UInt8) : Cards → Int → List EatCard → EatHuCards → Prop where
  | single {cards : Cards} {xi : Int} {eats : List EatCard} {temp : Card} {eat : EatCard}
      {entry : EatHuCards} :
      (dan cards).find? (Edible cards) = some temp →
      eat ∈ (cards.optCardCount temp (-1)).__checkChi temp →
      Wins paoTimes (takeMeld cards temp eat) (xi + cardXi eat temp) (eats ++ [eat]) entry →
      Wins paoTimes cards xi eats entry
  | pair {cards : Cards} {xi : Int} {eats : List EatCard} {temp : Card} {eat : EatCard}
      {entry : EatHuCards} :
      dan cards = [] → 1 < (dui cards).length → temp ∈ dui cards →
      eat ∈ (cards.optCardCount temp (-1)).__checkChi temp →
      Wins paoTimes (takeMeld cards temp eat) (xi + cardXi eat temp) (eats ++ [eat]) entry →
      Wins paoTimes cards xi eats entry
  | finish {cards : Cards} {xi : Int} {eats : List EatCard} {entry : EatHuCards} :
      dan cards = [] → (dui cards).length ≤ 1 →
      entry ∈ (finish paoTimes xi eats (dui cards) ⟨cards, []⟩).list →
      Wins paoTimes cards xi eats entry

/-- From `before` to `after` the count array is restored and the list grows by
the plans in `entries`. -/
structure Adds (before after : HuSearch) (entries : EatHuCards → Prop) : Prop where
  cards : after.cards = before.cards
  list : ∀ entry, entry ∈ after.list ↔ entry ∈ before.list ∨ entries entry

theorem Adds.refl (search : HuSearch) : Adds search search (fun _ => False) :=
  ⟨rfl, by simp⟩

theorem Adds.trans {first middle last : HuSearch} {entries more : EatHuCards → Prop}
    (one : Adds first middle entries) (two : Adds middle last more) :
    Adds first last (fun entry => entries entry ∨ more entry) := by
  refine ⟨two.cards.trans one.cards, ?_⟩
  intro entry
  rw [two.list, one.list, or_assoc]

theorem Adds.congr {before after : HuSearch} {entries more : EatHuCards → Prop}
    (adds : Adds before after entries) (same : ∀ entry, entries entry ↔ more entry) :
    Adds before after more :=
  ⟨adds.cards, fun entry => (adds.list entry).trans (or_congr_right (same entry))⟩

theorem Adds.foldl {Item : Type} {step : HuSearch → Item → HuSearch} {cards : Cards}
    {entries : Item → EatHuCards → Prop} {items : List Item}
    (each : ∀ item ∈ items, ∀ search, search.cards = cards →
      Adds search (step search item) (entries item))
    (search : HuSearch) (start : search.cards = cards) :
    Adds search (items.foldl step search) (fun entry => ∃ item ∈ items, entries item entry) := by
  induction items generalizing search with
  | nil => exact (Adds.refl search).congr (by simp)
  | cons item items ih =>
      have first := each item List.mem_cons_self search start
      have rest := ih (fun other member => each other (List.mem_cons_of_mem _ member))
        (step search item) (first.cards.trans start)
      exact (first.trans rest).congr (by simp)

@[simp] theorem optCardCount_cancel (search : HuSearch) (card : Card) :
    (search.optCardCount card (-1)).optCardCount card 1 = search := by
  simp [optCardCount]

theorem getCardCount_of_mem_dan {cards : Cards} {temp : Card} (member : temp ∈ dan cards) :
    cards.getCardCount temp = 1 ∨ cards.getCardCount temp = 3 := by
  obtain ⟨i, selected, rfl⟩ := List.mem_map.mp member
  simpa using (List.mem_filter.mp selected).2

theorem getCardCount_of_mem_dui {cards : Cards} {temp : Card} (member : temp ∈ dui cards) :
    cards.getCardCount temp = 2 ∨ cards.getCardCount temp = 3 := by
  obtain ⟨i, selected, rfl⟩ := List.mem_map.mp member
  simpa using (List.mem_filter.mp selected).2

private theorem pair_held {cards : Cards} {temp : Card} (member : temp ∈ dui cards) :
    0 < cards.getCardCount temp := by
  have := getCardCount_of_mem_dui member
  omega

theorem bag_takeMeld {cards : Cards} {temp : Card} {eat : EatCard}
    (held : 0 < cards.getCardCount temp)
    (member : eat ∈ (cards.optCardCount temp (-1)).__checkChi temp) :
    cards.bag = temp ::ₘ (eat.cards : Multiset Card) + (takeMeld cards temp eat).bag := by
  have option := chiOption_of_mem_checkChi (Cards.isValid_of_getCardCount_pos held) member
  rw [Cards.bag_eq_cons held, option.bag_eq, Multiset.cons_add]
  rfl

theorem total_takeMeld {cards : Cards} {temp : Card} {eat : EatCard}
    (held : 0 < cards.getCardCount temp)
    (member : eat ∈ (cards.optCardCount temp (-1)).__checkChi temp) :
    (takeMeld cards temp eat).total < cards.total := by
  have split := congrArg Multiset.card (bag_takeMeld held member)
  rw [Cards.card_bag, Multiset.card_add, Multiset.card_cons, Cards.card_bag] at split
  omega

section Recursion

variable {paoTimes : UInt8} {bound : Nat} {recurse : HuSearch → Int → List EatCard → HuSearch}

/-- What the recursive calls are known to do on fewer than `bound` cards. -/
def Explores (paoTimes : UInt8) (bound : Nat)
    (recurse : HuSearch → Int → List EatCard → HuSearch) : Prop :=
  ∀ search xi eats, search.cards.total < bound →
    Adds search (recurse search xi eats) (Wins paoTimes search.cards xi eats)

theorem eatEach_adds (explores : Explores paoTimes bound recurse) {cards : Cards} {temp : Card}
    (xi : Int) (eats : List EatCard) {eat : EatCard} (held : 0 < cards.getCardCount temp)
    (small : cards.total ≤ bound)
    (member : eat ∈ (cards.optCardCount temp (-1)).__checkChi temp)
    (search : HuSearch) (start : search.cards = cards.optCardCount temp (-1)) :
    Adds search (eatEach recurse temp xi eats search eat)
      (Wins paoTimes (takeMeld cards temp eat) (xi + cardXi eat temp) (eats ++ [eat])) := by
  have fewer := total_takeMeld held member
  have child : ((search.optCardCount (eat.card 0) (-1)).optCardCount (eat.card 1) (-1)).cards =
      takeMeld cards temp eat := by
    simp [optCardCount, takeMeld, start]
  have adds := explores ((search.optCardCount (eat.card 0) (-1)).optCardCount (eat.card 1) (-1))
    (xi + cardXi eat temp) (eats ++ [eat]) (by rw [child]; omega)
  rw [child] at adds
  refine ⟨?_, adds.list⟩
  simp only [eatEach, optCardCount]
  rw [Cards.optCardCount_comm]
  have restored := adds.cards
  simp only [optCardCount] at restored
  rw [restored, Cards.optCardCount_cancel, Cards.optCardCount_cancel]

private theorem meldCard_adds (explores : Explores paoTimes bound recurse) {cards : Cards}
    {temp : Card} {xi : Int} {eats : List EatCard} (held : 0 < cards.getCardCount temp)
    (small : cards.total ≤ bound) (search : HuSearch) (start : search.cards = cards) :
    Adds search
      (((((search.optCardCount temp (-1)).cards.__checkChi temp).foldl
        (eatEach recurse temp xi eats) (search.optCardCount temp (-1)))).optCardCount temp 1)
      (fun entry => ∃ eat ∈ (cards.optCardCount temp (-1)).__checkChi temp,
        Wins paoTimes (takeMeld cards temp eat) (xi + cardXi eat temp) (eats ++ [eat]) entry) := by
  have counted : (search.optCardCount temp (-1)).cards = cards.optCardCount temp (-1) := by
    simp [optCardCount, start]
  have loop := Adds.foldl (fun eat member search start =>
    eatEach_adds explores xi eats held small member search start)
    (search.optCardCount temp (-1)) counted
  rw [counted]
  refine ⟨?_, loop.list⟩
  have restored := loop.cards
  simp only [optCardCount] at restored ⊢
  rw [restored, Cards.optCardCount_cancel]

theorem duiNext_adds (explores : Explores paoTimes bound recurse) {cards : Cards} {temp : Card}
    (xi : Int) (eats : List EatCard) (held : 0 < cards.getCardCount temp)
    (small : cards.total ≤ bound) (search : HuSearch) (start : search.cards = cards) :
    Adds search (duiNext recurse xi eats search temp)
      (fun entry => ∃ eat ∈ (cards.optCardCount temp (-1)).__checkChi temp,
        Wins paoTimes (takeMeld cards temp eat) (xi + cardXi eat temp) (eats ++ [eat]) entry) :=
  meldCard_adds explores held small search start

/-- The loop over the singles stops at the first one that can be melded. -/
theorem danLoop_spec (explores : Explores paoTimes bound recurse) {cards : Cards} (xi : Int)
    (eats : List EatCard) (small : cards.total ≤ bound) (search : HuSearch)
    (start : search.cards = cards) {singles : List Card}
    (held : ∀ temp ∈ singles, 0 < cards.getCardCount temp) :
    match singles.find? (Edible cards) with
    | none => danLoop recurse xi eats singles search = (search, false)
    | some temp => (danLoop recurse xi eats singles search).2 = true ∧
        Adds search (danLoop recurse xi eats singles search).1
          (fun entry => ∃ eat ∈ (cards.optCardCount temp (-1)).__checkChi temp,
            Wins paoTimes (takeMeld cards temp eat) (xi + cardXi eat temp)
              (eats ++ [eat]) entry) := by
  induction singles with
  | nil => rfl
  | cons temp rest ih =>
      have counted : (search.optCardCount temp (-1)).cards = cards.optCardCount temp (-1) := by
        simp [optCardCount, start]
      cases edible : Edible cards temp with
      | true =>
          have some : ((search.optCardCount temp (-1)).cards.__checkChi temp).isEmpty = false := by
            rw [counted]
            simpa [Edible] using edible
          rw [List.find?_cons_of_pos edible]
          simp only [danLoop, some, Bool.false_eq_true, if_false]
          exact ⟨trivial, meldCard_adds explores (held temp List.mem_cons_self) small search start⟩
      | false =>
          have none : ((search.optCardCount temp (-1)).cards.__checkChi temp).isEmpty = true := by
            rw [counted]
            simpa [Edible] using edible
          rw [List.find?_cons_of_neg (by simp [edible])]
          simp only [danLoop, none, if_true, optCardCount_cancel]
          exact ih fun other member => held other (List.mem_cons_of_mem _ member)

end Recursion

theorem finish_adds (paoTimes : UInt8) (xi : Int) (eats : List EatCard) (pairs : List Card)
    (search : HuSearch) :
    Adds search (finish paoTimes xi eats pairs search)
      (fun entry => entry ∈ (finish paoTimes xi eats pairs ⟨search.cards, []⟩).list) := by
  cases pairs with
  | nil =>
      simp only [finish]
      split
      · exact (Adds.refl search).congr (by simp)
      · exact ⟨rfl, by simp⟩
  | cons temp rest =>
      simp only [finish]
      split
      · exact (Adds.refl search).congr (by simp)
      · split
        · exact (Adds.refl search).congr (by simp)
        · exact ⟨rfl, by simp⟩

/-- With more fuel than cards, `__checkHu` restores the counts and adds exactly
the plans of the search tree. -/
theorem checkHu_adds (paoTimes : UInt8) (fuel : Nat) (search : HuSearch) (xi : Int)
    (eats : List EatCard) (enough : search.cards.total < fuel) :
    Adds search (__checkHu paoTimes fuel search xi eats)
      (Wins paoTimes search.cards xi eats) := by
  induction fuel generalizing search xi eats with
  | zero => omega
  | succ fuel ih =>
      have explores : Explores paoTimes fuel (__checkHu paoTimes fuel) := ih
      have small : search.cards.total ≤ fuel := by omega
      have singlesHeld : ∀ temp ∈ dan search.cards, 0 < search.cards.getCardCount temp := by
        intro temp member
        have := getCardCount_of_mem_dan member
        omega
      have loop := danLoop_spec explores xi eats small search rfl singlesHeld
      cases first : (dan search.cards).find? (Edible search.cards) with
      | some temp =>
          rw [first] at loop
          obtain ⟨returned, adds⟩ := loop
          simp only [__checkHu, returned, if_true]
          refine adds.congr fun entry => ⟨?_, ?_⟩
          · rintro ⟨eat, member, below⟩
            exact .single first member below
          · intro wins
            cases wins with
            | @single _ _ _ other eat _ otherFirst member below =>
                obtain rfl : other = temp := Option.some.inj (otherFirst.symm.trans first)
                exact ⟨eat, member, below⟩
            | pair noSingle => rw [noSingle] at first; cases first
            | finish noSingle => rw [noSingle] at first; cases first
      | none =>
          rw [first] at loop
          simp only [__checkHu, loop, Bool.false_eq_true, if_false]
          by_cases noSingle : dan search.cards = []
          · simp only [noSingle, List.isEmpty_nil, Bool.not_true, Bool.false_eq_true, if_false]
            by_cases several : 1 < (dui search.cards).length
            · rw [if_pos several]
              have pairs := Adds.foldl (fun temp member search start =>
                duiNext_adds explores xi eats (pair_held member) small search start) search rfl
              refine pairs.congr fun entry => ⟨?_, ?_⟩
              · rintro ⟨temp, member, eat, eatMember, below⟩
                exact .pair noSingle several member eatMember below
              · intro wins
                cases wins with
                | single found => rw [noSingle] at found; cases found
                | pair _ _ member eatMember below => exact ⟨_, member, _, eatMember, below⟩
                | finish _ few => omega
            · rw [if_neg several]
              refine (finish_adds paoTimes xi eats (dui search.cards) search).congr
                fun entry => ⟨?_, ?_⟩
              · exact .finish noSingle (by omega)
              · intro wins
                cases wins with
                | single found => rw [noSingle] at found; cases found
                | pair _ more => omega
                | finish _ _ member => exact member
          · have some : (dan search.cards).isEmpty = false := by simpa using noSingle
            simp only [some, Bool.not_false, if_true]
            refine (Adds.refl search).congr fun entry => ⟨False.elim, ?_⟩
            intro wins
            cases wins with
            | single found => rw [first] at found; cases found
            | pair empty => exact noSingle empty
            | finish empty => exact noSingle empty

end HuSearch

end CLibs.Cardlib
