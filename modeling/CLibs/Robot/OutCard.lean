import CLibs.Cardlib.HandPartition

/-!
# The robot's discard

`Client::__outCard` goes over the groups of the hand four times, each time for the first
group of one kind, and throws the front card of the last one found. Which group comes
first is up to the final sort of `getHandCards`; that the front can be thrown is not.
-/

set_option autoImplicit false
set_option linter.style.nameCheck false

namespace CLibs.Robot

open Cardlib HandCards

/-- `front()` of a group. Each loop asks for the size first. -/
def front (group : List Card) : Card := group.headD .invalid

/-- `back()` of a group. -/
def back (group : List Card) : Card := group.getLastD .invalid

/-- The tests of the four loops. The number 27 is no card. -/
def passes : List (List Card → Bool) :=
  [fun group => decide (3 ≤ group.length ∧ front group ≠ back group ∧ front group ≠ .ofVal 27),
    fun group => decide (group.length = 2 ∧ front group = back group ∧ front group ≠ .ofVal 27),
    fun group => decide (group.length = 2 ∧ front group ≠ back group ∧ front group ≠ .ofVal 27),
    fun group => decide (group.length = 1 ∧ front group ≠ .ofVal 27)]

/-- One loop: the first group that passes the test replaces what was selected before. -/
def selectPass (vcards : List (List Card)) (cardval : Card) (test : List Card → Bool) : Card :=
  match vcards.find? test with
  | some group => front group
  | none => cardval

/-- `Client::__outCard`: the card of the packet that is sent, if one is. -/
def __outCard (std : GroupSort) (handcards : HandCards) : Option Card :=
  let vcards := handcards.getHandCards std
  let cardval := passes.foldl (selectPass vcards) .invalid
  if cardval = .ofVal 0 then none else some cardval

/-! ## Which groups the loops find -/

theorem selectPass_foldl (vcards : List (List Card)) (tests : List (List Card → Bool))
    (start : Card) :
    let selected := tests.foldl (selectPass vcards) start
    (∃ test ∈ tests, ∃ group ∈ vcards, test group = true ∧ selected = front group) ∨
      (selected = start ∧ ∀ test ∈ tests, ∀ group ∈ vcards, test group = false) := by
  induction tests using List.reverseRecOn with
  | nil => exact .inr ⟨rfl, by simp⟩
  | append_singleton tests last ih =>
      rw [List.foldl_append, List.foldl_cons, List.foldl_nil]
      unfold selectPass
      cases found : vcards.find? last with
      | some group =>
          exact .inl ⟨last, by simp, group, List.mem_of_find?_eq_some found,
            List.find?_some found, rfl⟩
      | none =>
          rcases ih with ⟨test, member, group, inCards, passed, same⟩ | ⟨same, failed⟩
          · exact .inl ⟨test, List.mem_append_left _ member, group, inCards, passed, same⟩
          · refine .inr ⟨same, ?_⟩
            intro test member group inCards
            rcases List.mem_append.mp member with old | new
            · exact failed test old group inCards
            · rw [List.mem_singleton.mp new]
              simpa using List.find?_eq_none.mp found group inCards

/-! ## The groups of a hand -/

variable {cards : Cards} {group : List Card}

theorem front_mem (some : group ≠ []) : front group ∈ group := by
  cases group with
  | nil => exact absurd rfl some
  | cons card group => exact List.mem_cons_self

theorem front_replicate (num : Nat) (card : Card) :
    front (List.replicate num card) = back (List.replicate num card) := by
  cases num with
  | zero => rfl
  | succ num =>
      rw [front, back, List.replicate_succ, List.headD_cons, ← List.replicate_succ,
        List.replicate_succ', List.getLastD_concat]

theorem front_ne_back (nodup : group.Nodup) (many : 2 ≤ group.length) :
    front group ≠ back group := by
  cases group with
  | nil => simp at many
  | cons card rest =>
      cases rest with
      | nil => simp at many
      | cons next rest =>
          intro same
          simp only [front, back, List.headD_cons, List.getLastD_cons] at same
          have later : card ∈ next :: rest := same ▸ List.getLastD_mem_cons
          exact (List.nodup_cons.mp nodup).1 later

/-- The front of a group that is not a group of three or more equal cards is held once
or twice. -/
theorem front_playable (piece : Grouping.Piece cards group)
    (notMany : group.length < 3 ∨ front group ≠ back group) :
    0 < cards.getCardCount (front group) ∧ cards.getCardCount (front group) < 3 := by
  have member := front_mem piece.some
  have whole := (piece.whole _ member).2
  rcases piece.shape with nodup | repeats
  · rw [List.count_eq_one_of_mem nodup member] at whole
    omega
  · cases repeats with
    | many i three =>
        have length : (Grouping.manyOf cards i).length = (cards i).toNat := List.length_replicate ..
        rcases notMany with short | differ
        · omega
        · exact absurd (front_replicate _ _) differ
    | pair card held => simp [front, held]
    | santa card pair held => simp [front, held]

theorem front_ne_invalid (piece : Grouping.Piece cards group) : front group ≠ .invalid := by
  intro same
  have valid := (piece.whole _ (front_mem piece.some)).1
  rw [same] at valid
  cases valid

/-- A group with a card that is held less than three times is found by one of the loops. -/
theorem passes_of_few (piece : Grouping.Piece cards group) {card : Card} (member : card ∈ group)
    (few : cards.getCardCount card < 3) : ∃ test ∈ passes, test group = true := by
  have valid : front group ≠ .ofVal 27 := front_ne_invalid piece
  have length := List.length_pos_iff.mpr piece.some
  have large : 3 ≤ group.length → front group ≠ back group →
      ∃ test ∈ passes, test group = true := fun three differ =>
    ⟨_, List.mem_cons_self, decide_eq_true ⟨three, differ, valid⟩⟩
  rcases piece.shape with nodup | repeats
  · by_cases three : 3 ≤ group.length
    · exact large three (front_ne_back nodup (by omega))
    · by_cases two : group.length = 2
      · refine ⟨_, List.mem_cons_of_mem _ (List.mem_cons_of_mem _ List.mem_cons_self), ?_⟩
        exact decide_eq_true ⟨two, front_ne_back nodup (by omega), valid⟩
      · refine ⟨_, List.mem_cons_of_mem _ (List.mem_cons_of_mem _ (List.mem_cons_of_mem _
          List.mem_cons_self)), ?_⟩
        exact decide_eq_true ⟨by omega, valid⟩
  · cases repeats with
    | many i three =>
        rw [List.eq_of_mem_replicate member, Cards.getCardCount_cardAt] at few
        omega
    | pair card held =>
        exact ⟨_, List.mem_cons_of_mem _ List.mem_cons_self, decide_eq_true ⟨rfl, rfl, valid⟩⟩
    | santa card pair single double point size =>
        refine large (by simp) ?_
        intro same
        have equal : card = pair := same
        rw [equal] at single
        omega

/-- What the loops look for is no group of three or more equal cards. -/
theorem notMany_of_passes {test : List Card → Bool} (isPass : test ∈ passes)
    (passed : test group = true) : group.length < 3 ∨ front group ≠ back group := by
  simp only [passes, List.mem_cons, List.not_mem_nil, or_false] at isPass
  rcases isPass with rfl | rfl | rfl | rfl
  · exact .inr (of_decide_eq_true passed).2.1
  · exact .inl (by have := of_decide_eq_true passed; omega)
  · exact .inr (of_decide_eq_true passed).2.1
  · exact .inl (by have := of_decide_eq_true passed; omega)

/-! ## The discard -/

theorem getActiveCard_pos_iff (s : HandCards) :
    0 ≤ s.getActiveCard ∧ (0 < s.getActiveCard ↔ ∃ i, 0 < s.cards i ∧ s.cards i < 3) := by
  have loop : ∀ positions : List (Fin 20),
      let number := positions.foldl (fun numActive i =>
        if 0 < s.cards i ∧ s.cards i < 3 then numActive + s.cards i else numActive) (0 : Int)
      0 ≤ number ∧ (0 < number ↔ ∃ i ∈ positions, 0 < s.cards i ∧ s.cards i < 3) := by
    intro positions
    induction positions using List.reverseRecOn with
    | nil => simp
    | append_singleton positions last ih =>
        obtain ⟨nonneg, iff⟩ := ih
        rw [List.foldl_append, List.foldl_cons, List.foldl_nil]
        split
        · next active =>
          refine ⟨by omega, ?_⟩
          exact iff_of_true (by omega) ⟨last, by simp, active⟩
        · next inactive =>
          refine ⟨nonneg, iff.trans ?_⟩
          simp [or_and_right, exists_or, inactive]
  simpa [HandCards.getActiveCard] using loop (List.finRange 20)

theorem checkOut_iff (s : HandCards) (card : Card) :
    s.checkOut card = true ↔ 0 < s.cards.getCardCount card ∧ s.cards.getCardCount card < 3 := by
  unfold HandCards.checkOut Cards.getCardCount
  cases card.isValid <;> simp

/-- The robot throws a card that it may throw, and gives up only when it has none. -/
theorem outCard_legal (std : GroupSort) (handcards : HandCards)
    (copies : ∀ i, 0 ≤ handcards.cards i ∧ handcards.cards i ≤ 4) :
    (0 < handcards.getActiveCard →
      ∃ card, __outCard std handcards = some card ∧ handcards.checkOut card = true) ∧
    (__outCard std handcards = none → handcards.getActiveCard = 0) := by
  have nonneg : ∀ i, 0 ≤ handcards.cards i := fun i => (copies i).1
  have perm : (handcards.getHandCards std).Perm (Grouping.groups handcards.cards) := std.perm _ _
  have pieces : ∀ group ∈ handcards.getHandCards std, Grouping.Piece handcards.cards group :=
    fun group member => (Grouping.groups_sound nonneg).2 group (perm.mem_iff.mp member)
  obtain ⟨low, active⟩ := getActiveCard_pos_iff handcards
  have throws : 0 < handcards.getActiveCard →
      ∃ card, __outCard std handcards = some card ∧ handcards.checkOut card = true := by
    intro some
    obtain ⟨i, held, few⟩ := active.mp some
    have grouped := Grouping.count_flatten_groups nonneg (cardAt i)
    rw [Cards.getCardCount_cardAt] at grouped
    have there : 0 < (Grouping.groups handcards.cards).flatten.count (cardAt i) := by omega
    obtain ⟨group, inGroups, member⟩ := List.mem_flatten.mp (List.count_pos_iff.mp there)
    have inHand := perm.mem_iff.mpr inGroups
    obtain ⟨test, isPass, passed⟩ := passes_of_few (pieces group inHand) member
      (by rwa [Cards.getCardCount_cardAt])
    unfold __outCard
    dsimp only
    rcases selectPass_foldl (handcards.getHandCards std) passes .invalid with
      ⟨found, foundPass, other, otherIn, otherPassed, selected⟩ | ⟨-, failed⟩
    · have piece := pieces other otherIn
      have playable := front_playable piece (notMany_of_passes foundPass otherPassed)
      have valid : front other ≠ .ofVal 0 := front_ne_invalid piece
      rw [selected, if_neg valid]
      exact ⟨_, rfl, (checkOut_iff _ _).mpr playable⟩
    · rw [failed test isPass group inHand] at passed
      cases passed
  refine ⟨throws, ?_⟩
  intro gaveUp
  by_contra some
  obtain ⟨card, thrown, -⟩ := throws (by omega)
  rw [gaveUp] at thrown
  cases thrown

/-- A hand of three equal cards and a pair: the pair is thrown. -/
theorem outCard_legal_hand :
    let hand : HandCards := { cards := ![0, 0, 0, 0, 3, 0, 0, 2, 0, 0, 0, 0, 0, 0, 0, 0, 0, 0, 0, 0] }
    ∃ card, __outCard .insertion hand = some card ∧ hand.checkOut card = true :=
  (outCard_legal .insertion _ (by decide)).1 (by decide)

end CLibs.Robot
