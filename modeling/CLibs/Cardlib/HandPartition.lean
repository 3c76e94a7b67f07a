import CLibs.Cardlib.HandGroups

/-!
# The groups are the hand

Every step of `getHandCards` moves cards from the two maps into one new group: what is in
the groups and what is left in the maps is always the hand. The last two loops leave nothing
in the maps.
-/

set_option autoImplicit false

namespace CLibs.Cardlib

open General

namespace Grouping

/-- The groups with a card that is there more than once. -/
inductive Repeats (cards : Cards) : List Card → Prop where
  | many (i : Fin 20) : 3 ≤ cards i → Repeats cards (manyOf cards i)
  | pair (card : Card) : cards.getCardCount card = 2 → Repeats cards [card, card]
  | santa (card pair : Card) : cards.getCardCount card = 1 → cards.getCardCount pair = 2 →
      pair.getPoint = card.getPoint → pair.isBig = !card.isBig → Repeats cards [card, pair, pair]

/-- A group has all the cards of each value in it. -/
structure Piece (cards : Cards) (group : List Card) : Prop where
  some : group ≠ []
  whole : ∀ card ∈ group, card.isValid = true ∧ (group.count card : Int) = cards.getCardCount card
  shape : group.Nodup ∨ Repeats cards group

/-- What is in the groups and in the maps is the hand: single cards in `dan` and pairs in
`dui`. -/
structure Sound (cards : Cards) (s : Grouping) : Prop where
  dan : ∀ val, s.dan.get val 0 = 0 ∨ s.dan.get val 0 = 1 ∧ cards.held val = 1
  dui : ∀ val count, s.dui.lookup val = some count → count = 2 ∧ cards.held val = 2
  count : ∀ val, isCard val = true →
    (s.handCards.flatten.count (Card.ofVal val) : Int) + s.dan.get val 0 + s.dui.get val 0 =
      cards.held val
  pieces : ∀ group ∈ s.handCards, Piece cards group

variable {cards : Cards} {s : Grouping} {val : Int}

namespace Sound

theorem held_of_pos (sound : Sound cards s) (pos : 0 < s.dan.get val 0) : cards.held val = 1 := by
  rcases sound.dan val with none | ⟨-, held⟩
  · omega
  · exact held

theorem pos_iff (sound : Sound cards s) : 0 < s.dan.get val 0 ↔ s.dan.get val 0 ≠ 0 := by
  rcases sound.dan val with none | ⟨one, -⟩ <;> omega

theorem isCard_of_pos (sound : Sound cards s) (pos : 0 < s.dan.get val 0) : isCard val = true :=
  Cards.isCard_of_held (by rw [sound.held_of_pos pos]; decide)

theorem get_dui (sound : Sound cards s) (member : val ∈ s.dui) : s.dui.get val 0 = 2 := by
  obtain ⟨count, found⟩ := Option.isSome_iff_exists.mp (AList.lookup_isSome.mpr member)
  rw [Table.get, found, Option.getD_some]
  exact (sound.dui val count found).1

theorem held_of_mem (sound : Sound cards s) (member : val ∈ s.dui) : cards.held val = 2 := by
  obtain ⟨count, found⟩ := Option.isSome_iff_exists.mp (AList.lookup_isSome.mpr member)
  exact (sound.dui val count found).2

theorem push (sound : Sound cards s) {after : Grouping} {group : List Card}
    (piece : Piece cards group) (groups : after.handCards = s.handCards ++ [group])
    (dan : ∀ key, after.dan.get key 0 = 0 ∨ after.dan.get key 0 = s.dan.get key 0)
    (dui : ∀ key count, after.dui.lookup key = some count → s.dui.lookup key = some count)
    (moved : ∀ key, isCard key = true →
      (group.count (Card.ofVal key) : Int) + after.dan.get key 0 + after.dui.get key 0 =
        s.dan.get key 0 + s.dui.get key 0) : Sound cards after where
  dan := by
    intro key
    rcases dan key with none | same
    · exact .inl none
    · rw [same]
      exact sound.dan key
  dui := fun key count found => sound.dui key count (dui key count found)
  count := by
    intro key valid
    have before := sound.count key valid
    have now := moved key valid
    rw [groups, List.flatten_append, List.flatten_singleton, List.count_append]
    push_cast
    omega
  pieces := by
    intro other member
    rw [groups, List.mem_append, List.mem_singleton] at member
    rcases member with old | rfl
    · exact sound.pieces other old
    · exact piece

end Sound

/-! ## Single cards -/

/-- `after` is `dan` without the single cards of `keys`, and these cards. -/
structure Taken (dan : MapCards) (keys : List Int) (after : MapCards × List Card) : Prop where
  nodup : keys.Nodup
  there : ∀ key ∈ keys, 0 < dan.get key 0
  left : ∀ key, after.1.get key 0 = dan.get key 0 - if key ∈ keys then 1 else 0
  cards : after.2 = keys.map Card.ofVal

theorem Taken.one {dan : MapCards} (there : 0 < dan.get val 0) :
    Taken dan [val] (dan.dec val, [.ofVal val]) where
  nodup := List.nodup_singleton val
  there := by
    intro key member
    rwa [List.mem_singleton.mp member]
  left := by
    intro key
    rw [MapCards.get_dec]
    simp
  cards := rfl

theorem Taken.add {dan : MapCards} {keys : List Int} {after : MapCards × List Card} {key : Int}
    (taken : Taken dan keys after) (single : ∀ key, dan.get key 0 ≤ 1)
    (there : 0 < after.1.get key 0) :
    Taken dan (keys ++ [key]) (after.1.dec key, after.2 ++ [.ofVal key]) := by
  have left := taken.left key
  have new : key ∉ keys := by
    intro old
    rw [if_pos old] at left
    have := single key
    omega
  rw [if_neg new] at left
  refine ⟨?_, ?_, ?_, ?_⟩
  · rw [List.nodup_append]
    refine ⟨taken.nodup, List.nodup_singleton key, ?_⟩
    intro other member last lastMember
    rw [List.mem_singleton.mp lastMember]
    rintro rfl
    exact new member
  · intro other member
    rcases List.mem_append.mp member with old | last
    · exact taken.there other old
    · rw [List.mem_singleton.mp last]
      omega
  · intro other
    rw [MapCards.get_dec, taken.left]
    by_cases same : other = key
    · subst same
      simp [new]
    · simp [same]
  · rw [taken.cards, List.map_append]
    rfl

theorem Taken.pos_iff {dan : MapCards} {keys : List Int} {after : MapCards × List Card}
    (taken : Taken dan keys after) (single : ∀ key, dan.get key 0 ≤ 1) {key : Int} :
    0 < after.1.get key 0 ↔ 0 < dan.get key 0 ∧ key ∉ keys := by
  have left := taken.left key
  have few := single key
  by_cases member : key ∈ keys
  · rw [if_pos member] at left
    simp only [member, not_true_eq_false, and_false, iff_false]
    omega
  · rw [if_neg member, Int.sub_zero] at left
    rw [left]
    simp only [member, not_false_eq_true, and_true]

theorem Sound.take (sound : Sound cards s) {keys : List Int} {after : MapCards × List Card}
    {group : List Card} (taken : Taken s.dan keys after) (some : keys ≠ [])
    (perm : group.Perm after.2) :
    Sound cards { s with dan := after.1, handCards := s.handCards ++ [group] } := by
  rw [taken.cards] at perm
  have valid : ∀ key ∈ keys, isCard key = true :=
    fun key member => sound.isCard_of_pos (taken.there key member)
  have nodup : group.Nodup := by
    rw [perm.nodup_iff]
    refine List.Nodup.map_on ?_ taken.nodup
    intro key member other otherMember same
    exact (Card.ofVal_inj (valid key member) (valid other otherMember)).mp same
  refine sound.push ⟨?_, ?_, .inl nodup⟩ rfl ?_ (fun _ _ => id) ?_
  · rintro rfl
    exact some (List.map_eq_nil_iff.mp perm.nil_eq.symm)
  · intro card member
    obtain ⟨key, keyMember, rfl⟩ := List.mem_map.mp (perm.mem_iff.mp member)
    refine ⟨(Card.isValid_ofVal key).trans (valid key keyMember), ?_⟩
    rw [List.count_eq_one_of_mem nodup member]
    exact (sound.held_of_pos (taken.there key keyMember)).symm
  · intro key
    show after.1.get key 0 = 0 ∨ after.1.get key 0 = s.dan.get key 0
    rw [taken.left]
    split
    · next member =>
      have pos := taken.there key member
      rcases sound.dan key with none | ⟨one, -⟩
      · omega
      · exact .inl (by omega)
    · exact .inr (by omega)
  · intro key keyValid
    show (group.count (Card.ofVal key) : Int) + after.1.get key 0 + s.dui.get key 0 = _
    have member : Card.ofVal key ∈ group ↔ key ∈ keys := by
      rw [perm.mem_iff, List.mem_map]
      constructor
      · rintro ⟨other, otherMember, same⟩
        rwa [← (Card.ofVal_inj (valid other otherMember) keyValid).mp same]
      · exact fun isThere => ⟨key, isThere, rfl⟩
    rw [taken.left, nodup.count]
    simp only [member]
    split <;> push_cast <;> omega

theorem Sound.le_one (sound : Sound cards s) (key : Int) : s.dan.get key 0 ≤ 1 := by
  rcases sound.dan key with none | ⟨one, -⟩ <;> omega

/-! ## The first loop over `dan` -/

theorem Sound.taken_three (sound : Sound cards s) {key1 key2 : Int} (there : 0 < s.dan.get val 0)
    (differ : [key1, key2, val].Nodup) (there1 : 0 < s.dan.get key1 0)
    (there2 : 0 < s.dan.get key2 0) :
    Taken s.dan [key1, key2, val]
      (((s.dan.dec key1).dec key2).dec val, [key1, key2, val].map Card.ofVal) := by
  simp only [List.nodup_cons, List.mem_cons, List.not_mem_nil, or_false, not_or] at differ
  obtain ⟨⟨differ12, differ1⟩, differ2, -⟩ := differ
  have second := (Taken.one there1).add sound.le_one
    (by rw [MapCards.get_dec, if_neg (Ne.symm differ12)]; omega)
  exact second.add sound.le_one (by
    rw [MapCards.get_dec, if_neg (Ne.symm differ2), MapCards.get_dec, if_neg (Ne.symm differ1)]
    omega)

theorem Sound.takeThree (sound : Sound cards s) {key1 key2 : Int} {group : List Card}
    (there : 0 < s.dan.get val 0) (differ : [key1, key2, val].Nodup)
    (perm : group.Perm ([key1, key2, val].map Card.ofVal)) :
    ∀ t ∈ s.takeThree val key1 key2 group, Sound cards t := by
  intro t result
  unfold Grouping.takeThree at result
  split_ifs at result with both
  · cases result
    exact sound.take (sound.taken_three there differ both.1 both.2) (List.cons_ne_nil _ _) perm
  · cases result

theorem santa_piece {card pair : Card} (held : cards.getCardCount card = 1)
    (pairHeld : cards.getCardCount pair = 2) (point : pair.getPoint = card.getPoint)
    (size : pair.isBig = !card.isBig) : Piece cards [card, pair, pair] := by
  have differ : pair ≠ card := by
    rintro rfl
    omega
  refine ⟨List.cons_ne_nil _ _, ?_, .inr (.santa _ _ held pairHeld point size)⟩
  intro other member
  simp only [List.mem_cons, List.not_mem_nil, or_false, or_self] at member
  rcases member with rfl | rfl
  · refine ⟨Cards.isValid_of_getCardCount_pos (show 0 < cards.getCardCount other by omega), ?_⟩
    rw [List.count_cons_self, List.count_cons_of_ne differ, List.count_cons_of_ne differ]
    exact held.symm
  · refine ⟨Cards.isValid_of_getCardCount_pos (show 0 < cards.getCardCount other by omega), ?_⟩
    rw [List.count_cons_of_ne differ.symm, List.count_cons_self, List.count_cons_self]
    exact pairHeld.symm

theorem count_santa {key other : Int} (valid : isCard val = true) (pairValid : isCard key = true)
    (otherValid : isCard other = true) :
    ([Card.ofVal val, .ofVal key, .ofVal key].count (Card.ofVal other) : Int) =
      (if other = val then 1 else 0) + if other = key then 2 else 0 := by
  simp only [List.count_cons, List.count_nil, beq_iff_eq, Card.ofVal_inj valid otherValid,
    Card.ofVal_inj pairValid otherValid, eq_comm (b := other)]
  split_ifs <;> rfl

theorem Sound.takePair (sound : Sound cards s) {key : Int} (there : 0 < s.dan.get val 0)
    (point : (Card.ofVal key).getPoint = (Card.ofVal val).getPoint)
    (size : (Card.ofVal key).isBig = !(Card.ofVal val).isBig) :
    ∀ t ∈ s.takePair val key, Sound cards t := by
  intro t result
  unfold Grouping.takePair at result
  split_ifs at result with member
  · cases result
    have held := sound.held_of_pos there
    have pairHeld := sound.held_of_mem member
    have pairValid : isCard key = true := Cards.isCard_of_held (by rw [pairHeld]; decide)
    have pairCount := sound.get_dui member
    have single := sound.le_one
    refine sound.push (santa_piece held pairHeld point size) rfl ?_
      (fun other count => Table.lookup_of_lookup_erase) ?_
    · intro other
      show (s.dan.dec val).get other 0 = 0 ∨ (s.dan.dec val).get other 0 = s.dan.get other 0
      rw [MapCards.get_dec]
      split
      · next same =>
        subst same
        have few := single other
        exact .inl (by omega)
      · exact .inr (by omega)
    · intro other otherValid
      show (_ : Int) + (s.dan.dec val).get other 0 + Table.get (s.dui.erase key) other 0 = _
      rw [count_santa (sound.isCard_of_pos there) pairValid otherValid, MapCards.get_dec,
        Table.get_erase]
      by_cases isPair : other = key
      · subst isPair
        rw [if_pos rfl, if_pos rfl, pairCount]
        omega
      · rw [if_neg isPair, if_neg isPair]
        omega
  · cases result

theorem Sound.takeHong (sound : Sound cards s) {temp : Card} (valid : temp.isValid = true)
    (there : 0 < s.dan.get temp.val 0) : ∀ t ∈ s.takeHong temp, Sound cards t := by
  have same := Card.makeCard_getPoint_isBig valid
  generalize temp.isBig = big at same
  unfold Grouping.takeHong
  dsimp only
  split_ifs with two seven ten
  · rw [two] at same
    subst same
    exact sound.takeThree there (by cases big <;> decide) (by cases big <;> decide)
  · rw [seven] at same
    subst same
    exact sound.takeThree there (by cases big <;> decide) (by cases big <;> decide)
  · rw [ten] at same
    subst same
    exact sound.takeThree there (by cases big <;> decide) (by cases big <;> decide)
  · intro t result
    cases result

theorem Sound.or {first second : Option Grouping} (ofFirst : ∀ t ∈ first, Sound cards t)
    (ofSecond : ∀ t ∈ second, Sound cards t) : ∀ t ∈ first.or second, Sound cards t := by
  cases first with
  | none => exact ofSecond
  | some t => exact ofFirst

theorem Sound.getD (sound : Sound cards s) {result : Option Grouping}
    (ofResult : ∀ t ∈ result, Sound cards t) : Sound cards (result.getD s) := by
  cases result with
  | none => exact sound
  | some t => exact ofResult t rfl

theorem Sound.joinSingle (sound : Sound cards s) (val : Int) : Sound cards (s.joinSingle val) := by
  unfold Grouping.joinSingle
  dsimp only
  split_ifs with none
  · exact sound
  · have there := sound.pos_iff.mpr none
    have valid := sound.isCard_of_pos there
    have tempValid := (Card.isValid_ofVal val).trans valid
    have bounds := Card.getPoint_bounds tempValid
    have hong := sound.takeHong tempValid (by rwa [Card.ofVal_of_isCard valid])
    have upward := sound.takeThree there (show [val + 1, val + 2, val].Nodup by simp)
      (List.perm_append_singleton (Card.ofVal val) [.ofVal (val + 1), .ofVal (val + 2)]).symm
    have middle := sound.takeThree there (show [val + 1, val - 1, val].Nodup by simp; omega)
      (List.perm_append_singleton (Card.ofVal (val + 1)) [.ofVal (val - 1), .ofVal val])
    have downward := sound.takeThree there (show [val - 1, val - 2, val].Nodup by simp)
      (List.Perm.swap (Card.ofVal (val - 1)) (.ofVal (val - 2)) [.ofVal val])
    have mirror := Card.ofVal_val
      ((Card.makeCard_isValid_iff (by omega) (by omega) (!(Card.ofVal val).isBig)).mpr bounds)
    have pair := sound.takePair there
      (by rw [mirror, Card.getPoint_makeCard bounds.1 bounds.2])
      (by rw [mirror, Card.isBig_makeCard bounds.1 bounds.2])
    have any := Sound.or (Sound.or (Sound.or (Sound.or hong upward) middle) downward) pair
    exact Sound.getD sound any

/-! ## The second loop over `dan` -/

/-- `after` is `dan` without the card of `val` and maybe others. -/
def Takes (dan : MapCards) (val : Int) (after : MapCards × List Card) : Prop :=
  ∃ keys, val ∈ keys ∧ Taken dan keys after

theorem Takes.add (sound : Sound cards s) {after : MapCards × List Card} {card1 : Card}
    (takes : Takes s.dan val after) (there : 0 < after.1.get card1.val 0) :
    Takes s.dan val (after.1.dec card1.val, after.2 ++ [card1]) := by
  obtain ⟨keys, member, taken⟩ := takes
  have before : 0 < s.dan.get card1.val 0 := by
    have left := taken.left card1.val
    split at left <;> omega
  have same : Card.ofVal card1.val = card1 :=
    Card.ofVal_val (Card.isValid_of_isCard_val (sound.isCard_of_pos before))
  have more := taken.add sound.le_one there
  rw [same] at more
  exact ⟨_, List.mem_append_left _ member, more⟩

theorem Takes.addHong (sound : Sound cards s) {after : MapCards × List Card} (temp : Card)
    (honged : List Card) (takes : Takes s.dan val after) :
    Takes s.dan val (honged.foldl (addHong temp) after) := by
  induction honged generalizing after with
  | nil => exact takes
  | cons card1 honged ih =>
      refine ih ?_
      unfold Grouping.addHong
      split
      · next isThere => exact takes.add sound isThere.2
      · exact takes

theorem Takes.addFirst (sound : Sound cards s) {after : MapCards × List Card}
    (candidates : List Card) (takes : Takes s.dan val after) :
    Takes s.dan val (addFirst after candidates) := by
  induction candidates with
  | nil => exact takes
  | cons card1 candidates ih =>
      unfold Grouping.addFirst
      split
      · next isThere => exact takes.add sound isThere.2
      · exact ih

/-- What the turn of a single card does in the second loop. -/
structure Turned (cards : Cards) (s : Grouping) (val : Int) (after : Grouping) : Prop where
  sound : Sound cards after
  dui : after.dui = s.dui
  le : ∀ key, after.dan.get key 0 ≤ s.dan.get key 0
  gone : after.dan.get val 0 = 0

theorem Takes.turned (sound : Sound cards s) {taken : MapCards × List Card}
    (takes : Takes s.dan val taken) :
    Turned cards s val
      { s with
        dan := taken.1
        handCards := s.handCards ++ [if 1 < taken.2.length then sortCards taken.2 else taken.2] } := by
  obtain ⟨keys, member, isTaken⟩ := takes
  refine ⟨sound.take isTaken (List.ne_nil_of_mem member) ?_, rfl, ?_, ?_⟩
  · split
    · exact List.perm_insertionSort _ _
    · exact List.Perm.refl _
  · intro key
    show taken.1.get key 0 ≤ s.dan.get key 0
    rw [isTaken.left]
    split <;> omega
  · show taken.1.get val 0 = 0
    have there := isTaken.there val member
    have single := sound.le_one val
    rw [isTaken.left, if_pos member]
    omega

theorem Sound.groupSingle (sound : Sound cards s) (val : Int) :
    Turned cards s val (s.groupSingle val) := by
  unfold Grouping.groupSingle
  by_cases none : s.dan.get val 0 = 0
  · rw [if_pos none]
    exact ⟨sound, rfl, fun _ => le_refl _, none⟩
  · rw [if_neg none]
    have there := sound.pos_iff.mpr none
    have first : Takes s.dan val (s.dan.dec val, [.ofVal val]) :=
      ⟨[val], List.mem_singleton_self val, .one there⟩
    refine Takes.turned sound ?_
    split
    · exact first.addHong sound _ _
    · exact first.addFirst sound _

theorem Sound.foldl_groupSingle (sound : Sound cards s) (done : List Int) :
    let after := done.foldl Grouping.groupSingle s
    Sound cards after ∧ after.dui = s.dui ∧ (∀ key, after.dan.get key 0 ≤ s.dan.get key 0) ∧
      ∀ key ∈ done, after.dan.get key 0 = 0 := by
  induction done using List.reverseRecOn with
  | nil => exact ⟨sound, rfl, fun _ => le_refl _, by simp⟩
  | append_singleton done val ih =>
      rw [List.foldl_append, List.foldl_cons, List.foldl_nil]
      generalize done.foldl Grouping.groupSingle s = before at ih ⊢
      obtain ⟨soundBefore, dui, le, none⟩ := ih
      have turned := soundBefore.groupSingle val
      refine ⟨turned.sound, turned.dui.trans dui, fun key => (turned.le key).trans (le key), ?_⟩
      intro key member
      rcases List.mem_append.mp member with old | last
      · have stays := turned.le key
        rw [none key old] at stays
        rcases turned.sound.dan key with zero | ⟨one, -⟩
        · exact zero
        · omega
      · rw [List.mem_singleton.mp last]
        exact turned.gone

/-! ## The loop over `dui` -/

/-- The loop over `dui` with the pairs taken out of the map. -/
def pairOff (s : Grouping) (val : Int) : Grouping :=
  { s with dui := s.dui.erase val, handCards := groupPair s.handCards val }

theorem handCards_foldl_pairOff (s : Grouping) (done : List Int) :
    (done.foldl pairOff s).handCards = done.foldl groupPair s.handCards := by
  induction done generalizing s with
  | nil => rfl
  | cons val done ih => exact ih (s.pairOff val)

theorem Sound.pairOff (sound : Sound cards s) (member : val ∈ s.dui) :
    Sound cards (s.pairOff val) := by
  have held := sound.held_of_mem member
  have valid : isCard val = true := Cards.isCard_of_held (by rw [held]; decide)
  have piece : Piece cards [.ofVal val, .ofVal val] := by
    refine ⟨List.cons_ne_nil _ _, ?_, .inr (.pair _ held)⟩
    intro card isThere
    simp only [List.mem_cons, List.not_mem_nil, or_false, or_self] at isThere
    subst isThere
    refine ⟨(Card.isValid_ofVal val).trans valid, ?_⟩
    rw [List.count_cons_self, List.count_cons_self]
    exact held.symm
  refine sound.push piece rfl (fun _ => .inr rfl)
    (fun key count => Table.lookup_of_lookup_erase) ?_
  intro key keyValid
  have pairCount := sound.get_dui member
  show (_ : Int) + s.dan.get key 0 + Table.get (s.dui.erase val) key 0 = _
  rw [Table.get_erase]
  by_cases same : key = val
  · subst same
    rw [if_pos rfl, List.count_cons_self, List.count_cons_self, pairCount]
    rw [List.count_nil]
    omega
  · have differ : Card.ofVal val ≠ Card.ofVal key :=
      fun equal => same ((Card.ofVal_inj valid keyValid).mp equal).symm
    rw [if_neg same, List.count_cons_of_ne differ, List.count_cons_of_ne differ, List.count_nil]
    omega

theorem Sound.foldl_pairOff (sound : Sound cards s) {done : List Int} (nodup : done.Nodup)
    (there : ∀ key ∈ done, key ∈ s.dui) :
    let after := done.foldl Grouping.pairOff s
    Sound cards after ∧ after.dan = s.dan ∧ ∀ key ∈ after.dui, key ∈ s.dui ∧ key ∉ done := by
  induction done generalizing s with
  | nil => exact ⟨sound, rfl, fun key member => ⟨member, by simp⟩⟩
  | cons val done ih =>
      rw [List.nodup_cons] at nodup
      have thereAfter : ∀ key ∈ done, key ∈ (s.pairOff val).dui := by
        intro key member
        refine (AList.mem_erase).mpr ⟨?_, there key (List.mem_cons_of_mem val member)⟩
        rintro rfl
        exact nodup.1 member
      obtain ⟨soundAfter, dan, dui⟩ :=
        ih (sound.pairOff (there val List.mem_cons_self)) nodup.2 thereAfter
      refine ⟨soundAfter, dan, ?_⟩
      intro key member
      obtain ⟨old, notDone⟩ := dui key member
      obtain ⟨differ, before⟩ := AList.mem_erase.mp old
      refine ⟨before, ?_⟩
      rw [List.mem_cons, not_or]
      exact ⟨differ, notDone⟩

/-! ## The whole -/

theorem count_many (cards : Cards) {done : List (Fin 20)} (nodup : done.Nodup) (i : Fin 20) :
    (((done.filter fun i => 2 < cards i).map (manyOf cards)).flatten.count (cardAt i)) =
      if i ∈ done ∧ 2 < cards i then (cards i).toNat else 0 := by
  induction done with
  | nil => simp
  | cons j done ih =>
      rw [List.nodup_cons] at nodup
      have rest := ih nodup.2
      by_cases many : 2 < cards j
      · rw [List.filter_cons_of_pos (by simpa using many), List.map_cons, List.flatten_cons,
          List.count_append, rest, manyOf, List.count_replicate]
        by_cases same : i = j
        · subst same
          simp [nodup.1, many]
        · have differ : ¬ cardAt j = cardAt i := fun equal => same (cardAt_injective equal).symm
          simp [same, differ]
      · rw [List.filter_cons_of_neg (by simpa using many), rest]
        by_cases same : i = j
        · subst same
          simp [nodup.1, many]
        · simp [same]

theorem manyOf_piece {i : Fin 20} (many : 2 < cards i) : Piece cards (manyOf cards i) := by
  refine ⟨?_, ?_, .inr (.many i many)⟩
  · rw [manyOf, Ne, List.replicate_eq_nil_iff]
    omega
  · intro card member
    rw [List.eq_of_mem_replicate member]
    refine ⟨cardAt_isValid i, ?_⟩
    rw [manyOf, List.count_replicate_self, Cards.getCardCount_cardAt]
    omega

theorem sound_start (nonneg : ∀ i, 0 ≤ cards i) : Sound cards (start cards) := by
  have starts := started nonneg
  have getDan : ∀ val, (start cards).dan.get val 0 = if cards.held val = 1 then 1 else 0 := by
    intro val
    rw [Table.get, starts.dan]
    split <;> rfl
  have getDui : ∀ val, (start cards).dui.get val 0 = if cards.held val = 2 then 2 else 0 := by
    intro val
    rw [Table.get, starts.dui]
    split <;> rfl
  refine ⟨?_, ?_, ?_, ?_⟩
  · intro val
    rw [getDan]
    split
    · next held => exact .inr ⟨rfl, held⟩
    · exact .inl rfl
  · intro val count found
    rw [starts.dui] at found
    split_ifs at found with held
    · cases found
      exact ⟨rfl, held⟩
  · intro val valid
    obtain ⟨i, rfl⟩ := exists_cardAt_val valid
    have low := nonneg i
    rw [getDan, getDui, starts.many, Card.ofVal_val (cardAt_isValid i),
      count_many cards (List.nodup_finRange 20), held_cardAt]
    simp only [List.mem_finRange, true_and]
    split_ifs <;> omega
  · intro group member
    rw [starts.many] at member
    obtain ⟨i, found, rfl⟩ := List.mem_map.mp member
    exact manyOf_piece (by simpa using (List.mem_filter.mp found).2)

theorem Sound.foldl_joinSingle (sound : Sound cards s) (done : List Int) :
    Sound cards (done.foldl Grouping.joinSingle s) := by
  induction done generalizing s with
  | nil => exact sound
  | cons val done ih => exact ih (sound.joinSingle val)

/-- After the two loops over `dan` there are only pairs left. -/
theorem grouped_sound (nonneg : ∀ i, 0 ≤ cards i) :
    Sound cards (grouped cards) ∧ ∀ val, (grouped cards).dan.get val 0 = 0 := by
  have joinedSound : Sound cards (joined cards) := (sound_start nonneg).foldl_joinSingle _
  obtain ⟨sound, -, le, none⟩ := joinedSound.foldl_groupSingle (joined cards).dan.sortedKeys
  refine ⟨sound, ?_⟩
  intro val
  by_cases member : val ∈ (joined cards).dan.sortedKeys
  · exact none val member
  · have missing := Table.get_of_notMem (fun isThere => member (Table.mem_sortedKeys.mpr isThere)) 0
    have stays := le val
    rw [missing] at stays
    rcases sound.dan val with zero | ⟨one, -⟩
    · exact zero
    · exact absurd (one.symm.le.trans stays) (by decide)

theorem groups_sound (nonneg : ∀ i, 0 ≤ cards i) :
    (∀ val, isCard val = true →
      ((groups cards).flatten.count (Card.ofVal val) : Int) = cards.held val) ∧
      ∀ group ∈ groups cards, Piece cards group := by
  obtain ⟨groupedSound, none⟩ := grouped_sound nonneg
  unfold groups
  dsimp only
  rw [← handCards_foldl_pairOff]
  generalize grouped cards = s at groupedSound none ⊢
  obtain ⟨sound, dan, dui⟩ :=
    groupedSound.foldl_pairOff s.dui.nodup_sortedKeys fun key => Table.mem_sortedKeys.mp
  refine ⟨?_, sound.pieces⟩
  intro val valid
  have counted := sound.count val valid
  have noPair := Table.get_of_notMem (fun isThere : val ∈ (s.dui.sortedKeys.foldl pairOff s).dui =>
    (dui val isThere).2 (Table.mem_sortedKeys.mpr (dui val isThere).1)) (0 : Int)
  rw [dan, none val, noPair] at counted
  omega

theorem count_flatten_groups (nonneg : ∀ i, 0 ≤ cards i) (card : Card) :
    ((groups cards).flatten.count card : Int) = cards.getCardCount card := by
  obtain ⟨counts, pieces⟩ := groups_sound nonneg
  cases valid : card.isValid with
  | true =>
      have same := counts card.val (Card.isCard_val valid)
      rwa [Cards.held, Card.ofVal_val valid] at same
  | false =>
      have absent : card ∉ (groups cards).flatten := by
        intro member
        obtain ⟨group, groupMember, inGroup⟩ := List.mem_flatten.mp member
        have isThere := ((pieces group groupMember).whole card inGroup).1
        rw [valid] at isThere
        cases isThere
      rw [List.count_eq_zero_of_not_mem absent]
      simp [Cards.getCardCount, valid]

theorem pairwise_disjoint {list : List (List Card)}
    (few : ∀ card, (list.flatten.count card : Int) ≤ cards.getCardCount card)
    (pieces : ∀ group ∈ list, Piece cards group) : list.Pairwise List.Disjoint := by
  induction list with
  | nil => exact List.Pairwise.nil
  | cons group list ih =>
      have split : ∀ card, (group :: list).flatten.count card =
          group.count card + list.flatten.count card := by
        intro card
        rw [List.flatten_cons, List.count_append]
      rw [List.pairwise_cons]
      constructor
      · intro other member card inGroup inOther
        have all := ((pieces group List.mem_cons_self).whole card inGroup).2
        have more : 0 < list.flatten.count card :=
          List.count_pos_iff.mpr (List.mem_flatten.mpr ⟨other, member, inOther⟩)
        have bound := few card
        rw [split] at bound
        omega
      · refine ih ?_ fun other member => pieces other (List.mem_cons_of_mem group member)
        intro card
        have bound := few card
        rw [split] at bound
        omega

theorem groups_disjoint (nonneg : ∀ i, 0 ≤ cards i) : (groups cards).Pairwise List.Disjoint :=
  pairwise_disjoint (fun card => (count_flatten_groups nonneg card).le) (groups_sound nonneg).2

theorem groups_nodup (nonneg : ∀ i, 0 ≤ cards i) : (groups cards).Nodup := by
  refine (groups_disjoint nonneg).imp_of_mem ?_
  intro group other member _ disjoint same
  subst same
  obtain ⟨card, inGroup⟩ := List.exists_mem_of_ne_nil group
    ((groups_sound nonneg).2 group member).some
  exact disjoint inGroup inGroup

theorem Piece.eq_manyOf {group : List Card} (piece : Piece cards group) {i : Fin 20}
    (many : 3 ≤ cards i) (member : cardAt i ∈ group) : group = manyOf cards i := by
  have all := (piece.whole (cardAt i) member).2
  rw [Cards.getCardCount_cardAt] at all
  rcases piece.shape with nodup | repeats
  · rw [List.count_eq_one_of_mem nodup member] at all
    omega
  · cases repeats with
    | many j _ =>
        have same := cardAt_injective (List.eq_of_mem_replicate member)
        rw [same]
    | pair card _ =>
        have few := List.count_le_length (a := cardAt i) (l := [card, card])
        simp only [List.length_cons, List.length_nil] at few
        omega
    | santa card pair single double _ _ =>
        have held := Cards.getCardCount_cardAt cards i
        simp only [List.mem_cons, List.not_mem_nil, or_false, or_self] at member
        rcases member with same | same
        · rw [same] at held
          omega
        · rw [same] at held
          omega

end Grouping

/-- `getHandCards` hands out the hand: each of its cards in one group. -/
theorem HandCards.getHandCards_partition (std : GroupSort) (s : HandCards)
    (nonneg : ∀ i, 0 ≤ s.cards i) :
    ((s.getHandCards std).flatten : Multiset Card) = s.cards.bag ∧
      (∀ group ∈ s.getHandCards std, group ≠ []) ∧
      (∀ i, 3 ≤ s.cards i → (s.getHandCards std).count (Grouping.manyOf s.cards i) = 1 ∧
        ∀ group ∈ s.getHandCards std, cardAt i ∈ group → group = Grouping.manyOf s.cards i) ∧
      ∀ group ∈ s.getHandCards std, group.Nodup ∨ Grouping.Repeats s.cards group := by
  have perm : (s.getHandCards std).Perm (Grouping.groups s.cards) := std.perm _ _
  have pieces : ∀ group ∈ s.getHandCards std, Grouping.Piece s.cards group :=
    fun group member => (Grouping.groups_sound nonneg).2 group (perm.mem_iff.mp member)
  refine ⟨?_, fun group member => (pieces group member).some, ?_,
    fun group member => (pieces group member).shape⟩
  · ext card
    have counted := Grouping.count_flatten_groups nonneg card
    rw [Multiset.coe_count, perm.flatten.count_eq, Cards.count_bag]
    omega
  · intro i many
    refine ⟨?_, fun group member => (pieces group member).eq_manyOf many⟩
    have there : 0 < (Grouping.groups s.cards).flatten.count (cardAt i) := by
      have counted := Grouping.count_flatten_groups nonneg (cardAt i)
      rw [Cards.getCardCount_cardAt] at counted
      omega
    obtain ⟨group, member, inGroup⟩ := List.mem_flatten.mp (List.count_pos_iff.mp there)
    have same := ((Grouping.groups_sound nonneg).2 group member).eq_manyOf many inGroup
    subst same
    rw [perm.count_eq]
    exact List.count_eq_one_of_mem (Grouping.groups_nodup nonneg) member

/-- An insertion sort in place of `std::sort`. -/
def GroupSort.insertion : GroupSort where
  sort comp groups := groups.insertionSort fun l r => comp r l = false
  perm _ groups := List.perm_insertionSort _ groups

/-- A hand with a run, a pair that a single card joins, and four equal cards. -/
theorem getHandCards_partition_hand :
    let s : HandCards := { cards := ![1, 1, 1, 0, 4, 0, 0, 2, 0, 0, 0, 0, 0, 0, 0, 0, 0, 1, 0, 0] }
    (s.getHandCards .insertion).map (List.map Card.val) = [[1, 2, 3], [5, 5, 5, 5], [24, 8, 8]] ∧
      ((s.getHandCards .insertion).flatten : Multiset Card) = s.cards.bag :=
  ⟨by decide +kernel, (HandCards.getHandCards_partition .insertion _ (by decide)).1⟩

end CLibs.Cardlib
