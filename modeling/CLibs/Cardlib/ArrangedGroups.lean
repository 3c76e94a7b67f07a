import CLibs.Cardlib.Arrangement

/-!
# The groups are the arrangement

The loops of `getHandCards`, turn by turn: what is in the maps and which groups there are is
what the counts of the cards say.
-/

set_option autoImplicit false

namespace CLibs.Cardlib

open General

namespace Card

variable {v : Nat}

theorem val_ofNat (bounds : IsValue v) : (ofNat v).val = v := by
  have valid := ofVal_of_isCard (isCard_iff.mpr (show (1 ≤ (v : Int) ∧ _) ∨ _ by omega))
  exact_mod_cast valid

theorem isBig_ofNat (bounds : IsValue v) :
    (ofNat v).isBig = decide (16 ≤ v) := by
  rw [isBig, val_ofNat bounds, Nat.shiftRight_eq_div_pow, decide_eq_decide]
  omega

theorem getPoint_ofNat (bounds : IsValue v) :
    (ofNat v).getPoint = (v % 16 : Nat) := by
  have same := val_ofNat bounds
  have valid : (ofNat v).isValid = true := by
    rw [isValid, bne_iff_ne]
    omega
  rw [getPoint, valid, same]
  simp only [Bool.not_true, Bool.false_eq_true, if_false]
  rw [show (0x0F : Nat) = 2 ^ 4 - 1 from rfl, Nat.and_two_pow_sub_one_eq_mod]

theorem makeCard_ofNat (bounds : IsValue v) (point : Nat) :
    makeCard point (ofNat v).isBig = ofNat (v / 16 * 16 + point) := by
  rw [isBig_ofNat bounds, makeCard, ofNat]
  congr 1
  simp only [decide_eq_true_eq]
  split <;> push_cast <;> omega

theorem makeCard_mirror (bounds : IsValue v) :
    makeCard (ofNat v).getPoint (!(ofNat v).isBig) = ofNat (Cards.mirror v) := by
  rw [getPoint_ofNat bounds, isBig_ofNat bounds, makeCard, ofNat, Cards.mirror]
  congr 1
  simp only [Bool.not_eq_true', decide_eq_false_iff_not]
  split_ifs <;> push_cast <;> omega

/-- The red cards of the size of `v`. -/
def redCards (v : Nat) : List Card :=
  [.ofNat (v / 16 * 16 + 2), .ofNat (v / 16 * 16 + 7), .ofNat (v / 16 * 16 + 10)]

theorem makeCards_red (bounds : IsValue v) :
    [makeCard 2 (ofNat v).isBig, makeCard 7 (ofNat v).isBig, makeCard 10 (ofNat v).isBig] =
      redCards v := by
  have card2 : makeCard 2 (ofNat v).isBig = _ := makeCard_ofNat bounds 2
  have card7 : makeCard 7 (ofNat v).isBig = _ := makeCard_ofNat bounds 7
  have card10 : makeCard 10 (ofNat v).isBig = _ := makeCard_ofNat bounds 10
  rw [card2, card7, card10, redCards]

theorem mem_redCards (bounds : IsValue v) {card : Card} :
    card ∈ redCards v ↔
      card = ofNat card.val ∧ Cards.isRed card.val ∧ card.val / 16 = v / 16 := by
  simp only [redCards, List.mem_cons, List.not_mem_nil, or_false]
  unfold Cards.isRed
  constructor
  · rintro (rfl | rfl | rfl)
    · rw [val_ofNat (by omega)]
      exact ⟨rfl, by omega, by omega⟩
    · rw [val_ofNat (by omega)]
      exact ⟨rfl, by omega, by omega⟩
    · rw [val_ofNat (by omega)]
      exact ⟨rfl, by omega, by omega⟩
  · rintro ⟨same, red | red | red, size⟩
    · exact .inl (same.trans (congrArg ofNat (by omega)))
    · exact .inr (.inl (same.trans (congrArg ofNat (by omega))))
    · exact .inr (.inr (same.trans (congrArg ofNat (by omega))))

theorem nodup_redCards (bounds : IsValue v) : (redCards v).Nodup := by
  refine List.Nodup.of_map val ?_
  simp only [redCards, List.map_cons, List.map_nil]
  rw [val_ofNat (by omega), val_ofNat (by omega), val_ofNat (by omega)]
  simp

end Card

namespace Grouping

theorem exists_nat {key : Int} (valid : isCard key = true) : ∃ v : Nat, key = v := by
  have bounds := isCard_iff.mp valid
  exact Int.eq_ofNat_of_zero_le (by omega)

/-- The group that the turn of `q` makes in the first loop. -/
inductive JoinedAt (cards : Cards) (q : Nat) : List Card → Prop where
  | hong : cards.StartsHong q → JoinedAt cards q [.ofNat q, .ofNat (q + 5), .ofNat (q + 8)]
  | run : cards.StartsRun q → JoinedAt cards q [.ofNat q, .ofNat (q + 1), .ofNat (q + 2)]
  | santa : cards.Santa q →
      JoinedAt cards q [.ofNat q, .ofNat (Cards.mirror q), .ofNat (Cards.mirror q)]

/-- A group of the cards that are held three times or more. -/
def Many (cards : Cards) (group : List Card) : Prop :=
  ∃ v : Nat, 3 ≤ cards.held v ∧ group = List.replicate (cards.held v).toNat (.ofNat v)

/-- The first loop, after the turns of the values below `p`. -/
structure Joined (cards : Cards) (p : Nat) (s : Grouping) : Prop where
  sound : Sound cards s
  dan : ∀ v : Nat, 0 < s.dan.get v 0 ↔ cards.Avail p v
  keys : ∀ key ∈ s.dan, isCard key = true
  dui : ∀ v : Nat, (v : Int) ∈ s.dui ↔
    cards.Twice v ∧ ¬ (cards.Santa (Cards.mirror v) ∧ Cards.mirror v < p)
  groups : ∀ group, group ∈ s.handCards ↔ Many cards group ∨ ∃ q < p, JoinedAt cards q group

variable {cards : Cards} {p : Nat} {s : Grouping}

theorem joinedAt_hong (hong : cards.StartsHong p) (group : List Card) :
    JoinedAt cards p group ↔ group = [.ofNat p, .ofNat (p + 5), .ofNat (p + 8)] := by
  constructor
  · rintro (_ | run | santa)
    · rfl
    · exact absurd hong run.not_startsHong
    · exact absurd hong santa.1.not_startsHong
  · rintro rfl
    exact .hong hong

theorem joinedAt_run (run : cards.StartsRun p) (group : List Card) :
    JoinedAt cards p group ↔ group = [.ofNat p, .ofNat (p + 1), .ofNat (p + 2)] := by
  constructor
  · rintro (hong | _ | santa)
    · exact absurd hong run.not_startsHong
    · rfl
    · exact absurd run santa.1.not_startsRun
  · rintro rfl
    exact .run run

theorem joinedAt_santa (santa : cards.Santa p) (group : List Card) :
    JoinedAt cards p group ↔
      group = [.ofNat p, .ofNat (Cards.mirror p), .ofNat (Cards.mirror p)] := by
  constructor
  · rintro (hong | run | _)
    · exact absurd hong santa.1.not_startsHong
    · exact absurd run santa.1.not_startsRun
    · rfl
  · rintro rfl
    exact .santa santa

namespace Joined

theorem exists_avail (joined : Joined cards p s) {key : Int} (there : 0 < s.dan.get key 0) :
    ∃ v : Nat, key = v ∧ cards.Avail p v := by
  obtain ⟨v, rfl⟩ := exists_nat (joined.keys key (MapCards.mem_of_pos there))
  exact ⟨v, rfl, (joined.dan v).mp there⟩

theorem takeThree_none (joined : Joined cards p s) {val key1 key2 : Int} {group : List Card}
    (apart : ∀ v w : Nat, key1 = v → key2 = w → cards.Avail p v → cards.Avail p w → False) :
    s.takeThree val key1 key2 group = none := by
  refine if_neg ?_
  rintro ⟨there1, there2⟩
  obtain ⟨v, same1, avail1⟩ := joined.exists_avail there1
  obtain ⟨w, same2, avail2⟩ := joined.exists_avail there2
  exact apart v w same1 same2 avail1 avail2

theorem push (joined : Joined cards p s) {after : Grouping} {group : List Card}
    (sound : Sound cards after) (dan : ∀ v : Nat, 0 < after.dan.get v 0 ↔ cards.Avail (p + 1) v)
    (keys : ∀ key ∈ after.dan, key ∈ s.dan)
    (dui : ∀ v : Nat, (v : Int) ∈ after.dui ↔
      (v : Int) ∈ s.dui ∧ ¬ (cards.Santa (Cards.mirror v) ∧ Cards.mirror v = p))
    (groups : after.handCards = s.handCards ++ [group])
    (made : ∀ other, JoinedAt cards p other ↔ other = group) : Joined cards (p + 1) after where
  sound := sound
  dan := dan
  keys := fun key member => joined.keys key (keys key member)
  dui := by
    intro v
    rw [dui, joined.dui]
    have turns : Cards.mirror v < p + 1 ↔ Cards.mirror v < p ∨ Cards.mirror v = p := by omega
    rw [turns]
    tauto
  groups := by
    intro other
    rw [groups, List.mem_append, List.mem_singleton, joined.groups, Nat.exists_lt_succ_right, made,
      or_assoc]

theorem takeThree_some (joined : Joined cards p s) {v w : Nat} {group : List Card}
    (availP : cards.Avail p p) (availV : cards.Avail p v) (availW : cards.Avail p w)
    (differ : v ≠ w ∧ v ≠ p ∧ w ≠ p)
    (perm : group.Perm [.ofNat v, .ofNat w, .ofNat p])
    (next : ∀ u, cards.Avail (p + 1) u ↔ cards.Avail p u ∧ u ≠ p ∧ u ≠ v ∧ u ≠ w)
    (made : ∀ other, JoinedAt cards p other ↔ other = group) (notSanta : ¬ cards.Santa p) :
    ∃ t, s.takeThree p v w group = some t ∧ Joined cards (p + 1) t := by
  have thereP := (joined.dan p).mpr availP
  have thereV := (joined.dan v).mpr availV
  have thereW := (joined.dan w).mpr availW
  have nodup : [(v : Int), (w : Int), (p : Int)].Nodup := by
    simp only [List.nodup_cons, List.mem_cons, List.not_mem_nil, or_false, Nat.cast_inj, not_or]
    exact ⟨⟨differ.1, differ.2.1⟩, differ.2.2, not_false, List.nodup_nil⟩
  have taken := joined.sound.taken_three thereP nodup thereV thereW
  refine ⟨_, if_pos ⟨thereV, thereW⟩, joined.push
    (joined.sound.take taken (List.cons_ne_nil _ _) perm) ?_ ?_ ?_ rfl made⟩
  · intro u
    rw [taken.pos_iff joined.sound.le_one, joined.dan, next]
    simp only [List.mem_cons, List.not_mem_nil, or_false, Nat.cast_inj, not_or]
    tauto
  · intro key member
    rcases MapCards.mem_dec.mp member with rfl | member
    · exact MapCards.mem_of_pos thereP
    · rcases MapCards.mem_dec.mp member with rfl | member
      · exact MapCards.mem_of_pos thereW
      · rcases MapCards.mem_dec.mp member with rfl | old
        · exact MapCards.mem_of_pos thereV
        · exact old
  · intro u
    have never : ¬ (cards.Santa (Cards.mirror u) ∧ Cards.mirror u = p) := by
      rintro ⟨santa, same⟩
      exact notSanta (same ▸ santa)
    simp only [never, not_false_eq_true, and_true]

theorem idle (joined : Joined cards p s) (isIdle : cards.Idle p) : Joined cards (p + 1) s where
  sound := joined.sound
  dan := by
    intro v
    rw [joined.dan, isIdle.avail_succ]
  keys := joined.keys
  dui := by
    intro v
    rw [joined.dui]
    have turns : Cards.mirror v < p + 1 ↔ Cards.mirror v < p ∨ Cards.mirror v = p := by omega
    have never : ¬ (cards.Santa (Cards.mirror v) ∧ Cards.mirror v = p) := by
      rintro ⟨santa, same⟩
      exact isIdle.2.2 (same ▸ santa)
    rw [turns]
    tauto
  groups := by
    intro group
    have never : ¬ JoinedAt cards p group := by
      rintro (hong | run | santa)
      · exact isIdle.1 hong
      · exact isIdle.2.1 run
      · exact isIdle.2.2 santa
    rw [joined.groups, Nat.exists_lt_succ_right]
    simp only [never, or_false]

theorem takePair_some (joined : Joined cards p s) (santa : cards.Santa p) :
    ∃ t, s.takePair p (Cards.mirror p) = some t ∧ Joined cards (p + 1) t := by
  have avail := santa.1.avail
  have bounds := avail.1.bounds
  have mirrorBounds := santa.2.bounds
  have there := (joined.dan p).mpr avail
  have member : (Cards.mirror p : Int) ∈ s.dui := by
    rw [joined.dui, Cards.mirror_mirror bounds]
    exact ⟨santa.2, fun both => absurd both.2 (lt_irrefl p)⟩
  have point : (Card.ofNat (Cards.mirror p)).getPoint = (Card.ofNat p).getPoint := by
    rw [Card.getPoint_ofNat mirrorBounds, Card.getPoint_ofNat bounds, Cards.mirror]
    split_ifs <;> omega
  have size : (Card.ofNat (Cards.mirror p)).isBig = !(Card.ofNat p).isBig := by
    rw [Card.isBig_ofNat mirrorBounds, Card.isBig_ofNat bounds, ← decide_not, decide_eq_decide,
      Cards.mirror]
    split_ifs <;> omega
  have taken := Taken.one there
  refine ⟨_, if_pos member, joined.push
    (joined.sound.takePair there point size _ (if_pos member)) ?_ ?_ ?_ rfl (joinedAt_santa santa)⟩
  · intro v
    rw [taken.pos_iff joined.sound.le_one, joined.dan, santa.avail_succ, List.mem_singleton,
      Nat.cast_inj]
  · intro key isThere
    rcases MapCards.mem_dec.mp isThere with rfl | old
    · exact MapCards.mem_of_pos there
    · exact old
  · intro v
    show (v : Int) ∈ s.dui.erase (Cards.mirror p : Int) ↔ _
    rw [AList.mem_erase, and_comm, ne_eq, Nat.cast_inj]
    refine and_congr_right fun isThere => not_congr ?_
    have vBounds := ((joined.dui v).mp isThere).1.bounds
    constructor
    · rintro rfl
      rw [Cards.mirror_mirror bounds]
      exact ⟨santa, rfl⟩
    · rintro ⟨-, same⟩
      rw [← same, Cards.mirror_mirror vBounds]

theorem takeHong_some (joined : Joined cards p s) (hong : cards.StartsHong p) :
    ∃ t, s.takeHong (.ofNat p) = some t ∧ Joined cards (p + 1) t := by
  obtain ⟨two, once2, once7, once10, -⟩ := id hong
  have bounds := once2.bounds
  obtain ⟨avail2, avail7, avail10⟩ := hong.avail
  have point : (Card.ofNat p).getPoint = 2 := by
    rw [Card.getPoint_ofNat bounds, two]
    rfl
  have cc2 : Card.makeCard 7 (Card.ofNat p).isBig = .ofNat (p / 16 * 16 + 7) :=
    Card.makeCard_ofNat bounds 7
  have cc3 : Card.makeCard 10 (Card.ofNat p).isBig = .ofNat (p / 16 * 16 + 10) :=
    Card.makeCard_ofNat bounds 10
  rw [show p / 16 * 16 + 7 = p + 5 by omega] at cc2
  rw [show p / 16 * 16 + 10 = p + 8 by omega] at cc3
  unfold takeHong
  dsimp only
  rw [if_pos point, cc2, cc3, Card.val_ofNat bounds, Card.val_ofNat once7.bounds,
    Card.val_ofNat once10.bounds]
  exact joined.takeThree_some avail2 avail7 avail10 (by omega)
    (List.perm_append_singleton (Card.ofNat p) [.ofNat (p + 5), .ofNat (p + 8)]).symm
    (fun u => hong.avail_succ) (joinedAt_hong hong) fun santa => santa.1.not_startsHong hong

theorem takeHong_none (joined : Joined cards p s) (avail : cards.Avail p p)
    (notHong : ¬ cards.StartsHong p) : s.takeHong (.ofNat p) = none := by
  have bounds := avail.1.bounds
  have point := Card.getPoint_ofNat bounds
  have val : ∀ k : Nat, 1 ≤ k → k ≤ 10 →
      ((Card.makeCard k (Card.ofNat p).isBig).val : Int) = (p / 16 * 16 + k : Nat) := by
    intro k low high
    rw [Card.makeCard_ofNat bounds, Card.val_ofNat (by omega)]
  have val2 : ((Card.makeCard 2 (Card.ofNat p).isBig).val : Int) = _ := val 2 (by omega) (by omega)
  have val7 : ((Card.makeCard 7 (Card.ofNat p).isBig).val : Int) = _ := val 7 (by omega) (by omega)
  have val10 : ((Card.makeCard 10 (Card.ofNat p).isBig).val : Int) = _ :=
    val 10 (by omega) (by omega)
  unfold takeHong
  dsimp only
  rw [val2, val7, val10, point]
  have red : ∀ k : Nat, p % 16 = k → cards.Avail p (p / 16 * 16 + k) := by
    intro k same
    rwa [show p / 16 * 16 + k = p by omega]
  split_ifs with two seven ten
  · refine joined.takeThree_none ?_
    intro v w same7 same10 avail7 avail10
    rw [← Nat.cast_inj.mp same7] at avail7
    rw [← Nat.cast_inj.mp same10] at avail10
    exact notHong (Cards.startsHong_of_avail (.inl (by omega)) (red 2 (by omega)) avail7 avail10)
  · refine joined.takeThree_none ?_
    intro v w same2 same10 avail2 avail10
    rw [← Nat.cast_inj.mp same2] at avail2
    rw [← Nat.cast_inj.mp same10] at avail10
    exact notHong
      (Cards.startsHong_of_avail (.inr (.inl (by omega))) avail2 (red 7 (by omega)) avail10)
  · refine joined.takeThree_none ?_
    intro v w same2 same7 avail2 avail7
    rw [← Nat.cast_inj.mp same2] at avail2
    rw [← Nat.cast_inj.mp same7] at avail7
    exact notHong
      (Cards.startsHong_of_avail (.inr (.inr (by omega))) avail2 avail7 (red 10 (by omega)))
  · rfl

/-- No three single cards in a row are there in a turn that starts no run. -/
theorem takeThree_none_of_row (joined : Joined cards p s) (avail : cards.Avail p p)
    (notHong : ¬ cards.StartsHong p) (notRun : ¬ cards.StartsRun p) {key1 key2 : Int}
    (row : ∀ v w : Nat, key1 = v → key2 = w →
      ∃ q, q ≤ p ∧ p ≤ q + 2 ∧ ∀ u, q ≤ u → u ≤ q + 2 → u = p ∨ u = v ∨ u = w)
    (group : List Card) : s.takeThree p key1 key2 group = none := by
  refine joined.takeThree_none ?_
  intro v w same1 same2 availV availW
  obtain ⟨q, low, near, three⟩ := row v w same1 same2
  have there : ∀ u, q ≤ u → u ≤ q + 2 → cards.Avail p u := by
    intro u first last
    rcases three u first last with rfl | rfl | rfl
    · exact avail
    · exact availV
    · exact availW
  exact notRun (Cards.startsRun_of_avail low near notHong (there q (by omega) (by omega))
    (there (q + 1) (by omega) (by omega)) (there (q + 2) (by omega) (by omega))).2

theorem joinSingle (joined : Joined cards p s) : Joined cards (p + 1) (s.joinSingle p) := by
  by_cases avail : cards.Avail p p
  · have bounds := avail.1.bounds
    have there := (joined.dan p).mpr avail
    have mirrorBounds : IsValue (Cards.mirror p) := by
      unfold Cards.mirror
      split <;> omega
    unfold Grouping.joinSingle
    rw [if_neg (by omega)]
    dsimp only
    rw [show Card.ofVal (p : Int) = .ofNat p from rfl, Card.makeCard_mirror bounds,
      Card.val_ofNat mirrorBounds]
    by_cases hong : cards.StartsHong p
    · obtain ⟨t, made, next⟩ := joined.takeHong_some hong
      rw [made]
      exact next
    · rw [joined.takeHong_none avail hong]
      by_cases run : cards.StartsRun p
      · obtain ⟨-, avail1, avail2⟩ := run.avail
        obtain ⟨t, made, next⟩ := joined.takeThree_some avail avail1 avail2 (by omega)
          (List.perm_append_singleton (Card.ofNat p) [.ofNat (p + 1), .ofNat (p + 2)]).symm
          (fun u => run.avail_succ) (joinedAt_run run) fun santa => santa.1.not_startsRun run
        have upward : s.takeThree p (p + 1) (p + 2)
            [.ofNat p, .ofVal (p + 1), .ofVal (p + 2)] = some t := made
        rw [upward]
        exact next
      · have noRow := @takeThree_none_of_row _ _ _ joined avail hong run
        rw [noRow fun v w _ _ => ⟨p, by omega, by omega, by omega⟩,
          noRow fun v w _ _ => ⟨p - 1, by omega, by omega, by omega⟩,
          noRow fun v w _ _ => ⟨p - 2, by omega, by omega, by omega⟩]
        by_cases santa : cards.Santa p
        · obtain ⟨t, made, next⟩ := joined.takePair_some santa
          rw [made]
          exact next
        · have missing : (Cards.mirror p : Int) ∉ s.dui := by
            intro member
            exact santa ⟨Cards.left_of_avail avail hong run, ((joined.dui _).mp member).1⟩
          rw [takePair, if_neg missing]
          exact joined.idle ⟨hong, run, santa⟩
  · have none := not_not.mp (mt joined.sound.pos_iff.mpr (mt (joined.dan p).mp avail))
    unfold Grouping.joinSingle
    rw [if_pos none]
    exact joined.idle ⟨fun hong => avail hong.avail.1, fun run => avail run.avail.1,
      fun santa => avail santa.1.avail⟩

end Joined

theorem exists_many {group : List Card} :
    group ∈ ((List.finRange 20).filter fun i => 2 < cards i).map (manyOf cards) ↔
      Many cards group := by
  simp only [List.mem_map, List.mem_filter, List.mem_finRange, true_and, decide_eq_true_eq]
  constructor
  · rintro ⟨i, many, rfl⟩
    have same : Card.ofNat (cardAt i).val = cardAt i := Card.ofVal_val (cardAt_isValid i)
    refine ⟨(cardAt i).val, ?_, ?_⟩
    · rw [held_cardAt]
      exact many
    · rw [held_cardAt, same]
      rfl
  · rintro ⟨v, many, rfl⟩
    have valid := Cards.isCard_of_held (show cards.held v ≠ 0 by omega)
    obtain ⟨i, same⟩ := exists_cardAt_val valid
    rw [← same, held_cardAt] at many ⊢
    have card : Card.ofNat v = cardAt i := by
      rw [Card.ofNat, ← same, Card.ofVal_val (cardAt_isValid i)]
    refine ⟨i, many, ?_⟩
    rw [card]
    rfl

theorem joined_start (nonneg : ∀ i, 0 ≤ cards i) : Joined cards 0 (start cards) where
  sound := sound_start nonneg
  dan := by
    intro v
    rw [Table.get, (started nonneg).dan, Cards.avail_zero, Cards.Once]
    split
    · next once => simp [once]
    · next notOnce => simp [notOnce]
  keys := by
    intro key member
    have found := AList.lookup_isSome.mpr member
    rw [(started nonneg).dan] at found
    split_ifs at found with once
    · exact Cards.isCard_of_held (show cards.held key ≠ 0 by omega)
    · cases found
  dui := by
    intro v
    rw [← AList.lookup_isSome, (started nonneg).dui, Cards.Twice]
    split
    · next twice => simp [twice]
    · next notTwice => simp [notTwice]
  groups := by
    intro group
    rw [(started nonneg).many, exists_many]
    simp

theorem joined_joined (nonneg : ∀ i, 0 ≤ cards i) : Joined cards 27 (joined cards) := by
  refine Table.foldl_sortedKeys (start cards).dan 27 ?_ Grouping.joinSingle (Joined cards)
    (joined_start nonneg) (fun p s before _ => before.joinSingle) ?_
  · intro key member
    have bounds := isCard_iff.mp ((joined_start nonneg).keys key member)
    omega
  · intro p s before missing
    have notOnce : ¬ cards.Once p := by
      intro once
      refine missing (MapCards.mem_of_pos (((joined_start nonneg).dan p).mpr ?_))
      exact Cards.avail_zero.mpr once
    exact before.idle ⟨fun hong => notOnce hong.2.1, fun run => notOnce run.free.1.1,
      fun santa => notOnce santa.1.1.1⟩

/-! ## The second loop -/

/-- The group that the turn of `q` makes in the second loop. -/
inductive DealtAt (cards : Cards) (q : Nat) : List Card → Prop where
  | two (w : Nat) : cards.Partners q w → DealtAt cards q [.ofNat q, .ofNat w]
  | lone : cards.Lone q → DealtAt cards q [.ofNat q]

/-- The second loop, after the turns of the values below `p`. -/
structure Dealt (cards : Cards) (p : Nat) (s : Grouping) : Prop where
  sound : Sound cards s
  dan : ∀ v : Nat, 0 < s.dan.get v 0 ↔ cards.Waits p v
  keys : ∀ key ∈ s.dan, isCard key = true
  dui : ∀ v : Nat, (v : Int) ∈ s.dui ↔ cards.Twice v ∧ ¬ cards.Santa (Cards.mirror v)
  groups : ∀ group, group ∈ s.handCards ↔
    (Many cards group ∨ ∃ q, JoinedAt cards q group) ∨ ∃ q < p, DealtAt cards q group

theorem Joined.dealt (joined : Joined cards 27 s) : Dealt cards 0 s where
  sound := joined.sound
  dan := by
    intro v
    rw [joined.dan, Cards.avail_last]
    rfl
  keys := joined.keys
  dui := by
    intro v
    rw [joined.dui]
    refine and_congr_right fun _ => not_congr ?_
    constructor
    · exact fun both => both.1
    · intro santa
      have bounds := santa.1.1.1.bounds
      exact ⟨santa, by omega⟩
  groups := by
    intro group
    rw [joined.groups]
    have turns : (∃ q < 27, JoinedAt cards q group) ↔ ∃ q, JoinedAt cards q group := by
      constructor
      · rintro ⟨q, -, made⟩
        exact ⟨q, made⟩
      · rintro ⟨q, made⟩
        have once : cards.Once q := by
          cases made with
          | hong hong => exact hong.2.1
          | run run => exact run.free.1.1
          | santa santa => exact santa.1.1.1
        have bounds := once.bounds
        exact ⟨q, by omega, made⟩
    rw [turns]
    simp

theorem foldl_addHong_none {temp : Card} {after : MapCards × List Card} {honged : List Card}
    (none : ∀ card1 ∈ honged, card1.val = temp.val ∨ ¬ 0 < after.1.get card1.val 0) :
    honged.foldl (addHong temp) after = after := by
  induction honged with
  | nil => rfl
  | cons card1 honged ih =>
      have skip : addHong temp after card1 = after := by
        refine if_neg ?_
        rintro ⟨differ, there⟩
        rcases none card1 List.mem_cons_self with same | notThere
        · exact differ same
        · exact notThere there
      rw [List.foldl_cons, skip]
      exact ih fun other member => none other (List.mem_cons_of_mem card1 member)

theorem foldl_addHong_one {temp card : Card} {after : MapCards × List Card} {honged : List Card}
    (nodup : honged.Nodup) (member : card ∈ honged) (differ : card.val ≠ temp.val)
    (there : 0 < after.1.get card.val 0)
    (others : ∀ card1 ∈ honged, card1 ≠ card →
      card1.val = temp.val ∨ ¬ 0 < after.1.get card1.val 0) :
    honged.foldl (addHong temp) after = (after.1.dec card.val, after.2 ++ [card]) := by
  induction honged with
  | nil => cases member
  | cons card1 honged ih =>
      rw [List.nodup_cons] at nodup
      rw [List.foldl_cons]
      by_cases same : card1 = card
      · subst same
        have take : addHong temp after card1 = (after.1.dec card1.val, after.2 ++ [card1]) :=
          if_pos ⟨differ, there⟩
        rw [take]
        refine foldl_addHong_none ?_
        intro other isThere
        have different : other ≠ card1 := by
          rintro rfl
          exact nodup.1 isThere
        refine (others other (List.mem_cons_of_mem card1 isThere) different).imp_right ?_
        intro notThere
        rw [MapCards.get_dec]
        split <;> omega
      · have skip : addHong temp after card1 = after := by
          refine if_neg ?_
          rintro ⟨notTemp, isThere⟩
          rcases others card1 List.mem_cons_self same with equal | notThere
          · exact notTemp equal
          · exact notThere isThere
        rw [skip]
        refine ih nodup.2 ?_ fun other isThere => others other (List.mem_cons_of_mem card1 isThere)
        rcases List.mem_cons.mp member with equal | rest
        · exact absurd equal.symm same
        · exact rest

theorem addFirst_none {after : MapCards × List Card} {key : Int} {candidates : List Card}
    (none : ¬ 0 < after.1.get key 0) :
    addFirst after (.ofVal key :: candidates) = addFirst after candidates := by
  refine if_neg ?_
  rintro ⟨valid, there⟩
  rw [Card.isValid_ofVal] at valid
  rw [Card.ofVal_of_isCard valid] at there
  exact none there

theorem addFirst_some {after : MapCards × List Card} {v : Nat} {candidates : List Card}
    (valid : isCard v = true) (there : 0 < after.1.get v 0) :
    addFirst after (.ofVal v :: candidates) = (after.1.dec v, after.2 ++ [.ofNat v]) := by
  have same := Card.ofVal_of_isCard valid
  unfold addFirst
  rw [same, if_pos ⟨(Card.isValid_ofVal v).trans valid, there⟩]
  rfl

theorem sortCards_two {v w : Nat} (once : IsValue v)
    (otherOnce : IsValue w) (size : w / 16 = v / 16) (less : v < w) :
    sortCards [.ofNat v, .ofNat w] = [.ofNat v, .ofNat w] := by
  have inOrder : (Card.ofNat w).less (.ofNat v) = false := by
    have same : (Card.ofNat w).isBig = (Card.ofNat v).isBig := by
      rw [Card.isBig_ofNat once, Card.isBig_ofNat otherOnce, decide_eq_decide]
      omega
    rw [Card.less, same, Card.val_ofNat once, Card.val_ofNat otherOnce]
    cases (Card.ofNat v).isBig <;> simp [less.le]
  simp [sortCards, inOrder]

namespace Dealt

theorem waits_of_pos (dealt : Dealt cards p s) {key : Int} (there : 0 < s.dan.get key 0) :
    ∃ v : Nat, key = v ∧ cards.Waits p v := by
  obtain ⟨v, rfl⟩ := exists_nat (dealt.keys key (MapCards.mem_of_pos there))
  exact ⟨v, rfl, (dealt.dan v).mp there⟩

theorem start_pos (dealt : Dealt cards p s) (waits : cards.Waits p p) {v : Nat} :
    0 < (s.dan.dec p).get v 0 ↔ cards.Waits p v ∧ v ≠ p := by
  have taken := Taken.one ((dealt.dan p).mpr waits)
  rw [taken.pos_iff dealt.sound.le_one, dealt.dan, List.mem_singleton, Nat.cast_inj]

theorem taken_red (dealt : Dealt cards p s) (waits : cards.Waits p p) (red : Cards.isRed p) :
    let isBig := (Card.ofNat p).isBig
    let taken := [Card.makeCard 2 isBig, Card.makeCard 7 isBig, Card.makeCard 10 isBig].foldl
      (addHong (.ofNat p)) (s.dan.dec p, [.ofNat p])
    (cards.Lone p → taken = (s.dan.dec p, [.ofNat p])) ∧
      ∀ w, cards.Partners p w → taken = ((s.dan.dec p).dec w, [.ofNat p, .ofNat w]) := by
  have bounds := waits.once.bounds
  have self := Card.val_ofNat bounds
  dsimp only
  rw [Card.makeCards_red bounds]
  -- A red card of the size that is there is the partner.
  have partner : ∀ card1 ∈ Card.redCards p, card1.val ≠ p → 0 < (s.dan.dec p).get card1.val 0 →
      cards.Partners p card1.val := by
    intro card1 member differ there
    obtain ⟨-, red1, size⟩ := (Card.mem_redCards bounds).mp member
    exact ⟨waits, ((dealt.start_pos waits).mp there).1, differ, .inl ⟨red, red1, size⟩⟩
  constructor
  · intro lone
    refine foldl_addHong_none ?_
    intro card1 member
    rw [self]
    by_cases same : card1.val = p
    · exact .inl same
    · exact .inr fun there => lone.2 _ (partner card1 member same there)
  · intro w partners
    have valW := Card.val_ofNat partners.once.bounds
    have member : Card.ofNat w ∈ Card.redCards p := by
      rcases partners.2.2.2 with ⟨-, redW, size⟩ | ⟨notRed, -⟩
      · rw [Card.mem_redCards bounds, valW]
        exact ⟨rfl, redW, size⟩
      · exact absurd red notRed
    have there : 0 < (s.dan.dec p).get (Card.ofNat w).val 0 := by
      rw [valW]
      exact (dealt.start_pos waits).mpr ⟨partners.2.1, partners.2.2.1⟩
    rw [foldl_addHong_one (Card.nodup_redCards bounds) member ?_ there ?_]
    · rw [valW]
      rfl
    · rw [valW, self]
      exact partners.2.2.1
    · intro card1 member1 differ
      rw [self]
      by_cases same : card1.val = p
      · exact .inl same
      · refine .inr fun isThere => differ ?_
        obtain ⟨card, -, -⟩ := (Card.mem_redCards bounds).mp member1
        rw [card, (partner card1 member1 same isThere).unique partners]

theorem taken_other (dealt : Dealt cards p s) (waits : cards.Waits p p) (notRed : ¬ Cards.isRed p) :
    let taken := addFirst (s.dan.dec p, [.ofNat p])
      [.ofVal (p - 1), .ofVal (p + 1), .ofVal (p - 2), .ofVal (p + 2)]
    (cards.Lone p → taken = (s.dan.dec p, [.ofNat p])) ∧
      ∀ w, cards.Partners p w → taken = ((s.dan.dec p).dec w, [.ofNat p, .ofNat w]) := by
  have below : ∀ key : Int, key < p → ¬ 0 < (s.dan.dec p).get key 0 := by
    intro key less there
    have before : 0 < s.dan.get key 0 := by
      rw [MapCards.get_dec, if_neg (by omega)] at there
      omega
    obtain ⟨v, rfl, waitsV⟩ := dealt.waits_of_pos before
    have low := waitsV.le
    omega
  have valid : ∀ {v : Nat}, cards.Waits p v → isCard v = true := fun waitsV =>
    dealt.keys _ (MapCards.mem_of_pos ((dealt.dan _).mpr waitsV))
  dsimp only
  rw [addFirst_none (below _ (by omega))]
  have lonely : ∀ {w : Nat} {taken : MapCards × List Card}, cards.Partners p w →
      taken = ((s.dan.dec p).dec w, [.ofNat p, .ofNat w]) →
      (cards.Lone p → taken = (s.dan.dec p, [.ofNat p])) ∧
        ∀ w, cards.Partners p w → taken = ((s.dan.dec p).dec w, [.ofNat p, .ofNat w]) := by
    intro w taken partners made
    refine ⟨fun lone => absurd partners (lone.2 w), ?_⟩
    intro other otherPartners
    rwa [otherPartners.unique partners]
  by_cases next : cards.Waits p (p + 1)
  · have there := (dealt.start_pos waits).mpr ⟨next, show p + 1 ≠ p by omega⟩
    exact lonely ⟨waits, next, by omega, .inr ⟨notRed, .inl rfl⟩⟩ (addFirst_some (valid next) there)
  · have notNext : ¬ 0 < (s.dan.dec p).get ((p + 1 : Nat) : Int) 0 :=
      fun there => next ((dealt.start_pos waits).mp there).1
    have skip : addFirst (s.dan.dec p, [.ofNat p])
        [.ofVal (p + 1), .ofVal (p - 2), .ofVal (p + 2)] =
          addFirst (s.dan.dec p, [.ofNat p]) [.ofVal (p + 2)] :=
      (addFirst_none notNext).trans (addFirst_none (below _ (by omega)))
    rw [skip]
    by_cases afterNext : cards.Waits p (p + 2)
    · have there := (dealt.start_pos waits).mpr ⟨afterNext, show p + 2 ≠ p by omega⟩
      exact lonely ⟨waits, afterNext, by omega, .inr ⟨notRed, .inr ⟨rfl, next⟩⟩⟩
        (addFirst_some (valid afterNext) there)
    · have notThere : ¬ 0 < (s.dan.dec p).get ((p + 2 : Nat) : Int) 0 :=
        fun there => afterNext ((dealt.start_pos waits).mp there).1
      have nothing : addFirst (s.dan.dec p, [.ofNat p]) [.ofVal (p + 2)] =
          (s.dan.dec p, [.ofNat p]) := addFirst_none notThere
      rw [nothing]
      refine ⟨fun _ => rfl, ?_⟩
      rintro w ⟨-, waitsW, -, ⟨red, -, -⟩ | ⟨-, rfl | ⟨rfl, -⟩⟩⟩
      · exact absurd red notRed
      · exact absurd waitsW next
      · exact absurd waitsW afterNext

theorem idle (dealt : Dealt cards p s) (notWaits : ¬ cards.Waits p p) : Dealt cards (p + 1) s where
  sound := dealt.sound
  dan := by
    intro v
    rw [dealt.dan, Cards.waits_succ_of_not_waits notWaits]
  keys := dealt.keys
  dui := dealt.dui
  groups := by
    intro group
    have never : ¬ DealtAt cards p group := by
      rintro (⟨_, partners⟩ | lone)
      · exact notWaits partners.1
      · exact notWaits lone.1
    rw [dealt.groups, Nat.exists_lt_succ_right]
    simp only [never, or_false]

/-- A turn that makes a group. -/
theorem push (dealt : Dealt cards p s) {dan : MapCards} {group : List Card}
    (sound : Sound cards { s with dan := dan, handCards := s.handCards ++ [group] })
    (left : ∀ v : Nat, 0 < dan.get v 0 ↔ cards.Waits (p + 1) v) (keys : ∀ key ∈ dan, key ∈ s.dan)
    (made : ∀ other, DealtAt cards p other ↔ other = group) :
    Dealt cards (p + 1) { s with dan := dan, handCards := s.handCards ++ [group] } where
  sound := sound
  dan := left
  keys := fun key member => dealt.keys key (keys key member)
  dui := dealt.dui
  groups := by
    intro other
    rw [List.mem_append, List.mem_singleton, dealt.groups, Nat.exists_lt_succ_right, made, or_assoc]

theorem groupSingle_eq (dealt : Dealt cards p s) (waits : cards.Waits p p) :
    (cards.Lone p → s.groupSingle p =
      { s with dan := s.dan.dec p, handCards := s.handCards ++ [[.ofNat p]] }) ∧
      ∀ w, cards.Partners p w → s.groupSingle p =
        { s with
          dan := (s.dan.dec p).dec w
          handCards := s.handCards ++ [[.ofNat p, .ofNat w]] } := by
  have bounds := waits.once.bounds
  have there := dealt.sound.pos_iff.mp ((dealt.dan p).mpr waits)
  have point := Card.getPoint_ofNat bounds
  unfold Grouping.groupSingle
  rw [if_neg there]
  dsimp only
  rw [show Card.ofVal (p : Int) = .ofNat p from rfl]
  generalize made : ite ((Card.ofNat p).getPoint = 2 ∨ (Card.ofNat p).getPoint = 7 ∨
    (Card.ofNat p).getPoint = 10) _ _ = taken
  have takes : (cards.Lone p → taken = (s.dan.dec p, [.ofNat p])) ∧
      ∀ w, cards.Partners p w → taken = ((s.dan.dec p).dec w, [.ofNat p, .ofNat w]) := by
    rw [← made]
    split
    · next isRed =>
      refine dealt.taken_red waits ?_
      unfold Cards.isRed
      omega
    · next notRed =>
      refine dealt.taken_other waits ?_
      unfold Cards.isRed
      omega
  constructor
  · intro lone
    rw [takes.1 lone]
    rfl
  · intro w partners
    rw [takes.2 w partners]
    show ({ s with
      dan := (s.dan.dec p).dec w
      handCards := s.handCards ++ [sortCards [.ofNat p, .ofNat w]] } : Grouping) = _
    rw [sortCards_two bounds partners.once.bounds partners.size partners.lt]

theorem groupSingle (dealt : Dealt cards p s) : Dealt cards (p + 1) (s.groupSingle p) := by
  by_cases waits : cards.Waits p p
  · have there := (dealt.dan p).mpr waits
    have sound := (dealt.sound.groupSingle p).sound
    have first := Taken.one there
    obtain ⟨ofLone, ofPartners⟩ := dealt.groupSingle_eq waits
    by_cases lone : cards.Lone p
    · rw [ofLone lone] at sound ⊢
      refine dealt.push sound ?_ ?_ ?_
      · intro v
        rw [dealt.start_pos waits, lone.waits_succ]
      · intro key member
        rcases MapCards.mem_dec.mp member with rfl | old
        · exact MapCards.mem_of_pos there
        · exact old
      · intro other
        constructor
        · rintro (⟨w, partners⟩ | -)
          · exact absurd partners (lone.2 w)
          · rfl
        · rintro rfl
          exact .lone lone
    · obtain ⟨w, partners⟩ : ∃ w, cards.Partners p w := by
        by_contra none
        exact lone ⟨waits, fun w partners => none ⟨w, partners⟩⟩
      have thereW := (dealt.start_pos waits).mpr ⟨partners.2.1, partners.2.2.1⟩
      rw [ofPartners w partners] at sound ⊢
      have both := first.add dealt.sound.le_one thereW
      refine dealt.push sound ?_ ?_ ?_
      · intro v
        rw [both.pos_iff dealt.sound.le_one, dealt.dan, partners.waits_succ]
        simp only [List.mem_append, List.mem_singleton, Nat.cast_inj, not_or]
      · intro key member
        rcases MapCards.mem_dec.mp member with rfl | member
        · exact MapCards.mem_of_pos ((dealt.dan w).mpr partners.2.1)
        · rcases MapCards.mem_dec.mp member with rfl | old
          · exact MapCards.mem_of_pos there
          · exact old
      · intro other
        constructor
        · rintro (⟨u, others⟩ | alone)
          · rw [others.unique partners]
          · exact absurd alone lone
        · rintro rfl
          exact .two w partners
  · have none := not_not.mp (mt dealt.sound.pos_iff.mpr (mt (dealt.dan p).mp waits))
    unfold Grouping.groupSingle
    rw [if_pos none]
    exact dealt.idle waits

end Dealt

/-! ## The whole -/

theorem dealt_grouped (nonneg : ∀ i, 0 ≤ cards i) : Dealt cards 27 (grouped cards) := by
  have before := joined_joined nonneg
  refine Table.foldl_sortedKeys (joined cards).dan 27 ?_ Grouping.groupSingle (Dealt cards)
    before.dealt (fun p s dealt _ => dealt.groupSingle) ?_
  · intro key member
    have bounds := isCard_iff.mp (before.keys key member)
    omega
  · intro p s dealt missing
    refine dealt.idle fun waits => missing (MapCards.mem_of_pos ?_)
    exact (before.dan p).mpr (Cards.avail_last.mpr waits.rest)

theorem mem_foldl_groupPair {handCards : List (List Card)} {done : List Int} {group : List Card} :
    group ∈ done.foldl groupPair handCards ↔
      group ∈ handCards ∨ ∃ key ∈ done, group = [.ofVal key, .ofVal key] := by
  induction done generalizing handCards with
  | nil => simp
  | cons key done ih =>
      rw [List.foldl_cons, ih, groupPair, List.mem_append, List.mem_singleton, or_assoc]
      simp

theorem mem_groups (nonneg : ∀ i, 0 ≤ cards i) (group : List Card) :
    group ∈ groups cards ↔ Arranged cards group := by
  have dealt := dealt_grouped nonneg
  unfold groups
  dsimp only
  rw [mem_foldl_groupPair, dealt.groups]
  constructor
  · rintro (((⟨v, many, rfl⟩ | ⟨q, made⟩) | ⟨q, -, made⟩) | ⟨key, member, rfl⟩)
    · exact .many v many
    · cases made with
      | hong hong => exact .hong q hong
      | run run => exact .run q run
      | santa santa => exact .santa q santa
    · cases made with
      | two w partners => exact .two q w partners
      | lone lone => exact .lone q lone
    · rw [Table.mem_sortedKeys] at member
      have held := dealt.sound.held_of_mem member
      obtain ⟨v, rfl⟩ := exists_nat (Cards.isCard_of_held (by rw [held]; decide))
      obtain ⟨twice, notSanta⟩ := (dealt.dui v).mp member
      exact .pair v twice notSanta
  · intro arranged
    have dealtAt : ∀ q, cards.Waits q q → DealtAt cards q group →
        ∃ q < 27, DealtAt cards q group := by
      intro q waits made
      have bounds := waits.once.bounds
      exact ⟨q, by omega, made⟩
    cases arranged with
    | many v many => exact .inl (.inl (.inl ⟨v, many, rfl⟩))
    | hong v hong => exact .inl (.inl (.inr ⟨v, .hong hong⟩))
    | run v run => exact .inl (.inl (.inr ⟨v, .run run⟩))
    | santa v santa => exact .inl (.inl (.inr ⟨v, .santa santa⟩))
    | two v w partners => exact .inl (.inr (dealtAt v partners.1 (.two w partners)))
    | lone v lone => exact .inl (.inr (dealtAt v lone.1 (.lone lone)))
    | pair v twice notSanta =>
        exact .inr ⟨v, Table.mem_sortedKeys.mpr ((dealt.dui v).mpr ⟨twice, notSanta⟩), rfl⟩

end Grouping

end CLibs.Cardlib
