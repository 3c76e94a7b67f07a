import CLibs.Cardlib.Bookkeeping

/-!
# What an accepted chi takes

`EatChi` tests the two auxiliary cards of the first meld one by one and ignores
the results of all removals. Whether an accepted list of melds took the cards it
names is therefore a matter of the hand and the list alone.
-/

set_option autoImplicit false

namespace CLibs.Cardlib

/-- The types of the melds that `EatChi` is meant for. -/
def EatCard.isChi (eat : EatCard) : Bool :=
  decide (eat.type = .eatShunZi ∨ eat.type = .eatHong ∨ eat.type = .eatSanta ∨ eat.type = .eat123)

namespace EatCard

theorem isChi_bag {eat : EatCard} (chi : eat.isChi = true) :
    eat.bag = eat.eatCard ::ₘ (eat.cards : Multiset Card) := by
  simp only [isChi, decide_eq_true_eq] at chi
  rcases chi with type | type | type | type <;> simp [EatCard.bag, type]

theorem isChi_points {eat : EatCard} (chi : eat.isChi = true) : eat.chiPoints = eat.points := by
  simp only [isChi, decide_eq_true_eq] at chi
  rcases chi with type | type | type | type <;> simp [EatCard.chiPoints, EatCard.points, type]

theorem chiPoints_le (eat : EatCard) : eat.chiPoints ≤ eat.points := by
  unfold chiPoints EatCard.points
  cases eat.type <;> simp

/-- A meld that scores what `EatChi` counts for it has three cards only if it is
of a type `EatChi` is meant for. -/
theorem card_bag_le_three {eat : EatCard} (pair : eat.cards.length = 2)
    (points : eat.chiPoints = eat.points) :
    eat.bag.card ≤ 3 ∧ (eat.bag.card = 3 → eat.isChi = true) := by
  unfold chiPoints EatCard.points at points
  unfold EatCard.bag isChi
  cases type : eat.type <;> cases size : eat.big <;> simp_all

end EatCard

theorem chiPoints_le_meldsPoints (eats : List EatCard) : chiPoints eats ≤ meldsPoints eats := by
  induction eats with
  | nil => simp
  | cons eat rest ih =>
      have := eat.chiPoints_le
      rw [chiPoints_cons, meldsPoints_cons]
      omega

theorem chiPoints_eq_points_of_mem {eats : List EatCard} (same : chiPoints eats = meldsPoints eats) :
    ∀ eat ∈ eats, eat.chiPoints = eat.points := by
  induction eats with
  | nil => simp
  | cons eat rest ih =>
      have head := eat.chiPoints_le
      have tail := chiPoints_le_meldsPoints rest
      rw [chiPoints_cons, meldsPoints_cons] at same
      intro other member
      rcases List.mem_cons.mp member with rfl | inRest
      · omega
      · exact ih (by omega) other inRest

theorem chi_of_card_meldsBag {eats : List EatCard} (pairs : ∀ eat ∈ eats, eat.cards.length = 2)
    (points : ∀ eat ∈ eats, eat.chiPoints = eat.points) :
    (meldsBag eats).card ≤ 3 * eats.length ∧
      ((meldsBag eats).card = 3 * eats.length → ∀ eat ∈ eats, eat.isChi = true) := by
  induction eats with
  | nil => simp
  | cons eat rest ih =>
      obtain ⟨restLe, restChi⟩ := ih (fun other member => pairs other (List.mem_cons_of_mem _ member))
        (fun other member => points other (List.mem_cons_of_mem _ member))
      obtain ⟨headLe, headChi⟩ := EatCard.card_bag_le_three (pairs eat List.mem_cons_self)
        (points eat List.mem_cons_self)
      rw [meldsBag_cons, Multiset.card_add, List.length_cons]
      refine ⟨by omega, ?_⟩
      intro full other member
      rcases List.mem_cons.mp member with rfl | inRest
      · exact headChi (by omega)
      · exact restChi (by omega) other inRest

namespace HandCards

/-- The size of the hand, the size and color totals and the points are what the
hand and the table melds say. -/
structure Tallied (s : HandCards) : Prop where
  nonneg : ∀ i, 0 ≤ s.cards i
  countCards : (s.countCards.toNat : Int) = ∑ i, s.cards i
  bigCards : s.bigCards.toNat = s.bag.countP (·.isBig = true)
  smallCards : s.smallCards.toNat = s.bag.countP (·.isBig = false)
  redCards : s.redCards.toNat = s.bag.countP (isHong · = true)
  huXi : s.huXi.toNat = meldsPoints s.eatCards

theorem Bookkeeping.tallied {s : HandCards} (exact : s.Bookkeeping) : s.Tallied :=
  ⟨exact.nonneg, exact.countCards, exact.bigCards, exact.smallCards, exact.redCards, exact.huXi⟩

/-- The hand holds all the cards that the melds take from it, the melds are of
the chi types, and no byte counter is at its end. -/
structure Covers (s : HandCards) (card : Card) (eats : List EatCard) : Prop where
  held : (usedCards eats : Multiset Card) ≤ s.cards.bag
  chi : ∀ eat ∈ eats, eat.isChi = true
  size : (if card.isBig then s.bigCards else s.smallCards).toNat < 255
  color : isHong card = true → s.redCards.toNat < 255
  points : s.huXi.toNat + chiPoints eats < 256

end HandCards

/-! ## A list the hand covers -/

theorem meldsBag_of_chi {eats : List EatCard} (chi : ∀ eat ∈ eats, eat.isChi = true) :
    meldsBag eats = ((eats.flatMap fun eat => eat.eatCard :: eat.cards : List Card) : Multiset Card) := by
  induction eats with
  | nil => rfl
  | cons eat rest ih =>
      rw [meldsBag_cons, EatCard.isChi_bag (chi eat List.mem_cons_self),
        ih fun other member => chi other (List.mem_cons_of_mem _ member), List.flatMap_cons,
        ← Multiset.coe_add, ← Multiset.cons_coe]

theorem meldsBag_eq_cons {first : EatCard} {rest : List EatCard}
    (chi : ∀ eat ∈ first :: rest, eat.isChi = true) :
    meldsBag (first :: rest) = first.eatCard ::ₘ (usedCards (first :: rest) : Multiset Card) := by
  rw [meldsBag_of_chi chi, List.flatMap_cons, usedCards, List.cons_append, Multiset.cons_coe]

namespace HandCards

/-- The result of an accepted list whose cards are all held. -/
theorem eatChi_moved {s : HandCards} {card : Card} {first : EatCard} {rest : List EatCard}
    (nonneg : s.cards.Nonneg) (pairs : ∀ eat ∈ first :: rest, eat.cards.length = 2)
    (held : (usedCards (first :: rest) : Multiset Card) ≤ s.cards.bag)
    (accepted : (s.eatChi card (first :: rest)).2 = true) :
    ∃ t cardFlags, s.Moved t (usedCards (first :: rest)) (first :: rest) ∧
      (s.eatChi card (first :: rest)).1 = { t.countIn card with cardFlags := cardFlags } := by
  have moved := Moved.plan nonneg pairs held
  simp only [eatChi] at accepted ⊢
  generalize rest.foldl HandCards.eatChiNext _ = done at moved accepted ⊢
  split at accepted
  · cases accepted
  · next admitted =>
    rw [if_neg admitted]
    split at accepted
    · cases accepted
    · next finished =>
      rw [if_neg finished]
      refine ⟨done.1, ?_⟩
      cases done.2
      · exact ⟨_, moved, rfl⟩
      · exact ⟨_, moved, rfl⟩

theorem eatChi_counters {s : HandCards} {card : Card} {first : EatCard} {rest : List EatCard}
    (nonneg : s.cards.Nonneg) (pairs : ∀ eat ∈ first :: rest, eat.cards.length = 2)
    (held : (usedCards (first :: rest) : Multiset Card) ≤ s.cards.bag)
    (accepted : (s.eatChi card (first :: rest)).2 = true) :
    let after := (s.eatChi card (first :: rest)).1
    after.cards.Nonneg ∧
    s.cards.bag = (usedCards (first :: rest) : Multiset Card) + after.cards.bag ∧
    after.eatCards = s.eatCards ++ first :: rest ∧
    after.countCards = s.countCards - UInt8.ofNat (usedCards (first :: rest)).length ∧
    after.bigCards = (s.countIn card).bigCards ∧ after.smallCards = (s.countIn card).smallCards ∧
    after.redCards = (s.countIn card).redCards ∧
    after.huXi = s.huXi + UInt8.ofNat (chiPoints (first :: rest)) := by
  obtain ⟨t, cardFlags, moved, result⟩ := eatChi_moved nonneg pairs held accepted
  rw [result]
  refine ⟨moved.nonneg, moved.bag, ?_⟩
  rw [moved.state]
  exact ⟨rfl, rfl, rfl, rfl, rfl, rfl⟩

private theorem toNat_ite_add_one (byte : UInt8) (one : Bool) :
    (if one then byte + 1 else byte).toNat = (byte.toNat + one.toNat) % 256 := by
  have small := byte.toNat_lt
  cases one with
  | true => simp [UInt8.toNat_add]
  | false => simp [Nat.mod_eq_of_lt small]

theorem countIn_toNat (s : HandCards) (card : Card) :
    (s.countIn card).bigCards.toNat = (s.bigCards.toNat + card.isBig.toNat) % 256 ∧
    (s.countIn card).smallCards.toNat = (s.smallCards.toNat + (!card.isBig).toNat) % 256 ∧
    (s.countIn card).redCards.toNat = (s.redCards.toNat + (isHong card).toNat) % 256 := by
  refine ⟨toNat_ite_add_one _ _, ?_, toNat_ite_add_one _ _⟩
  rw [← toNat_ite_add_one]
  cases size : card.isBig <;> simp [countIn, size]

theorem countP_isBig_add (bag : Multiset Card) :
    bag.countP (·.isBig = true) + bag.countP (·.isBig = false) = bag.card := by
  rw [Multiset.card_eq_countP_add_countP (·.isBig = true) bag]
  simp

theorem countP_cons_toNat (test : Card → Bool) (card : Card) (bag : Multiset Card) :
    (card ::ₘ bag).countP (test · = true) = bag.countP (test · = true) + (test card).toNat := by
  rw [Multiset.countP_cons]
  cases test card <;> simp

theorem Tallied.total {s : HandCards} (tallied : s.Tallied) :
    s.countCards.toNat = s.cards.total := by
  have sums := tallied.countCards
  rw [← ((Cards.nonneg_iff _).mpr tallied.nonneg).cast_total] at sums
  exact_mod_cast sums

theorem Tallied.countCards_sub {s : HandCards} (tallied : s.Tallied) {used : List Card}
    {left : Cards} (split : s.cards.bag = (used : Multiset Card) + left.bag) :
    (s.countCards - UInt8.ofNat used.length).toNat = left.total := by
  have sizes := congrArg Multiset.card split
  rw [Cards.card_bag, Multiset.card_add, Cards.card_bag, Multiset.coe_card] at sizes
  have total := tallied.total
  have small := s.countCards.toNat_lt
  rw [UInt8.toNat_sub, UInt8.toNat_ofNat']
  omega

/-- What the totals have to be after an accepted list whose cards are all held. -/
theorem Tallied.eatChi_iff {s : HandCards} (tallied : s.Tallied) {card : Card} {first : EatCard}
    {rest : List EatCard} (pairs : ∀ eat ∈ first :: rest, eat.cards.length = 2)
    (held : (usedCards (first :: rest) : Multiset Card) ≤ s.cards.bag)
    (accepted : (s.eatChi card (first :: rest)).2 = true) :
    let after := (s.eatChi card (first :: rest)).1
    s.cards.bag = (usedCards (first :: rest) : Multiset Card) + after.cards.bag ∧
    after.eatCards = s.eatCards ++ first :: rest ∧
    (after.Tallied ↔
      (s.bigCards.toNat + card.isBig.toNat) % 256 = after.bag.countP (·.isBig = true) ∧
      (s.smallCards.toNat + (!card.isBig).toNat) % 256 = after.bag.countP (·.isBig = false) ∧
      (s.redCards.toNat + (isHong card).toNat) % 256 = after.bag.countP (isHong · = true) ∧
      (s.huXi.toNat + chiPoints (first :: rest)) % 256 =
        s.huXi.toNat + meldsPoints (first :: rest)) := by
  obtain ⟨nonneg, bag, melds, count, big, small, red, huXi⟩ := eatChi_counters
    ((Cards.nonneg_iff _).mpr tallied.nonneg) pairs held accepted
  generalize (s.eatChi card (first :: rest)).1 = after at nonneg bag melds count big small red huXi ⊢
  obtain ⟨bigNat, smallNat, redNat⟩ := s.countIn_toNat card
  have points : after.huXi.toNat = (s.huXi.toNat + chiPoints (first :: rest)) % 256 := by
    rw [huXi, UInt8.toNat_add, UInt8.toNat_ofNat', Nat.add_mod_mod]
  have scores := meldsPoints_append s.eatCards (first :: rest)
  rw [← melds] at scores
  rw [← bigNat, ← smallNat, ← redNat, ← points, ← big, ← small, ← red, tallied.huXi, ← scores]
  refine ⟨bag, melds, ?_, ?_⟩
  · intro right
    exact ⟨right.bigCards, right.smallCards, right.redCards, right.huXi⟩
  · rintro ⟨bigTotal, smallTotal, redTotal, score⟩
    refine ⟨(Cards.nonneg_iff _).mp nonneg, ?_, bigTotal, smallTotal, redTotal, score⟩
    rw [← nonneg.cast_total, count, tallied.countCards_sub bag]

/-! ## Which lists are covered -/

/-- Melds of the chi types leave the player with the incoming card on top. -/
theorem bag_of_chi {s after : HandCards} {first : EatCard} {rest : List EatCard}
    (chi : ∀ eat ∈ first :: rest, eat.isChi = true)
    (split : s.cards.bag = (usedCards (first :: rest) : Multiset Card) + after.cards.bag)
    (melds : after.eatCards = s.eatCards ++ first :: rest) :
    after.bag = first.eatCard ::ₘ s.bag := by
  rw [HandCards.bag, melds, meldsBag_append, meldsBag_eq_cons chi, HandCards.bag, split,
    ← Multiset.singleton_add, ← Multiset.singleton_add]
  abel

theorem length_usedCards {first : EatCard} {rest : List EatCard}
    (pairs : ∀ eat ∈ first :: rest, eat.cards.length = 2) :
    (usedCards (first :: rest)).length + 1 = 3 * (first :: rest).length := by
  have tail : (rest.flatMap fun eat => eat.eatCard :: eat.cards).length = 3 * rest.length := by
    induction rest with
    | nil => rfl
    | cons eat rest ih =>
        have pair := pairs eat (by simp)
        have others := ih fun other member => pairs other (by
          rcases List.mem_cons.mp member with rfl | inRest
          · exact List.mem_cons_self
          · exact List.mem_cons_of_mem _ (List.mem_cons_of_mem _ inRest))
        rw [List.flatMap_cons, List.length_append, others, List.length_cons, List.length_cons, pair]
        omega
  have pair := pairs first List.mem_cons_self
  rw [usedCards, List.length_append, tail, pair, List.length_cons]
  omega

/-- A list the hand covers keeps every total. -/
theorem Tallied.eatChi {s : HandCards} (tallied : s.Tallied) {card : Card} {first : EatCard}
    {rest : List EatCard} (incoming : first.eatCard = card)
    (pairs : ∀ eat ∈ first :: rest, eat.cards.length = 2)
    (covers : s.Covers card (first :: rest))
    (accepted : (s.eatChi card (first :: rest)).2 = true) :
    (s.eatChi card (first :: rest)).1.Tallied := by
  obtain ⟨bag, melds, totals⟩ := tallied.eatChi_iff pairs covers.held accepted
  refine totals.mpr ?_
  have whole := bag_of_chi covers.chi bag melds
  have scores : meldsPoints (first :: rest) = chiPoints (first :: rest) := by
    rw [meldsPoints, chiPoints]
    congr 1
    exact List.map_congr_left fun eat member => (EatCard.isChi_points (covers.chi eat member)).symm
  have size := covers.size
  have color := covers.color
  have points := covers.points
  have big := tallied.bigCards
  have small := tallied.smallCards
  have red := tallied.redCards
  have bigLt := s.bigCards.toNat_lt
  have smallLt := s.smallCards.toNat_lt
  have redLt := s.redCards.toNat_lt
  rw [whole, incoming, countP_cons_toNat Card.isBig, countP_cons_toNat isHong, Multiset.countP_cons, scores]
  refine ⟨?_, ?_, ?_, Nat.mod_eq_of_lt points⟩
  · cases isBig : card.isBig with
    | true => simp only [isBig, if_true, Bool.toNat_true] at size ⊢; omega
    | false => simp only [Bool.toNat_false]; omega
  · cases isBig : card.isBig with
    | true => simp; omega
    | false => simp [isBig] at size ⊢; omega
  · cases hong : isHong card with
    | true =>
        have := color hong
        simp only [Bool.toNat_true]
        omega
    | false => simp only [Bool.toNat_false]; omega

/-- If the cards are gone and the totals are right, the hand covered the list. -/
theorem Tallied.covers {s : HandCards} (tallied : s.Tallied) {card : Card} {first : EatCard}
    {rest : List EatCard} (incoming : first.eatCard = card)
    (pairs : ∀ eat ∈ first :: rest, eat.cards.length = 2)
    (held : (usedCards (first :: rest) : Multiset Card) ≤ s.cards.bag)
    (accepted : (s.eatChi card (first :: rest)).2 = true)
    (after : (s.eatChi card (first :: rest)).1.Tallied) : s.Covers card (first :: rest) := by
  obtain ⟨bag, melds, totals⟩ := tallied.eatChi_iff pairs held accepted
  obtain ⟨big, small, red, points⟩ := totals.mp after
  have huXiLt := s.huXi.toNat_lt
  have below := chiPoints_le_meldsPoints (first :: rest)
  have same : chiPoints (first :: rest) = meldsPoints (first :: rest) := by omega
  have scores := chiPoints_eq_points_of_mem same
  obtain ⟨atMost, full⟩ := chi_of_card_meldsBag pairs scores
  -- the size totals count three cards for each meld; a byte that starts over
  -- would need 256 of them in a hand of at most 255
  have before := countP_isBig_add s.bag
  have behind := countP_isBig_add (s.eatChi card (first :: rest)).1.bag
  rw [← tallied.bigCards, ← tallied.smallCards, HandCards.bag, Multiset.card_add, bag,
    Multiset.card_add, Multiset.coe_card] at before
  rw [← big, ← small, HandCards.bag, Multiset.card_add, melds, meldsBag_append,
    Multiset.card_add] at behind
  have hand := tallied.total
  rw [← Cards.card_bag, bag, Multiset.card_add, Multiset.coe_card] at hand
  have handLt := s.countCards.toNat_lt
  have length := length_usedCards pairs
  have bigLt := s.bigCards.toNat_lt
  have smallLt := s.smallCards.toNat_lt
  have room : (if card.isBig then s.bigCards else s.smallCards).toNat < 255 ∧
      (meldsBag (first :: rest)).card = 3 * (first :: rest).length := by
    cases isBig : card.isBig with
    | true =>
        simp only [isBig, Bool.toNat_true, Bool.not_true, Bool.toNat_false, if_true] at behind ⊢
        omega
    | false =>
        simp only [isBig, Bool.toNat_false, Bool.not_false, Bool.toNat_true, Bool.false_eq_true,
          if_false] at behind ⊢
        omega
  have chi := full room.2
  refine ⟨held, chi, room.1, ?_, by omega⟩
  intro hong
  have whole := bag_of_chi chi bag melds
  rw [whole, incoming, countP_cons_toNat isHong, ← tallied.redCards, hong, Bool.toNat_true] at red
  have redLt := s.redCards.toNat_lt
  omega

/-- An accepted list of melds took exactly the cards it names, and the totals
are right afterwards, just when the hand covered the list. -/
theorem eatChi_conserves_iff {s : HandCards} (tallied : s.Tallied) {card : Card}
    {eats : List EatCard} (some : eats ≠ []) (pairs : ∀ eat ∈ eats, eat.cards.length = 2)
    (incoming : (eats.head some).eatCard = card) (accepted : (s.eatChi card eats).2 = true) :
    (s.cards.bag = (usedCards eats : Multiset Card) + (s.eatChi card eats).1.cards.bag ∧
      (s.eatChi card eats).1.Tallied) ↔ s.Covers card eats := by
  obtain ⟨first, rest, rfl⟩ := List.exists_cons_of_ne_nil some
  rw [List.head_cons] at incoming
  constructor
  · rintro ⟨split, after⟩
    exact tallied.covers incoming pairs (split ▸ Multiset.le_add_right _ _) accepted after
  · intro covers
    obtain ⟨bag, -⟩ := tallied.eatChi_iff pairs covers.held accepted
    exact ⟨bag, tallied.eatChi incoming pairs covers accepted⟩

/-- A santa that needs two big 2s besides the incoming small one. -/
def santaOfTwos : EatCard :=
  { type := .eatSanta, eatCard := .makeCard 2 false
    cards := [.makeCard 2 true, .makeCard 2 true] }

/-- A hand that holds `num` big 2s and nothing else. -/
def bigTwos (num : Nat) : HandCards := addHandCards {} (List.replicate num (.makeCard 2 true))

theorem bigTwos_tallied {num : Nat} (copies : (bigTwos num).FourCopies) : (bigTwos num).Tallied :=
  ((addHandCards_ledger _ _).bookkeeping copies).tallied

/-- Both big 2s leave the hand. -/
theorem eatChi_conserves_iff_bigTwos :
    (bigTwos 2).cards.bag = (usedCards [santaOfTwos] : Multiset Card) +
        ((bigTwos 2).eatChi (.makeCard 2 false) [santaOfTwos]).1.cards.bag ∧
      ((bigTwos 2).eatChi (.makeCard 2 false) [santaOfTwos]).1.Tallied :=
  (@eatChi_conserves_iff _ (bigTwos_tallied (by decide)) _ [santaOfTwos] (by decide)
    (by decide) rfl (by decide)).mpr
    ⟨by decide, by decide, by decide, by decide, by decide⟩

/-- A single big 2 passes the test for each of the two, and the list is accepted. -/
theorem eatChi_accepts_missing_card :
    ¬ ∀ (s : HandCards) (card : Card) (eats : List EatCard) (some : eats ≠ []),
      s.Tallied → card.isValid = true → (∀ eat ∈ eats, eat.cards.length = 2) →
      (eats.head some).eatCard = card → (s.eatChi card eats).2 = true →
      s.cards.bag = (usedCards eats : Multiset Card) + (s.eatChi card eats).1.cards.bag ∧
        (s.eatChi card eats).1.Tallied := by
  intro conserves
  have split := (conserves (bigTwos 1) (.makeCard 2 false) [santaOfTwos] (by decide)
    (bigTwos_tallied (by decide)) (by decide) (by decide) rfl (by decide)).1
  have held : (usedCards [santaOfTwos] : Multiset Card) ≤ (bigTwos 1).cards.bag :=
    split ▸ Multiset.le_add_right _ _
  exact absurd held (by decide)

end HandCards

end CLibs.Cardlib
