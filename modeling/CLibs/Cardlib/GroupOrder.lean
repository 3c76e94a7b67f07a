import CLibs.Cardlib.ArrangedGroups
import CLibs.General.Comparators

/-!
# The order of the groups

`comp_cards` compares the second cards of two groups that have more than one, and else the
first cards. When that is an order of the groups of a hand.
-/

set_option autoImplicit false

namespace CLibs.Cardlib

open General

variable {cards : Cards}

namespace Cards

theorem Leads.bounds {v w : Nat} (leads : cards.Leads v w) :
    IsValue v ∧ IsValue w := by
  rcases leads with ⟨rfl, many⟩ | ⟨rfl, twice, -⟩ | ⟨rfl, hong⟩ | ⟨rfl, run⟩ | ⟨rfl, santa⟩ |
    partners
  · have bounds := card_bounds (show cards.held w ≠ 0 by omega)
    exact ⟨bounds, bounds⟩
  · exact ⟨twice.bounds, twice.bounds⟩
  · exact ⟨hong.2.1.bounds, hong.2.2.1.bounds⟩
  · exact ⟨run.free.1.1.bounds, run.free.2.1.1.bounds⟩
  · exact ⟨santa.1.1.1.bounds, santa.2.bounds⟩
  · exact ⟨partners.1.once.bounds, partners.once.bounds⟩

theorem Leads.arranged {v w : Nat} (leads : cards.Leads v w) :
    ∃ rest, Arranged cards (.ofNat v :: .ofNat w :: rest) := by
  rcases leads with ⟨rfl, many⟩ | ⟨rfl, twice, notSanta⟩ | ⟨rfl, hong⟩ | ⟨rfl, run⟩ | ⟨rfl, santa⟩ |
    partners
  · have arranged := Arranged.many w many
    obtain ⟨n, size⟩ : ∃ n, (cards.held w).toNat = n + 2 := ⟨(cards.held w).toNat - 2, by omega⟩
    rw [size, List.replicate_succ, List.replicate_succ] at arranged
    exact ⟨_, arranged⟩
  · exact ⟨[], .pair w twice notSanta⟩
  · exact ⟨_, .hong v hong⟩
  · exact ⟨_, .run v run⟩
  · exact ⟨_, .santa v santa⟩
  · exact ⟨[], .two v w partners⟩

end Cards

/-- What `comp_cards` looks at: a card alone, or the first two cards. -/
inductive Headed (cards : Cards) : List Card → Prop where
  | lone (v : Nat) : cards.Lone v → (Card.ofNat v).val = v → Headed cards [.ofNat v]
  | leads (v w : Nat) (rest : List Card) : cards.Leads v w → (Card.ofNat v).val = v →
      (Card.ofNat w).val = w → Headed cards (.ofNat v :: .ofNat w :: rest)

theorem Headed.of_leads {v w : Nat} (rest : List Card) (leads : cards.Leads v w) :
    Headed cards (.ofNat v :: .ofNat w :: rest) :=
  .leads v w rest leads (Card.val_ofNat leads.bounds.1) (Card.val_ofNat leads.bounds.2)

theorem Arranged.headed {group : List Card} (arranged : Arranged cards group) :
    Headed cards group := by
  cases arranged with
  | many v many =>
      obtain ⟨n, size⟩ : ∃ n, (cards.held v).toNat = n + 2 := ⟨(cards.held v).toNat - 2, by omega⟩
      rw [size, List.replicate_succ, List.replicate_succ]
      exact .of_leads _ (.inl ⟨rfl, many⟩)
  | hong v hong => exact .of_leads _ (.inr (.inr (.inl ⟨rfl, hong⟩)))
  | run v run => exact .of_leads _ (.inr (.inr (.inr (.inl ⟨rfl, run⟩))))
  | santa v santa => exact .of_leads _ (.inr (.inr (.inr (.inr (.inl ⟨rfl, santa⟩)))))
  | two v w partners => exact .of_leads _ (.inr (.inr (.inr (.inr (.inr partners)))))
  | lone v lone => exact .lone v lone (Card.val_ofNat lone.1.once.bounds)
  | pair v twice notSanta => exact .of_leads _ (.inr (.inl ⟨rfl, twice, notSanta⟩))

namespace Grouping

theorem eq_of_common (nonneg : ∀ i, 0 ≤ cards i) {group other : List Card}
    (member : group ∈ groups cards) (otherMember : other ∈ groups cards) {card : Card}
    (inGroup : card ∈ group) (inOther : card ∈ other) : group = other := by
  by_contra differ
  have symmetric : Std.Symm (@List.Disjoint Card) := ⟨fun _ _ => List.Disjoint.symm⟩
  have disjoint := (groups_disjoint nonneg).forall member otherMember differ
  exact disjoint inGroup inOther

theorem headed (nonneg : ∀ i, 0 ≤ cards i) {group : List Card} (member : group ∈ groups cards) :
    Headed cards group :=
  ((mem_groups nonneg group).mp member).headed

theorem compCards_irrefl (nonneg : ∀ i, 0 ≤ cards i) {group : List Card}
    (member : group ∈ groups cards) : compCards group group = false := by
  cases headed nonneg member with
  | lone v lone val => simp [compCards]
  | leads v w rest leads val val' => simp [compCards]

theorem compCards_total (nonneg : ∀ i, 0 ≤ cards i) {f g : List Card}
    (fMember : f ∈ groups cards) (gMember : g ∈ groups cards) (notLess : compCards f g = false)
    (notMore : compCards g f = false) : f = g := by
  have common : ∀ card, card ∈ f → card ∈ g → f = g :=
    fun card => eq_of_common nonneg fMember gMember
  cases headed nonneg fMember with
  | lone a aLone aVal =>
      cases headed nonneg gMember with
      | lone b bLone bVal =>
          simp only [compCards, aVal, bVal, decide_eq_false_iff_not] at notLess notMore
          have same : a = b := by omega
          rw [same]
      | leads v w rest leads vVal wVal =>
          simp only [compCards, aVal, vVal, decide_eq_false_iff_not] at notLess notMore
          have same : a = v := by omega
          subst same
          exact common _ List.mem_cons_self List.mem_cons_self
  | leads v w rest leads vVal wVal =>
      cases headed nonneg gMember with
      | lone b bLone bVal =>
          simp only [compCards, vVal, bVal, decide_eq_false_iff_not] at notLess notMore
          have same : v = b := by omega
          subst same
          exact common _ List.mem_cons_self List.mem_cons_self
      | leads v' w' rest' leads' vVal' wVal' =>
          simp only [compCards, wVal, wVal', decide_eq_false_iff_not] at notLess notMore
          have same : w = w' := by omega
          subst same
          exact common (.ofNat w) (by simp) (by simp)

theorem compCards_trans (nonneg : ∀ i, 0 ≤ cards i) (notCrossed : ¬ cards.Crossed)
    {f g h : List Card} (fMember : f ∈ groups cards) (gMember : g ∈ groups cards)
    (hMember : h ∈ groups cards) (fg : compCards f g = true) (gh : compCards g h = true) :
    compCards f h = true := by
  have common : ∀ card, card ∈ f → card ∈ h → f = h :=
    fun card => eq_of_common nonneg fMember hMember
  -- The comparisons mix their keys where one of the three is alone and the others are not.
  cases headed nonneg fMember with
  | lone a aLone aVal =>
      cases headed nonneg gMember with
      | lone b bLone bVal =>
          cases headed nonneg hMember with
          | lone c cLone cVal =>
              simp only [compCards, aVal, bVal, cVal, decide_eq_true_eq] at fg gh ⊢
              omega
          | leads x y rest leads xVal yVal =>
              simp only [compCards, aVal, bVal, xVal, decide_eq_true_eq] at fg gh ⊢
              omega
      | leads v w rest leads vVal wVal =>
          cases headed nonneg hMember with
          | lone c cLone cVal =>
              simp only [compCards, aVal, vVal, cVal, decide_eq_true_eq] at fg gh ⊢
              omega
          | leads x y rest' leads' xVal yVal =>
              simp only [compCards, aVal, vVal, wVal, xVal, yVal, decide_eq_true_eq] at fg gh ⊢
              by_contra notLess
              by_cases same : a = x
              · subst same
                have equal := common _ List.mem_cons_self List.mem_cons_self
                simp at equal
              · exact notCrossed ⟨a, v, w, x, y, aLone, leads, leads', by omega, fg, gh⟩
  | leads v w rest leads vVal wVal =>
      cases headed nonneg gMember with
      | lone b bLone bVal =>
          cases headed nonneg hMember with
          | lone c cLone cVal =>
              simp only [compCards, vVal, bVal, cVal, decide_eq_true_eq] at fg gh ⊢
              omega
          | leads x y rest' leads' xVal yVal =>
              simp only [compCards, vVal, wVal, bVal, xVal, yVal, decide_eq_true_eq] at fg gh ⊢
              by_contra notLess
              by_cases same : w = y
              · subst same
                have equal := common (.ofNat w) (by simp) (by simp)
                rw [List.cons.injEq] at equal
                rw [equal.1] at vVal
                omega
              · exact notCrossed ⟨b, x, y, v, w, bLone, leads', leads, fg, gh, by omega⟩
      | leads v' w' rest' leads' vVal' wVal' =>
          cases headed nonneg hMember with
          | lone c cLone cVal =>
              simp only [compCards, vVal, wVal, vVal', wVal', cVal, decide_eq_true_eq] at fg gh ⊢
              by_contra notLess
              by_cases same : v = c
              · subst same
                have equal := common _ List.mem_cons_self List.mem_cons_self
                simp at equal
              · exact notCrossed ⟨c, v, w, v', w', cLone, leads, leads', gh, by omega, fg⟩
          | leads x y rest'' leads'' xVal yVal =>
              simp only [compCards, wVal, wVal', yVal, decide_eq_true_eq] at fg gh ⊢
              omega

end Grouping

/-- When `comp_cards` is an order of the groups of a hand. -/
theorem HandCards.compCards_strictWeakOn_iff (s : HandCards) (nonneg : ∀ i, 0 ≤ s.cards i) :
    StrictWeakOn compCards (Grouping.groups s.cards) ↔ ¬ s.cards.Crossed := by
  constructor
  · rintro order ⟨a, v, w, v', w', lone, leads, leads', low, high, crossed⟩
    obtain ⟨rest, arranged⟩ := leads.arranged
    obtain ⟨rest', arranged'⟩ := leads'.arranged
    have aVal := Card.val_ofNat lone.1.once.bounds
    have vVal := Card.val_ofNat leads.bounds.1
    have wVal := Card.val_ofNat leads.bounds.2
    have vVal' := Card.val_ofNat leads'.bounds.1
    have wVal' := Card.val_ofNat leads'.bounds.2
    have less := order.trans _ ((Grouping.mem_groups nonneg _).mpr arranged') _
      ((Grouping.mem_groups nonneg _).mpr (.lone a lone)) _
      ((Grouping.mem_groups nonneg _).mpr arranged) (by simpa [compCards, aVal, vVal'] using low)
      (by simpa [compCards, aVal, vVal] using high)
    simp only [compCards, wVal, wVal', decide_eq_true_eq] at less
    omega
  · intro notCrossed
    refine .of_total (fun f => Grouping.compCards_irrefl nonneg) ?_ ?_
    · intro f fMember g gMember h hMember
      exact Grouping.compCards_trans nonneg notCrossed fMember gMember hMember
    · intro f fMember g gMember
      exact Grouping.compCards_total nonneg fMember gMember

/-- The groups 5 5 5, small 8 alone, and big 1 with two small 1s: each is before the next,
and the last before the first. -/
theorem not_strictWeakOn_hand :
    ¬ StrictWeakOn compCards
      (Grouping.groups ![2, 0, 0, 0, 3, 0, 0, 1, 0, 0, 1, 0, 0, 0, 0, 0, 0, 0, 0, 0]) := by
  have made : Grouping.groups ![2, 0, 0, 0, 3, 0, 0, 1, 0, 0, 1, 0, 0, 0, 0, 0, 0, 0, 0, 0] =
      [[.ofVal 5, .ofVal 5, .ofVal 5], [.ofVal 17, .ofVal 1, .ofVal 1], [.ofVal 8]] := by
    decide +kernel
  rw [made]
  intro order
  have less := order.trans [.ofVal 5, .ofVal 5, .ofVal 5] (by simp) [.ofVal 8] (by simp)
    [.ofVal 17, .ofVal 1, .ofVal 1] (by simp) (by decide) (by decide)
  exact absurd less (by decide)

theorem HandCards.not_compCards_strictWeakOn :
    ¬ ∀ s : HandCards, (∀ i, 0 ≤ s.cards i ∧ s.cards i ≤ 4) →
      StrictWeakOn compCards (Grouping.groups s.cards) :=
  fun all => not_strictWeakOn_hand (all { cards := _ } (by decide))

/-- The 8 stays alone between the 5 and the big 1, and the second cards are 5 and small 1. -/
theorem crossed_hand :
    Cards.Crossed ![2, 0, 0, 0, 3, 0, 0, 1, 0, 0, 1, 0, 0, 0, 0, 0, 0, 0, 0, 0] := by
  have decided := HandCards.compCards_strictWeakOn_iff
    { cards := ![2, 0, 0, 0, 3, 0, 0, 1, 0, 0, 1, 0, 0, 0, 0, 0, 0, 0, 0, 0] } (by decide)
  by_contra notCrossed
  exact not_strictWeakOn_hand (decided.mpr notCrossed)

end CLibs.Cardlib
