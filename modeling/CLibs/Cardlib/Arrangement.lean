import CLibs.Cardlib.HandPartition

/-!
# How a hand is arranged

Which groups `getHandCards` makes, by the counts of the cards alone. The values are those of
the cards: 1-10 and 17-26.
-/

set_option autoImplicit false

namespace CLibs.Cardlib

open General

/-- The values of cards. -/
abbrev IsValue (v : Nat) : Prop := (1 ≤ v ∧ v ≤ 10) ∨ (17 ≤ v ∧ v ≤ 26)

namespace Cards

variable (cards : Cards) (v : Nat)

def Once : Prop := cards.held v = 1

def Twice : Prop := cards.held v = 2

/-- The value of the same point in the other size. -/
def mirror (v : Nat) : Nat := if v < 16 then v + 16 else v - 16

def isRed (v : Nat) : Prop := v % 16 = 2 ∨ v % 16 = 7 ∨ v % 16 = 10

/-- The single cards 2, 7 and 10 of a size go together, unless the 2 is in a run with 1
and 3. -/
def StartsHong : Prop :=
  v % 16 = 2 ∧ cards.Once v ∧ cards.Once (v + 5) ∧ cards.Once (v + 8) ∧
    ¬ (cards.Once (v - 1) ∧ cards.Once (v + 1))

def InHong : Prop := isRed v ∧ cards.StartsHong (v / 16 * 16 + 2)

def Free : Prop := cards.Once v ∧ ¬ cards.InHong v

/-- A run of three starts wherever it can, from the lowest value on. -/
def StartsRun (cards : Cards) : Nat → Prop
  | 0 => False
  | 1 => cards.Free 1 ∧ cards.Free 2 ∧ cards.Free 3
  | v + 2 => (cards.Free (v + 2) ∧ cards.Free (v + 3) ∧ cards.Free (v + 4)) ∧
      ¬ StartsRun cards (v + 1) ∧ ¬ StartsRun cards v

def InRun : Prop := cards.StartsRun v ∨ cards.StartsRun (v - 1) ∨ cards.StartsRun (v - 2)

/-- The single cards of no three single cards. -/
def Left : Prop := cards.Free v ∧ ¬ cards.InRun v

/-- A single card goes with the pair of its point. -/
def Santa : Prop := cards.Left v ∧ cards.Twice (mirror v)

def Rest : Prop := cards.Left v ∧ ¬ cards.Twice (mirror v)

/-- Whom the card `p` takes along of the cards that wait: the other red cards of its size,
or else the next card, or else the one after that. -/
def Joins (waits : Nat → Prop) (p v : Nat) : Prop :=
  (isRed p ∧ isRed v ∧ v / 16 = p / 16) ∨
    (¬ isRed p ∧ (v = p + 1 ∨ v = p + 2 ∧ ¬ waits (p + 1)))

/-- The cards that wait when the cards below `p` have had their turns. -/
def Waits (cards : Cards) : Nat → Nat → Prop
  | 0, v => cards.Rest v
  | p + 1, v => Waits cards p v ∧ v ≠ p ∧ ¬ (Waits cards p p ∧ Joins (Waits cards p) p v)

/-- The card `p` has its turn and takes `v` along. -/
def Partners (p v : Nat) : Prop :=
  cards.Waits p p ∧ cards.Waits p v ∧ v ≠ p ∧ Joins (cards.Waits p) p v

def Lone : Prop := cards.Waits v v ∧ ∀ w, ¬ cards.Partners v w

end Cards

namespace Cards

/-- A group begins with `v` and `w`. -/
def Leads (cards : Cards) (v w : Nat) : Prop :=
  (w = v ∧ 3 ≤ cards.held v) ∨ (w = v ∧ cards.Twice v ∧ ¬ cards.Santa (mirror v)) ∨
    (w = v + 5 ∧ cards.StartsHong v) ∨ (w = v + 1 ∧ cards.StartsRun v) ∨
    (w = mirror v ∧ cards.Santa v) ∨ cards.Partners v w

/-- A card that stays alone is between the first cards of two groups whose second cards are
in the other order. -/
def Crossed (cards : Cards) : Prop :=
  ∃ a v w v' w', cards.Lone a ∧ cards.Leads v w ∧ cards.Leads v' w' ∧ v' < a ∧ a < v ∧ w < w'

end Cards

/-- The card of a value. -/
def Card.ofNat (v : Nat) : Card := .ofVal v

/-- The groups of a hand. -/
inductive Arranged (cards : Cards) : List Card → Prop where
  | many (v : Nat) : 3 ≤ cards.held v →
      Arranged cards (List.replicate (cards.held v).toNat (.ofNat v))
  | hong (v : Nat) : cards.StartsHong v → Arranged cards [.ofNat v, .ofNat (v + 5), .ofNat (v + 8)]
  | run (v : Nat) : cards.StartsRun v → Arranged cards [.ofNat v, .ofNat (v + 1), .ofNat (v + 2)]
  | santa (v : Nat) : cards.Santa v →
      Arranged cards [.ofNat v, .ofNat (Cards.mirror v), .ofNat (Cards.mirror v)]
  | two (v w : Nat) : cards.Partners v w → Arranged cards [.ofNat v, .ofNat w]
  | lone (v : Nat) : cards.Lone v → Arranged cards [.ofNat v]
  | pair (v : Nat) : cards.Twice v → ¬ cards.Santa (Cards.mirror v) →
      Arranged cards [.ofNat v, .ofNat v]

namespace Cards

variable {cards : Cards} {v p : Nat}

/-! ## The first loop -/

theorem card_bounds (some : cards.held v ≠ 0) : IsValue v := by
  have bounds := isCard_iff.mp (isCard_of_held some)
  omega

theorem Once.bounds (once : cards.Once v) : IsValue v :=
  card_bounds (by rw [show cards.held v = 1 from once]; decide)

theorem Twice.bounds (twice : cards.Twice v) : IsValue v :=
  card_bounds (by rw [show cards.held v = 2 from twice]; decide)

theorem mirror_mirror (bounds : IsValue v) : mirror (mirror v) = v := by
  unfold mirror
  split_ifs <;> omega

theorem StartsRun.free (starts : cards.StartsRun v) :
    cards.Free v ∧ cards.Free (v + 1) ∧ cards.Free (v + 2) := by
  match v, starts with
  | 1, starts => exact starts
  | v + 2, starts => exact starts.1

theorem StartsRun.not_succ (starts : cards.StartsRun v) : ¬ cards.StartsRun (v + 1) := by
  intro next
  match v, starts with
  | v + 1, starts => exact next.2.1 starts

theorem StartsRun.not_succ_succ (starts : cards.StartsRun v) : ¬ cards.StartsRun (v + 2) :=
  fun next => next.2.2 starts

theorem StartsRun.of_free (free : cards.Free v ∧ cards.Free (v + 1) ∧ cards.Free (v + 2))
    (uncovered : ∀ u, u < v → v ≤ u + 2 → ¬ cards.StartsRun u) : cards.StartsRun v := by
  match v with
  | 0 =>
      have bounds := free.1.1.bounds
      omega
  | 1 => exact free
  | v + 2 =>
      exact ⟨free, uncovered (v + 1) (by omega) (by omega), uncovered v (by omega) (by omega)⟩

theorem inRun_iff : cards.InRun v ↔ ∃ u, cards.StartsRun u ∧ u ≤ v ∧ v ≤ u + 2 := by
  constructor
  · rintro (same | one | two)
    · exact ⟨v, same, by omega⟩
    · exact ⟨v - 1, one, by omega⟩
    · exact ⟨v - 2, two, by omega⟩
  · rintro ⟨u, starts, low, high⟩
    have cases : u = v ∨ u = v - 1 ∨ u = v - 2 := by omega
    rcases cases with rfl | rfl | rfl
    · exact .inl starts
    · exact .inr (.inl starts)
    · exact .inr (.inr starts)

/-- What the first loop has taken of the single cards below and at `p`. -/
def Gone (cards : Cards) (p v : Nat) : Prop :=
  (cards.InHong v ∧ v / 16 * 16 + 2 < p) ∨ (∃ u < p, cards.StartsRun u ∧ u ≤ v ∧ v ≤ u + 2) ∨
    (cards.Santa v ∧ v < p)

/-- The single cards that are there when those below `p` have had their turns. -/
def Avail (cards : Cards) (p v : Nat) : Prop := cards.Once v ∧ ¬ cards.Gone p v

theorem Free.of_avail {q : Nat} (avail : cards.Avail p v) (notHong : ¬ cards.StartsHong p)
    (low : q ≤ p) (near : p ≤ q + 2) (first : q ≤ v) (last : v ≤ q + 2) (onceLow : cards.Once q)
    (onceHigh : cards.Once (q + 2)) : cards.Free v := by
  refine ⟨avail.1, ?_⟩
  rintro ⟨red, hong⟩
  have late : ¬ v / 16 * 16 + 2 < p := fun before => avail.2 (.inl ⟨⟨red, hong⟩, before⟩)
  have bounds := onceLow.bounds
  have vBounds := avail.1.bounds
  -- The 2 is in its own turn, or between two other single cards.
  have two : v = v / 16 * 16 + 2 := by
    unfold isRed at red
    omega
  have start : q = v ∨ q + 1 = v := by omega
  rcases start with rfl | rfl
  · have same : p = q / 16 * 16 + 2 := by omega
    rw [← same] at hong
    exact notHong hong
  · rw [← two] at hong
    exact hong.2.2.2.2 ⟨onceLow, onceHigh⟩

/-- Three single cards that are there in the turn of one of them start a run in its turn. -/
theorem startsRun_of_avail {q : Nat} (low : q ≤ p) (near : p ≤ q + 2)
    (notHong : ¬ cards.StartsHong p) (availLow : cards.Avail p q)
    (availMiddle : cards.Avail p (q + 1)) (availHigh : cards.Avail p (q + 2)) :
    q = p ∧ cards.StartsRun p := by
  have free : ∀ v, q ≤ v → v ≤ q + 2 → cards.Avail p v → cards.Free v :=
    fun v first last avail =>
      .of_avail avail notHong low near first last availLow.1 availHigh.1
  have starts : cards.StartsRun q := by
    refine .of_free ⟨free q (by omega) (by omega) availLow,
      free (q + 1) (by omega) (by omega) availMiddle,
      free (q + 2) (by omega) (by omega) availHigh⟩ ?_
    intro u below covers startsRun
    exact availLow.2 (.inr (.inl ⟨u, by omega, startsRun, by omega, covers⟩))
  by_cases same : q = p
  · subst same
    exact ⟨rfl, starts⟩
  · exact absurd (.inr (.inl ⟨q, by omega, starts, le_refl q, by omega⟩)) availLow.2

theorem StartsRun.avail (starts : cards.StartsRun p) :
    cards.Avail p p ∧ cards.Avail p (p + 1) ∧ cards.Avail p (p + 2) := by
  have avail : ∀ v, p ≤ v → v ≤ p + 2 → cards.Free v → cards.Avail p v := by
    intro v low high free
    refine ⟨free.1, ?_⟩
    rintro (⟨inHong, -⟩ | ⟨u, below, startsRun, first, last⟩ | ⟨-, before⟩)
    · exact free.2 inHong
    · have near : u + 1 = p ∨ u + 2 = p := by omega
      rcases near with rfl | rfl
      · exact startsRun.not_succ starts
      · exact startsRun.not_succ_succ starts
    · omega
  obtain ⟨first, second, third⟩ := starts.free
  exact ⟨avail p (by omega) (by omega) first, avail (p + 1) (by omega) (by omega) second,
    avail (p + 2) (by omega) (by omega) third⟩

theorem StartsHong.inHong (starts : cards.StartsHong p) : cards.InHong p := by
  have two := starts.1
  have same : p / 16 * 16 + 2 = p := by omega
  exact ⟨.inl two, by rwa [same]⟩

theorem InHong.starts (inHong : cards.InHong v) (two : v / 16 * 16 + 2 = p) : cards.StartsHong p :=
  two ▸ inHong.2

theorem StartsHong.avail (starts : cards.StartsHong p) :
    cards.Avail p p ∧ cards.Avail p (p + 5) ∧ cards.Avail p (p + 8) := by
  have avail : ∀ v, isRed v → v / 16 * 16 + 2 = p → cards.Once v → cards.Avail p v := by
    intro v red two once
    have inHong : cards.InHong v := ⟨red, two ▸ starts⟩
    refine ⟨once, ?_⟩
    rintro (⟨-, before⟩ | ⟨u, below, startsRun, first, last⟩ | ⟨santa, -⟩)
    · omega
    · have near : v = u ∨ v = u + 1 ∨ v = u + 2 := by omega
      obtain ⟨free, free1, free2⟩ := startsRun.free
      rcases near with rfl | rfl | rfl
      · exact free.2 inHong
      · exact free1.2 inHong
      · exact free2.2 inHong
    · exact santa.1.1.2 inHong
  have two := starts.1
  unfold isRed at avail
  exact ⟨avail p (by omega) (by omega) starts.2.1,
    avail (p + 5) (by omega) (by omega) starts.2.2.1,
    avail (p + 8) (by omega) (by omega) starts.2.2.2.1⟩

/-- The three red cards of a size are there together only in the turn of the 2. -/
theorem startsHong_of_avail (red : isRed p) (avail2 : cards.Avail p (p / 16 * 16 + 2))
    (avail7 : cards.Avail p (p / 16 * 16 + 7)) (avail10 : cards.Avail p (p / 16 * 16 + 10)) :
    cards.StartsHong p := by
  have bounds := avail2.1.bounds
  generalize base : p / 16 * 16 = b at avail2 avail7 avail10 bounds
  have hong : cards.StartsHong (b + 2) := by
    refine ⟨by omega, avail2.1, avail7.1, avail10.1, ?_⟩
    rintro ⟨once1, once3⟩
    -- The run of 1, 2 and 3 has taken the 2 in the turn of the 1.
    have free : ∀ v, b + 1 ≤ v → v ≤ b + 3 → cards.Once v → cards.Free v := by
      intro v low high once
      refine ⟨once, ?_⟩
      intro inHong
      have same : v / 16 * 16 + 2 = b + 2 := by omega
      exact (inHong.starts same).2.2.2.2 ⟨once1, once3⟩
    have starts : cards.StartsRun (b + 1) := by
      refine .of_free ⟨free _ (by omega) (by omega) once1, free _ (by omega) (by omega) avail2.1,
        free _ (by omega) (by omega) once3⟩ ?_
      intro u below covers startsRun
      have outside := startsRun.free.1.1.bounds
      omega
    unfold isRed at red
    exact avail2.2 (.inr (.inl ⟨b + 1, by omega, starts, by omega, by omega⟩))
  by_cases two : p = b + 2
  · rwa [two]
  · unfold isRed at red
    have same : (b + 2) / 16 * 16 + 2 = b + 2 := by omega
    refine absurd (.inl ⟨hong.inHong, ?_⟩) avail2.2
    omega

theorem left_of_avail (avail : cards.Avail p p) (notHong : ¬ cards.StartsHong p)
    (notRun : ¬ cards.StartsRun p) : cards.Left p := by
  refine ⟨⟨avail.1, ?_⟩, ?_⟩
  · intro inHong
    have red := inHong.1
    unfold isRed at red
    by_cases two : p / 16 * 16 + 2 = p
    · exact notHong (inHong.starts two)
    · exact avail.2 (.inl ⟨inHong, by omega⟩)
  · rw [inRun_iff]
    rintro ⟨u, starts, low, high⟩
    by_cases same : u = p
    · subst same
      exact notRun starts
    · exact avail.2 (.inr (.inl ⟨u, by omega, starts, low, high⟩))

theorem Left.avail (left : cards.Left p) : cards.Avail p p := by
  refine ⟨left.1.1, ?_⟩
  rintro (⟨inHong, -⟩ | ⟨u, below, starts, low, high⟩ | ⟨-, before⟩)
  · exact left.1.2 inHong
  · exact left.2 (inRun_iff.mpr ⟨u, starts, low, high⟩)
  · omega

theorem Left.not_startsHong (left : cards.Left p) : ¬ cards.StartsHong p :=
  fun starts => left.1.2 starts.inHong

theorem Left.not_startsRun (left : cards.Left p) : ¬ cards.StartsRun p :=
  fun starts => left.2 (.inl starts)

theorem StartsRun.not_startsHong (starts : cards.StartsRun p) : ¬ cards.StartsHong p :=
  fun hong => starts.free.1.2 hong.inHong

theorem avail_zero : cards.Avail 0 v ↔ cards.Once v := by
  constructor
  · exact fun avail => avail.1
  · intro once
    refine ⟨once, ?_⟩
    rintro (⟨-, before⟩ | ⟨u, below, -⟩ | ⟨-, before⟩) <;> omega

theorem avail_succ : cards.Avail (p + 1) v ↔
    cards.Avail p v ∧ ¬ (cards.InHong v ∧ v / 16 * 16 + 2 = p) ∧
      ¬ (cards.StartsRun p ∧ p ≤ v ∧ v ≤ p + 2) ∧ ¬ (cards.Santa p ∧ v = p) := by
  constructor
  · rintro ⟨once, there⟩
    refine ⟨⟨once, ?_⟩, ?_, ?_, ?_⟩
    · rintro (⟨inHong, before⟩ | ⟨u, below, rest⟩ | ⟨santa, before⟩)
      · exact there (.inl ⟨inHong, by omega⟩)
      · exact there (.inr (.inl ⟨u, by omega, rest⟩))
      · exact there (.inr (.inr ⟨santa, by omega⟩))
    · rintro ⟨inHong, two⟩
      exact there (.inl ⟨inHong, by omega⟩)
    · rintro ⟨starts, low, high⟩
      exact there (.inr (.inl ⟨p, by omega, starts, low, high⟩))
    · rintro ⟨santa, rfl⟩
      exact there (.inr (.inr ⟨santa, by omega⟩))
  · rintro ⟨⟨once, there⟩, notHong, notRun, notSanta⟩
    refine ⟨once, ?_⟩
    rintro (⟨inHong, before⟩ | ⟨u, below, starts, low, high⟩ | ⟨santa, before⟩)
    · by_cases now : v / 16 * 16 + 2 = p
      · exact notHong ⟨inHong, now⟩
      · exact there (.inl ⟨inHong, by omega⟩)
    · by_cases now : u = p
      · subst now
        exact notRun ⟨starts, low, high⟩
      · exact there (.inr (.inl ⟨u, by omega, starts, low, high⟩))
    · by_cases now : v = p
      · subst now
        exact notSanta ⟨santa, rfl⟩
      · exact there (.inr (.inr ⟨santa, by omega⟩))

theorem StartsHong.avail_succ (starts : cards.StartsHong p) :
    cards.Avail (p + 1) v ↔ cards.Avail p v ∧ v ≠ p ∧ v ≠ p + 5 ∧ v ≠ p + 8 := by
  have two := starts.1
  have notRun : ¬ cards.StartsRun p := fun run => run.not_startsHong starts
  have notSanta : ¬ cards.Santa p := fun santa => santa.1.not_startsHong starts
  have members : cards.InHong v ∧ v / 16 * 16 + 2 = p ↔ v = p ∨ v = p + 5 ∨ v = p + 8 := by
    constructor
    · rintro ⟨⟨red, -⟩, same⟩
      unfold isRed at red
      omega
    · intro near
      have same : v / 16 * 16 + 2 = p := by omega
      refine ⟨⟨?_, same ▸ starts⟩, same⟩
      unfold isRed
      omega
  rw [Cards.avail_succ, members]
  simp only [notRun, notSanta, false_and, not_false_eq_true, and_true, not_or]

theorem StartsRun.avail_succ (starts : cards.StartsRun p) :
    cards.Avail (p + 1) v ↔ cards.Avail p v ∧ v ≠ p ∧ v ≠ p + 1 ∧ v ≠ p + 2 := by
  have notHong : ¬ (cards.InHong v ∧ v / 16 * 16 + 2 = p) :=
    fun both => starts.not_startsHong (both.1.starts both.2)
  have notSanta : ¬ cards.Santa p := fun santa => santa.1.not_startsRun starts
  have members : p ≤ v ∧ v ≤ p + 2 ↔ v = p ∨ v = p + 1 ∨ v = p + 2 := by omega
  rw [Cards.avail_succ, members]
  simp only [notHong, notSanta, starts, false_and, not_false_eq_true, true_and, and_true, not_or]

theorem Santa.avail_succ (santa : cards.Santa p) :
    cards.Avail (p + 1) v ↔ cards.Avail p v ∧ v ≠ p := by
  have notHong : ¬ (cards.InHong v ∧ v / 16 * 16 + 2 = p) :=
    fun both => santa.1.not_startsHong (both.1.starts both.2)
  have notRun : ¬ cards.StartsRun p := santa.1.not_startsRun
  rw [Cards.avail_succ]
  simp only [notHong, notRun, santa, false_and, not_false_eq_true, true_and]

/-- No group is made in the turn of `p`. -/
def Idle (cards : Cards) (p : Nat) : Prop :=
  ¬ cards.StartsHong p ∧ ¬ cards.StartsRun p ∧ ¬ cards.Santa p

theorem Idle.avail_succ (idle : cards.Idle p) : cards.Avail (p + 1) v ↔ cards.Avail p v := by
  have notHong : ¬ (cards.InHong v ∧ v / 16 * 16 + 2 = p) :=
    fun both => idle.1 (both.1.starts both.2)
  rw [Cards.avail_succ]
  simp only [notHong, idle.2.1, idle.2.2, false_and, not_false_eq_true, and_true]

theorem avail_last : cards.Avail 27 v ↔ cards.Rest v := by
  constructor
  · rintro ⟨once, there⟩
    have bounds := once.bounds
    have left : cards.Left v := by
      refine ⟨⟨once, fun inHong => there (.inl ⟨inHong, by omega⟩)⟩, ?_⟩
      rw [inRun_iff]
      rintro ⟨u, starts, low, high⟩
      exact there (.inr (.inl ⟨u, by omega, starts, low, high⟩))
    exact ⟨left, fun twice => there (.inr (.inr ⟨⟨left, twice⟩, by omega⟩))⟩
  · rintro ⟨left, notTwice⟩
    refine ⟨left.1.1, ?_⟩
    rintro (⟨inHong, -⟩ | ⟨u, -, starts, low, high⟩ | ⟨santa, -⟩)
    · exact left.1.2 inHong
    · exact left.2 (inRun_iff.mpr ⟨u, starts, low, high⟩)
    · exact notTwice santa.2

/-! ## The second loop -/

theorem Waits.rest (waits : cards.Waits p v) : cards.Rest v := by
  induction p with
  | zero => exact waits
  | succ p ih => exact ih waits.1

theorem Waits.once (waits : cards.Waits p v) : cards.Once v := waits.rest.1.1.1

theorem Waits.le (waits : cards.Waits p v) : p ≤ v := by
  induction p with
  | zero => exact Nat.zero_le v
  | succ p ih =>
      have low := ih waits.1
      have differ := waits.2.1
      omega

theorem Partners.lt {w : Nat} (partners : cards.Partners p w) : p < w := by
  have low := partners.2.1.le
  have differ := partners.2.2.1
  omega

theorem Partners.once {w : Nat} (partners : cards.Partners p w) : cards.Once w :=
  partners.2.1.once

theorem not_rest_three {b : Nat} (base : b % 16 = 0) (rest2 : cards.Rest (b + 2))
    (rest7 : cards.Rest (b + 7)) (rest10 : cards.Rest (b + 10)) : False := by
  have once2 := rest2.1.1.1
  have once10 := rest10.1.1.1
  have low := once2.bounds
  have high := once10.bounds
  have notHong : ¬ cards.StartsHong (b + 2) := rest2.1.not_startsHong
  by_cases beside : cards.Once (b + 1) ∧ cards.Once (b + 3)
  · have free : ∀ v, b + 1 ≤ v → v ≤ b + 3 → cards.Once v → cards.Free v := by
      intro v first last once
      exact ⟨once, fun inHong => notHong (inHong.starts (by omega))⟩
    have starts : cards.StartsRun (b + 1) := by
      refine .of_free ⟨free _ (by omega) (by omega) beside.1, free _ (by omega) (by omega) once2,
        free _ (by omega) (by omega) beside.2⟩ ?_
      intro u below covers startsRun
      have outside := startsRun.free.1.1.bounds
      omega
    exact rest2.1.2 (.inr (.inl starts))
  · exact notHong ⟨by omega, once2, rest7.1.1.1, once10, beside⟩

theorem Partners.unique {w : Nat} (first : cards.Partners p v) (second : cards.Partners p w) :
    v = w := by
  have firstLt := first.lt
  have secondLt := second.lt
  obtain ⟨waits, waitsV, -, joinsV⟩ := first
  obtain ⟨-, waitsW, -, joinsW⟩ := second
  rcases joinsV with ⟨red, redV, sizeV⟩ | ⟨notRed, nextV⟩
  · rcases joinsW with ⟨-, redW, sizeW⟩ | ⟨notRed, -⟩
    · by_contra differ
      have bounds := waits.once.bounds
      have rest2 := waits.rest
      have restV := waitsV.rest
      have restW := waitsW.rest
      unfold isRed at red redV redW
      have start : p % 16 = 2 := by omega
      have order : v = p + 5 ∧ w = p + 8 ∨ v = p + 8 ∧ w = p + 5 := by omega
      obtain ⟨b, rfl⟩ : ∃ b, p = b + 2 := ⟨p - 2, by omega⟩
      rcases order with ⟨rfl, rfl⟩ | ⟨rfl, rfl⟩
      · exact not_rest_three (by omega) rest2 restV restW
      · exact not_rest_three (by omega) rest2 restW restV
    · exact absurd red notRed
  · rcases joinsW with ⟨red, -, -⟩ | ⟨-, nextW⟩
    · exact absurd red notRed
    · rcases nextV with rfl | ⟨rfl, goneV⟩
      · rcases nextW with rfl | ⟨rfl, goneW⟩
        · rfl
        · exact absurd waitsV goneW
      · rcases nextW with rfl | ⟨rfl, -⟩
        · exact absurd waitsW goneV
        · rfl

theorem waits_succ_of_not_waits (notWaits : ¬ cards.Waits p p) :
    cards.Waits (p + 1) v ↔ cards.Waits p v := by
  constructor
  · exact fun waits => waits.1
  · intro waits
    refine ⟨waits, ?_, fun both => notWaits both.1⟩
    rintro rfl
    exact notWaits waits

theorem Lone.waits_succ (lone : cards.Lone p) :
    cards.Waits (p + 1) v ↔ cards.Waits p v ∧ v ≠ p := by
  constructor
  · exact fun waits => ⟨waits.1, waits.2.1⟩
  · rintro ⟨waits, differ⟩
    exact ⟨waits, differ, fun both => lone.2 v ⟨both.1, waits, differ, both.2⟩⟩

theorem Partners.waits_succ {w : Nat} (partners : cards.Partners p w) :
    cards.Waits (p + 1) v ↔ cards.Waits p v ∧ v ≠ p ∧ v ≠ w := by
  constructor
  · rintro ⟨waits, differ, notTaken⟩
    refine ⟨waits, differ, ?_⟩
    rintro rfl
    exact notTaken ⟨partners.1, partners.2.2.2⟩
  · rintro ⟨waits, differ, notPartner⟩
    exact ⟨waits, differ,
      fun both => notPartner (Partners.unique ⟨both.1, waits, differ, both.2⟩ partners)⟩

theorem Partners.size {w : Nat} (partners : cards.Partners p w) : w / 16 = p / 16 := by
  have bounds := partners.1.once.bounds
  have otherBounds := partners.once.bounds
  rcases partners.2.2.2 with ⟨-, -, size⟩ | ⟨-, next⟩
  · exact size
  · omega

end Cards

end CLibs.Cardlib
