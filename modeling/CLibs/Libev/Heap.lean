import CLibs.General.HeapOrder

/-!
# The heaps of watchers

The 4-heap of `ev.c` in which a loop keeps its timers: an array of watchers with their
times, where each watcher knows its own index.
-/

set_option autoImplicit false

namespace CLibs.Libev

open General

variable {T W : Type}

/-- A heap element: a watcher and its cached time. -/
structure ANHE (T W : Type) where
  at_ : T
  w : W

/-- What the heap functions write: an array `ANHE *heap`, and the `active` field of each
watcher. -/
structure HeapMem (T W : Type) where
  heap : Nat → ANHE T W
  active : W → Nat

def dheap : Nat := 4

/-- The index of the first element. -/
def heap0 : Nat := dheap - 1

def hparent (k : Nat) : Nat := (k - heap0 - 1) / dheap + heap0

def upheapDone (p k : Nat) : Bool := p == k

section

variable [DecidableEq W]

/-- `heap [k] = he; ev_active (ANHE_w (he)) = k;` -/
def HeapMem.put (m : HeapMem T W) (k : Nat) (he : ANHE T W) : HeapMem T W where
  heap := Function.update m.heap k he
  active := Function.update m.active he.w k

variable [LinearOrder T]

/-- `pos` instead of `minpos`, if its time is earlier. -/
def closer (heap : Nat → ANHE T W) (minpos pos : Nat) : Nat :=
  if (heap pos).at_ < (heap minpos).at_ then pos else minpos

/-- The child with the earliest time, the children being at `pos` and behind it. -/
def minChild (heap : Nat → ANHE T W) (E pos : Nat) : Option Nat :=
  if pos + dheap - 1 < E then
    some (closer heap (closer heap (closer heap pos (pos + 1)) (pos + 2)) (pos + 3))
  else if pos < E then
    let minpos := pos
    let minpos := if pos + 1 < E then closer heap minpos (pos + 1) else minpos
    let minpos := if pos + 2 < E then closer heap minpos (pos + 2) else minpos
    let minpos := if pos + 3 < E then closer heap minpos (pos + 3) else minpos
    some minpos
  else none

/-- The loop of `downheap`. With every turn `k` comes nearer to the end of the heap. -/
def downLoop (he : ANHE T W) (E : Nat) : Nat → HeapMem T W → Nat → HeapMem T W × Nat
  | 0, m, k => (m, k)
  | fuel + 1, m, k =>
      match minChild m.heap E (dheap * (k - heap0) + heap0 + 1) with
      | none => (m, k)
      | some minpos =>
          if he.at_ ≤ (m.heap minpos).at_ then (m, k)
          else downLoop he E fuel (m.put k (m.heap minpos)) minpos

def downheap (m : HeapMem T W) (N k : Nat) : HeapMem T W :=
  let he := m.heap k
  let (m, k) := downLoop he (N + heap0) N m k
  m.put k he

/-- The loop of `upheap`. With every turn `k` comes nearer to the root. -/
def upLoop (he : ANHE T W) : Nat → HeapMem T W → Nat → HeapMem T W × Nat
  | 0, m, k => (m, k)
  | fuel + 1, m, k =>
      let p := hparent k
      if upheapDone p k ∨ (m.heap p).at_ ≤ he.at_ then (m, k)
      else upLoop he fuel (m.put k (m.heap p)) p

def upheap (m : HeapMem T W) (k : Nat) : HeapMem T W :=
  let he := m.heap k
  let (m, k) := upLoop he k m k
  m.put k he

def adjustheap (m : HeapMem T W) (N k : Nat) : HeapMem T W :=
  if k > heap0 ∧ (m.heap k).at_ ≤ (m.heap (hparent k)).at_ then upheap m k else downheap m N k

end

theorem hparent_lt {k : Nat} (behind : heap0 < k) : hparent k < k := by
  unfold hparent dheap
  omega

theorem heap0_le_hparent (k : Nat) : heap0 ≤ hparent k := Nat.le_add_left _ _

/-- The places of the children, as `downheap` computes them. -/
theorem hparent_eq_iff {c k : Nat} (behind : heap0 < c) (from_root : heap0 ≤ k) :
    hparent c = k ↔
      dheap * (k - heap0) + heap0 + 1 ≤ c ∧ c < dheap * (k - heap0) + heap0 + 1 + dheap := by
  unfold hparent dheap
  omega

def fourHeap : HeapShape where
  root := heap0
  parent := hparent
  root_le_parent _ := heap0_le_hparent _
  parent_lt := hparent_lt

/-- The times at the positions of a heap. -/
def HeapMem.key (m : HeapMem T W) (k : Nat) : T := (m.heap k).at_

/-- `e` is one of the `N` elements. -/
def HeapMem.Has (m : HeapMem T W) (N : Nat) (e : ANHE T W) : Prop :=
  ∃ k, heap0 ≤ k ∧ k < N + heap0 ∧ m.heap k = e

/-- What `verify_heap` asserts of the indices and of the order. -/
structure Heaped [LinearOrder T] (m : HeapMem T W) (N : Nat) : Prop where
  ordered : fourHeap.Ordered (N + heap0) m.key
  active_eq : ∀ k, heap0 ≤ k → k < N + heap0 → m.active (m.heap k).w = k

/-- A heap where `he` has been taken out of `hole`, or is going to be put there. -/
structure Held (m : HeapMem T W) (N hole : Nat) (he : ANHE T W) : Prop where
  from_root : heap0 ≤ hole
  inside : hole < N + heap0
  active_eq : ∀ k, heap0 ≤ k → k < N + heap0 → k ≠ hole → m.active (m.heap k).w = k
  apart : ∀ k, heap0 ≤ k → k < N + heap0 → k ≠ hole → (m.heap k).w ≠ he.w

/-- The elements of such a heap, together with `he`. -/
def Held.Has (m : HeapMem T W) (N hole : Nat) (he e : ANHE T W) : Prop :=
  e = he ∨ ∃ k, heap0 ≤ k ∧ k < N + heap0 ∧ k ≠ hole ∧ m.heap k = e

/-- The heap has become another one with the same elements, and only their `active` fields
were written. -/
structure Sifted (m : HeapMem T W) (has : ANHE T W → Prop) (m' : HeapMem T W)
    (has' : ANHE T W → Prop) : Prop where
  has_iff : ∀ e, has' e ↔ has e
  frame : ∀ w, (∀ e, has e → e.w ≠ w) → m'.active w = m.active w

section

variable {m m' m'' : HeapMem T W} {N hole : Nat} {he : ANHE T W} {has has' has'' : ANHE T W → Prop}

theorem Sifted.refl (m : HeapMem T W) (has : ANHE T W → Prop) : Sifted m has m has :=
  ⟨fun _ => Iff.rfl, fun _ _ => rfl⟩

theorem Sifted.trans (first : Sifted m has m' has') (second : Sifted m' has' m'' has'') :
    Sifted m has m'' has'' where
  has_iff e := (second.has_iff e).trans (first.has_iff e)
  frame w other :=
    (second.frame w fun e found => other e ((first.has_iff e).mp found)).trans (first.frame w other)

variable [DecidableEq W]

@[simp] theorem HeapMem.put_heap (m : HeapMem T W) (k : Nat) (he : ANHE T W) :
    (m.put k he).heap = Function.update m.heap k he := rfl

@[simp] theorem HeapMem.put_active (m : HeapMem T W) (k : Nat) (he : ANHE T W) :
    (m.put k he).active = Function.update m.active he.w k := rfl

theorem HeapMem.put_key (m : HeapMem T W) (k : Nat) (he : ANHE T W) :
    (m.put k he).key = Function.update m.key k he.at_ := by
  funext i
  by_cases here : i = k
  · subst here
    simp [key]
  · simp [key, here]

/-- An element is moved into the hole and leaves a hole where it was. -/
theorem Held.move (held : Held m N hole he) {k : Nat} (from_root : heap0 ≤ k)
    (inside : k < N + heap0) (off : k ≠ hole) :
    Held (m.put hole (m.heap k)) N k he ∧
      Sifted m (Held.Has m N hole he) (m.put hole (m.heap k))
        (Held.Has (m.put hole (m.heap k)) N k he) := by
  have other : ∀ i, heap0 ≤ i → i < N + heap0 → i ≠ hole → i ≠ k → (m.heap i).w ≠ (m.heap k).w := by
    intro i low high here there same
    have index := held.active_eq i low high here
    rw [same, held.active_eq k from_root inside off] at index
    exact there index.symm
  refine ⟨⟨from_root, inside, ?_, ?_⟩, ?_, ?_⟩
  · intro i low high here
    by_cases filled : i = hole
    · simp [filled]
    · simp [filled, other i low high filled here, held.active_eq i low high filled]
  · intro i low high here
    by_cases filled : i = hole
    · simpa [filled] using held.apart k from_root inside off
    · simpa [filled] using held.apart i low high filled
  · intro e
    constructor
    · rintro (rfl | ⟨i, low, high, here, rfl⟩)
      · exact .inl rfl
      · by_cases filled : i = hole
        · exact .inr ⟨k, from_root, inside, off, by simp [filled]⟩
        · exact .inr ⟨i, low, high, filled, by simp [filled]⟩
    · rintro (rfl | ⟨i, low, high, here, rfl⟩)
      · exact .inl rfl
      · by_cases moved : i = k
        · exact .inr ⟨hole, held.from_root, held.inside, off.symm, by simp [moved]⟩
        · exact .inr ⟨i, low, high, moved, by simp [here]⟩
  · intro w away
    have apart : (m.heap k).w ≠ w := away _ (.inr ⟨k, from_root, inside, off, rfl⟩)
    simp [apart.symm]

/-- The element in hand is put into the hole. -/
theorem Held.put [LinearOrder T] (held : Held m N hole he)
    (ordered : fourHeap.Ordered (N + heap0) (Function.update m.key hole he.at_)) :
    Heaped (m.put hole he) N ∧
      Sifted m (Held.Has m N hole he) (m.put hole he) ((m.put hole he).Has N) := by
  refine ⟨⟨?_, ?_⟩, ?_, ?_⟩
  · rwa [HeapMem.put_key]
  · intro k low high
    by_cases here : k = hole
    · simp [here]
    · simp [here, held.apart k low high here, held.active_eq k low high here]
  · intro e
    constructor
    · rintro ⟨k, low, high, rfl⟩
      by_cases here : k = hole
      · exact .inl (by simp [here])
      · exact .inr ⟨k, low, high, here, by simp [here]⟩
    · rintro (rfl | ⟨k, low, high, here, rfl⟩)
      · exact ⟨hole, held.from_root, held.inside, by simp⟩
      · exact ⟨k, low, high, by simp [here]⟩
  · intro w away
    simp [(away he (.inl rfl)).symm]

variable [LinearOrder T]

omit [DecidableEq W] in
theorem closer_le (heap : Nat → ANHE T W) (minpos pos : Nat) :
    (heap (closer heap minpos pos)).at_ ≤ (heap minpos).at_ ∧
      (heap (closer heap minpos pos)).at_ ≤ (heap pos).at_ ∧
      (closer heap minpos pos = minpos ∨ closer heap minpos pos = pos) := by
  unfold closer
  split
  · rename_i less
    exact ⟨less.le, le_refl _, .inr rfl⟩
  · rename_i less
    exact ⟨le_refl _, not_lt.mp less, .inl rfl⟩

omit [DecidableEq W] in
/-- The same where the position may be behind the end. -/
theorem closer_if_le (heap : Nat → ANHE T W) (E minpos pos : Nat) {found : Nat}
    (eq : found = if pos < E then closer heap minpos pos else minpos) :
    (heap found).at_ ≤ (heap minpos).at_ ∧ (pos < E → (heap found).at_ ≤ (heap pos).at_) ∧
      (found = minpos ∨ found = pos ∧ pos < E) := by
  subst eq
  split
  · rename_i inside
    obtain ⟨below, below', which⟩ := closer_le heap minpos pos
    exact ⟨below, fun _ => below', which.imp_right fun here => ⟨here, inside⟩⟩
  · rename_i outside
    exact ⟨le_refl _, fun inside => absurd inside outside, .inl rfl⟩

omit [DecidableEq W] in
/-- Both paths of the search find the least of the children that there are. -/
theorem minChild_spec (heap : Nat → ANHE T W) (E pos : Nat) :
    match minChild heap E pos with
    | none => E ≤ pos
    | some minpos => pos ≤ minpos ∧ minpos < pos + dheap ∧ minpos < E ∧
        ∀ c, pos ≤ c → c < pos + dheap → c < E → (heap minpos).at_ ≤ (heap c).at_ := by
  unfold minChild
  by_cases full : pos + dheap - 1 < E
  · rw [if_pos full]
    obtain ⟨le1, le1', which1⟩ := closer_le heap pos (pos + 1)
    obtain ⟨le2, le2', which2⟩ := closer_le heap (closer heap pos (pos + 1)) (pos + 2)
    obtain ⟨le3, le3', which3⟩ :=
      closer_le heap (closer heap (closer heap pos (pos + 1)) (pos + 2)) (pos + 3)
    unfold dheap at full ⊢
    refine ⟨by omega, by omega, by omega, fun c low high _ => ?_⟩
    have places : c = pos ∨ c = pos + 1 ∨ c = pos + 2 ∨ c = pos + 3 := by omega
    obtain rfl | rfl | rfl | rfl := places
    · exact le3.trans (le2.trans le1)
    · exact le3.trans (le2.trans le1')
    · exact le3.trans le2'
    · exact le3'
  · rw [if_neg full]
    by_cases some_child : pos < E
    · rw [if_pos some_child]
      obtain ⟨le1, le1', which1⟩ := closer_if_le heap E pos (pos + 1) rfl
      obtain ⟨le2, le2', which2⟩ := closer_if_le heap E
        (if pos + 1 < E then closer heap pos (pos + 1) else pos) (pos + 2) rfl
      obtain ⟨le3, le3', which3⟩ := closer_if_le heap E
        (if pos + 2 < E then closer heap
            (if pos + 1 < E then closer heap pos (pos + 1) else pos) (pos + 2)
          else if pos + 1 < E then closer heap pos (pos + 1) else pos) (pos + 3) rfl
      unfold dheap at full ⊢
      dsimp only
      refine ⟨by omega, by omega, by omega, fun c low high inside => ?_⟩
      have places : c = pos ∨ c = pos + 1 ∨ c = pos + 2 ∨ c = pos + 3 := by omega
      obtain rfl | rfl | rfl | rfl := places
      · exact le3.trans (le2.trans le1)
      · exact le3.trans (le2.trans (le1' inside))
      · exact le3.trans (le2' inside)
      · exact le3' inside
    · rw [if_neg some_child]
      exact not_lt.mp some_child

/-- A loop of a sift: the element in hand and the hole at the end, where it belongs. -/
structure Sifting (m : HeapMem T W) (N hole : Nat) (he : ANHE T W) (m' : HeapMem T W)
    (hole' : Nat) : Prop where
  held : Held m' N hole' he
  sifted : Sifted m (Held.Has m N hole he) m' (Held.Has m' N hole' he)
  ordered : fourHeap.Ordered (N + heap0) (Function.update m'.key hole' he.at_)

theorem Sifting.moved {k hole' : Nat} (held : Held m N hole he) (from_root : heap0 ≤ k)
    (inside : k < N + heap0) (off : k ≠ hole)
    (rest : Sifting (m.put hole (m.heap k)) N k he m' hole') : Sifting m N hole he m' hole' where
  held := rest.held
  sifted := (held.move from_root inside off).2.trans rest.sifted
  ordered := rest.ordered

theorem upLoop_sifting {fuel : Nat} (held : Held m N hole he)
    (rising : fourHeap.Rising (N + heap0) m.key hole he.at_) (enough : hole ≤ heap0 + fuel) :
    Sifting m N hole he (upLoop he fuel m hole).1 (upLoop he fuel m hole).2 := by
  induction fuel generalizing m hole with
  | zero =>
      have root : hole = heap0 := Nat.le_antisymm enough held.from_root
      exact ⟨held, .refl _ _, rising.filled fun behind => absurd root behind.ne'⟩
  | succ fuel ih =>
      simp only [upLoop, upheapDone, beq_iff_eq]
      by_cases done : hparent hole = hole ∨ (m.heap (hparent hole)).at_ ≤ he.at_
      · rw [if_pos done]
        refine ⟨held, .refl _ _, rising.filled fun behind => ?_⟩
        exact done.resolve_left (hparent_lt behind).ne
      · rw [if_neg done, not_or, not_le] at *
        have behind : heap0 < hole := by
          refine lt_of_le_of_ne held.from_root fun root => done.1 ?_
          rw [← root]
          decide
        have less := hparent_lt behind
        have in_heap := less.trans held.inside
        refine Sifting.moved held (heap0_le_hparent hole) in_heap less.ne (ih ?_ ?_ (by omega))
        · exact (held.move (heap0_le_hparent hole) in_heap less.ne).1
        · rw [HeapMem.put_key]
          exact rising.up behind held.inside done.2.le

theorem downLoop_sifting {fuel : Nat} (held : Held m N hole he)
    (sinking : fourHeap.Sinking (N + heap0) m.key hole he.at_)
    (enough : N + heap0 ≤ hole + fuel) :
    Sifting m N hole he (downLoop he (N + heap0) fuel m hole).1
      (downLoop he (N + heap0) fuel m hole).2 := by
  induction fuel generalizing m hole with
  | zero => exact absurd held.inside (by omega)
  | succ fuel ih =>
      have children : ∀ c, fourHeap.Child (N + heap0) hole c →
          dheap * (hole - heap0) + heap0 + 1 ≤ c ∧
            c < dheap * (hole - heap0) + heap0 + 1 + dheap := fun c child =>
        (hparent_eq_iff child.behind held.from_root).mp child.parent_eq
      have found := minChild_spec m.heap (N + heap0) (dheap * (hole - heap0) + heap0 + 1)
      simp only [downLoop]
      cases search : minChild m.heap (N + heap0) (dheap * (hole - heap0) + heap0 + 1) with
      | none =>
          rw [search] at found
          refine ⟨held, .refl _ _, sinking.filled fun c child => ?_⟩
          exact absurd child.inside (not_lt.mpr (found.trans (children c child).1))
      | some minpos =>
          rw [search] at found
          obtain ⟨low, high, inside, least⟩ := found
          have minimal : ∀ c, fourHeap.Child (N + heap0) hole c → m.key minpos ≤ m.key c :=
            fun c child => least c (children c child).1 (children c child).2 child.inside
          dsimp only
          by_cases done : he.at_ ≤ (m.heap minpos).at_
          · rw [if_pos done]
            exact ⟨held, .refl _ _, sinking.filled fun c child => done.trans (minimal c child)⟩
          · rw [if_neg done]
            have behind : heap0 < minpos := by omega
            have child : fourHeap.Child (N + heap0) hole minpos :=
              ⟨behind, inside, (hparent_eq_iff behind held.from_root).mpr ⟨low, high⟩⟩
            have lower : hole < minpos := child.lt
            refine Sifting.moved held behind.le inside lower.ne' (ih ?_ ?_ (by omega))
            · exact (held.move behind.le inside lower.ne').1
            · rw [HeapMem.put_key]
              exact sinking.down child minimal (not_le.mp done).le

/-- What a sift does to a heap whose element at `k` is in the wrong place. -/
structure Settles (m : HeapMem T W) (N k : Nat) (m' : HeapMem T W) : Prop where
  heaped : Heaped m' N
  sifted : Sifted m (m.Has N) m' (m'.Has N)

omit [DecidableEq W] [LinearOrder T] in
theorem Held.has_iff (held : Held m N hole (m.heap hole)) (e : ANHE T W) :
    Held.Has m N hole (m.heap hole) e ↔ m.Has N e := by
  constructor
  · rintro (rfl | ⟨k, low, high, -, rfl⟩)
    · exact ⟨hole, held.from_root, held.inside, rfl⟩
    · exact ⟨k, low, high, rfl⟩
  · rintro ⟨k, low, high, rfl⟩
    by_cases here : k = hole
    · exact .inl (by rw [here])
    · exact .inr ⟨k, low, high, here, rfl⟩

theorem Sifting.settles {hole' : Nat} (held : Held m N hole (m.heap hole))
    (sifting : Sifting m N hole (m.heap hole) m' hole') :
    Settles m N hole (m'.put hole' (m.heap hole)) := by
  obtain ⟨heaped, put⟩ := sifting.held.put sifting.ordered
  have whole := sifting.sifted.trans put
  refine ⟨heaped, fun e => (whole.has_iff e).trans (held.has_iff e), fun w away => ?_⟩
  exact whole.frame w fun e found => away e ((held.has_iff e).mp found)

theorem upheap_settles {k : Nat} (held : Held m N k (m.heap k))
    (rising : fourHeap.Rising (N + heap0) m.key k (m.heap k).at_) :
    Settles m N k (upheap m k) :=
  (upLoop_sifting held rising (by omega)).settles held

theorem downheap_settles {k : Nat} (held : Held m N k (m.heap k))
    (sinking : fourHeap.Sinking (N + heap0) m.key k (m.heap k).at_) :
    Settles m N k (downheap m N k) := by
  have enough : N + heap0 ≤ k + N := by
    have := held.from_root
    omega
  exact (downLoop_sifting held sinking enough).settles held

theorem adjustheap_settles {k : Nat} (held : Held m N k (m.heap k))
    (holed : fourHeap.Holed (N + heap0) m.key k) : Settles m N k (adjustheap m N k) := by
  unfold adjustheap
  by_cases up : k > heap0 ∧ (m.heap k).at_ ≤ (m.heap (hparent k)).at_
  · rw [if_pos up]
    exact upheap_settles held (holed.rising up.1 up.2)
  · rw [if_neg up]
    refine downheap_settles held (holed.sinking fun behind => ?_)
    exact (not_le.mp fun less => up ⟨behind, less⟩).le

omit [DecidableEq W] in
theorem Heaped.index_unique (heaped : Heaped m N) {i k : Nat} (low : heap0 ≤ i)
    (high : i < N + heap0) (low' : heap0 ≤ k) (high' : k < N + heap0)
    (same : (m.heap i).w = (m.heap k).w) : i = k := by
  rw [← heaped.active_eq i low high, same, heaped.active_eq k low' high']

omit [DecidableEq W] in
omit [DecidableEq W] in
theorem Heaped.root_le (heaped : Heaped m N) {e : ANHE T W} (has : m.Has N e) :
    (m.heap heap0).at_ ≤ e.at_ := by
  obtain ⟨k, low, high, rfl⟩ := has
  exact heaped.ordered.root_le low high

/-- A new watcher is put behind the others and goes up. -/
theorem Heaped.insert (heaped : Heaped m N) {e : ANHE T W}
    (fresh : ∀ e', m.Has N e' → e'.w ≠ e.w) :
    Heaped (upheap (m.put (N + heap0) e) (N + heap0)) (N + 1) ∧
      Sifted m (fun e' => e' = e ∨ m.Has N e') (upheap (m.put (N + heap0) e) (N + heap0))
        ((upheap (m.put (N + heap0) e) (N + heap0)).Has (N + 1)) := by
  have other : ∀ k, heap0 ≤ k → k < N + heap0 → (m.put (N + heap0) e).heap k = m.heap k := by
    intro k _ high
    simp [high.ne]
  have held : Held (m.put (N + heap0) e) (N + 1) (N + heap0)
      ((m.put (N + heap0) e).heap (N + heap0)) := by
    refine ⟨by omega, by omega, fun k low high off => ?_, fun k low high off => ?_⟩
    · rw [other k low (by omega)]
      have apart := fresh _ ⟨k, low, by omega, rfl⟩
      simp [apart, heaped.active_eq k low (by omega)]
    · rw [other k low (by omega)]
      simpa using fresh _ ⟨k, low, by omega, rfl⟩
  have rising : fourHeap.Rising (N + 1 + heap0) (m.put (N + heap0) e).key (N + heap0)
      ((m.put (N + heap0) e).heap (N + heap0)).at_ := by
    have last := heaped.ordered.rising_last ((m.put (N + heap0) e).heap (N + heap0)).at_
    rw [show N + 1 + heap0 = N + heap0 + 1 by omega]
    refine ⟨last.toHoled.congr fun k off => ?_, fun c child => ?_⟩
    · rw [HeapMem.put_key, Function.update_of_ne off]
    · rw [HeapMem.put_key, Function.update_of_ne child.lt.ne']
      exact last.below c child
  have settles := upheap_settles held rising
  refine ⟨settles.heaped, fun e' => (settles.sifted.has_iff e').trans ⟨?_, ?_⟩, fun w away => ?_⟩
  · rintro ⟨k, low, high, rfl⟩
    by_cases here : k = N + heap0
    · exact .inl (by simp [here])
    · exact .inr ⟨k, low, by omega, (other k low (by omega)).symm⟩
  · rintro (rfl | ⟨k, low, high, rfl⟩)
    · exact ⟨N + heap0, by omega, by omega, by simp⟩
    · exact ⟨k, low, by omega, other k low high⟩
  · rw [settles.sifted.frame w ?_]
    · simp [(away e (.inl rfl)).symm]
    · rintro e' ⟨k, low, high, rfl⟩
      by_cases here : k = N + heap0
      · simpa [here] using away e (.inl rfl)
      · rw [other k low (by omega)]
        exact away _ (.inr ⟨k, low, by omega, rfl⟩)

omit [DecidableEq W] [LinearOrder T] in
theorem HeapMem.has_replaced {k : Nat} {x : ANHE T W} (low : heap0 ≤ k) (high : k < N + heap0)
    (e : ANHE T W) :
    HeapMem.Has { m with heap := Function.update m.heap k x } N e ↔ Held.Has m N k x e := by
  constructor
  · rintro ⟨i, low', high', rfl⟩
    by_cases here : i = k
    · exact .inl (by simp [here])
    · exact .inr ⟨i, low', high', here, by simp [here]⟩
  · rintro (rfl | ⟨i, low', high', here, rfl⟩)
    · exact ⟨k, low, high, by simp⟩
    · exact ⟨i, low', high', by simp [here]⟩

/-- The element at `k` is taken out: unless it is the last one, the last one takes its place
and then goes where it belongs. -/
theorem Heaped.remove (heaped : Heaped m (N + 1)) {k : Nat} (low : heap0 ≤ k)
    (high : k < N + 1 + heap0) :
    let m' := if k < N + heap0 then
        adjustheap { m with heap := Function.update m.heap k (m.heap (N + heap0)) } N k
      else m
    Heaped m' N ∧
      Sifted m (fun e => m.Has (N + 1) e ∧ e.w ≠ (m.heap k).w) m' (m'.Has N) := by
  have apart : ∀ i, heap0 ≤ i → i < N + 1 + heap0 → i ≠ k → (m.heap i).w ≠ (m.heap k).w :=
    fun i low' high' off same => off (heaped.index_unique low' high' low high same)
  dsimp only
  by_cases inner : k < N + heap0
  · rw [if_pos inner]
    have settles := adjustheap_settles (N := N)
      (m := { m with heap := Function.update m.heap k (m.heap (N + heap0)) }) (k := k)
      ⟨low, inner, fun i low' high' off => ?_, fun i low' high' off => ?_⟩ ?_
    · have has_iff : ∀ e, HeapMem.Has { m with heap := Function.update m.heap k (m.heap (N + heap0)) }
          N e ↔ m.Has (N + 1) e ∧ e.w ≠ (m.heap k).w := by
        intro e
        rw [HeapMem.has_replaced low inner]
        constructor
        · rintro (rfl | ⟨i, low', high', off, rfl⟩)
          · exact ⟨⟨N + heap0, by omega, by omega, rfl⟩, apart _ (by omega) (by omega) (by omega)⟩
          · exact ⟨⟨i, low', by omega, rfl⟩, apart i low' (by omega) off⟩
        · rintro ⟨⟨i, low', high', rfl⟩, other⟩
          by_cases last : i = N + heap0
          · exact .inl (by rw [last])
          · exact .inr ⟨i, low', by omega, fun here => other (by rw [here]), rfl⟩
      refine ⟨settles.heaped, fun e => (settles.sifted.has_iff e).trans (has_iff e), fun w away => ?_⟩
      exact settles.sifted.frame w fun e found => away e ((has_iff e).mp found)
    · simpa [off] using heaped.active_eq i low' (by omega)
    · intro same
      simp only [ne_eq, off, not_false_eq_true, Function.update_of_ne, Function.update_self] at same
      have := heaped.index_unique low' (by omega) (by omega) (by omega) same
      omega
    · refine ((heaped.ordered.shorter (by omega)).holed inner).congr fun i off => ?_
      simp [HeapMem.key, off]
  · rw [if_neg inner]
    refine ⟨⟨heaped.ordered.shorter (by omega), fun i low' high' => heaped.active_eq i low' (by omega)⟩,
      fun e => ⟨?_, ?_⟩, fun _ _ => rfl⟩
    · rintro ⟨i, low', high', rfl⟩
      exact ⟨⟨i, low', by omega, rfl⟩, apart i low' (by omega) (by omega)⟩
    · rintro ⟨⟨i, low', high', rfl⟩, other⟩
      have off : i ≠ k := by
        rintro rfl
        exact other rfl
      exact ⟨i, low', by omega, rfl⟩

omit [DecidableEq W] in
/-- The element at `k` has been replaced by one of the same watcher. -/
theorem Heaped.retimed (heaped : Heaped m N) {k : Nat} (low : heap0 ≤ k) (high : k < N + heap0)
    {x : ANHE T W} (same : (m.heap k).w = x.w) :
    Held { m with heap := Function.update m.heap k x } N k (Function.update m.heap k x k) ∧
      fourHeap.Holed (N + heap0)
        (HeapMem.key { m with heap := Function.update m.heap k x }) k ∧
      ∀ e, HeapMem.Has { m with heap := Function.update m.heap k x } N e ↔
        e = x ∨ (m.Has N e ∧ e.w ≠ x.w) := by
  rw [← same]
  refine ⟨⟨low, high, fun i low' high' off => ?_, fun i low' high' off eq => ?_⟩, ?_, fun e => ?_⟩
  · simpa [off] using heaped.active_eq i low' high'
  · simp only [ne_eq, off, not_false_eq_true, Function.update_of_ne, Function.update_self] at eq
    exact off (heaped.index_unique low' high' low high (eq.trans same.symm))
  · refine (heaped.ordered.holed high).congr fun i off => ?_
    simp [HeapMem.key, off]
  · rw [HeapMem.has_replaced low high]
    refine or_congr Iff.rfl ⟨?_, ?_⟩
    · rintro ⟨i, low', high', off, rfl⟩
      exact ⟨⟨i, low', high', rfl⟩, fun eq => off (heaped.index_unique low' high' low high eq)⟩
    · rintro ⟨⟨i, low', high', rfl⟩, other⟩
      exact ⟨i, low', high', fun here => other (by rw [here]), rfl⟩

end

end CLibs.Libev
