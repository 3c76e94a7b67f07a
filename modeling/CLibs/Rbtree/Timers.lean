import CLibs.General.Circle
import CLibs.Rbtree.Usage

/-!
# Timers

A program that inserts with `ngx_rbtree_insert_timer_value`. Its keys overflow, and at
each moment those in the tree lie in half of the circle; the half moves as time goes on.
-/

set_option autoImplicit false

namespace CLibs.Rbtree

open General

variable {Data : Type}

namespace NgxRbtree

/-- A call of a program whose tree has the timer callback. -/
def Call.runTimer (fuel : Nat) (s : NgxRbtree Data) : Call Data → Option (NgxRbtree Data)
  | .insert node fields =>
      ngxRbtreeInsert ngxRbtreeInsertTimerValue fuel
        { s with mem := Function.update s.mem node fields } node
  | .delete node => ngxRbtreeDelete fuel s node

/-- The keys of the nodes in the tree, and of the one that is inserted, are all `good`. -/
def Call.Keys (good : UInt32 → Prop) (s : NgxRbtree Data) (live : List Ptr)
    (call : Call Data) : Prop :=
  (∀ p ∈ live, good (s.mem p).key) ∧
    match call with
    | .insert _ fields => good fields.key
    | .delete _ => True

/-- No key is behind one that comes before it. -/
def InTurn (keys : List UInt32) : Prop := keys.Pairwise fun before after => ¬ Behind after before

variable {sentinel : Ptr} {s : NgxRbtree Data} {live : List Ptr} {t : RBTree Ptr} {b : UInt32}

theorem Shaped.forall_keys (shaped : Shaped sentinel s live t) {good : UInt32 → Prop} :
    (∀ key ∈ s.keys t, good key) ↔ ∀ p ∈ live, good (s.mem p).key := by
  simp only [keys, List.forall_mem_map, shaped.nodes.mem_iff]

theorem inTurn_iff {keys : List UInt32} (window : ∀ key ∈ keys, InWindow b key) :
    InTurn keys ↔ keys.Pairwise fun before after => distance b before ≤ distance b after := by
  refine List.Pairwise.iff_of_mem fun {before after} member member' => ?_
  exact not_behind_iff_distance_le (window after member') (window before member)

theorem Shaped.inTurn_iff (shaped : Shaped sentinel s live t)
    (window : ∀ p ∈ live, InWindow b (s.mem p).key) :
    InTurn (s.keys t) ↔
      (s.keys t).Pairwise fun before after => distance b before ≤ distance b after :=
  NgxRbtree.inTurn_iff (shaped.forall_keys.mpr window)

/-- A call brings no other keys into the tree. -/
theorem Call.Splices.all {good : UInt32 → Prop} {before after : List UInt32} {call : Call Data}
    (splices : call.Splices s before after) (old : ∀ key ∈ before, good key)
    (keys : call.Keys good s live) : ∀ key ∈ after, good key := by
  cases call with
  | insert node fields =>
      obtain ⟨front, back, rfl, rfl⟩ := splices
      intro key member
      rcases List.mem_append.mp member with inFront | here
      · exact old key (List.mem_append_left back inFront)
      · rcases List.mem_cons.mp here with rfl | inBack
        · exact keys.2
        · exact old key (List.mem_append_right front inBack)
  | delete node =>
      obtain ⟨front, back, rfl, rfl⟩ := splices
      intro key member
      refine old key ?_
      rw [List.mem_append] at member
      rw [List.mem_append, List.mem_cons]
      exact member.imp_right .inr

theorem Call.keeps_turn (call : Call Data) (shaped : Shaped sentinel s live t)
    (turn : InTurn (s.keys t)) (allowed : call.Allowed sentinel live)
    (within : call.Keys (InWindow b) s live) :
    ∃ next t', Returns (call.runTimer · s) next ∧ Shaped sentinel next (call.live live) t' ∧
      InTurn (next.keys t') ∧ call.Splices s (s.keys t) (next.keys t') := by
  cases call with
  | insert node fields =>
      have compares : ∀ q ∈ live,
          decide ((fields.item.1 - (s.mem q).item.1).toInt32 < 0) = true ↔
            distance b fields.key < distance b (s.mem q).key := by
        intro q inside
        rw [decide_eq_true_eq]
        exact behind_iff_distance_lt within.2 (within.1 q inside)
      obtain ⟨next, larger, returns, shaped', sorted, splices⟩ := insert_shaped (distance b)
        (fun node temp => (node.1 - temp.1).toInt32 < 0) shaped
        ((shaped.inTurn_iff within.1).mp turn) compares allowed.1 allowed.2.1 allowed.2.2
      have inside := splices.all (shaped.forall_keys.mpr within.1) within
      exact ⟨next, larger, returns, shaped', (inTurn_iff inside).mpr sorted, splices⟩
  | delete node =>
      obtain ⟨next, smaller, returns, shaped', splices⟩ := delete_shaped shaped allowed
      exact ⟨next, smaller, returns, shaped', splices.pairwise turn, splices⟩

/-- A program with a tree of timers, the nodes that it has inserted and not deleted, and for
each call the begin of the window at that moment. -/
def timerUsage (mem : Ptr → Node Data) (sentinel : Ptr) :
    System (NgxRbtree Data × List Ptr) (Call Data × UInt32) where
  start state := ngxRbtreeInit mem sentinel = some state.1 ∧ state.2 = []
  step state act next := act.1.Allowed sentinel state.2 ∧
    act.1.Keys (InWindow act.2) state.1 state.2 ∧
    Returns (act.1.runTimer · state.1) next.1 ∧ next.2 = act.1.live state.2

theorem Shaped.min_least (shaped : Shaped sentinel s live t) (some : live ≠ [])
    {r : UInt32 → UInt32 → Prop} (reflexive : ∀ key, r key key) (sorted : (s.keys t).Pairwise r) :
    ∃ p ∈ live, Returns (ngxRbtreeMin · s s.root) p ∧
      ∀ q ∈ live, r (s.mem p).key (s.mem q).key := by
  obtain ⟨y, rest, labels, returns⟩ := shaped.min_first some
  have members : ∀ q, q ∈ live ↔ q = y ∨ q ∈ rest := by
    intro q
    rw [← shaped.nodes.mem_iff, labels, List.mem_cons]
  rw [keys, labels, List.map_cons, List.pairwise_cons] at sorted
  refine ⟨y, (members y).mpr (.inl rfl), returns, fun q inside => ?_⟩
  rcases (members q).mp inside with rfl | later
  · exact reflexive _
  · exact sorted.1 _ (List.mem_map_of_mem later)

section TimerUsage

variable {mem : Ptr → Node Data} {acts : List (Call Data × UInt32)}

theorem timerUsage_inTurn (run : (timerUsage mem sentinel).Run acts (s, live)) :
    ∃ t, Shaped sentinel s live t ∧ InTurn (s.keys t) := by
  refine run.invariant (fun state => ∃ t, Shaped sentinel state.1 state.2 t ∧
    InTurn (state.1.keys t)) ?_ ?_
  · rintro ⟨s, live⟩ ⟨initial, rfl⟩
    exact ⟨.nil, init_shaped initial, .nil⟩
  · rintro ⟨s, live⟩ ⟨call, b⟩ ⟨next, live'⟩ ⟨t, shaped, turn⟩ ⟨allowed, within, returns, rfl⟩
    obtain ⟨next', t', returns', shaped', turn', -⟩ := call.keeps_turn shaped turn allowed within
    cases returns.unique returns'
    exact ⟨t', shaped', turn'⟩

/-- However a tree of timers is used while the window moves on: for every window that has
the keys in the tree, their sequence goes away from its begin, the minimum is the nearest,
and every further call in it comes back. -/
theorem timerUsage_keeps_order (run : (timerUsage mem sentinel).Run acts (s, live)) (b : UInt32)
    (window : ∀ p ∈ live, InWindow b (s.mem p).key) :
    (∃ t, Shaped sentinel s live t ∧
      (s.keys t).Pairwise fun before after => distance b before ≤ distance b after) ∧
    (live ≠ [] → ∃ p ∈ live, Returns (ngxRbtreeMin · s s.root) p ∧
      ∀ q ∈ live, distance b (s.mem p).key ≤ distance b (s.mem q).key) ∧
    ∀ call : Call Data, call.Allowed sentinel live → call.Keys (InWindow b) s live →
      ∃ next, Returns (call.runTimer · s) next := by
  obtain ⟨t, shaped, turn⟩ := timerUsage_inTurn run
  have sorted := (shaped.inTurn_iff window).mp turn
  refine ⟨⟨t, shaped, sorted⟩, fun some => shaped.min_least some (fun _ => Nat.le_refl _) sorted,
    ?_⟩
  intro call allowed within
  obtain ⟨next, -, returns, -⟩ := call.keeps_turn shaped turn allowed within
  exact ⟨next, returns⟩

end TimerUsage

theorem timerUsage_goes_on {mem : Ptr → Node Data} {acts : List (Call Data × UInt32)}
    {good : UInt32 → Prop} (run : (timerUsage mem sentinel).Run acts (s, live)) (call : Call Data)
    (b : UInt32) (inWindow : ∀ key, good key → InWindow b key)
    (allowed : call.Allowed sentinel live) (keys : call.Keys good s live) :
    ∃ next, (timerUsage mem sentinel).Run (acts ++ [(call, b)]) (next, call.live live) ∧
      ∀ p ∈ call.live live, good (next.mem p).key := by
  obtain ⟨t, shaped, turn⟩ := timerUsage_inTurn run
  have within : call.Keys (InWindow b) s live := by
    refine ⟨fun p inside => inWindow _ (keys.1 p inside), ?_⟩
    cases call with
    | insert node fields => exact inWindow _ keys.2
    | delete node => trivial
  obtain ⟨next, t', returns, shaped', -, splices⟩ := call.keeps_turn shaped turn allowed within
  exact ⟨next, .step run ⟨allowed, within, returns, rfl⟩,
    shaped'.forall_keys.mp (splices.all (shaped.forall_keys.mpr keys.1) keys)⟩

/-- Timers before and after the overflow, in a window that moves up to the first of them. -/
theorem timerUsage_keeps_order_overflow :
    ∃ s, (timerUsage (fun _ => filled 0) 1).Run
        [(.insert 2 (filled 0xFFFFFFFE), 0xFFFFFFF0), (.insert 3 (filled 5), 0xFFFFFFFE),
          (.insert 4 (filled 0), 0xFFFFFFFE), (.delete 3, 0xFFFFFFFE)] (s, [4, 2]) ∧
      ((∃ t, Shaped 1 s [4, 2] t ∧ (s.keys t).Pairwise fun before after =>
          distance 0xFFFFFFFE before ≤ distance 0xFFFFFFFE after) ∧
        (([4, 2] : List Ptr) ≠ [] → ∃ p ∈ [4, 2], Returns (ngxRbtreeMin · s s.root) p ∧
          ∀ q ∈ [4, 2],
            distance 0xFFFFFFFE (s.mem p).key ≤ distance 0xFFFFFFFE (s.mem q).key) ∧
        ∀ call : Call Unit, call.Allowed 1 [4, 2] →
          call.Keys (InWindow 0xFFFFFFFE) s [4, 2] → ∃ next, Returns (call.runTimer · s) next) := by
  obtain ⟨start, initial⟩ : ∃ start, ngxRbtreeInit (fun _ => filled 0) 1 = some start := ⟨_, rfl⟩
  let good (key : UInt32) := InWindow 0xFFFFFFF0 key ∧ InWindow 0xFFFFFFFE key
  obtain ⟨first, one, keys⟩ := @timerUsage_goes_on _ _ _ _ _ _ good (.start ⟨initial, rfl⟩)
    (.insert 2 (filled 0xFFFFFFFE)) 0xFFFFFFF0 (fun _ both => both.1) (by decide)
    ⟨by simp, by decide, by decide⟩
  obtain ⟨second, two, keys⟩ := timerUsage_goes_on one (.insert 3 (filled 5)) 0xFFFFFFFE
    (fun _ both => both.2) (by decide) ⟨keys, by decide, by decide⟩
  obtain ⟨third, three, keys⟩ := timerUsage_goes_on two (.insert 4 (filled 0)) 0xFFFFFFFE
    (fun _ both => both.2) (by decide) ⟨keys, by decide, by decide⟩
  obtain ⟨fourth, four, keys⟩ := timerUsage_goes_on three (.delete 3) 0xFFFFFFFE
    (fun _ both => both.2) (by decide) ⟨keys, trivial⟩
  exact ⟨fourth, four, timerUsage_keeps_order four 0xFFFFFFFE fun p inside => (keys p inside).2⟩

end NgxRbtree

end CLibs.Rbtree
