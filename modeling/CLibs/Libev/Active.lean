import CLibs.Libev.Timers
import Mathlib.Algebra.BigOperators.Group.Finset.Basic

/-!
# Active watchers

The loop counts its active watchers, and each array of watchers has the active ones that
belong there, which know their places.
-/

set_option autoImplicit false
set_option linter.unusedSectionVars false

open CLibs.General

namespace CLibs.Libev

namespace EvLoop

variable {T ι β : Type} [Tstamp T] [DecidableEq ι] {s t : EvLoop T ι β} {w : W ι}

/-- `activecnt` is the number of active watchers, whose priorities are in range. -/
structure Counted (s : EvLoop T ι β) : Prop where
  count : ∃ all : Finset (W ι), (∀ w, w ∈ all ↔ s.active w ≠ 0) ∧ s.activecnt = all.card
  real : s.active .pendingW = 0
  ranged : ∀ w, s.active w ≠ 0 → s.Ranged w

/-- `w` is active in `t` and was not in `s`; no other watcher has been started or stopped. -/
structure Starts (s : EvLoop T ι β) (w : W ι) (t : EvLoop T ι β) : Prop where
  off : s.active w = 0
  on : t.active w ≠ 0
  others : ∀ v, v ≠ w → (t.active v ≠ 0 ↔ s.active v ≠ 0)
  activecnt_eq : t.activecnt = s.activecnt + 1
  priority_eq : t.priority = (s.priAdjust w).priority

/-- `w` is not active in `t` and was in `s`; no other watcher has been started or stopped. -/
structure Rests (s : EvLoop T ι β) (w : W ι) (t : EvLoop T ι β) : Prop where
  on : s.active w ≠ 0
  off : t.active w = 0
  others : ∀ v, v ≠ w → (t.active v ≠ 0 ↔ s.active v ≠ 0)
  activecnt_eq : t.activecnt = s.activecnt - 1
  priority_eq : t.priority = s.priority

theorem priAdjust_ranged (s : EvLoop T ι β) (w : W ι) : (s.priAdjust w).Ranged w := by
  unfold Ranged priAdjust
  dsimp only
  rw [Function.update_self]
  unfold evMinpri evMaxpri
  split <;> split <;> omega

theorem priAdjust_of_ranged (ranged : s.Ranged w) : (s.priAdjust w).priority = s.priority := by
  obtain ⟨low, high⟩ := ranged
  unfold priAdjust
  dsimp only
  rw [if_neg (not_lt.mpr low), if_neg (not_lt.mpr high), Function.update_eq_self]

theorem priAdjust_other {v : W ι} (other : v ≠ w) : (s.priAdjust w).priority v = s.priority v :=
  Function.update_of_ne other ..

theorem Counted.starts (counted : s.Counted) (starts : Starts s w t) (real : w ≠ .pendingW) :
    t.Counted := by
  obtain ⟨all, mem_iff, count⟩ := counted.count
  refine ⟨⟨insert w all, fun v => ?_, ?_⟩, ?_, fun v on => ?_⟩
  · rw [Finset.mem_insert]
    by_cases here : v = w
    · rw [here]
      exact iff_of_true (.inl rfl) starts.on
    · rw [starts.others v here, ← mem_iff]
      exact or_iff_right here
  · rw [starts.activecnt_eq, count, Finset.card_insert_of_notMem ?_]
    · exact (Int.natCast_succ _).symm
    · rw [mem_iff]
      exact not_not.mpr starts.off
  · exact not_not.mp (mt (starts.others _ real.symm).mp (not_not.mpr counted.real))
  · by_cases here : v = w
    · rw [here, Ranged, starts.priority_eq]
      exact s.priAdjust_ranged w
    · rw [Ranged, starts.priority_eq, priAdjust_other here]
      exact counted.ranged v ((starts.others v here).mp on)

theorem Counted.rests (counted : s.Counted) (rests : Rests s w t) : t.Counted := by
  obtain ⟨all, mem_iff, count⟩ := counted.count
  have member := (mem_iff w).mpr rests.on
  refine ⟨⟨all.erase w, fun v => ?_, ?_⟩, ?_, fun v on => ?_⟩
  · rw [Finset.mem_erase]
    by_cases here : v = w
    · rw [here]
      exact iff_of_false (fun both => both.1 rfl) (not_not.mpr rests.off)
    · rw [rests.others v here, ← mem_iff]
      exact and_iff_right here
  · have some : 0 < all.card := Finset.card_pos.mpr ⟨w, member⟩
    rw [rests.activecnt_eq, count, Finset.card_erase_of_mem member]
    omega
  · by_cases here : .pendingW = w
    · rw [here, rests.off]
    · exact not_not.mp (mt (rests.others _ here).mp (not_not.mpr counted.real))
  · have was : s.active v ≠ 0 := by
      by_cases here : v = w
      · exact here ▸ rests.on
      · exact (rests.others v here).mp on
    rw [Ranged, rests.priority_eq]
    exact counted.ranged v was

theorem Counted.congr (counted : s.Counted) (active_iff : ∀ w, t.active w ≠ 0 ↔ s.active w ≠ 0)
    (activecnt_eq : t.activecnt = s.activecnt)
    (priority_eq : ∀ w, s.active w ≠ 0 → t.priority w = s.priority w) : t.Counted := by
  obtain ⟨all, mem_iff, count⟩ := counted.count
  refine ⟨⟨all, fun w => (mem_iff w).trans (active_iff w).symm, activecnt_eq.trans count⟩,
    not_not.mp (mt (active_iff _).mp (not_not.mpr counted.real)), fun w on => ?_⟩
  have was := (active_iff w).mp on
  rw [Ranged, priority_eq w was]
  exact counted.ranged w was

/-- Changing the priority of a watcher that is not pending does not touch the queues. -/
theorem Queued.reprioritized (queued : s.Queued) (pending_eq : t.pending = s.pending)
    (pendings_eq : t.pendings = s.pendings) (pendingpri_eq : t.pendingpri = s.pendingpri)
    (priority_eq : ∀ w, s.pending w ≠ 0 → t.priority w = s.priority w) : t.Queued := by
  have abspri_eq : ∀ w, s.pending w ≠ 0 → t.abspri w = s.abspri w := fun w pends => by
    rw [abspri, priority_eq w pends, abspri]
  refine ⟨fun w pends => ?_, fun pri i p entry => ?_, ?_, fun w pends => ?_, ?_, ?_⟩
  · rw [pending_eq] at pends ⊢
    rw [pendings_eq, abspri_eq w pends]
    exact queued.found w pends
  · rw [pendings_eq] at entry
    obtain dropped | here := queued.back pri i p entry
    · exact .inl dropped
    · rw [pending_eq, abspri_eq p.w (by omega)]
      exact .inr here
  · rw [pending_eq]
    exact queued.dummy
  · rw [pending_eq] at pends
    rw [Ranged, priority_eq w pends]
    exact queued.ranged w pends
  · rw [pendings_eq, pendingpri_eq]
    exact queued.above
  · rw [pendingpri_eq]
    exact queued.top

/-- Starting a watcher does not touch the queues: a pending watcher keeps its priority. -/
theorem Queued.starts (queued : s.Queued) (starts : Starts s w t)
    (pending_eq : t.pending = s.pending) (pendings_eq : t.pendings = s.pendings)
    (pendingpri_eq : t.pendingpri = s.pendingpri) : t.Queued := by
  refine queued.reprioritized pending_eq pendings_eq pendingpri_eq fun v pends => ?_
  rw [starts.priority_eq]
  by_cases here : v = w
  · rw [here] at pends
    rw [priAdjust_of_ranged (queued.ranged w pends)]
  · exact priAdjust_other here

/-! ## Arrays -/

/-- The array that a watcher is in while it is active. -/
def home (s : EvLoop T ι β) : W ι → Option Ws
  | .idle w => some (.idles (s.abspri (.idle w)))
  | .prepare _ => some .prepares
  | .check _ => some .checks
  | .fork _ => some .forks
  | .pendingW | .io _ | .timer _ => none

/-- What `array_verify` asserts of the arrays, and that no active watcher is missing. -/
structure ArraysOk (s : EvLoop T ι β) : Prop where
  placed : ∀ ws, Placed s.active (s.arrays ws)
  mem_iff : ∀ ws w, w ∈ s.arrays ws ↔ s.active w ≠ 0 ∧ s.home w = some ws
  idleall_eq : s.idleall = (∑ pri ∈ Finset.range numpri, (s.arrays (.idles pri)).length : Nat)

theorem home_congr {v : W ι} (priority_eq : t.priority v = s.priority v) : t.home v = s.home v := by
  cases v <;> simp [home, abspri, priority_eq]

theorem ArraysOk.congr (ok : s.ArraysOk) (arrays_eq : t.arrays = s.arrays)
    (idleall_eq : t.idleall = s.idleall)
    (active_eq : ∀ w, s.home w ≠ none → t.active w = s.active w)
    (priority_eq : ∀ w, s.active w ≠ 0 → t.priority w = s.priority w)
    (kind_eq : ∀ w, t.home w ≠ none → s.home w ≠ none) : t.ArraysOk := by
  refine ⟨fun ws => ?_, fun ws w => ?_, by rw [idleall_eq, arrays_eq, ok.idleall_eq]⟩
  · rw [arrays_eq]
    refine (ok.placed ws).congr fun w inside => active_eq w ?_
    rw [((ok.mem_iff ws w).mp inside).2]
    exact Option.some_ne_none ws
  · rw [arrays_eq, ok.mem_iff]
    by_cases belongs : s.home w = none
    · have still : t.home w = none := by
        by_contra other
        exact kind_eq w other belongs
      simp [belongs, still]
    · rw [active_eq w belongs]
      refine and_congr_right fun on => ?_
      rw [home_congr (priority_eq w on)]

theorem startIn_starts (ws : Ws) (off : s.active w = 0) : Starts s w (s.startIn ws w) where
  off := off
  on := by
    change Function.update s.active w ((s.arrays ws).length + 1) w ≠ 0
    rw [Function.update_self]
    exact Nat.succ_ne_zero _
  others v other := by
    change Function.update s.active w ((s.arrays ws).length + 1) v ≠ 0 ↔ _
    rw [Function.update_of_ne other]
  activecnt_eq := rfl
  priority_eq := rfl

/-- The arrays after a watcher was started in one of them. -/
theorem ArraysOk.startIn (ok : s.ArraysOk) {ws : Ws} (off : s.active w = 0)
    (belongs : (s.priAdjust w).home w = some ws) :
    (∀ k, Placed (s.startIn ws w).active ((s.startIn ws w).arrays k)) ∧
      ∀ k v, v ∈ (s.startIn ws w).arrays k ↔
        (s.startIn ws w).active v ≠ 0 ∧ (s.startIn ws w).home v = some k := by
  have starts := startIn_starts ws off
  have fresh : ∀ k, w ∉ s.arrays k := fun k inside => ((ok.mem_iff k w).mp inside).1 off
  have arrays_eq : (s.startIn ws w).arrays = Function.update s.arrays ws (s.arrays ws ++ [w]) := rfl
  have active_eq : (s.startIn ws w).active = Function.update s.active w ((s.arrays ws).length + 1) :=
    rfl
  have homes : ∀ v, v ≠ w → (s.startIn ws w).home v = s.home v := fun v other =>
    home_congr (by rw [starts.priority_eq, priAdjust_other other])
  have home_self : (s.startIn ws w).home w = some ws := by
    rw [← belongs]
    exact home_congr (by rw [starts.priority_eq])
  refine ⟨fun k => ?_, fun k v => ?_⟩
  · rw [arrays_eq, active_eq]
    by_cases here : k = ws
    · subst here
      rw [Function.update_self]
      exact (ok.placed k).append (fresh k)
    · rw [Function.update_of_ne here]
      refine (ok.placed k).congr fun v inside => Function.update_of_ne ?_ ..
      rintro rfl
      exact fresh k inside
  · by_cases self : v = w
    · subst self
      rw [home_self, and_iff_right starts.on, Option.some.injEq, arrays_eq]
      by_cases here : k = ws
      · simp [here]
      · simp [here, Ne.symm here, fresh k]
    · rw [homes v self, starts.others v self, ← ok.mem_iff, arrays_eq]
      by_cases here : k = ws
      · simp [here, self]
      · simp [here]

theorem stopIn_eq (s : EvLoop T ι β) (ws : Ws) {rest : List (W ι)} {last : W ι}
    (split : s.arrays ws = rest ++ [last]) : s.stopIn ws w = { s with
      arrays := Function.update s.arrays ws (swapOut (s.arrays ws) (s.active w))
      active := Function.update (Function.update s.active last (s.active w)) w 0
      activecnt := s.activecnt - 1 } := by
  have moved : (s.arrays ws).getLast? = some last := by rw [split, List.getLast?_concat]
  simp only [stopIn, moved, evStop]

/-- The arrays after a watcher was stopped in one of them. -/
theorem ArraysOk.stopIn (ok : s.ArraysOk) {ws : Ws} (on : s.active w ≠ 0)
    (belongs : s.home w = some ws) :
    Rests s w (s.stopIn ws w) ∧
      (∀ v, (s.stopIn ws w).home v = s.home v) ∧
      (∀ v, s.home v ≠ some ws → (s.stopIn ws w).active v = s.active v) ∧
      (∀ k, Placed (s.stopIn ws w).active ((s.stopIn ws w).arrays k)) ∧
      ∀ k v, v ∈ (s.stopIn ws w).arrays k ↔
        (s.stopIn ws w).active v ≠ 0 ∧ (s.stopIn ws w).home v = some k := by
  have inside := (ok.mem_iff ws w).mpr ⟨on, belongs⟩
  obtain ⟨rest, last, split⟩ := List.eq_nil_or_concat' (s.arrays ws) |>.resolve_left
    (List.ne_nil_of_mem inside)
  obtain ⟨last_on, last_home⟩ := (ok.mem_iff ws last).mp (by simp [split])
  obtain ⟨placed, mem_iff⟩ := (split ▸ ok.placed ws).taken_out (split ▸ inside) 0
  rw [s.stopIn_eq ws split]
  have others : ∀ v, v ≠ w →
      (Function.update (Function.update s.active last (s.active w)) w 0 v ≠ 0 ↔
        s.active v ≠ 0) := by
    intro v other
    rw [Function.update_of_ne other]
    by_cases moved : v = last
    · rw [moved, Function.update_self]
      exact iff_of_true on last_on
    · rw [Function.update_of_ne moved]
  have homes : ∀ v, ({ s with
      arrays := Function.update s.arrays ws (swapOut (s.arrays ws) (s.active w))
      active := Function.update (Function.update s.active last (s.active w)) w 0
      activecnt := s.activecnt - 1 } : EvLoop T ι β).home v = s.home v := fun v => home_congr rfl
  have away : ∀ v, s.home v ≠ some ws →
      Function.update (Function.update s.active last (s.active w)) w 0 v = s.active v := by
    intro v other
    rw [Function.update_of_ne ?_, Function.update_of_ne ?_]
    · rintro rfl
      exact other last_home
    · rintro rfl
      exact other belongs
  refine ⟨⟨on, Function.update_self .., others, rfl, rfl⟩, homes, away, fun k => ?_, fun k v => ?_⟩
  · dsimp only
    by_cases here : k = ws
    · subst here
      rw [Function.update_self, split]
      exact placed
    · rw [Function.update_of_ne here]
      refine (ok.placed k).congr fun v member => away v fun same => here ?_
      rw [((ok.mem_iff k v).mp member).2] at same
      exact Option.some.inj same
  · rw [homes]
    dsimp only
    by_cases here : k = ws
    · subst here
      rw [Function.update_self, split, mem_iff, ← split, ok.mem_iff]
      by_cases self : v = w
      · simp [self]
      · rw [others v self]
        simp [self]
    · rw [Function.update_of_ne here, ok.mem_iff]
      by_cases self : v = w
      · subst self
        rw [belongs]
        simp [Ne.symm here]
      · rw [others v self]

/-- The idle watchers after a change of one of the arrays. -/
theorem sum_idles_update (arrays : Ws → List (W ι)) (ws : Ws) (array : List (W ι)) :
    ∑ pri ∈ Finset.range numpri, (Function.update arrays ws array (.idles pri)).length +
        (if ∃ pri < numpri, ws = .idles pri then (arrays ws).length else 0) =
      ∑ pri ∈ Finset.range numpri, (arrays (.idles pri)).length +
        (if ∃ pri < numpri, ws = .idles pri then array.length else 0) := by
  by_cases idles : ∃ pri < numpri, ws = .idles pri
  · rw [if_pos idles, if_pos idles]
    obtain ⟨pri, less, rfl⟩ := idles
    have member := Finset.mem_range.mpr less
    rw [← Finset.add_sum_erase _ _ member, ← Finset.add_sum_erase _ (fun pri =>
      (arrays (.idles pri)).length) member, Function.update_self]
    have rest : ∑ p ∈ (Finset.range numpri).erase pri,
          (Function.update arrays (.idles pri) array (.idles p)).length =
        ∑ p ∈ (Finset.range numpri).erase pri, (arrays (.idles p)).length := by
      refine Finset.sum_congr rfl fun p inside => ?_
      rw [Function.update_of_ne]
      simpa using (Finset.mem_erase.mp inside).1
    rw [rest]
    omega
  · rw [if_neg idles, if_neg idles]
    refine congrArg (· + 0) (Finset.sum_congr rfl fun p inside => ?_)
    rw [Function.update_of_ne]
    rintro rfl
    exact idles ⟨p, Finset.mem_range.mp inside, rfl⟩

end EvLoop

end CLibs.Libev
