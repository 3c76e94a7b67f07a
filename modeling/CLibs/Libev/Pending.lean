import CLibs.Libev.Loop

/-!
# Pending watchers

What the functions that make watchers pending, clear them and invoke them do to the
queues, and to the events that each watcher waits to be called with.
-/

set_option autoImplicit false
set_option linter.unusedSectionVars false

namespace CLibs.Libev

namespace EvLoop

variable {T ι β : Type} [Tstamp T] [DecidableEq ι] {s t : EvLoop T ι β}

/-- What `verify_watcher` asserts of the priority. -/
def Ranged (s : EvLoop T ι β) (w : W ι) : Prop :=
  evMinpri ≤ s.priority w ∧ s.priority w ≤ evMaxpri

/-- Each pending watcher knows its place in the queue of its priority, where `pending_w` may
stand for watchers that are not pending any more; above `pendingpri` the queues are empty. -/
structure Queued (s : EvLoop T ι β) : Prop where
  found : ∀ w, s.pending w ≠ 0 →
    ∃ p, (s.pendings (s.abspri w))[s.pending w - 1]? = some p ∧ p.w = w
  back : ∀ pri i p, (s.pendings pri)[i]? = some p →
    p.w = .pendingW ∨ (s.abspri p.w = pri ∧ s.pending p.w = i + 1)
  dummy : s.pending .pendingW = 0
  ranged : ∀ w, s.pending w ≠ 0 → s.Ranged w
  above : ∀ pri, s.pendingpri < pri → s.pendings pri = []
  top : s.pendingpri < numpri

/-- The events that a pending watcher is going to be called with. -/
def waiting (s : EvLoop T ι β) (w : W ι) : Option Events :=
  if s.pending w = 0 then none
  else (s.pendings (s.abspri w))[s.pending w - 1]?.map ANPENDING.events

/-- The pending watchers of a priority: the one that became pending first is called last. -/
def line (s : EvLoop T ι β) (pri : Nat) : List (W ι) :=
  ((s.pendings pri).map ANPENDING.w).filter fun w => w ≠ .pendingW

/-- `t` differs from `s` at most in what is pending. -/
structure SameBut (s t : EvLoop T ι β) : Prop where
  eq : t = { s with
    pending := t.pending, pendings := t.pendings, pendingmax := t.pendingmax,
    pendingpri := t.pendingpri, rfeeds := t.rfeeds }

theorem SameBut.refl (s : EvLoop T ι β) : SameBut s s := ⟨rfl⟩

theorem SameBut.trans {u : EvLoop T ι β} (first : SameBut s t) (second : SameBut t u) :
    SameBut s u := by
  refine ⟨?_⟩
  rw [second.eq, first.eq]

theorem SameBut.foldl {α : Type} {f : EvLoop T ι β → α → EvLoop T ι β}
    (step : ∀ s x, SameBut s (f s x)) (xs : List α) (s : EvLoop T ι β) :
    SameBut s (xs.foldl f s) := by
  induction xs generalizing s with
  | nil => exact .refl s
  | cons x xs ih => exact (step s x).trans (ih _)

theorem SameBut.priority_eq (same : SameBut s t) : t.priority = s.priority := by rw [same.eq]

theorem SameBut.mnNow_eq (same : SameBut s t) : t.mnNow = s.mnNow := by rw [same.eq]

theorem SameBut.repeat_eq (same : SameBut s t) : t.repeat_ = s.repeat_ := by rw [same.eq]

theorem SameBut.active_eq (same : SameBut s t) : t.active = s.active := by rw [same.eq]

theorem SameBut.abspri_eq (same : SameBut s t) : t.abspri = s.abspri := by
  funext w
  simp only [abspri, same.priority_eq]

theorem SameBut.ranged_iff (same : SameBut s t) (w : W ι) : t.Ranged w ↔ s.Ranged w := by
  simp only [Ranged, same.priority_eq]

theorem evFeedEvent_same (s : EvLoop T ι β) (w : W ι) (revents : Events) :
    SameBut s (s.evFeedEvent w revents) := by
  refine ⟨?_⟩
  unfold evFeedEvent
  split <;> rfl

theorem clearPending_same (s : EvLoop T ι β) (w : W ι) : SameBut s (s.clearPending w) := by
  refine ⟨?_⟩
  unfold clearPending
  split <;> rfl

theorem nextPending_same (s : EvLoop T ι β) (pri : Nat) : SameBut s (s.nextPending pri).1 := by
  induction pri with
  | zero => exact ⟨rfl⟩
  | succ pri ih =>
      unfold nextPending
      split
      · exact ih
      · exact ⟨rfl⟩

theorem abspri_lt {w : W ι} (ranged : s.Ranged w) : s.abspri w < numpri := by
  obtain ⟨low, high⟩ := ranged
  unfold abspri numpri
  unfold evMinpri evMaxpri at *
  omega

/-- `t` has the queues of `s`. -/
structure SameQueues (s t : EvLoop T ι β) : Prop where
  pending_eq : t.pending = s.pending
  pendings_eq : t.pendings = s.pendings
  pendingpri_eq : t.pendingpri = s.pendingpri
  priority_eq : t.priority = s.priority

theorem SameQueues.trans {u : EvLoop T ι β} (first : SameQueues s t) (second : SameQueues t u) :
    SameQueues s u :=
  ⟨second.pending_eq.trans first.pending_eq, second.pendings_eq.trans first.pendings_eq,
    second.pendingpri_eq.trans first.pendingpri_eq, second.priority_eq.trans first.priority_eq⟩

theorem SameQueues.foldl {α : Type} {f : EvLoop T ι β → α → EvLoop T ι β}
    (step : ∀ s x, SameQueues s (f s x)) (xs : List α) (s : EvLoop T ι β) :
    SameQueues s (xs.foldl f s) := by
  induction xs generalizing s with
  | nil => exact ⟨rfl, rfl, rfl, rfl⟩
  | cons x xs ih => exact (step s x).trans (ih _)

theorem SameQueues.abspri_eq (same : SameQueues s t) : t.abspri = s.abspri := by
  funext w
  simp only [abspri, same.priority_eq]

theorem SameQueues.ranged_iff (same : SameQueues s t) (w : W ι) : t.Ranged w ↔ s.Ranged w := by
  simp only [Ranged, same.priority_eq]

theorem SameQueues.waiting_eq (same : SameQueues s t) : t.waiting = s.waiting := by
  funext w
  simp only [waiting, same.pending_eq, same.pendings_eq, same.abspri_eq]

theorem SameQueues.line_eq (same : SameQueues s t) : t.line = s.line := by
  funext pri
  simp only [line, same.pendings_eq]

theorem SameQueues.queued (same : SameQueues s t) (queued : s.Queued) : t.Queued where
  found := by
    rw [same.pending_eq, same.pendings_eq, same.abspri_eq]
    exact queued.found
  back := by
    rw [same.pending_eq, same.pendings_eq, same.abspri_eq]
    exact queued.back
  dummy := same.pending_eq ▸ queued.dummy
  ranged w pends := (same.ranged_iff w).mpr (queued.ranged w (same.pending_eq ▸ pends))
  above := by
    rw [same.pendingpri_eq, same.pendings_eq]
    exact queued.above
  top := same.pendingpri_eq ▸ queued.top

theorem Queued.waiting_eq_none (queued : s.Queued) {w : W ι} :
    s.waiting w = none ↔ s.pending w = 0 := by
  unfold waiting
  split
  · simp [*]
  · rename_i pends
    obtain ⟨p, there, -⟩ := queued.found w pends
    simp [there, pends]

/-- An entry holds the events of its watcher. -/
theorem Queued.waiting_of_entry (queued : s.Queued) {pri i : Nat} {p : ANPENDING ι}
    (there : (s.pendings pri)[i]? = some p) (real : p.w ≠ .pendingW) :
    s.waiting p.w = some p.events := by
  obtain ⟨rfl, index⟩ := (queued.back pri i p there).resolve_left real
  unfold waiting
  rw [if_neg (by omega), index, Nat.add_sub_cancel, there]
  rfl

/-- The watchers of a line are the pending ones of its priority. -/
theorem Queued.mem_line (queued : s.Queued) {pri : Nat} {w : W ι} :
    w ∈ s.line pri ↔ s.waiting w ≠ none ∧ s.abspri w = pri := by
  rw [Ne, queued.waiting_eq_none, line, List.mem_filter]
  constructor
  · rintro ⟨inside, real⟩
    obtain ⟨p, held, rfl⟩ := List.mem_map.mp inside
    obtain ⟨i, less, entry⟩ := List.getElem_of_mem held
    have place := (queued.back pri i p (List.getElem?_eq_some_iff.mpr ⟨less, entry⟩)).resolve_left
      (of_decide_eq_true real)
    exact ⟨by omega, place.1⟩
  · rintro ⟨pends, rfl⟩
    obtain ⟨p, there, rfl⟩ := queued.found w pends
    refine ⟨List.mem_map_of_mem (List.mem_of_getElem? there), decide_eq_true fun gone => ?_⟩
    rw [gone] at pends
    exact pends queued.dummy

/-- A change at the place of a pending watcher is a change of the entries of that watcher. -/
theorem Queued.entry_of_modify (queued : s.Queued) {w : W ι} (pends : s.pending w ≠ 0)
    (f : ANPENDING ι → ANPENDING ι) (pri i : Nat) :
    (Function.update s.pendings (s.abspri w)
        ((s.pendings (s.abspri w)).modify (s.pending w - 1) f) pri)[i]? =
      (s.pendings pri)[i]?.map fun p => if p.w = w then f p else p := by
  obtain ⟨q, there, rfl⟩ := queued.found w pends
  by_cases same : pri = s.abspri q.w
  · subst same
    rw [Function.update_self, List.getElem?_modify]
    cases entry : (s.pendings (s.abspri q.w))[i]? with
    | none => rfl
    | some p =>
        have iff : s.pending q.w - 1 = i ↔ p.w = q.w := by
          constructor
          · rintro rfl
            rw [there] at entry
            rw [Option.some.inj entry]
          · intro eq
            rcases queued.back _ i p entry with gone | ⟨-, index⟩
            · exact absurd queued.dummy (by rw [← gone, eq]; exact pends)
            · rw [← eq, index, Nat.add_sub_cancel]
        simp [iff]
  · rw [Function.update_of_ne same]
    cases entry : (s.pendings pri)[i]? with
    | none => rfl
    | some p =>
        have other : p.w ≠ q.w := by
          rintro eq
          rcases queued.back _ i p entry with gone | ⟨here, -⟩
          · exact pends (by rw [← eq, gone]; exact queued.dummy)
          · exact same (by rw [← here, eq])
        simp [other]

section feed

variable {w : W ι} {revents : Events}

theorem feed_pending (pends : s.pending w ≠ 0) :
    s.evFeedEvent w revents = { s with
      pendings := Function.update s.pendings (s.abspri w)
        ((s.pendings (s.abspri w)).modify (s.pending w - 1) fun p =>
          { p with events := p.events ||| revents })
      pendingpri := numpri - 1 } := by
  simp only [evFeedEvent, if_pos pends]

theorem feed_fresh (fresh : s.pending w = 0) :
    s.evFeedEvent w revents = { s with
      pending := Function.update s.pending w ((s.pendings (s.abspri w)).length + 1)
      pendingmax := Function.update s.pendingmax (s.abspri w)
        (arrayNeedsize 16 (s.pendingmax (s.abspri w)) ((s.pendings (s.abspri w)).length + 1))
      pendings := Function.update s.pendings (s.abspri w)
        (s.pendings (s.abspri w) ++ [⟨w, revents⟩])
      pendingpri := numpri - 1 } := by
  simp only [evFeedEvent, if_neg (not_not.mpr fresh)]

/-- The entries after an event was fed to a watcher that was pending already. -/
theorem Queued.entry_of_feed_pending (queued : s.Queued) (pends : s.pending w ≠ 0)
    (pri i : Nat) :
    ((s.evFeedEvent w revents).pendings pri)[i]? = (s.pendings pri)[i]?.map fun p =>
      if p.w = w then { p with events := p.events ||| revents } else p := by
  rw [feed_pending pends]
  exact queued.entry_of_modify pends _ pri i

theorem feed_pending_eq (pends : s.pending w ≠ 0) :
    (s.evFeedEvent w revents).pending = s.pending := by
  rw [feed_pending pends]

/-- The entries after an event was fed to a watcher that was not pending. -/
theorem entry_of_feed_fresh (fresh : s.pending w = 0) (pri i : Nat) :
    ((s.evFeedEvent w revents).pendings pri)[i]? =
      if pri = s.abspri w ∧ i = (s.pendings pri).length then some ⟨w, revents⟩
      else (s.pendings pri)[i]? := by
  rw [feed_fresh fresh]
  dsimp only
  by_cases same : pri = s.abspri w
  · subst same
    rw [Function.update_self, List.getElem?_append, List.getElem?_singleton]
    by_cases inside : i < (s.pendings (s.abspri w)).length
    · simp [inside, inside.ne]
    · by_cases last : i = (s.pendings (s.abspri w)).length
      · simp [last]
      · have behind : i - (s.pendings (s.abspri w)).length ≠ 0 := by omega
        simp [inside, last, behind]
  · rw [Function.update_of_ne same, if_neg fun both => same both.1]

theorem feed_fresh_pending (fresh : s.pending w = 0) :
    (s.evFeedEvent w revents).pending =
      Function.update s.pending w ((s.pendings (s.abspri w)).length + 1) := by
  rw [feed_fresh fresh]

/-- An old entry keeps its place behind a new one. -/
theorem entry_kept (fresh : s.pending w = 0) {pri i : Nat} {p : ANPENDING ι}
    (there : (s.pendings pri)[i]? = some p) :
    ((s.evFeedEvent w revents).pendings pri)[i]? = some p := by
  have inside := (List.getElem?_eq_some_iff.mp there).1
  rw [entry_of_feed_fresh fresh, if_neg fun both => absurd both.2 inside.ne, there]

theorem feed_above (queued : s.Queued) (ranged : s.Ranged w) {pri : Nat}
    (high : (s.evFeedEvent w revents).pendingpri < pri) :
    (s.evFeedEvent w revents).pendings pri = [] := by
  have empty : s.pendings pri = [] := queued.above pri (lt_of_le_of_lt (Nat.le_pred_of_lt queued.top) high)
  have other : pri ≠ s.abspri w := ne_of_gt (lt_of_le_of_lt (Nat.le_pred_of_lt (abspri_lt ranged)) high)
  by_cases fresh : s.pending w = 0
  · rw [feed_fresh fresh]
    simp [other, empty]
  · rw [feed_pending fresh]
    simp [other, empty]

theorem Queued.feed (queued : s.Queued) (ranged : s.Ranged w) (real : w ≠ .pendingW) :
    (s.evFeedEvent w revents).Queued := by
  have same := evFeedEvent_same s w revents
  have top : (s.evFeedEvent w revents).pendingpri < numpri := show numpri - 1 < numpri by decide
  by_cases fresh : s.pending w = 0
  · have pending_eq : (s.evFeedEvent w revents).pending = _ := feed_fresh_pending fresh
    refine ⟨fun v pends => ?_, fun pri i p entry => ?_, ?_, fun v pends => ?_,
      fun pri high => feed_above queued ranged high, top⟩
    · rw [same.abspri_eq, pending_eq] at *
      by_cases here : v = w
      · subst here
        refine ⟨⟨v, revents⟩, ?_, rfl⟩
        rw [Function.update_self, entry_of_feed_fresh fresh, if_pos ⟨rfl, rfl⟩]
      · rw [Function.update_of_ne here] at pends ⊢
        obtain ⟨p, there, rfl⟩ := queued.found v pends
        exact ⟨p, entry_kept fresh there, rfl⟩
    · rw [same.abspri_eq, pending_eq]
      rw [entry_of_feed_fresh fresh] at entry
      split at entry
      · rename_i new
        obtain ⟨rfl, rfl⟩ := new
        rw [← Option.some.inj entry]
        exact .inr ⟨rfl, Function.update_self ..⟩
      · refine (queued.back pri i p entry).imp_right fun ⟨here, index⟩ => ⟨here, ?_⟩
        have other : p.w ≠ w := by
          rintro rfl
          omega
        rw [Function.update_of_ne other, index]
    · rw [pending_eq, Function.update_of_ne real.symm]
      exact queued.dummy
    · rw [same.ranged_iff]
      rw [pending_eq] at pends
      by_cases here : v = w
      · exact here ▸ ranged
      · exact queued.ranged v (by rwa [Function.update_of_ne here] at pends)
  · have entries : ∀ pri i, ((s.evFeedEvent w revents).pendings pri)[i]? = _ :=
      queued.entry_of_feed_pending fresh
    have pending_eq : (s.evFeedEvent w revents).pending = s.pending := feed_pending_eq fresh
    refine ⟨fun v pends => ?_, fun pri i p entry => ?_, ?_, fun v pends => ?_,
      fun pri high => feed_above queued ranged high, top⟩
    · rw [pending_eq] at pends ⊢
      obtain ⟨p, there, rfl⟩ := queued.found v pends
      rw [same.abspri_eq, entries, there]
      refine ⟨_, rfl, ?_⟩
      dsimp only
      split <;> rfl
    · rw [entries, Option.map_eq_some_iff] at entry
      obtain ⟨q, there, rfl⟩ := entry
      rw [same.abspri_eq, pending_eq]
      have old := queued.back pri i q there
      split <;> exact old
    · rw [pending_eq]
      exact queued.dummy
    · rw [pending_eq] at pends
      exact (same.ranged_iff v).mpr (queued.ranged v pends)

/-- A feed adds to what the watcher waits for. -/
theorem Queued.waiting_feed (queued : s.Queued) (v : W ι) :
    (s.evFeedEvent w revents).waiting v =
      if v = w then some ((s.waiting w).getD 0 ||| revents) else s.waiting v := by
  have same := evFeedEvent_same s w revents
  by_cases fresh : s.pending w = 0
  · rw [queued.waiting_eq_none.mpr fresh]
    unfold waiting
    rw [same.abspri_eq, feed_fresh_pending fresh]
    by_cases here : v = w
    · subst here
      rw [Function.update_self, Nat.add_sub_cancel, entry_of_feed_fresh fresh]
      simp
    · rw [Function.update_of_ne here, if_neg here]
      by_cases pends : s.pending v = 0
      · rw [if_pos pends, if_pos pends]
      · obtain ⟨p, there, rfl⟩ := queued.found v pends
        rw [if_neg pends, if_neg pends, entry_kept fresh there, there]
  · unfold waiting
    rw [same.abspri_eq, queued.entry_of_feed_pending fresh, feed_pending_eq fresh]
    by_cases here : v = w
    · subst here
      obtain ⟨p, there, rfl⟩ := queued.found v fresh
      rw [there]
      simp [fresh]
    · rw [if_neg here]
      by_cases pends : s.pending v = 0
      · rw [if_pos pends, if_pos pends]
      · obtain ⟨p, there, rfl⟩ := queued.found v pends
        rw [there]
        simp [here]

/-- A watcher that becomes pending joins the line of its priority. -/
theorem Queued.line_feed (queued : s.Queued) (real : w ≠ .pendingW) (pri : Nat) :
    (s.evFeedEvent w revents).line pri =
      if s.pending w = 0 ∧ s.abspri w = pri then s.line pri ++ [w] else s.line pri := by
  by_cases fresh : s.pending w = 0
  · rw [feed_fresh fresh]
    by_cases here : s.abspri w = pri
    · subst here
      simp [line, fresh, real]
    · rw [if_neg fun both => here both.2]
      simp [line, Function.update_of_ne (Ne.symm here)]
  · rw [if_neg fun both => fresh both.1]
    have same : ((s.evFeedEvent w revents).pendings pri).map ANPENDING.w =
        (s.pendings pri).map ANPENDING.w := by
      refine List.ext_getElem? fun i => ?_
      rw [List.getElem?_map, List.getElem?_map, queued.entry_of_feed_pending fresh, Option.map_map]
      refine congrFun (congrArg Option.map (funext fun p => ?_)) _
      rw [Function.comp_apply]
      split <;> rfl
    simp only [line, same]

end feed

section clear

variable {w : W ι}

/-- The entries after a watcher that was pending was cleared. -/
theorem Queued.entry_of_clear (queued : s.Queued) (pends : s.pending w ≠ 0) (pri i : Nat) :
    ((s.clearPending w).pendings pri)[i]? = (s.pendings pri)[i]?.map fun p =>
      if p.w = w then { p with w := .pendingW } else p := by
  rw [clearPending, if_pos pends]
  exact queued.entry_of_modify pends _ pri i

theorem clearPending_eq (s : EvLoop T ι β) (w : W ι) :
    (s.clearPending w).pending = Function.update s.pending w 0 := by
  unfold clearPending
  split
  · rfl
  · rename_i fresh
    rw [← not_not.mp fresh, Function.update_eq_self]

theorem clearPending_rfeeds (s : EvLoop T ι β) (w : W ι) :
    (s.clearPending w).rfeeds = s.rfeeds := by
  unfold clearPending
  split <;> rfl

theorem clear_of_fresh (fresh : s.pending w = 0) : s.clearPending w = s := by
  rw [clearPending, if_neg (not_not.mpr fresh)]

theorem Queued.clear (queued : s.Queued) (w : W ι) : (s.clearPending w).Queued := by
  have same := clearPending_same s w
  by_cases fresh : s.pending w = 0
  · rw [clear_of_fresh fresh]
    exact queued
  · have entries := queued.entry_of_clear fresh
    have pending_eq := clearPending_eq s w
    have pendingpri_eq : (s.clearPending w).pendingpri = s.pendingpri := by
      rw [clearPending, if_pos fresh]
    refine ⟨fun v pends => ?_, fun pri i p entry => ?_, ?_, fun v pends => ?_, fun pri high => ?_, ?_⟩
    · rw [pending_eq] at pends ⊢
      have other : v ≠ w := by
        rintro rfl
        exact pends (Function.update_self ..)
      rw [Function.update_of_ne other] at pends ⊢
      obtain ⟨p, there, rfl⟩ := queued.found v pends
      exact ⟨p, by rw [same.abspri_eq, entries, there]; simp [other], rfl⟩
    · rw [entries, Option.map_eq_some_iff] at entry
      obtain ⟨q, there, rfl⟩ := entry
      rw [same.abspri_eq, pending_eq]
      by_cases here : q.w = w
      · exact .inl (by simp [here])
      · rw [if_neg here, Function.update_of_ne here]
        exact queued.back pri i q there
    · rw [pending_eq]
      by_cases here : .pendingW = w
      · rw [here, Function.update_self]
      · rw [Function.update_of_ne here]
        exact queued.dummy
    · rw [pending_eq] at pends
      by_cases here : v = w
      · exact absurd (by rw [here, Function.update_self]) pends
      · rw [Function.update_of_ne here] at pends
        exact (same.ranged_iff v).mpr (queued.ranged v pends)
    · have empty := queued.above pri (pendingpri_eq ▸ high)
      rw [List.eq_nil_iff_forall_not_mem]
      intro p member
      obtain ⟨i, inside, entry⟩ := List.getElem_of_mem member
      have entry := entries pri i ▸ List.getElem?_eq_some_iff.mpr ⟨inside, entry⟩
      simp [empty] at entry
    · rw [pendingpri_eq]
      exact queued.top

theorem Queued.waiting_clear (queued : s.Queued) (w v : W ι) :
    (s.clearPending w).waiting v = if v = w then none else s.waiting v := by
  have same := clearPending_same s w
  by_cases fresh : s.pending w = 0
  · rw [clear_of_fresh fresh]
    split
    · rename_i here
      rw [here, queued.waiting_eq_none.mpr fresh]
    · rfl
  · unfold waiting
    rw [same.abspri_eq, queued.entry_of_clear fresh, clearPending_eq]
    by_cases here : v = w
    · subst here
      simp
    · rw [Function.update_of_ne here, if_neg here]
      by_cases pends : s.pending v = 0
      · rw [if_pos pends, if_pos pends]
      · obtain ⟨p, there, rfl⟩ := queued.found v pends
        rw [there]
        simp [here]

/-- What clearing makes of the watchers of a queue. -/
theorem cleared_line (w : W ι) (entries : List (ANPENDING ι)) :
    ((entries.map fun p => if p.w = w then .pendingW else p.w).filter fun v => v ≠ .pendingW) =
      ((entries.map ANPENDING.w).filter fun v => v ≠ .pendingW).filter fun v => v ≠ w := by
  induction entries with
  | nil => rfl
  | cons p rest ih =>
      simp only [List.map_cons]
      by_cases here : p.w = w
      · rw [if_pos here, here, List.filter_cons_of_neg (by simp), ih]
        by_cases gone : w = .pendingW
        · rw [gone, List.filter_cons_of_neg (by simp)]
        · rw [List.filter_cons_of_pos (by simp [gone]), List.filter_cons_of_neg (by simp)]
      · rw [if_neg here]
        by_cases gone : p.w = .pendingW
        · rw [gone, List.filter_cons_of_neg (by simp), List.filter_cons_of_neg (by simp), ih]
        · rw [List.filter_cons_of_pos (by simp [gone]), List.filter_cons_of_pos (by simp [gone]),
            List.filter_cons_of_pos (by simp [here]), ih]

/-- A watcher that is cleared leaves the line. -/
theorem Queued.line_clear (queued : s.Queued) (w : W ι) (pri : Nat) :
    (s.clearPending w).line pri = (s.line pri).filter fun v => v ≠ w := by
  by_cases fresh : s.pending w = 0
  · rw [clear_of_fresh fresh]
    refine (List.filter_eq_self.mpr fun v member => ?_).symm
    obtain ⟨inside, real⟩ := List.mem_filter.mp member
    obtain ⟨p, held, rfl⟩ := List.mem_map.mp inside
    obtain ⟨i, less, entry⟩ := List.getElem_of_mem held
    have place := (queued.back pri i p (List.getElem?_eq_some_iff.mpr ⟨less, entry⟩)).resolve_left
      (of_decide_eq_true real)
    refine decide_eq_true fun eq => ?_
    rw [eq, fresh] at place
    exact absurd place.2.symm (Nat.succ_ne_zero i)
  · have changed : ((s.clearPending w).pendings pri).map ANPENDING.w =
        (s.pendings pri).map fun p => if p.w = w then .pendingW else p.w := by
      refine List.ext_getElem? fun i => ?_
      rw [List.getElem?_map, List.getElem?_map, queued.entry_of_clear fresh, Option.map_map]
      refine congrFun (congrArg Option.map (funext fun p => ?_)) _
      rw [Function.comp_apply]
      split <;> rfl
    rw [line, changed]
    exact cleared_line w (s.pendings pri)

end clear

/-- What the loops of `ev_invoke_pending` come to when they look from the priority below `pri`
on: the last entry of the first queue that is not empty. -/
theorem nextPending_cases (s : EvLoop T ι β) (pri : Nat) :
    (s.nextPending pri = ({ s with pendingpri := 0 }, none) ∧ ∀ k < pri, s.pendings k = []) ∨
      ∃ k < pri, ∃ rest p, s.pendings k = rest ++ [p] ∧
        (∀ higher, k < higher → higher < pri → s.pendings higher = []) ∧
        s.nextPending pri = ({ s with
          pendingpri := k
          pendings := Function.update s.pendings k rest
          pending := Function.update s.pending p.w 0 }, some p) := by
  induction pri with
  | zero => exact .inl ⟨rfl, fun k less => absurd less (Nat.not_lt_zero k)⟩
  | succ pri ih =>
      unfold nextPending
      cases last : (s.pendings pri).getLast? with
      | none =>
          have empty := List.getLast?_eq_none_iff.mp last
          dsimp only
          rcases ih with ⟨ends, below⟩ | ⟨k, less, rest, p, split, above, eq⟩
          · refine .inl ⟨ends, fun k less => ?_⟩
            rcases Nat.lt_succ_iff_lt_or_eq.mp less with less | rfl
            · exact below k less
            · exact empty
          · refine .inr ⟨k, Nat.lt_succ_of_lt less, rest, p, split, fun higher up down => ?_, eq⟩
            rcases Nat.lt_succ_iff_lt_or_eq.mp down with down | rfl
            · exact above higher up down
            · exact empty
      | some p =>
          obtain ⟨rest, split⟩ := List.getLast?_eq_some_iff.mp last
          refine .inr ⟨pri, Nat.lt_succ_self pri, rest, p, split, fun k up down => by omega, ?_⟩
          rw [split, List.dropLast_concat]

/-- `t` is `s` when the loops of `ev_invoke_pending` are about to call the watcher of `p`. -/
structure Invoked (s : EvLoop T ι β) (p : ANPENDING ι) (t : EvLoop T ι β) : Prop where
  queued : t.Queued
  same : SameBut s t
  rfeeds_eq : t.rfeeds = s.rfeeds
  delivered : p.w ≠ .pendingW → s.waiting p.w = some p.events ∧ s.abspri p.w = t.pendingpri
  waiting_eq : ∀ v, t.waiting v = if v = p.w then none else s.waiting v
  /-- No watcher of a higher priority is pending. -/
  highest : ∀ v, s.waiting v ≠ none → s.abspri v ≤ t.pendingpri
  /-- The youngest entry is taken. -/
  latest : p.w ≠ .pendingW → s.line t.pendingpri = t.line t.pendingpri ++ [p.w]
  others : ∀ pri, pri ≠ t.pendingpri → t.line pri = s.line pri

/-- Nothing is pending in empty queues. -/
theorem Queued.waiting_of_empty (queued : s.Queued) {pri : Nat} (empty : s.pendings pri = [])
    {v : W ι} (here : s.abspri v = pri) : s.waiting v = none := by
  by_contra waits
  obtain ⟨p, there, -⟩ := queued.found v fun fresh => waits (queued.waiting_eq_none.mpr fresh)
  simp [here, empty] at there

theorem Queued.popped (queued : s.Queued) {k : Nat} {rest : List (ANPENDING ι)} {p : ANPENDING ι}
    (split : s.pendings k = rest ++ [p]) (above : ∀ higher, k < higher → s.pendings higher = [])
    (less : k < numpri) :
    Invoked s p { s with
      pendingpri := k
      pendings := Function.update s.pendings k rest
      pending := Function.update s.pending p.w 0 } := by
  have last : (s.pendings k)[rest.length]? = some p := by simp [split]
  have old : ∀ (pri i : Nat) (q : ANPENDING ι),
      (Function.update s.pendings k rest pri)[i]? = some q →
      (s.pendings pri)[i]? = some q := by
    intro pri i q entry
    by_cases here : pri = k
    · subst here
      rw [Function.update_self] at entry
      rw [split, List.getElem?_append_left (List.getElem?_eq_some_iff.mp entry).1, entry]
    · rwa [Function.update_of_ne here] at entry
  have kept : ∀ v q, s.pending v ≠ 0 → v ≠ p.w → q.w = v →
      (s.pendings (s.abspri v))[s.pending v - 1]? = some q →
      (Function.update s.pendings k rest (s.abspri v))[s.pending v - 1]? = some q := by
    intro v q pends other eq entry
    by_cases here : s.abspri v = k
    · rw [here, Function.update_self]
      rw [here, split] at entry
      by_cases inside : s.pending v - 1 < rest.length
      · rwa [List.getElem?_append_left inside] at entry
      · rw [List.getElem?_append_right (not_lt.mp inside), List.getElem?_singleton] at entry
        split at entry
        · exact absurd (by rw [Option.some.inj entry, eq]) other
        · cases entry
    · rwa [Function.update_of_ne here]
  have found : ∀ v, s.pending v ≠ 0 → v ≠ p.w → ∃ q,
      (Function.update s.pendings k rest (s.abspri v))[s.pending v - 1]? = some q ∧ q.w = v ∧
        (s.pendings (s.abspri v))[s.pending v - 1]? = some q := by
    intro v pends other
    obtain ⟨q, entry, eq⟩ := queued.found v pends
    exact ⟨q, kept v q pends other eq entry, eq, entry⟩
  refine ⟨⟨fun v pends => ?_, fun pri i q entry => ?_, ?_, fun v pends => ?_, fun pri high => ?_, less⟩,
    ⟨rfl⟩, rfl, fun real => ⟨queued.waiting_of_entry last real, ?_⟩, fun v => ?_, fun v waits => ?_,
    fun real => ?_, fun pri other => ?_⟩
  · dsimp only at pends ⊢
    by_cases here : v = p.w
    · exact absurd (by rw [here, Function.update_self]) pends
    · rw [Function.update_of_ne here] at pends ⊢
      obtain ⟨q, entry, eq, -⟩ := found v pends here
      exact ⟨q, entry, eq⟩
  · dsimp only at entry ⊢
    refine (queued.back pri i q (old pri i q entry)).imp_right fun ⟨here, index⟩ => ⟨here, ?_⟩
    by_cases taken : q.w = p.w
    · exfalso
      rcases queued.back k _ p last with gone | ⟨place, index'⟩
      · have := queued.dummy
        rw [← gone, ← taken, index] at this
        exact absurd this (Nat.succ_ne_zero i)
      · have pri_eq : pri = k := by
          rw [← place, ← taken]
          exact here.symm
        rw [taken, index'] at index
        rw [pri_eq, Function.update_self] at entry
        have := (List.getElem?_eq_some_iff.mp entry).1
        omega
    · rw [Function.update_of_ne taken]
      exact index
  · dsimp only
    by_cases here : .pendingW = p.w
    · rw [here, Function.update_self]
    · rw [Function.update_of_ne here]
      exact queued.dummy
  · dsimp only at pends
    by_cases here : v = p.w
    · exact absurd (by rw [here, Function.update_self]) pends
    · rw [Function.update_of_ne here] at pends
      exact queued.ranged v pends
  · dsimp only at high ⊢
    rw [Function.update_of_ne (by omega)]
    exact above pri high
  · exact ((queued.back k _ p last).resolve_left real).1
  · by_cases here : v = p.w
    · rw [if_pos here, here]
      simp [waiting]
    · rw [if_neg here]
      simp only [waiting, Function.update_of_ne here]
      split
      · rfl
      · rename_i pends
        obtain ⟨q, entry, -, entry'⟩ := found v pends here
        exact congrArg (Option.map _) (entry.trans entry'.symm)
  · by_contra higher
    exact waits (queued.waiting_of_empty (above _ (not_le.mp higher)) rfl)
  · simp [line, split, real]
  · simp only [line, Function.update_of_ne other]

/-- What the loops of `ev_invoke_pending` take next, from a priority above all queues with
entries on. When they end, nothing is pending. -/
theorem Queued.next (queued : s.Queued) {pri : Nat} (past : s.pendingpri < pri)
    (most : pri ≤ numpri) :
    match s.nextPending pri with
    | (t, none) => t.Queued ∧ ∀ v, s.waiting v = none ∧ t.waiting v = none
    | (t, some p) => Invoked s p t := by
  rcases nextPending_cases s pri with ⟨eq, empty⟩ | ⟨k, less, rest, p, split, between, eq⟩
  · rw [eq]
    have all : ∀ k, s.pendings k = [] := fun k =>
      (lt_or_ge k pri).elim (empty k) fun high => queued.above k (past.trans_le high)
    refine ⟨⟨queued.found, queued.back, queued.dummy, queued.ranged, fun k _ => all k, ?_⟩,
      fun v => ⟨queued.waiting_of_empty (all _) rfl, ?_⟩⟩
    · exact show 0 < numpri by decide
    · exact queued.waiting_of_empty (all _) rfl
  · rw [eq]
    refine queued.popped split (fun higher up => ?_) (less.trans_le most)
    exact (lt_or_ge higher pri).elim (between higher up) fun high =>
      queued.above higher (past.trans_le high)

/-- What the watchers wait for, after a feed. -/
def fed (waits : W ι → Option Events) (w : W ι) (revents : Events) : W ι → Option Events :=
  fun v => if v = w then some ((waits w).getD 0 ||| revents) else waits v

/-- Feeding several watchers. -/
structure Feeds (s : EvLoop T ι β) (xs : List (W ι × Events)) (t : EvLoop T ι β) : Prop where
  queued : t.Queued
  same : SameBut s t
  waiting_eq : t.waiting = xs.foldl (fun waits x => fed waits x.1 x.2) s.waiting

theorem Feeds.refl (queued : s.Queued) : Feeds s [] s := ⟨queued, .refl s, rfl⟩

theorem Queued.feeds_one (queued : s.Queued) {w : W ι} (revents : Events) (ranged : s.Ranged w)
    (real : w ≠ .pendingW) : Feeds s [(w, revents)] (s.evFeedEvent w revents) :=
  ⟨queued.feed ranged real, evFeedEvent_same s w revents, funext queued.waiting_feed⟩

theorem Feeds.append {u : EvLoop T ι β} {xs ys : List (W ι × Events)} (first : Feeds s xs t)
    (second : Feeds t ys u) : Feeds s (xs ++ ys) u where
  queued := second.queued
  same := first.same.trans second.same
  waiting_eq := by rw [second.waiting_eq, first.waiting_eq, List.foldl_append]

theorem Queued.feeds_foldl {α : Type} (queued : s.Queued) (xs : List α) (f : α → W ι × Events)
    (ok : ∀ x ∈ xs, s.Ranged (f x).1 ∧ (f x).1 ≠ .pendingW) :
    Feeds s (xs.map f) (xs.foldl (fun s x => s.evFeedEvent (f x).1 (f x).2) s) := by
  induction xs generalizing s with
  | nil => exact .refl queued
  | cons x xs ih =>
      have one := queued.feeds_one (f x).2 (ok x List.mem_cons_self).1 (ok x List.mem_cons_self).2
      refine Feeds.append one (ih one.queued fun y member => ?_)
      obtain ⟨ranged, real⟩ := ok y (List.mem_cons_of_mem x member)
      exact ⟨(one.same.ranged_iff _).mpr ranged, real⟩

/-- What the watchers wait for when some were fed the same events. -/
theorem foldl_fed (ws : List (W ι)) (revents : Events) (waits : W ι → Option Events) (v : W ι) :
    (ws.map fun w => (w, revents)).foldl (fun waits x => fed waits x.1 x.2) waits v =
      if v ∈ ws then some ((waits v).getD 0 ||| revents) else waits v := by
  induction ws generalizing waits with
  | nil => rfl
  | cons w ws ih =>
      rw [List.map_cons, List.foldl_cons, ih, fed]
      by_cases here : v = w
      · subst here
        by_cases again : v ∈ ws
        · simp [again, BitVec.or_assoc]
        · simp [again]
      · simp [here]

/-- Watchers that become pending join the lines one after the other. -/
theorem Queued.line_feeds (queued : s.Queued) {ws : List (W ι)} (revents : Events)
    (nodup : ws.Nodup) (ok : ∀ w ∈ ws, s.Ranged w ∧ w ≠ .pendingW) (pri : Nat) :
    (ws.foldl (fun s w => s.evFeedEvent w revents) s).line pri =
      s.line pri ++ ws.filter fun w => s.waiting w = none ∧ s.abspri w = pri := by
  induction ws generalizing s with
  | nil => exact (List.append_nil _).symm
  | cons w ws ih =>
      obtain ⟨ranged, real⟩ := ok w List.mem_cons_self
      obtain ⟨fresh, nodup⟩ := List.nodup_cons.mp nodup
      have same := evFeedEvent_same s w revents
      have rest := ih (queued.feed ranged real) nodup fun v member =>
        ⟨(same.ranged_iff v).mpr (ok v (List.mem_cons_of_mem w member)).1,
          (ok v (List.mem_cons_of_mem w member)).2⟩
      have unchanged : (ws.filter fun v => (s.evFeedEvent w revents).waiting v = none ∧
            (s.evFeedEvent w revents).abspri v = pri) =
          ws.filter fun v => s.waiting v = none ∧ s.abspri v = pri := by
        refine List.filter_congr fun v member => ?_
        have other : v ≠ w := fun eq => fresh (eq ▸ member)
        rw [queued.waiting_feed, if_neg other, same.abspri_eq]
      rw [List.foldl_cons, rest, unchanged, queued.line_feed real, List.filter_cons]
      by_cases joins : s.pending w = 0 ∧ s.abspri w = pri
      · rw [if_pos joins, if_pos (by simpa [queued.waiting_eq_none] using joins), List.append_assoc]
        rfl
      · rw [if_neg joins, if_neg (by simpa [queued.waiting_eq_none] using joins)]

end EvLoop

end CLibs.Libev
