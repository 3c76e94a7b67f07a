import CLibs.Libev.Capacity

/-!
# `ev_verify`

What `ev_verify` asserts of a loop holds in every state that the functions of the loop can
lead to, whatever calls are made from callbacks and between the phases of `ev_run`.
-/

set_option autoImplicit false
set_option linter.unusedSectionVars false

open CLibs.General

namespace CLibs.Libev

namespace EvLoop

variable {T ι β : Type} [Tstamp T] [DecidableEq ι] {s t : EvLoop T ι β} {i : Nat}

/-! ## The assertions -/

def VerifyWatcher (s : EvLoop T ι β) (w : W ι) : Prop :=
  (0 ≤ s.priority w - evMinpri ∧ s.priority w - evMinpri < numpri) ∧
    (s.pending w ≠ 0 →
      (s.pendings (s.abspri w))[s.pending w - 1]?.map ANPENDING.w = some w)

def VerifyHeap (s : EvLoop T ι β) (heap : Nat → ANHE T (W ι)) (N : Nat) : Prop :=
  ∀ i, heap0 ≤ i → i < N + heap0 →
    s.active (heap i).w = i ∧
      (i = heap0 ∨ (heap (hparent i)).at_ ≤ (heap i).at_) ∧
      (heap i).at_ = s.at_ (heap i).w ∧
      s.VerifyWatcher (heap i).w

def ArrayVerify (s : EvLoop T ι β) (ws : List (W ι)) : Prop :=
  ∀ cnt w, ws[cnt]? = some w → s.active w = cnt + 1 ∧ s.VerifyWatcher w

/-- The assertions of `ev_verify`, of a loop whose arrays of periodic, cleanup and async
watchers are empty. A list of watchers contains a loop if a watcher is in it twice. That counts
and descriptors are not negative is in their types, except for those that the functions
decrement blindly. -/
structure EvVerify (s : EvLoop T ι β) : Prop where
  activecnt : -1 ≤ s.activecnt
  fdchangemax : s.fdchanges.length ≤ s.fdchangemax
  anfds : ∀ i < s.anfdmax, (s.anfds i).head.Nodup ∧ ∀ w ∈ (s.anfds i).head,
    s.VerifyWatcher (.io w) ∧ s.active (.io w) = 1 ∧ s.fd w = i
  timermax : s.timercnt ≤ s.timermax
  timers : s.VerifyHeap s.timers s.timercnt
  pendingmax : ∀ i < numpri, (s.pendings i).length ≤ s.pendingmax i
  idleall : 0 ≤ s.idleall
  idlemax : ∀ i < numpri, (s.arrays (.idles i)).length ≤ s.arraymax (.idles i)
  idles : ∀ i < numpri, s.ArrayVerify (s.arrays (.idles i))
  forkmax : (s.arrays .forks).length ≤ s.arraymax .forks
  forks : s.ArrayVerify (s.arrays .forks)
  preparemax : (s.arrays .prepares).length ≤ s.arraymax .prepares
  prepares : s.ArrayVerify (s.arrays .prepares)
  checkmax : (s.arrays .checks).length ≤ s.arraymax .checks
  checks : s.ArrayVerify (s.arrays .checks)

/-! ## The invariant -/

/-- What holds between any two steps of the loop; `fd_reify` has handled `i` changes. -/
structure GoodFrom (s : EvLoop T ι β) (i : Nat) : Prop where
  queued : s.Queued
  timers : s.TimersOk
  arrays : s.ArraysOk
  fds : s.FdsOk
  changes : s.ChangesOk i
  counted : s.Counted
  rfeeds : ∀ w ∈ s.rfeeds, s.Ranged w ∧ w ≠ .pendingW

theorem GoodFrom.verifyWatcher (good : s.GoodFrom i) {w : W ι} (on : s.active w ≠ 0) :
    s.VerifyWatcher w := by
  obtain ⟨low, high⟩ := good.counted.ranged w on
  have upper : ((numpri : Nat) : Int) = evMaxpri - evMinpri + 1 := by decide
  refine ⟨⟨by omega, by omega⟩, fun pends => ?_⟩
  obtain ⟨p, there, rfl⟩ := good.queued.found w pends
  rw [there]
  rfl

theorem GoodFrom.arrayVerify (good : s.GoodFrom i) (ws : Ws) : s.ArrayVerify (s.arrays ws) :=
  fun cnt w entry => ⟨good.arrays.placed ws cnt w entry,
    good.verifyWatcher ((good.arrays.mem_iff ws w).mp (List.mem_of_getElem? entry)).1⟩

theorem GoodFrom.evVerify (good : s.GoodFrom i) (roomy : s.Roomy) : s.EvVerify where
  activecnt := by
    obtain ⟨all, -, count⟩ := good.counted.count
    omega
  fdchangemax := roomy.fdchanges
  anfds fd _ := ⟨good.fds.nodup fd, fun w member => by
    obtain ⟨on, fd_eq⟩ := (good.fds.mem_iff fd w).mp member
    exact ⟨good.verifyWatcher on, good.fds.one w on, fd_eq⟩⟩
  timermax := by
    rcases roomy.timers with none | room
    · rw [none]
      exact Nat.zero_le _
    · exact (Nat.le_add_right ..).trans room
  timers k low high := by
    obtain ⟨w, on, here⟩ := (good.timers.has_iff (s.timers k)).mp ⟨k, low, high, rfl⟩
    refine ⟨good.timers.heaped.active_eq k low high, ?_, by rw [here], ?_⟩
    · exact (Nat.eq_or_lt_of_le low).imp Eq.symm fun behind =>
        good.timers.heaped.ordered k behind high
    · rw [here]
      exact good.verifyWatcher on
  pendingmax pri _ := roomy.pendings pri
  idleall := by
    rw [good.arrays.idleall_eq]
    exact Int.natCast_nonneg _
  idlemax pri _ := roomy.arrays (.idles pri)
  idles pri _ := good.arrayVerify (.idles pri)
  forkmax := roomy.arrays .forks
  forks := good.arrayVerify .forks
  preparemax := roomy.arrays .prepares
  prepares := good.arrayVerify .prepares
  checkmax := roomy.arrays .checks
  checks := good.arrayVerify .checks

/-! ## Pending events -/

theorem ArraysOk.of_same (ok : s.ArraysOk) (same : SameBut s t) : t.ArraysOk := by
  rw [same.eq]
  exact ok.congr rfl rfl (fun _ _ => rfl) (fun _ _ => rfl) fun w some => by
    rwa [home_congr (t := s) rfl]

theorem Counted.of_same (counted : s.Counted) (same : SameBut s t) : t.Counted := by
  rw [same.eq]
  exact counted.congr (fun _ => Iff.rfl) rfl fun _ _ => rfl

theorem GoodFrom.of_same (good : s.GoodFrom i) (same : SameBut s t) (queued : t.Queued)
    (rfeeds : ∀ w ∈ t.rfeeds, w ∈ s.rfeeds) : t.GoodFrom i where
  queued := queued
  timers := good.timers.of_same same
  arrays := good.arrays.of_same same
  fds := good.fds.of_same same
  changes := good.changes.of_same same
  counted := good.counted.of_same same
  rfeeds w member := by
    rw [same.ranged_iff]
    exact good.rfeeds w (rfeeds w member)

theorem GoodFrom.feed (good : s.GoodFrom i) {w : W ι} (revents : Events) (ranged : s.Ranged w)
    (real : w ≠ .pendingW) : (s.evFeedEvent w revents).GoodFrom i := by
  refine good.of_same (evFeedEvent_same s w revents) (good.queued.feed ranged real) fun v => ?_
  unfold evFeedEvent
  split <;> exact id

theorem GoodFrom.clear (good : s.GoodFrom i) (w : W ι) : (s.clearPending w).GoodFrom i :=
  good.of_same (clearPending_same s w) (good.queued.clear w) fun v => by
    rw [clearPending_rfeeds]
    exact id

theorem evClearPending_fst (s : EvLoop T ι β) (w : W ι) :
    (s.evClearPending w).1 = s.clearPending w := by
  unfold evClearPending
  split
  · rfl
  · rw [clear_of_fresh (not_not.mp (by assumption))]

/-- Feeding a list of watchers, one after the other. -/
theorem GoodFrom.feeds {α : Type} (good : s.GoodFrom i) (xs : List α) (f : α → W ι × Events)
    (ok : ∀ x ∈ xs, s.Ranged (f x).1 ∧ (f x).1 ≠ .pendingW) :
    (xs.foldl (fun s x => s.evFeedEvent (f x).1 (f x).2) s).GoodFrom i := by
  induction xs generalizing s with
  | nil => exact good
  | cons x xs ih =>
      obtain ⟨ranged, real⟩ := ok x List.mem_cons_self
      refine ih (good.feed _ ranged real) fun y member => ?_
      rw [(evFeedEvent_same s _ _).ranged_iff]
      exact ok y (List.mem_cons_of_mem x member)

theorem GoodFrom.feedReverseDone (good : s.GoodFrom i) (revents : Events) :
    (s.feedReverseDone revents).GoodFrom i := by
  have fed := good.feeds s.rfeeds.reverse (fun w => (w, revents)) fun w member =>
    good.rfeeds w (List.mem_reverse.mp member)
  have queues : SameQueues (s.rfeeds.reverse.foldl (fun s w => s.evFeedEvent w revents) s)
      (s.feedReverseDone revents) := ⟨rfl, rfl, rfl, rfl⟩
  refine fed.of_same ⟨rfl⟩ (queues.queued fed.queued) fun w member => ?_
  cases member

theorem GoodFrom.queueEvents (good : s.GoodFrom i) (ws : Ws) (type : Events) :
    (s.queueEvents (s.arrays ws) type).GoodFrom i := by
  refine good.feeds (s.arrays ws) (fun w => (w, type)) fun w member => ?_
  have on := ((good.arrays.mem_iff ws w).mp member).1
  refine ⟨good.counted.ranged w on, fun wrong => on ?_⟩
  dsimp only at wrong
  rw [wrong, good.counted.real]

theorem GoodFrom.next (good : s.GoodFrom i) {pri : Nat} (past : s.pendingpri < pri)
    (most : pri ≤ numpri) : (s.nextPending pri).1.GoodFrom i := by
  have next := good.queued.next past most
  have same := nextPending_same s pri
  have rfeeds_eq : (s.nextPending pri).1.rfeeds = s.rfeeds := by
    rcases nextPending_cases s pri with ⟨eq, -⟩ | ⟨k, -, rest, p, -, -, eq⟩
    · rw [eq]
    · rw [eq]
  refine good.of_same same ?_ fun w => by rw [rfeeds_eq]; exact id
  generalize s.nextPending pri = result at next
  obtain ⟨t, _ | p⟩ := result
  · exact next.1
  · exact next.queued

/-! ## Starting and stopping -/

section watchers

variable {w : W ι} {v : ι}

theorem home_eq_none (v : W ι) : t.home v = none ↔ s.home v = none := by
  cases v <;> simp [home]

/-- Starting a watcher leaves the priorities that are in range alone. -/
theorem Starts.priority_of_ranged (starts : Starts s w t) {u : W ι} (ranged : s.Ranged u) :
    t.priority u = s.priority u := by
  rw [starts.priority_eq]
  by_cases here : u = w
  · rw [here] at ranged
    rw [priAdjust_of_ranged ranged]
  · exact priAdjust_other here

theorem GoodFrom.starts (good : s.GoodFrom i) (starts : Starts s w t) (real : w ≠ .pendingW)
    (pending_eq : t.pending = s.pending) (pendings_eq : t.pendings = s.pendings)
    (pendingpri_eq : t.pendingpri = s.pendingpri) (rfeeds_eq : t.rfeeds = s.rfeeds)
    (timers : t.TimersOk) (arrays : t.ArraysOk) (fds : t.FdsOk) (changes : t.ChangesOk i) :
    t.GoodFrom i where
  queued := good.queued.starts starts pending_eq pendings_eq pendingpri_eq
  timers := timers
  arrays := arrays
  fds := fds
  changes := changes
  counted := good.counted.starts starts real
  rfeeds u member := by
    obtain ⟨ranged, other⟩ := good.rfeeds u (rfeeds_eq ▸ member)
    refine ⟨?_, other⟩
    rw [Ranged, starts.priority_of_ranged ranged]
    exact ranged

theorem GoodFrom.io_start (good : s.GoodFrom i) (legal : Legal (s.events v)) :
    (s.evIoStart v).GoodFrom i := by
  by_cases off : s.active (.io v) = 0
  · have starts := evIoStart_starts good.fds off
    obtain ⟨fds, changes⟩ := good.fds.io_start good.changes off legal
    have active_eq : (s.evIoStart v).active = Function.update s.active (.io v) 1 := by
      rw [evIoStart_eq good.fds.outside off]
      rfl
    have eq := evIoStart_eq good.fds.outside off
    refine good.starts starts (by simp) (by rw [eq]; rfl) (by rw [eq]; rfl) (by rw [eq]; rfl)
      (by rw [eq]; rfl) ?_ ?_ fds changes
    · refine good.timers.congr (by rw [eq]; rfl) (by rw [eq]; rfl) (fun u => ?_) fun u _ => ?_
      · rw [active_eq, Function.update_of_ne (by simp)]
      · rw [eq]
        rfl
    · refine good.arrays.congr (by rw [eq]; rfl) (by rw [eq]; rfl) (fun u homed => ?_)
        (fun u on => starts.priority_of_ranged (good.counted.ranged u on)) fun u => mt (home_eq_none u).mpr
      rw [active_eq, Function.update_of_ne]
      rintro rfl
      exact homed rfl
  · rw [evIoStart, if_pos off]
    exact good

theorem GoodFrom.rests (good : s.GoodFrom i) (queued : t.Queued) (rests : Rests s w t)
    (rfeeds_eq : t.rfeeds = s.rfeeds) (timers : t.TimersOk) (arrays : t.ArraysOk) (fds : t.FdsOk)
    (changes : t.ChangesOk i) : t.GoodFrom i where
  queued := queued
  timers := timers
  arrays := arrays
  fds := fds
  changes := changes
  counted := good.counted.rests rests
  rfeeds u member := by
    rw [Ranged, rests.priority_eq]
    exact good.rfeeds u (rfeeds_eq ▸ member)

theorem GoodFrom.io_stop (good : s.GoodFrom i) (v : ι) : (s.evIoStop v).GoodFrom i := by
  by_cases off : s.active (.io v) = 0
  · rw [evIoStop_rests off]
    exact good.clear _
  · have rests := evIoStop_stops off
    obtain ⟨fds, changes⟩ := good.fds.io_stop good.changes off
    have same := clearPending_same s (.io v)
    have eq := evIoStop_eq off
    have queues : SameQueues (s.clearPending (.io v)) (s.evIoStop v) := by
      rw [eq]
      exact ⟨rfl, rfl, rfl, rfl⟩
    have rfeeds_eq : (s.evIoStop v).rfeeds = s.rfeeds := by
      rw [eq]
      exact clearPending_rfeeds s _
    have active_eq : (s.evIoStop v).active = Function.update s.active (.io v) 0 := by
      rw [eq, ← same.active_eq]
      rfl
    refine good.rests (queues.queued (good.queued.clear _)) rests rfeeds_eq ?_ ?_ fds changes
    · refine good.timers.congr (by rw [eq, same.eq]; rfl) (by rw [eq, same.eq]; rfl) (fun u => ?_)
        fun u _ => by rw [eq, same.eq]; rfl
      rw [active_eq, Function.update_of_ne (by simp)]
    · refine good.arrays.congr (by rw [eq, same.eq]; rfl) (by rw [eq, same.eq]; rfl) (fun u homed => ?_)
        (fun u _ => by rw [rests.priority_eq]) fun u => mt (home_eq_none u).mpr
      rw [active_eq, Function.update_of_ne]
      rintro rfl
      exact homed rfl

/-! ## Timers -/

/-- A function of timers that changes at most timers. -/
theorem TimersOk.frame (step : TimerStep s v t) (good : s.GoodFrom i)
    (arrays_eq : t.arrays = s.arrays) (idleall_eq : t.idleall = s.idleall)
    (priority_eq : ∀ u, s.active u ≠ 0 → t.priority u = s.priority u)
    (anfds_eq : t.anfds = s.anfds) (anfdmax_eq : t.anfdmax = s.anfdmax)
    (fdchanges_eq : t.fdchanges = s.fdchanges) (fd_eq : t.fd = s.fd)
    (events_eq : t.events = s.events) : t.ArraysOk ∧ t.FdsOk ∧ t.ChangesOk i := by
  refine ⟨good.arrays.congr arrays_eq idleall_eq (fun u homed => step.kinds u ?_) priority_eq
      fun u => mt (home_eq_none u).mpr,
    good.fds.congr anfds_eq anfdmax_eq (fun u => step.kinds _ (by simp)) (fun _ _ => by rw [fd_eq])
      fun _ _ => by rw [events_eq],
    good.changes.congr (fun fd => by rw [anfds_eq]) fdchanges_eq⟩
  rintro x rfl
  exact homed rfl

theorem GoodFrom.timer_start (good : s.GoodFrom i) (v : ι) : (s.evTimerStart v).GoodFrom i := by
  by_cases off : s.active (.timer v) = 0
  · obtain ⟨step, on⟩ := good.timers.start off
    have eq := evTimerStart_eq off
    have starts : Starts s (.timer v) (s.evTimerStart v) :=
      ⟨off, on, step.others, by rw [eq], by rw [eq]⟩
    have priority_eq := fun u on => starts.priority_of_ranged (good.counted.ranged u on)
    obtain ⟨arrays, fds, changes⟩ := TimersOk.frame step good (by rw [eq]; rfl) (by rw [eq]; rfl)
      priority_eq (by rw [eq]; rfl) (by rw [eq]; rfl) (by rw [eq]; rfl) (by rw [eq]; rfl)
      (by rw [eq]; rfl)
    exact good.starts starts (by simp) (by rw [eq]; rfl) (by rw [eq]; rfl) (by rw [eq]; rfl)
      (by rw [eq]; rfl) step.ok arrays fds changes
  · rw [evTimerStart_active off]
    exact good

theorem GoodFrom.timer_stop (good : s.GoodFrom i) (v : ι) : (s.evTimerStop v).GoodFrom i := by
  by_cases on : s.active (.timer v) ≠ 0
  · obtain ⟨step, off⟩ := good.timers.stop on
    have eq := evTimerStop_eq on
    have same := clearPending_same s (.timer v)
    have priority_eq : (s.evTimerStop v).priority = s.priority := by
      rw [eq]
      exact same.priority_eq
    have queues : SameQueues (s.clearPending (.timer v)) (s.evTimerStop v) := by
      rw [eq]
      exact ⟨rfl, rfl, rfl, rfl⟩
    obtain ⟨arrays, fds, changes⟩ := TimersOk.frame step good (by rw [eq, same.eq])
      (by rw [eq, same.eq]) (fun _ _ => by rw [priority_eq]) (by rw [eq, same.eq])
      (by rw [eq, same.eq]) (by rw [eq, same.eq]) (by rw [eq, same.eq]) (by rw [eq, same.eq])
    exact good.rests (queues.queued (good.queued.clear _)) ⟨on, off, step.others, by rw [eq], priority_eq⟩
      (by rw [eq]; exact clearPending_rfeeds s _) step.ok arrays fds changes
  · rw [evTimerStop_rests (not_not.mp on)]
    exact good.clear _

/-- A timer gets a new time; which timers are active does not change. -/
theorem GoodFrom.timed (good : s.GoodFrom i) (step : TimerStep s v t)
    (active_iff : t.active (.timer v) ≠ 0 ↔ s.active (.timer v) ≠ 0)
    (rest : t = { s with active := t.active, at_ := t.at_, timers := t.timers }) :
    t.GoodFrom i := by
  have priority_eq : t.priority = s.priority := by rw [rest]
  have queues : SameQueues s t := by
    rw [rest]
    exact ⟨rfl, rfl, rfl, rfl⟩
  obtain ⟨arrays, fds, changes⟩ := TimersOk.frame step good (by rw [rest]) (by rw [rest])
    (fun _ _ => by rw [priority_eq]) (by rw [rest]) (by rw [rest]) (by rw [rest]) (by rw [rest])
    (by rw [rest])
  refine ⟨queues.queued good.queued, step.ok, arrays, fds, changes,
    good.counted.congr (fun u => ?_) (by rw [rest]) fun _ _ => by rw [priority_eq], fun u member => ?_⟩
  · by_cases here : u = .timer v
    · rw [here]
      exact active_iff
    · exact step.others u here
  · rw [queues.ranged_iff]
    refine good.rfeeds u ?_
    rwa [rest] at member

theorem GoodFrom.timer_again (good : s.GoodFrom i) (v : ι) : (s.evTimerAgain v).GoodFrom i := by
  have good := good.clear (.timer v)
  unfold evTimerAgain
  generalize s.clearPending (.timer v) = c at good
  dsimp only
  by_cases on : c.active (.timer v) ≠ 0
  · rw [if_pos on]
    by_cases repeats : c.repeat_ v ≠ 0
    · rw [if_pos repeats]
      change (withTimers (cacheAt _ (c.active (.timer v))) _).GoodFrom i
      rw [cacheAt_eq good.timers on]
      obtain ⟨step, still⟩ :=
        good.timers.retime on (good.timers.adjust on (c.mnNow + c.repeat_ v))
      exact good.timed step (iff_of_true still on) rfl
    · rw [if_neg repeats]
      exact good.timer_stop v
  · rw [if_neg on]
    split
    · exact GoodFrom.timer_start (good.timed (good.timers.set_at (not_not.mp on) (c.repeat_ v))
        Iff.rfl rfl) v
    · exact good

theorem GoodFrom.expire (good : s.GoodFrom i) (due : s.Due v) (root : s.active (.timer v) = heap0) :
    (s.expire v).GoodFrom i := by
  have ranged := good.counted.ranged _ due.1
  have member : ∀ c : EvLoop T ι β, c.GoodFrom i → c.Ranged (.timer v) →
      (c.feedReverse (.timer v)).GoodFrom i := by
    intro c good ranged
    refine ⟨((⟨rfl, rfl, rfl, rfl⟩ : SameQueues c (c.feedReverse (.timer v)))).queued good.queued,
      good.timers.congr rfl rfl (fun _ => rfl) fun _ _ => rfl,
      good.arrays.congr rfl rfl (fun _ _ => rfl) (fun _ _ => rfl) fun u => mt (home_eq_none u).mpr,
      good.fds.congr rfl rfl (fun _ => rfl) (fun _ _ => rfl) fun _ _ => rfl,
      good.changes.congr (fun _ => rfl) rfl, good.counted.congr (fun _ => Iff.rfl) rfl fun _ _ => rfl,
      fun u inside => ?_⟩
    rcases List.mem_append.mp inside with old | new
    · exact good.rfeeds u old
    · rw [List.mem_singleton.mp new]
      exact ⟨ranged, by simp⟩
  by_cases repeats : s.repeat_ v ≠ 0
  · rw [expire_repeats good.timers due.1 root repeats]
    obtain ⟨step, still⟩ :=
      good.timers.retime due.1 (good.timers.sink due.1 (s.rescheduled v) root)
    exact member _ (good.timed step (iff_of_true still due.1) rfl) ranged
  · rw [expire_once (not_not.mp repeats)]
    refine member _ (good.timer_stop v) ?_
    rw [evTimerStop_eq due.1]
    exact (clearPending_same s _).ranged_iff _ |>.mpr ranged

theorem GoodFrom.expireLoop (good : s.GoodFrom i) (fuel : Nat) :
    (EvLoop.expireLoop fuel s).GoodFrom i := by
  induction fuel generalizing s with
  | zero => exact good
  | succ fuel ih =>
      by_cases goes_on : 0 < s.timercnt ∧ (s.timers heap0).at_ < s.mnNow
      · obtain ⟨w, here, root, -⟩ := good.timers.root goes_on.1
        have due : s.Due w := by
          refine ⟨by rw [root]; decide, ?_⟩
          have late := goes_on.2
          rwa [here] at late
        have turn : EvLoop.expireLoop (fuel + 1) s = EvLoop.expireLoop fuel (s.expire w) := by
          rw [here] at goes_on
          simp only [EvLoop.expireLoop, here, goes_on, and_self, if_true]
        rw [turn]
        exact ih (good.expire due root)
      · unfold EvLoop.expireLoop
        split
        · rw [if_neg goes_on]
          exact good
        · exact good

theorem GoodFrom.timersReify (good : s.GoodFrom i) : s.timersReify.GoodFrom i := by
  unfold EvLoop.timersReify
  split
  · exact (good.expireLoop s.timercnt).feedReverseDone evTimer
  · exact good

/-! ## Arrays -/

theorem GoodFrom.startIn (good : s.GoodFrom i) (ws : Ws) (off : s.active w = 0)
    (belongs : (s.priAdjust w).home w = some ws) (n : Int)
    (idleall_eq : n = (∑ pri ∈ Finset.range numpri,
      ((s.startIn ws w).arrays (.idles pri)).length : Nat)) :
    ({ s.startIn ws w with idleall := n } : EvLoop T ι β).GoodFrom i := by
  have starts := startIn_starts ws off
  have other : ∀ u, s.home u = none → (s.startIn ws w).active u = s.active u := by
    intro u away
    refine Function.update_of_ne ?_ ..
    rintro rfl
    rw [(home_eq_none u).mpr away] at belongs
    cases belongs
  obtain ⟨placed, mem_iff⟩ := good.arrays.startIn off belongs
  refine good.starts ⟨starts.off, starts.on, starts.others, starts.activecnt_eq, starts.priority_eq⟩
    ?_ rfl rfl rfl rfl (good.timers.congr rfl rfl (fun u => other _ rfl) fun _ _ => rfl)
    ⟨placed, fun k u => ?_, idleall_eq⟩
    (good.fds.congr rfl rfl (fun u => other _ rfl) (fun _ _ => rfl) fun _ _ => rfl)
    (good.changes.congr (fun _ => rfl) rfl)
  · rintro rfl
    cases belongs
  · rw [home_congr (t := { s.startIn ws w with idleall := n }) (s := s.startIn ws w) rfl]
    exact mem_iff k u

theorem GoodFrom.stopIn (good : s.GoodFrom i) {ws : Ws} (on : s.active w ≠ 0)
    (belongs : s.home w = some ws) (n : Int)
    (idleall_eq : n = (∑ pri ∈ Finset.range numpri,
      ((s.stopIn ws w).arrays (.idles pri)).length : Nat)) :
    ({ s.stopIn ws w with idleall := n } : EvLoop T ι β).GoodFrom i := by
  obtain ⟨rests, homes, away, placed, mem_iff⟩ := good.arrays.stopIn on belongs
  have other : ∀ u, s.home u = none → (s.stopIn ws w).active u = s.active u := by
    intro u none
    refine away u ?_
    rw [none]
    exact (Option.some_ne_none ws).symm
  obtain ⟨rest, last, split⟩ := List.eq_nil_or_concat' (s.arrays ws) |>.resolve_left
    (List.ne_nil_of_mem ((good.arrays.mem_iff ws w).mpr ⟨on, belongs⟩))
  have eq := s.stopIn_eq (w := w) ws split
  have queues : SameQueues s ({ s.stopIn ws w with idleall := n } : EvLoop T ι β) := by
    rw [eq]
    exact ⟨rfl, rfl, rfl, rfl⟩
  refine good.rests (queues.queued good.queued) ⟨on, rests.off, rests.others, rests.activecnt_eq,
    rests.priority_eq⟩ (by rw [eq]) ?_ ⟨placed, fun k u => ?_, idleall_eq⟩ ?_ ?_
  · exact good.timers.congr (by rw [eq]) (by rw [eq]) (fun u => other _ rfl) fun _ _ => by rw [eq]
  · rw [home_congr (t := { s.stopIn ws w with idleall := n }) (s := s.stopIn ws w) rfl]
    exact mem_iff k u
  · exact good.fds.congr (by rw [eq]) (by rw [eq]) (fun u => other _ rfl) (fun _ _ => by rw [eq])
      fun _ _ => by rw [eq]
  · exact good.changes.congr (fun _ => by rw [eq]) (by rw [eq])

/-- A watcher that is neither active nor pending may get another priority. -/
theorem GoodFrom.reprioritized (good : s.GoodFrom i)
    (priority_eq : ∀ u, s.active u ≠ 0 ∨ s.pending u ≠ 0 ∨ u ∈ s.rfeeds →
      t.priority u = s.priority u)
    (rest : t = { s with priority := t.priority }) : t.GoodFrom i := by
  have active_eq : t.active = s.active := by rw [rest]
  refine ⟨good.queued.reprioritized (by rw [rest]) (by rw [rest]) (by rw [rest])
      fun u pends => priority_eq u (.inr (.inl pends)),
    good.timers.congr (by rw [rest]) (by rw [rest]) (fun _ => by rw [active_eq]) fun _ _ => by rw [rest],
    good.arrays.congr (by rw [rest]) (by rw [rest]) (fun _ _ => by rw [active_eq])
      (fun u on => priority_eq u (.inl on)) fun u => mt (home_eq_none u).mpr,
    good.fds.congr (by rw [rest]) (by rw [rest]) (fun _ => by rw [active_eq])
      (fun _ _ => by rw [rest]) fun _ _ => by rw [rest],
    good.changes.congr (fun _ => by rw [rest]) (by rw [rest]),
    good.counted.congr (fun _ => by rw [active_eq]) (by rw [rest]) fun u on => priority_eq u (.inl on),
    fun u member => ?_⟩
  have member : u ∈ s.rfeeds := by rwa [rest] at member
  rw [Ranged, priority_eq u (.inr (.inr member))]
  exact good.rfeeds u member

theorem GoodFrom.priAdjust (good : s.GoodFrom i) (w : W ι) : (s.priAdjust w).GoodFrom i := by
  refine good.reprioritized (fun u busy => ?_) rfl
  by_cases here : u = w
  · subst here
    rw [priAdjust_of_ranged]
    rcases busy with on | pends | member
    · exact good.counted.ranged u on
    · exact good.queued.ranged u pends
    · exact (good.rfeeds u member).1
  · exact priAdjust_other here

/-- The number of idle watchers after one was started or stopped. -/
theorem ArraysOk.idleall_startIn (ok : s.ArraysOk) {pri : Nat} (less : pri < numpri) :
    s.idleall + 1 = (∑ p ∈ Finset.range numpri,
      ((s.startIn (.idles pri) w).arrays (.idles p)).length : Nat) := by
  have sum := sum_idles_update s.arrays (.idles pri) (s.arrays (.idles pri) ++ [w])
  have idles : ∃ p < numpri, Ws.idles pri = .idles p := ⟨pri, less, rfl⟩
  rw [if_pos idles, if_pos idles, List.length_append, List.length_singleton] at sum
  change _ = ((∑ p ∈ Finset.range numpri, (Function.update s.arrays (.idles pri)
    (s.arrays (.idles pri) ++ [w]) (.idles p)).length : Nat) : Int)
  rw [ok.idleall_eq]
  omega

theorem ArraysOk.idleall_stopIn (ok : s.ArraysOk) {pri : Nat} (less : pri < numpri)
    (inside : w ∈ s.arrays (.idles pri)) :
    s.idleall - 1 = (∑ p ∈ Finset.range numpri,
      ((s.stopIn (.idles pri) w).arrays (.idles p)).length : Nat) := by
  have sum := sum_idles_update s.arrays (.idles pri) (swapOut (s.arrays (.idles pri)) (s.active w))
  have idles : ∃ p < numpri, Ws.idles pri = .idles p := ⟨pri, less, rfl⟩
  have some := List.length_pos_of_mem inside
  obtain ⟨rest, last, split⟩ := List.eq_nil_or_concat' (s.arrays (.idles pri)) |>.resolve_left
    (List.ne_nil_of_mem inside)
  rw [if_pos idles, if_pos idles, length_swapOut] at sum
  rw [s.stopIn_eq (.idles pri) split, ok.idleall_eq]
  dsimp only
  omega

theorem ArraysOk.idleall_update (ok : s.ArraysOk) {ws : Ws} (other : ∀ pri, ws ≠ .idles pri)
    (array : List (W ι)) : s.idleall = (∑ p ∈ Finset.range numpri,
      (Function.update s.arrays ws array (.idles p)).length : Nat) := by
  rw [ok.idleall_eq]
  refine congrArg _ (Finset.sum_congr rfl fun p _ => ?_)
  rw [Function.update_of_ne (other p).symm]

theorem GoodFrom.idle_start (good : s.GoodFrom i) (v : ι) : (s.evIdleStart v).GoodFrom i := by
  unfold evIdleStart
  split
  · exact good
  · rename_i off
    have off := not_not.mp off
    have adjusted := good.priAdjust (.idle v)
    have ranged := s.priAdjust_ranged (.idle v)
    have again := priAdjust_of_ranged ranged
    refine adjusted.startIn (.idles ((s.priAdjust (.idle v)).abspri (.idle v))) off ?_
      (s.idleall + 1) (adjusted.arrays.idleall_startIn (abspri_lt ranged))
    simp only [home, abspri, again]

theorem GoodFrom.idle_stop (good : s.GoodFrom i) (v : ι) : (s.evIdleStop v).GoodFrom i := by
  have good := good.clear (.idle v)
  unfold evIdleStop
  generalize s.clearPending (.idle v) = c at good
  dsimp only
  split
  · exact good
  · rename_i on
    have belongs : c.home (.idle v) = some (.idles (c.abspri (.idle v))) := rfl
    have inside := (good.arrays.mem_iff _ _).mpr ⟨on, belongs⟩
    obtain ⟨rest, last, split⟩ := List.eq_nil_or_concat' _ |>.resolve_left
      (List.ne_nil_of_mem inside)
    have idleall_eq : (c.stopIn (.idles (c.abspri (.idle v))) (.idle v)).idleall = c.idleall := by
      rw [c.stopIn_eq _ split]
    rw [idleall_eq]
    exact good.stopIn on belongs (c.idleall - 1) (good.arrays.idleall_stopIn
      (abspri_lt (good.counted.ranged _ on)) inside)

/-- The other arrays have no count of their own. -/
theorem GoodFrom.array_start (good : s.GoodFrom i) {ws : Ws} (off : s.active w = 0)
    (belongs : (s.priAdjust w).home w = some ws) (other : ∀ pri, ws ≠ .idles pri) :
    (s.startIn ws w).GoodFrom i :=
  good.startIn ws off belongs s.idleall (good.arrays.idleall_update other _)

theorem GoodFrom.array_stop (good : s.GoodFrom i) {ws : Ws} (on : s.active w ≠ 0)
    (belongs : s.home w = some ws) (other : ∀ pri, ws ≠ .idles pri) :
    (s.stopIn ws w).GoodFrom i := by
  obtain ⟨rest, last, split⟩ := List.eq_nil_or_concat' (s.arrays ws) |>.resolve_left
    (List.ne_nil_of_mem ((good.arrays.mem_iff ws w).mpr ⟨on, belongs⟩))
  have stopped := good.stopIn on belongs s.idleall (by
    rw [s.stopIn_eq ws split]
    exact good.arrays.idleall_update other _)
  rw [s.stopIn_eq ws split] at stopped ⊢
  exact stopped

theorem GoodFrom.prepare_start (good : s.GoodFrom i) (v : ι) :
    (s.evPrepareStart v).GoodFrom i := by
  unfold evPrepareStart
  split
  · exact good
  · exact good.array_start (not_not.mp (by assumption)) rfl (by simp)

theorem GoodFrom.prepare_stop (good : s.GoodFrom i) (v : ι) : (s.evPrepareStop v).GoodFrom i := by
  have good := good.clear (.prepare v)
  unfold evPrepareStop
  dsimp only
  split
  · exact good
  · exact good.array_stop (by assumption) rfl (by simp)

theorem GoodFrom.check_start (good : s.GoodFrom i) (v : ι) : (s.evCheckStart v).GoodFrom i := by
  unfold evCheckStart
  split
  · exact good
  · exact good.array_start (not_not.mp (by assumption)) rfl (by simp)

theorem GoodFrom.check_stop (good : s.GoodFrom i) (v : ι) : (s.evCheckStop v).GoodFrom i := by
  have good := good.clear (.check v)
  unfold evCheckStop
  dsimp only
  split
  · exact good
  · exact good.array_stop (by assumption) rfl (by simp)

theorem GoodFrom.fork_start (good : s.GoodFrom i) (v : ι) : (s.evForkStart v).GoodFrom i := by
  unfold evForkStart
  split
  · exact good
  · exact good.array_start (not_not.mp (by assumption)) rfl (by simp)

theorem GoodFrom.fork_stop (good : s.GoodFrom i) (v : ι) : (s.evForkStop v).GoodFrom i := by
  have good := good.clear (.fork v)
  unfold evForkStop
  dsimp only
  split
  · exact good
  · exact good.array_stop (by assumption) rfl (by simp)

end watchers

/-! ## Descriptors -/

section descriptors

variable {fd : Nat} {v : ι}

theorem feedIo_same (revents : Events) (s : EvLoop T ι β) (v : ι) : SameBut s (feedIo revents s v) := by
  unfold feedIo
  dsimp only
  split
  · exact evFeedEvent_same s _ _
  · exact .refl s

theorem GoodFrom.feedIos (good : s.GoodFrom i) (revents : Events) (ws : List ι)
    (ranged : ∀ w ∈ ws, s.Ranged (.io w)) : (ws.foldl (feedIo revents) s).GoodFrom i := by
  induction ws generalizing s with
  | nil => exact good
  | cons w ws ih =>
      refine ih ?_ fun v member => ?_
      · unfold feedIo
        dsimp only
        split
        · exact good.feed _ (ranged w List.mem_cons_self) (by simp)
        · exact good
      · rw [(feedIo_same revents s w).ranged_iff]
        exact ranged v (List.mem_cons_of_mem w member)

theorem GoodFrom.fdEventNocheck (good : s.GoodFrom i) (fd : Nat) (revents : Events) :
    (s.fdEventNocheck fd revents).GoodFrom i :=
  good.feedIos revents _ fun w member =>
    good.counted.ranged _ ((good.fds.mem_iff fd w).mp member).1

theorem GoodFrom.fdEvent (good : s.GoodFrom i) (fd : Nat) (revents : Events) :
    (s.fdEvent fd revents).GoodFrom i := by
  unfold EvLoop.fdEvent
  split
  · exact good.fdEventNocheck fd revents
  · exact good

theorem GoodFrom.feed_fdEvent (good : s.GoodFrom i) (fd : Nat) (revents : Events) :
    (s.evFeedFdEvent fd revents).GoodFrom i := by
  unfold evFeedFdEvent
  split
  · exact good.fdEventNocheck fd revents
  · exact good

theorem evIoStop_priority (s : EvLoop T ι β) (v : ι) :
    (s.evIoStop v).priority = s.priority := by
  by_cases on : s.active (.io v) = 0
  · rw [evIoStop_rests on]
    exact (clearPending_same s _).priority_eq
  · exact (evIoStop_stops on).priority_eq

theorem GoodFrom.fdKillLoop (good : s.GoodFrom i) (fd fuel : Nat) :
    (EvLoop.fdKillLoop fd fuel s).GoodFrom i := by
  induction fuel generalizing s with
  | zero => exact good
  | succ fuel ih =>
      unfold EvLoop.fdKillLoop
      split
      · exact good
      · rename_i w ws first
        have on := ((good.fds.mem_iff fd w).mp (first ▸ List.mem_cons_self)).1
        refine ih ((good.io_stop w).feed _ ?_ (by simp))
        rw [Ranged, evIoStop_priority]
        exact good.counted.ranged _ on

theorem GoodFrom.fdKill (good : s.GoodFrom i) (fd : Nat) : (s.fdKill fd).GoodFrom i :=
  good.fdKillLoop fd _

/-- The loop in which `fd` has lost what is known of the kernel. -/
def forgotten (s : EvLoop T ι β) (fd : Nat) : EvLoop T ι β :=
  { s with anfds := Function.update s.anfds fd { s.anfds fd with events := 0, emask := 0 } }

theorem forgotten_self (s : EvLoop T ι β) (fd : Nat) :
    (s.forgotten fd).anfds fd = { s.anfds fd with events := 0, emask := 0 } :=
  Function.update_self ..

theorem forgotten_other (s : EvLoop T ι β) {fd' : Nat} (other : fd' ≠ fd) :
    (s.forgotten fd).anfds fd' = s.anfds fd' :=
  Function.update_of_ne other ..

theorem forgotten_head (s : EvLoop T ι β) (fd fd' : Nat) :
    ((s.forgotten fd).anfds fd').head = (s.anfds fd').head := by
  by_cases here : fd' = fd
  · rw [here, forgotten_self]
  · rw [forgotten_other s here]

theorem GoodFrom.rearm (good : s.GoodFrom i) (fd : Nat) (known : (s.anfds fd).events ≠ 0)
    {flags : BitVec 8} (some : flags ≠ 0) : ((s.forgotten fd).fdChange fd flags).GoodFrom i := by
  have head : ∀ fd', (((s.forgotten fd).fdChange fd flags).anfds fd').head = (s.anfds fd').head :=
    fun fd' => by rw [fdChange_head, forgotten_head]
  have other : ∀ fd', fd' ≠ fd →
      ((s.forgotten fd).fdChange fd flags).anfds fd' = s.anfds fd' := fun fd' away => by
    rw [fdChange_other _ _ away, forgotten_other s away]
  have changes : (s.forgotten fd).ChangesOk i := by
    refine good.changes.congr (fun fd' => ?_) rfl
    by_cases here : fd' = fd
    · rw [here, forgotten_self]
    · rw [forgotten_other s here]
  have queues : SameQueues s ((s.forgotten fd).fdChange fd flags) := ⟨rfl, rfl, rfl, rfl⟩
  refine ⟨queues.queued good.queued, good.timers.congr rfl rfl (fun _ => rfl) fun _ _ => rfl,
    good.arrays.congr rfl rfl (fun _ _ => rfl) (fun _ _ => rfl) fun u => mt (home_eq_none u).mpr,
    ⟨fun fd' w => ?_, fun fd' => ?_, good.fds.one, good.fds.legal, fun fd' out => ?_,
      fun fd' still => ?_⟩, changes.change fd some,
    good.counted.congr (fun _ => Iff.rfl) rfl fun _ _ => rfl, good.rfeeds⟩
  · rw [head]
    exact good.fds.mem_iff fd' w
  · rw [head]
    exact good.fds.nodup fd'
  · rw [other fd', good.fds.outside fd' out]
    rintro rfl
    rw [good.fds.outside fd' out] at known
    exact known rfl
  · by_cases here : fd' = fd
    · rw [here, fdChange_reify] at still
      exact absurd still (or_ne_zero some)
    · rw [other fd' here] at still ⊢
      rw [good.fds.synced fd' still]
      exact (wanted_congr (head fd') fun _ _ => rfl).symm

theorem GoodFrom.fdRearmAll (good : s.GoodFrom i) : s.fdRearmAll.GoodFrom i := by
  unfold EvLoop.fdRearmAll
  generalize List.range s.anfdmax = fds
  induction fds generalizing s with
  | nil => exact good
  | cons fd fds ih =>
      refine ih ?_
      dsimp only
      split
      · exact good.rearm fd (by assumption) (by decide)
      · exact good

/-- `fd_reify` handles the next change: the loop knows what the watchers want. -/
def reified (s : EvLoop T ι β) (fd : Nat) : EvLoop T ι β :=
  { s with
    anfds := Function.update s.anfds fd { s.anfds fd with reify := 0, events := s.wanted fd } }

theorem reified_self (s : EvLoop T ι β) (fd : Nat) :
    (s.reified fd).anfds fd = { s.anfds fd with reify := 0, events := s.wanted fd } :=
  Function.update_self ..

theorem reified_other (s : EvLoop T ι β) {fd' : Nat} (other : fd' ≠ fd) :
    (s.reified fd).anfds fd' = s.anfds fd' :=
  Function.update_of_ne other ..

theorem reified_head (s : EvLoop T ι β) (fd fd' : Nat) :
    ((s.reified fd).anfds fd').head = (s.anfds fd').head := by
  by_cases here : fd' = fd
  · rw [here, reified_self]
  · rw [reified_other s here]

theorem GoodFrom.reified (good : s.GoodFrom i) (next : s.fdchanges[i]? = some fd) :
    (s.reified fd).GoodFrom (i + 1) := by
  have less := (List.getElem?_eq_some_iff.mp next).1
  have drop_eq : s.fdchanges.drop i = fd :: s.fdchanges.drop (i + 1) := by
    rw [List.drop_eq_getElem_cons less, (List.getElem?_eq_some_iff.mp next).2]
  obtain ⟨fresh, nodup⟩ := List.nodup_cons.mp (drop_eq ▸ good.changes.nodup)
  have changed : (s.anfds fd).reify ≠ 0 := (good.changes.mem_iff fd).mp (by simp [drop_eq])
  have wants : ∀ fd', (s.reified fd).wanted fd' = s.wanted fd' := fun fd' =>
    wanted_congr (reified_head s fd fd') fun _ _ => rfl
  have queues : SameQueues s (s.reified fd) := ⟨rfl, rfl, rfl, rfl⟩
  refine ⟨queues.queued good.queued, good.timers.congr rfl rfl (fun _ => rfl) fun _ _ => rfl,
    good.arrays.congr rfl rfl (fun _ _ => rfl) (fun _ _ => rfl) fun u => mt (home_eq_none u).mpr,
    ⟨fun fd' w => ?_, fun fd' => ?_, good.fds.one, good.fds.legal, fun fd' out => ?_,
      fun fd' still => ?_⟩, ⟨fun fd' => ?_, nodup, less⟩,
    good.counted.congr (fun _ => Iff.rfl) rfl fun _ _ => rfl, good.rfeeds⟩
  · rw [reified_head]
    exact good.fds.mem_iff fd' w
  · rw [reified_head]
    exact good.fds.nodup fd'
  · rw [reified_other s, good.fds.outside fd' out]
    rintro rfl
    rw [good.fds.outside fd' out] at changed
    exact changed rfl
  · rw [wants]
    by_cases here : fd' = fd
    · rw [here, reified_self]
    · rw [reified_other s here] at still ⊢
      exact good.fds.synced fd' still
  · by_cases here : fd' = fd
    · rw [here, reified_self]
      exact iff_of_false fresh (not_not.mpr rfl)
    · rw [reified_other s here, ← good.changes.mem_iff, drop_eq, List.mem_cons]
      exact (or_iff_right here).symm

end descriptors

/-! ## The remaining functions -/

theorem GoodFrom.idleLoop (good : s.GoodFrom i) (pri : Nat) : (s.idleLoop pri).GoodFrom i := by
  induction pri with
  | zero => exact good
  | succ pri ih =>
      unfold EvLoop.idleLoop
      split
      · exact good
      · split
        · exact good.queueEvents (.idles pri) evIdle
        · exact ih

theorem GoodFrom.idleReify (good : s.GoodFrom i) : s.idleReify.GoodFrom i := by
  unfold EvLoop.idleReify
  split
  · exact good.idleLoop numpri
  · exact good

theorem GoodFrom.set_priority (good : s.GoodFrom i) {w : W ι} (pri : Int) (off : s.active w = 0)
    (fresh : s.pending w = 0) (rests : s.rfeeds = []) : (s.evSetPriority w pri).GoodFrom i := by
  refine good.reprioritized (fun u busy => Function.update_of_ne ?_ ..) rfl
  rintro rfl
  rcases busy with on | pends | member
  · exact on off
  · exact pends fresh
  · rw [rests] at member
    cases member

theorem GoodFrom.io_set (good : s.GoodFrom i) {w : ι} (fd : Nat) (events : Events)
    (off : s.active (.io w) = 0) : (s.evIoSet w fd events).GoodFrom i := by
  have other : ∀ v, s.active (.io v) ≠ 0 → v ≠ w := by
    rintro v on rfl
    exact on off
  have queues : SameQueues s (s.evIoSet w fd events) := ⟨rfl, rfl, rfl, rfl⟩
  exact ⟨queues.queued good.queued, good.timers.congr rfl rfl (fun _ => rfl) fun _ _ => rfl,
    good.arrays.congr rfl rfl (fun _ _ => rfl) (fun _ _ => rfl) fun u => mt (home_eq_none u).mpr,
    good.fds.congr rfl rfl (fun _ => rfl) (fun v on => Function.update_of_ne (other v on) ..)
      fun v on => Function.update_of_ne (other v on) ..,
    good.changes.congr (fun _ => rfl) rfl, good.counted.congr (fun _ => Iff.rfl) rfl fun _ _ => rfl,
    good.rfeeds⟩

/-- Which timer repeats when, and what time it is, is not what the invariant is about. -/
theorem GoodFrom.of_times (good : s.GoodFrom i)
    (at_eq : ∀ v, s.active (.timer v) ≠ 0 → t.at_ (.timer v) = s.at_ (.timer v))
    (rest : t = { s with at_ := t.at_, repeat_ := t.repeat_, mnNow := t.mnNow }) :
    t.GoodFrom i := by
  have active_eq : t.active = s.active := by rw [rest]
  have queues : SameQueues s t := by
    rw [rest]
    exact ⟨rfl, rfl, rfl, rfl⟩
  exact ⟨queues.queued good.queued,
    good.timers.congr (by rw [rest]) (by rw [rest]) (fun _ => by rw [active_eq]) at_eq,
    good.arrays.congr (by rw [rest]) (by rw [rest]) (fun _ _ => by rw [active_eq])
      (fun _ _ => by rw [rest]) fun u => mt (home_eq_none u).mpr,
    good.fds.congr (by rw [rest]) (by rw [rest]) (fun _ => by rw [active_eq])
      (fun _ _ => by rw [rest]) fun _ _ => by rw [rest],
    good.changes.congr (fun _ => by rw [rest]) (by rw [rest]),
    good.counted.congr (fun _ => by rw [active_eq]) (by rw [rest]) fun _ _ => by rw [rest],
    fun w member => by
      rw [queues.ranged_iff]
      exact good.rfeeds w (by rwa [rest] at member)⟩

theorem GoodFrom.timer_set (good : s.GoodFrom i) {w : ι} (after repeat_ : T)
    (off : s.active (.timer w) = 0) : (s.evTimerSet w after repeat_).GoodFrom i := by
  refine good.of_times (fun v on => Function.update_of_ne ?_ ..) rfl
  rintro eq
  rw [eq] at on
  exact on off

/-- After `n` turns of `timers_reschedule` the first `n` timers have moved. -/
theorem reschedule_turns (ok : s.TimersOk) (adjust : T) (n : Nat) (le : n ≤ s.timercnt) :
    ∃ t : EvLoop T ι β, (List.range n).foldl (fun s i =>
        cacheAt { s with
          at_ := Function.update s.at_ (s.timers (i + heap0)).w
            (s.at_ (s.timers (i + heap0)).w + adjust) } (i + heap0)) s = t ∧
      t = { s with at_ := t.at_, timers := t.timers } ∧
      (∀ k, t.timers k = if heap0 ≤ k ∧ k < n + heap0 then
        ⟨(s.timers k).at_ + adjust, (s.timers k).w⟩ else s.timers k) ∧
      ∀ v, t.at_ (.timer v) =
        if heap0 ≤ s.active (.timer v) ∧ s.active (.timer v) < n + heap0
        then s.at_ (.timer v) + adjust else s.at_ (.timer v) := by
  induction n with
  | zero =>
      refine ⟨s, rfl, rfl, fun k => ?_, fun v => ?_⟩
      · rw [if_neg (by omega)]
      · rw [if_neg (by omega)]
  | succ n ih =>
      obtain ⟨t, eq, shape, timers, times⟩ := ih (Nat.le_of_succ_le le)
      obtain ⟨w, on, here⟩ := (ok.has_iff (s.timers (n + heap0))).mp
        ⟨n + heap0, Nat.le_add_left .., by omega, rfl⟩
      have index := ok.heaped.active_eq (n + heap0) (Nat.le_add_left ..) (by omega)
      change s.active (s.timers (n + heap0)).w = n + heap0 at index
      rw [here] at index
      dsimp only at index
      have next : t.timers (n + heap0) = ⟨s.at_ (.timer w), .timer w⟩ := by
        rw [timers, if_neg (by omega), here]
      have time : t.at_ (.timer w) = s.at_ (.timer w) := by
        rw [times, if_neg (by omega)]
      rw [List.range_succ, List.foldl_append, eq]
      refine ⟨_, rfl, ?_, fun k => ?_, fun v => ?_⟩
      · rw [shape]
        rfl
      · change Function.update t.timers (n + heap0) _ k = _
        by_cases there : k = n + heap0
        · subst there
          rw [Function.update_self, if_pos ⟨Nat.le_add_left .., by omega⟩, here]
          simp only [next, Function.update_self, time]
        · rw [Function.update_of_ne there, timers]
          by_cases inside : heap0 ≤ k ∧ k < n + heap0
          · rw [if_pos inside, if_pos ⟨inside.1, by omega⟩]
          · rw [if_neg inside, if_neg (by omega)]
      · change Function.update t.at_ (t.timers (n + heap0)).w _ (.timer v) = _
        rw [next]
        by_cases self : v = w
        · subst self
          rw [Function.update_self, time, if_pos ⟨by omega, by omega⟩]
        · rw [Function.update_of_ne (by simpa), times]
          by_cases inside : heap0 ≤ s.active (.timer v) ∧ s.active (.timer v) < n + heap0
          · rw [if_pos inside, if_pos ⟨inside.1, by omega⟩]
          · rw [if_neg inside, if_neg]
            rintro ⟨low, high⟩
            have last : s.active (.timer v) = n + heap0 := by omega
            have same := (ok.active_eq (w := v) (by unfold heap0 at low; omega)).2.2
            rw [last, here] at same
            exact self (W.timer.inj (congrArg ANHE.w same)).symm

/-- The clock has jumped, and the timers with it. The order of times survives an addition. -/
theorem GoodFrom.timersReschedule (good : s.GoodFrom i) (adjust : T)
    (monotone : ∀ x y : T, x ≤ y → x + adjust ≤ y + adjust) :
    (s.timersReschedule adjust).GoodFrom i := by
  obtain ⟨t, eq, shape, timers, times⟩ := reschedule_turns good.timers adjust s.timercnt (le_refl _)
  change ((List.range s.timercnt).foldl _ s).GoodFrom i
  rw [eq]
  have active_eq : t.active = s.active := by rw [shape]
  have timercnt_eq : t.timercnt = s.timercnt := by rw [shape]
  have time : ∀ v, s.active (.timer v) ≠ 0 → t.at_ (.timer v) = s.at_ (.timer v) + adjust := by
    intro v on
    obtain ⟨low, high, -⟩ := good.timers.active_eq on
    rw [times, if_pos ⟨low, high⟩]
  have ok : t.TimersOk := by
    refine ⟨⟨fun k behind inside => ?_, fun k low high => ?_⟩, fun e => ?_⟩
    · have parent := fourHeap.parent_lt behind
      have above : heap0 ≤ fourHeap.parent k := fourHeap.root_le_parent behind
      have behind : heap0 < k := behind
      rw [timercnt_eq] at inside
      have old := good.timers.heaped.ordered k behind inside
      change (s.timers (fourHeap.parent k)).at_ ≤ (s.timers k).at_ at old
      change (t.timers (fourHeap.parent k)).at_ ≤ (t.timers k).at_
      rw [timers, timers, if_pos ⟨above, by omega⟩, if_pos ⟨by omega, inside⟩]
      exact monotone _ _ old
    · rw [timercnt_eq] at high
      have old := good.timers.heaped.active_eq k low high
      change s.active (s.timers k).w = k at old
      change t.active (t.timers k).w = k
      rw [active_eq, timers, if_pos ⟨low, high⟩]
      exact old
    · constructor
      · rintro ⟨k, low, high, rfl⟩
        rw [timercnt_eq] at high
        obtain ⟨v, on, here⟩ := (good.timers.has_iff (s.timers k)).mp ⟨k, low, high, rfl⟩
        refine ⟨v, by rwa [active_eq], ?_⟩
        change t.timers k = _
        rw [timers, if_pos ⟨low, high⟩, here, time v on]
      · rintro ⟨v, on, rfl⟩
        rw [active_eq] at on
        obtain ⟨low, high, here⟩ := good.timers.active_eq on
        refine ⟨s.active (.timer v), low, by rwa [timercnt_eq], ?_⟩
        change t.timers _ = _
        rw [timers, if_pos ⟨low, high⟩, here, time v on]
  have queues : SameQueues s t := by
    rw [shape]
    exact ⟨rfl, rfl, rfl, rfl⟩
  exact ⟨queues.queued good.queued, ok,
    good.arrays.congr (by rw [shape]) (by rw [shape]) (fun _ _ => by rw [active_eq])
      (fun _ _ => by rw [shape]) fun u => mt (home_eq_none u).mpr,
    good.fds.congr (by rw [shape]) (by rw [shape]) (fun _ => by rw [active_eq])
      (fun _ _ => by rw [shape]) fun _ _ => by rw [shape],
    good.changes.congr (fun _ => by rw [shape]) (by rw [shape]),
    good.counted.congr (fun _ => by rw [active_eq]) (by rw [shape]) fun _ _ => by rw [shape],
    fun w member => by
      rw [queues.ranged_iff]
      exact good.rfeeds w (by rwa [shape] at member)⟩

end EvLoop

end CLibs.Libev
