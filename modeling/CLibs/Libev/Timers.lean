import CLibs.Libev.Pending

/-!
# Timers

The heap of a loop has exactly the active timers, with their times, and every function of
timers keeps it so. `timers_reify` lets each timer that is due expire once.
-/

set_option autoImplicit false
set_option linter.unusedSectionVars false

open CLibs.General

namespace CLibs.Libev

namespace EvLoop

variable {T ι β : Type} [Tstamp T] [DecidableEq ι] {s t : EvLoop T ι β}

/-- What `verify_heap` asserts of the timers, and that no active timer is missing. -/
structure TimersOk (s : EvLoop T ι β) : Prop where
  heaped : Heaped s.timerMem s.timercnt
  has_iff : ∀ e, s.timerMem.Has s.timercnt e ↔
    ∃ w, s.active (.timer w) ≠ 0 ∧ e = ⟨s.at_ (.timer w), .timer w⟩

theorem TimersOk.congr (ok : s.TimersOk) (timers_eq : t.timers = s.timers)
    (timercnt_eq : t.timercnt = s.timercnt)
    (active_eq : ∀ w, t.active (.timer w) = s.active (.timer w))
    (at_eq : ∀ w, s.active (.timer w) ≠ 0 → t.at_ (.timer w) = s.at_ (.timer w)) :
    t.TimersOk := by
  have has : ∀ e, t.timerMem.Has t.timercnt e ↔ s.timerMem.Has s.timercnt e := by
    simp [HeapMem.Has, timerMem, timers_eq, timercnt_eq]
  refine ⟨⟨?_, fun k low high => ?_⟩, fun e => ?_⟩
  · have key_eq : t.timerMem.key = s.timerMem.key := by
      funext k
      simp [HeapMem.key, timerMem, timers_eq]
    rw [timercnt_eq, key_eq]
    exact ok.heaped.ordered
  · rw [timercnt_eq] at high
    obtain ⟨w, -, eq⟩ := (ok.has_iff _).mp ⟨k, low, high, rfl⟩
    have index := ok.heaped.active_eq k low high
    change (s.timers k) = _ at eq
    change s.active (s.timers k).w = k at index
    change t.active (t.timers k).w = k
    rw [timers_eq, eq, active_eq w]
    rwa [eq] at index
  · rw [has, ok.has_iff]
    constructor
    · rintro ⟨w, starts, rfl⟩
      exact ⟨w, by rwa [active_eq], by rw [at_eq w starts]⟩
    · rintro ⟨w, starts, rfl⟩
      rw [active_eq] at starts
      exact ⟨w, starts, by rw [at_eq w starts]⟩

theorem TimersOk.active_eq (ok : s.TimersOk) {w : ι} (starts : s.active (.timer w) ≠ 0) :
    heap0 ≤ s.active (.timer w) ∧ s.active (.timer w) < s.timercnt + heap0 ∧
      s.timers (s.active (.timer w)) = ⟨s.at_ (.timer w), .timer w⟩ := by
  obtain ⟨k, low, high, eq⟩ := (ok.has_iff _).mpr ⟨w, starts, rfl⟩
  have index := ok.heaped.active_eq k low high
  rw [eq] at index
  change s.active (.timer w) = k at index
  rw [index]
  exact ⟨low, high, eq⟩

theorem ne_zero_of_heaped {m : HeapMem T (W ι)} {N : Nat} (heaped : Heaped m N)
    {e : ANHE T (W ι)} (has : m.Has N e) : m.active e.w ≠ 0 := by
  obtain ⟨k, low, high, rfl⟩ := has
  rw [heaped.active_eq k low high]
  exact fun zero => absurd low (by rw [zero]; decide)

/-- After a sift the watchers in the heap are active, and no other `active` field has changed. -/
theorem active_of_sifted {m m' : HeapMem T (W ι)} {has : ANHE T (W ι) → Prop} {N : Nat}
    (heaped : Heaped m' N) (sifted : Sifted m has m' (m'.Has N)) (v : W ι) :
    ((∃ e, has e ∧ e.w = v) ∧ m'.active v ≠ 0) ∨
      ((∀ e, has e → e.w ≠ v) ∧ m'.active v = m.active v) := by
  by_cases inside : ∃ e, has e ∧ e.w = v
  · obtain ⟨e, found, rfl⟩ := inside
    exact .inl ⟨⟨e, found, rfl⟩, ne_zero_of_heaped heaped ((sifted.has_iff e).mpr found)⟩
  · push Not at inside
    exact .inr ⟨inside, sifted.frame v inside⟩

/-- `t` is `s` after a function of the timer `w`. -/
structure TimerStep (s : EvLoop T ι β) (w : ι) (t : EvLoop T ι β) : Prop where
  ok : t.TimersOk
  kinds : ∀ v, (∀ u, v ≠ .timer u) → t.active v = s.active v
  others : ∀ v, v ≠ .timer w → (t.active v ≠ 0 ↔ s.active v ≠ 0)
  times : ∀ v, v ≠ .timer w → t.at_ v = s.at_ v

/-- A heap in which `w` has a new time, or is new, makes a step of `w`. -/
theorem TimersOk.step_of_sifted (ok : s.TimersOk) {w : ι} {x : T} {m m' : HeapMem T (W ι)}
    {has : ANHE T (W ι) → Prop} (heaped : Heaped m' t.timercnt)
    (sifted : Sifted m has m' (m'.Has t.timercnt))
    (has_iff : ∀ e, has e ↔ e = ⟨x, .timer w⟩ ∨ (s.timerMem.Has s.timercnt e ∧ e.w ≠ .timer w))
    (before : ∀ v, v ≠ .timer w → m.active v = s.active v)
    (timers_eq : t.timers = m'.heap) (active_eq : t.active = m'.active)
    (at_eq : t.at_ = Function.update s.at_ (.timer w) x) :
    TimerStep s w t ∧ t.active (.timer w) ≠ 0 := by
  have mem : t.timerMem = m' := by
    rw [timerMem, timers_eq, active_eq]
  have times : ∀ v, v ≠ .timer w → t.at_ v = s.at_ v := by
    intro v other
    rw [at_eq, Function.update_of_ne other]
  have self : has ⟨x, .timer w⟩ := (has_iff _).mpr (.inl rfl)
  have inside : ∀ v, s.active (.timer v) ≠ 0 → v ≠ w → has ⟨s.at_ (.timer v), .timer v⟩ :=
    fun v starts other => (has_iff _).mpr (.inr ⟨(ok.has_iff _).mpr ⟨v, starts, rfl⟩, by simpa⟩)
  have timed : ∀ e, has e → ∃ v, e = ⟨t.at_ (.timer v), .timer v⟩ ∧
      (v ≠ w → s.active (.timer v) ≠ 0) := by
    intro e found
    rcases (has_iff e).mp found with rfl | ⟨old, other⟩
    · exact ⟨w, by rw [at_eq, Function.update_self], fun wrong => absurd rfl wrong⟩
    · obtain ⟨v, starts, rfl⟩ := (ok.has_iff e).mp old
      exact ⟨v, by rw [times _ other], fun _ => starts⟩
  have support : ∀ v, v ≠ .timer w → (t.active v ≠ 0 ↔ s.active v ≠ 0) := by
    intro v other
    rw [active_eq]
    rcases active_of_sifted heaped sifted v with ⟨⟨e, found, rfl⟩, starts⟩ | ⟨away, same⟩
    · obtain ⟨u, rfl, old⟩ := timed e found
      exact iff_of_true starts (old fun eq => other (by rw [eq]))
    · rw [same, before v other]
  refine ⟨⟨⟨mem ▸ heaped, fun e => ?_⟩, fun v kind => ?_, support, times⟩, ?_⟩
  · rw [mem, sifted.has_iff]
    constructor
    · intro found
      obtain ⟨v, rfl, -⟩ := timed e found
      exact ⟨v, active_eq ▸ ne_zero_of_heaped heaped ((sifted.has_iff _).mpr found), rfl⟩
    · rintro ⟨v, starts, rfl⟩
      by_cases here : v = w
      · rw [here, at_eq, Function.update_self]
        exact self
      · have other : W.timer v ≠ .timer w := by simpa
        rw [times _ other]
        exact inside v ((support _ other).mp starts) here
  · rw [active_eq, sifted.frame v ?_, before v (kind w)]
    rintro e found rfl
    obtain ⟨u, rfl, -⟩ := timed e found
    exact kind u rfl
  · rw [active_eq]
    exact ne_zero_of_heaped heaped ((sifted.has_iff _).mpr self)

theorem evTimerStart_active {w : ι} (starts : s.active (.timer w) ≠ 0) :
    s.evTimerStart w = s := by
  rw [evTimerStart, if_pos starts]

/-- The time at which a timer that is started expires. -/
def started (s : EvLoop T ι β) (w : ι) : ANHE T (W ι) :=
  ⟨s.at_ (.timer w) + s.mnNow, .timer w⟩

theorem evTimerStart_eq {w : ι} (rests : s.active (.timer w) = 0) :
    s.evTimerStart w = { s.priAdjust (.timer w) with
      at_ := Function.update s.at_ (.timer w) (s.at_ (.timer w) + s.mnNow)
      timercnt := s.timercnt + 1
      activecnt := s.activecnt + 1
      timermax := arrayNeedsize 16 s.timermax (s.timercnt + heap0 + 1)
      timers := (upheap (s.timerMem.put (s.timercnt + heap0) (s.started w)) (s.timercnt + heap0)).heap
      active :=
        (upheap (s.timerMem.put (s.timercnt + heap0) (s.started w)) (s.timercnt + heap0)).active } := by
  have place : s.timercnt + 1 + heap0 - 1 = s.timercnt + heap0 := by omega
  rw [evTimerStart, if_neg (not_not.mpr rests)]
  simp only [evStart, priAdjust, withTimers, timerMem, Function.update_self, place]
  rfl

theorem TimersOk.start (ok : s.TimersOk) {w : ι} (rests : s.active (.timer w) = 0) :
    TimerStep s w (s.evTimerStart w) ∧ (s.evTimerStart w).active (.timer w) ≠ 0 := by
  have fresh : ∀ e, s.timerMem.Has s.timercnt e → e.w ≠ .timer w := by
    intro e inside eq
    obtain ⟨v, starts, rfl⟩ := (ok.has_iff e).mp inside
    simp only [W.timer.injEq] at eq
    exact starts (eq ▸ rests)
  obtain ⟨heaped, sifted⟩ := ok.heaped.insert (e := s.started w) fresh
  rw [evTimerStart_eq rests]
  refine ok.step_of_sifted heaped sifted (fun e => ?_) (fun v other => ?_) rfl rfl rfl
  · exact or_congr Iff.rfl ⟨fun inside => ⟨inside, fresh e inside⟩, And.left⟩
  · rfl

/-! ## Stopping -/

/-- The heap without the timer `w`. -/
def stoppedMem (s : EvLoop T ι β) (w : ι) : HeapMem T (W ι) :=
  if s.active (.timer w) < s.timercnt - 1 + heap0 then
    adjustheap { s.timerMem with
      heap := Function.update s.timers (s.active (.timer w)) (s.timers (s.timercnt - 1 + heap0)) }
      (s.timercnt - 1) (s.active (.timer w))
  else s.timerMem

theorem evTimerStop_eq {w : ι} (starts : s.active (.timer w) ≠ 0) :
    s.evTimerStop w = { s.clearPending (.timer w) with
      timercnt := s.timercnt - 1
      timers := (s.stoppedMem w).heap
      active := Function.update (s.stoppedMem w).active (.timer w) 0
      at_ := Function.update s.at_ (.timer w) (s.at_ (.timer w) - s.mnNow)
      activecnt := s.activecnt - 1 } := by
  have same := clearPending_same s (.timer w)
  rw [evTimerStop, if_neg (by rwa [same.active_eq])]
  generalize s.clearPending (.timer w) = c at same ⊢
  rw [same.eq]
  unfold stoppedMem evStop
  by_cases inner : s.active (.timer w) < s.timercnt - 1 + heap0
  · simp only [if_pos inner, withTimers, timerMem]
  · simp only [if_neg inner, timerMem]

theorem evTimerStop_rests {w : ι} (rests : s.active (.timer w) = 0) :
    s.evTimerStop w = s.clearPending (.timer w) := by
  have same := clearPending_same s (.timer w)
  rw [evTimerStop, if_pos (by rwa [same.active_eq])]

theorem TimersOk.stop (ok : s.TimersOk) {w : ι} (starts : s.active (.timer w) ≠ 0) :
    TimerStep s w (s.evTimerStop w) ∧ (s.evTimerStop w).active (.timer w) = 0 := by
  obtain ⟨low, high, here⟩ := ok.active_eq starts
  have count : s.timercnt = s.timercnt - 1 + 1 := by omega
  have heaped := ok.heaped
  rw [count] at heaped
  have removed := heaped.remove (N := s.timercnt - 1) low (by omega)
  obtain ⟨heaped, sifted⟩ : Heaped (s.stoppedMem w) (s.timercnt - 1) ∧
      Sifted s.timerMem (fun e => s.timerMem.Has s.timercnt e ∧ e.w ≠ .timer w)
        (s.stoppedMem w) ((s.stoppedMem w).Has (s.timercnt - 1)) := by
    rw [← count] at removed
    change _ ∧ Sifted _ (fun e => _ ∧ e.w ≠ (s.timers (s.active (.timer w))).w) _ _ at removed
    rw [here] at removed
    exact removed
  have support : ∀ v, v ≠ .timer w → ((s.stoppedMem w).active v ≠ 0 ↔ s.active v ≠ 0) := by
    intro v other
    rcases active_of_sifted heaped sifted v with ⟨⟨e, found, rfl⟩, still⟩ | ⟨-, same⟩
    · obtain ⟨u, was, rfl⟩ := (ok.has_iff e).mp found.1
      exact iff_of_true still was
    · rw [same]
      rfl
  rw [evTimerStop_eq starts]
  refine ⟨⟨⟨⟨heaped.ordered, fun k low high => ?_⟩, fun e => ?_⟩, fun v kind => ?_, fun v other => ?_,
    fun v other => Function.update_of_ne other ..⟩, Function.update_self ..⟩
  · have inside : (s.stoppedMem w).Has (s.timercnt - 1) ((s.stoppedMem w).heap k) :=
      ⟨k, low, high, rfl⟩
    change Function.update (s.stoppedMem w).active _ 0 ((s.stoppedMem w).heap k).w = k
    rw [Function.update_of_ne ((sifted.has_iff _).mp inside).2]
    exact heaped.active_eq k low high
  · change (s.stoppedMem w).Has (s.timercnt - 1) e ↔ ∃ v,
      Function.update (s.stoppedMem w).active (.timer w) 0 (.timer v) ≠ 0 ∧
        e = ⟨Function.update s.at_ (.timer w) _ (.timer v), .timer v⟩
    rw [sifted.has_iff]
    constructor
    · rintro ⟨inside, other⟩
      obtain ⟨v, was, rfl⟩ := (ok.has_iff e).mp inside
      refine ⟨v, ?_, ?_⟩
      · rw [Function.update_of_ne other]
        exact (support _ other).mpr was
      · rw [Function.update_of_ne other]
    · rintro ⟨v, still, rfl⟩
      have other : W.timer v ≠ .timer w := by
        intro eq
        rw [eq, Function.update_self] at still
        exact still rfl
      rw [Function.update_of_ne other] at still ⊢
      exact ⟨(ok.has_iff _).mpr ⟨v, (support _ other).mp still, rfl⟩, other⟩
  · change Function.update (s.stoppedMem w).active (.timer w) 0 v = s.active v
    rw [Function.update_of_ne (kind w), sifted.frame v ?_]
    · rfl
    · rintro e ⟨found, -⟩ rfl
      obtain ⟨u, -, rfl⟩ := (ok.has_iff e).mp found
      exact kind u rfl
  · change Function.update (s.stoppedMem w).active (.timer w) 0 v ≠ 0 ↔ _
    rw [Function.update_of_ne other]
    exact support v other

/-! ## New times -/

/-- The heap in which the timer `w` has the time `x`. -/
def retimedMem (s : EvLoop T ι β) (w : ι) (x : T) : HeapMem T (W ι) :=
  { s.timerMem with heap := Function.update s.timers (s.active (.timer w)) ⟨x, .timer w⟩ }

/-- The loop in which the timer `w` has the time `x`, and `m` is the heap. -/
def retimed (s : EvLoop T ι β) (w : ι) (x : T) (m : HeapMem T (W ι)) : EvLoop T ι β :=
  { s with
    at_ := Function.update s.at_ (.timer w) x
    timers := m.heap
    active := m.active }

theorem cacheAt_eq (ok : s.TimersOk) {w : ι} (starts : s.active (.timer w) ≠ 0) (x : T) :
    cacheAt { s with at_ := Function.update s.at_ (.timer w) x } (s.active (.timer w)) =
      s.retimed w x (s.retimedMem w x) := by
  obtain ⟨-, -, here⟩ := ok.active_eq starts
  simp only [cacheAt, here, Function.update_self]
  rfl

theorem TimersOk.retimedMem_held (ok : s.TimersOk) {w : ι} (starts : s.active (.timer w) ≠ 0)
    (x : T) :
    Held (s.retimedMem w x) s.timercnt (s.active (.timer w))
        ((s.retimedMem w x).heap (s.active (.timer w))) ∧
      fourHeap.Holed (s.timercnt + heap0) (s.retimedMem w x).key (s.active (.timer w)) ∧
      ∀ e, (s.retimedMem w x).Has s.timercnt e ↔
        e = ⟨x, .timer w⟩ ∨ (s.timerMem.Has s.timercnt e ∧ e.w ≠ .timer w) := by
  obtain ⟨low, high, here⟩ := ok.active_eq starts
  have owner : (s.timers (s.active (.timer w))).w = .timer w := by rw [here]
  exact ok.heaped.retimed low high owner

/-- A sift puts the timer where it belongs. -/
theorem TimersOk.retime (ok : s.TimersOk) {w : ι} (starts : s.active (.timer w) ≠ 0) {x : T}
    {m : HeapMem T (W ι)}
    (settles : Settles (s.retimedMem w x) s.timercnt (s.active (.timer w)) m) :
    TimerStep s w (s.retimed w x m) ∧ (s.retimed w x m).active (.timer w) ≠ 0 :=
  ok.step_of_sifted (t := s.retimed w x m) settles.heaped settles.sifted
    (ok.retimedMem_held starts x).2.2 (fun _ _ => rfl) rfl rfl rfl

theorem TimersOk.adjust (ok : s.TimersOk) {w : ι} (starts : s.active (.timer w) ≠ 0) (x : T) :
    Settles (s.retimedMem w x) s.timercnt (s.active (.timer w))
      (adjustheap (s.retimedMem w x) s.timercnt (s.active (.timer w))) :=
  adjustheap_settles (ok.retimedMem_held starts x).1 (ok.retimedMem_held starts x).2.1

/-- From the root a timer can only go down. -/
theorem TimersOk.sink (ok : s.TimersOk) {w : ι} (starts : s.active (.timer w) ≠ 0) (x : T)
    (root : s.active (.timer w) = heap0) :
    Settles (s.retimedMem w x) s.timercnt (s.active (.timer w))
      (downheap (s.retimedMem w x) s.timercnt (s.active (.timer w))) :=
  downheap_settles (ok.retimedMem_held starts x).1
    ((ok.retimedMem_held starts x).2.1.sinking fun behind => absurd root behind.ne')

theorem TimersOk.of_same (ok : s.TimersOk) (same : SameBut s t) : t.TimersOk := by
  rw [same.eq]
  exact ok.congr rfl rfl (fun _ => rfl) fun _ _ => rfl

theorem TimerStep.of_same {c : EvLoop T ι β} {w : ι} (same : SameBut s c) (step : TimerStep c w t) :
    TimerStep s w t where
  ok := step.ok
  kinds v kind := by rw [step.kinds v kind, same.active_eq]
  others v other := by rw [step.others v other, same.active_eq]
  times v other := by rw [step.times v other, same.eq]

theorem TimerStep.refl_of_same (ok : s.TimersOk) (w : ι) (same : SameBut s t) : TimerStep s w t where
  ok := ok.of_same same
  kinds v _ := by rw [same.active_eq]
  others v _ := by rw [same.active_eq]
  times v _ := by rw [same.eq]

/-- The time of a timer at rest is its own affair. -/
theorem TimersOk.set_at (ok : s.TimersOk) {w : ι} (rests : s.active (.timer w) = 0) (x : T) :
    TimerStep s w { s with at_ := Function.update s.at_ (.timer w) x } where
  ok := ok.congr rfl rfl (fun _ => rfl) fun v starts => by
    refine Function.update_of_ne (fun eq => starts ?_) ..
    rw [eq, rests]
  kinds _ _ := rfl
  others _ _ := Iff.rfl
  times v other := Function.update_of_ne other ..

theorem TimerStep.trans {c : EvLoop T ι β} {w : ι} (first : TimerStep s w c)
    (second : TimerStep c w t) : TimerStep s w t where
  ok := second.ok
  kinds v kind := (second.kinds v kind).trans (first.kinds v kind)
  others v other := (second.others v other).trans (first.others v other)
  times v other := (second.times v other).trans (first.times v other)

/-- `ev_timer_stop`, whether or not the timer is active. -/
theorem TimersOk.stop_any (ok : s.TimersOk) (w : ι) :
    TimerStep s w (s.evTimerStop w) ∧ (s.evTimerStop w).active (.timer w) = 0 := by
  by_cases rests : s.active (.timer w) = 0
  · rw [evTimerStop_rests rests]
    have same := clearPending_same s (.timer w)
    exact ⟨.refl_of_same ok w same, by rwa [same.active_eq]⟩
  · exact ok.stop rests

/-- A repeating timer runs afterwards, any other one does not. -/
theorem TimersOk.again (ok : s.TimersOk) (w : ι) :
    TimerStep s w (s.evTimerAgain w) ∧
      ((s.evTimerAgain w).active (.timer w) ≠ 0 ↔ s.repeat_ w ≠ 0) := by
  have same := clearPending_same s (.timer w)
  have ok := ok.of_same same
  have repeat_eq : (s.clearPending (.timer w)).repeat_ = s.repeat_ := by rw [same.eq]
  unfold evTimerAgain
  rw [← repeat_eq]
  generalize s.clearPending (.timer w) = c at same ok ⊢
  dsimp only
  by_cases starts : c.active (.timer w) ≠ 0
  · rw [if_pos starts]
    by_cases repeats : c.repeat_ w ≠ 0
    · rw [if_pos repeats]
      change TimerStep s w (withTimers (cacheAt _ (c.active (.timer w))) _) ∧ _
      rw [cacheAt_eq ok starts]
      obtain ⟨step, runs⟩ := ok.retime starts (ok.adjust starts (c.mnNow + c.repeat_ w))
      exact ⟨step.of_same same, iff_of_true runs repeats⟩
    · rw [if_neg repeats]
      obtain ⟨step, stopped⟩ := ok.stop_any w
      exact ⟨step.of_same same, iff_of_false (not_not.mpr stopped) repeats⟩
  · rw [if_neg starts]
    have rests := not_not.mp starts
    by_cases repeats : c.repeat_ w ≠ 0
    · rw [if_pos repeats]
      have set := ok.set_at rests (c.repeat_ w)
      obtain ⟨step, runs⟩ := set.ok.start (w := w) rests
      exact ⟨(set.trans step).of_same same, iff_of_true runs repeats⟩
    · rw [if_neg repeats]
      exact ⟨(TimerStep.refl_of_same ok w (.refl c)).of_same same, iff_of_false starts repeats⟩

/-! ## Expiring -/

/-- The time that a repeating timer has after it has expired. -/
def rescheduled (s : EvLoop T ι β) (w : ι) : T :=
  if s.at_ (.timer w) + s.repeat_ w < s.mnNow then s.mnNow else s.at_ (.timer w) + s.repeat_ w

theorem le_rescheduled (s : EvLoop T ι β) (w : ι) : s.mnNow ≤ s.rescheduled w := by
  unfold rescheduled
  split
  · exact le_refl _
  · exact not_lt.mp (by assumption)

theorem expire_repeats (ok : s.TimersOk) {w : ι} (starts : s.active (.timer w) ≠ 0)
    (root : s.active (.timer w) = heap0) (repeats : s.repeat_ w ≠ 0) :
    s.expire w = (s.retimed w (s.rescheduled w)
      (downheap (s.retimedMem w (s.rescheduled w)) s.timercnt (s.active (.timer w)))).feedReverse
        (.timer w) := by
  have late : (if Function.update s.at_ (.timer w) (s.at_ (.timer w) + s.repeat_ w) (.timer w) <
        s.mnNow then
      { s with at_ := Function.update (Function.update s.at_ (.timer w)
          (s.at_ (.timer w) + s.repeat_ w)) (.timer w) s.mnNow }
      else { s with at_ := Function.update s.at_ (.timer w) (s.at_ (.timer w) + s.repeat_ w) }) =
      { s with at_ := Function.update s.at_ (.timer w) (s.rescheduled w) } := by
    simp only [Function.update_self, Function.update_idem, rescheduled]
    split <;> rfl
  unfold expire
  rw [if_pos repeats]
  dsimp only
  rw [late, ← root, cacheAt_eq ok starts]
  rfl

theorem expire_once {w : ι} (once : s.repeat_ w = 0) :
    s.expire w = (s.evTimerStop w).feedReverse (.timer w) := by
  rw [expire, if_neg (not_not.mpr once)]

/-- The timer `w` expires when `timers_reify` looks. -/
def Due (s : EvLoop T ι β) (w : ι) : Prop :=
  s.active (.timer w) ≠ 0 ∧ s.at_ (.timer w) < s.mnNow

/-- A watcher that `timers_reify` stops when it is in `ws`. -/
def Stops (s : EvLoop T ι β) (ws : List ι) (v : W ι) : Prop :=
  ∃ w ∈ ws, v = .timer w ∧ s.repeat_ w = 0

instance (ws : List ι) (v : W ι) : Decidable (s.Stops ws v) :=
  inferInstanceAs (Decidable (∃ w ∈ ws, v = .timer w ∧ s.repeat_ w = 0))

/-- `t` differs from `s` at most in its timers and in what is pending. -/
structure SameButTimers (s t : EvLoop T ι β) : Prop where
  eq : t = { s with
    active := t.active, at_ := t.at_, activecnt := t.activecnt, timers := t.timers,
    timercnt := t.timercnt, pending := t.pending, pendings := t.pendings,
    pendingmax := t.pendingmax, pendingpri := t.pendingpri, rfeeds := t.rfeeds,
    rfeedmax := t.rfeedmax }

theorem SameButTimers.trans {u : EvLoop T ι β} (first : SameButTimers s t)
    (second : SameButTimers t u) : SameButTimers s u := by
  refine ⟨?_⟩
  rw [second.eq, first.eq]

theorem SameButTimers.of_same (same : SameBut s t) : SameButTimers s t := by
  refine ⟨?_⟩
  rw [same.eq]

/-- How many of the timers `ws` do not repeat. -/
def once (s : EvLoop T ι β) (ws : List ι) : Nat := ws.countP fun w => s.repeat_ w = 0

/-- `t` is `s` after the timers `ws` have expired one after the other. -/
structure Expires (s : EvLoop T ι β) (ws : List ι) (t : EvLoop T ι β) : Prop where
  ok : t.TimersOk
  queued : t.Queued
  same : SameButTimers s t
  activecnt_eq : t.activecnt = s.activecnt - s.once ws
  timercnt_eq : s.timercnt = t.timercnt + s.once ws
  rfeeds_eq : t.rfeeds = s.rfeeds ++ ws.map .timer
  kinds : ∀ v, (∀ u, v ≠ .timer u) → t.active v = s.active v ∧ t.at_ v = s.at_ v
  due : ∀ w ∈ ws, s.Due w
  nodup : ws.Nodup
  sorted : ws.Pairwise fun w v => s.at_ (.timer w) ≤ s.at_ (.timer v)
  repeated : ∀ w ∈ ws, s.repeat_ w ≠ 0 →
    t.active (.timer w) ≠ 0 ∧ t.at_ (.timer w) = s.rescheduled w
  stopped : ∀ w ∈ ws, s.repeat_ w = 0 →
    t.active (.timer w) = 0 ∧ t.at_ (.timer w) = s.at_ (.timer w) - s.mnNow
  kept : ∀ w, w ∉ ws → (t.active (.timer w) ≠ 0 ↔ s.active (.timer w) ≠ 0) ∧
    t.at_ (.timer w) = s.at_ (.timer w)
  waiting_stopped : ∀ v, s.Stops ws v → t.waiting v = none
  waiting_kept : ∀ v, ¬s.Stops ws v → t.waiting v = s.waiting v
  line_eq : ∀ pri, t.line pri = (s.line pri).filter fun v => t.waiting v ≠ none

namespace Expires

variable {ws : List ι}

theorem mnNow_eq (expires : Expires s ws t) : t.mnNow = s.mnNow := by rw [expires.same.eq]

theorem repeat_eq (expires : Expires s ws t) : t.repeat_ = s.repeat_ := by rw [expires.same.eq]

theorem priority_eq (expires : Expires s ws t) : t.priority = s.priority := by
  rw [expires.same.eq]

end Expires

/-- The root is the timer that expires first. -/
theorem TimersOk.root (ok : s.TimersOk) (filled : 0 < s.timercnt) :
    ∃ w, s.timers heap0 = ⟨s.at_ (.timer w), .timer w⟩ ∧ s.active (.timer w) = heap0 ∧
      ∀ v, s.active (.timer v) ≠ 0 → s.at_ (.timer w) ≤ s.at_ (.timer v) := by
  obtain ⟨w, starts, here⟩ := (ok.has_iff (s.timers heap0)).mp
    ⟨heap0, le_refl _, by omega, rfl⟩
  have index := ok.heaped.active_eq heap0 (le_refl _) (by omega)
  change s.active (s.timers heap0).w = heap0 at index
  refine ⟨w, here, by rwa [here] at index, fun v runs => ?_⟩
  have le := ok.heaped.root_le ((ok.has_iff _).mpr ⟨v, runs, rfl⟩)
  change (s.timers heap0).at_ ≤ _ at le
  rwa [here] at le

/-- Without timers, or when the root is not late, nothing is due. -/
theorem TimersOk.not_due (ok : s.TimersOk)
    (ends : ¬(0 < s.timercnt ∧ (s.timers heap0).at_ < s.mnNow)) (w : ι) : ¬s.Due w := by
  rintro ⟨runs, late⟩
  obtain ⟨low, high, -⟩ := ok.active_eq runs
  obtain ⟨v, here, -, least⟩ := ok.root (by omega)
  exact ends ⟨by omega, by rw [here]; exact (least w runs).trans_lt late⟩

theorem Expires.refl (ok : s.TimersOk) (queued : s.Queued) : Expires s [] s where
  ok := ok
  queued := queued
  same := ⟨rfl⟩
  activecnt_eq := by simp [once]
  timercnt_eq := by simp [once]
  rfeeds_eq := (List.append_nil _).symm
  kinds _ _ := ⟨rfl, rfl⟩
  due _ inside := absurd inside List.not_mem_nil
  nodup := .nil
  sorted := .nil
  repeated _ inside := absurd inside List.not_mem_nil
  stopped _ inside := absurd inside List.not_mem_nil
  kept _ _ := ⟨Iff.rfl, rfl⟩
  waiting_stopped v stops := by
    obtain ⟨w, inside, -⟩ := stops
    exact absurd inside List.not_mem_nil
  waiting_kept _ _ := rfl
  line_eq _ := (List.filter_eq_self.mpr fun _ inside =>
    decide_eq_true (queued.mem_line.mp inside).1).symm

/-- A repeating timer at the root expires. -/
theorem TimersOk.expires_repeats (ok : s.TimersOk) (queued : s.Queued) {w : ι} (due : s.Due w)
    (root : s.active (.timer w) = heap0) (repeats : s.repeat_ w ≠ 0) :
    Expires s [w] (s.expire w) := by
  obtain ⟨step, runs⟩ := ok.retime due.1 (ok.sink due.1 (s.rescheduled w) root)
  rw [expire_repeats ok due.1 root repeats]
  have queues : SameQueues s ((s.retimed w (s.rescheduled w)
      (downheap (s.retimedMem w (s.rescheduled w)) s.timercnt (s.active (.timer w)))).feedReverse
        (.timer w)) := ⟨rfl, rfl, rfl, rfl⟩
  have none_stops : ∀ v, ¬s.Stops [w] v := by
    rintro v ⟨u, inside, -, once⟩
    rw [List.mem_singleton.mp inside] at once
    exact repeats once
  have none_once : s.once [w] = 0 := by simp [EvLoop.once, repeats]
  refine ⟨step.ok.congr rfl rfl (fun _ => rfl) fun _ _ => rfl, queues.queued queued, ⟨rfl⟩, ?_, ?_,
    rfl, fun v kind => ⟨step.kinds v kind, step.times v (kind w)⟩, ?_, List.nodup_singleton w,
    List.pairwise_singleton .., ?_, ?_, ?_, ?_, fun v _ => by rw [queues.waiting_eq], fun pri => ?_⟩
  · rw [none_once]
    exact (Int.sub_zero _).symm
  · rw [none_once]
    rfl
  · intro v inside
    exact List.mem_singleton.mp inside ▸ due
  · intro v inside _
    rw [List.mem_singleton.mp inside]
    exact ⟨runs, Function.update_self ..⟩
  · intro v inside once
    exact absurd once (List.mem_singleton.mp inside ▸ repeats)
  · intro v outside
    have other : W.timer v ≠ .timer w := by simpa using outside
    exact ⟨step.others _ other, step.times _ other⟩
  · exact fun v stops => absurd stops (none_stops v)
  · rw [queues.line_eq, queues.waiting_eq]
    exact (List.filter_eq_self.mpr fun _ inside =>
      decide_eq_true (queued.mem_line.mp inside).1).symm

/-- A timer at the root that does not repeat expires. -/
theorem TimersOk.expires_once (ok : s.TimersOk) (queued : s.Queued) {w : ι} (due : s.Due w)
    (once : s.repeat_ w = 0) : Expires s [w] (s.expire w) := by
  obtain ⟨step, stopped⟩ := ok.stop due.1
  have same := clearPending_same s (.timer w)
  rw [expire_once once]
  have queues : SameQueues (s.clearPending (.timer w))
      ((s.evTimerStop w).feedReverse (.timer w)) := by
    rw [evTimerStop_eq due.1]
    exact ⟨rfl, rfl, rfl, rfl⟩
  have stops_iff : ∀ v, s.Stops [w] v ↔ v = .timer w := by
    intro v
    constructor
    · rintro ⟨u, inside, rfl, -⟩
      rw [List.mem_singleton.mp inside]
    · rintro rfl
      exact ⟨w, List.mem_singleton_self w, rfl, once⟩
  have waits : ∀ v, ((s.evTimerStop w).feedReverse (.timer w)).waiting v =
      if v = .timer w then none else s.waiting v := by
    intro v
    rw [queues.waiting_eq, queued.waiting_clear]
  have one_once : s.once [w] = 1 := by simp [EvLoop.once, once]
  obtain ⟨low, high, -⟩ := ok.active_eq due.1
  refine ⟨step.ok.congr rfl rfl (fun _ => rfl) fun _ _ => rfl, queues.queued (queued.clear _), ?_,
    ?_, ?_, ?_, fun v kind => ⟨step.kinds v kind, step.times v (kind w)⟩, ?_,
    List.nodup_singleton w, List.pairwise_singleton .., ?_, ?_, ?_, ?_, ?_, fun pri => ?_⟩
  · rw [evTimerStop_eq due.1, same.eq]
    exact ⟨rfl⟩
  · rw [one_once, evTimerStop_eq due.1]
    rfl
  · rw [one_once, evTimerStop_eq due.1]
    change s.timercnt = s.timercnt - 1 + 1
    omega
  · rw [evTimerStop_eq due.1]
    exact congrArg (· ++ [W.timer w]) (clearPending_rfeeds s _)
  · intro v inside
    exact List.mem_singleton.mp inside ▸ due
  · intro v inside repeats
    exact absurd once (List.mem_singleton.mp inside ▸ repeats)
  · intro v inside _
    rw [List.mem_singleton.mp inside]
    refine ⟨stopped, ?_⟩
    rw [evTimerStop_eq due.1]
    exact Function.update_self ..
  · intro v outside
    have other : W.timer v ≠ .timer w := by simpa using outside
    exact ⟨step.others _ other, step.times _ other⟩
  · intro v stops
    rw [waits, if_pos ((stops_iff v).mp stops)]
  · intro v goes_on
    rw [waits, if_neg fun here => goes_on ((stops_iff v).mpr here)]
  · rw [queues.line_eq, queued.line_clear]
    refine List.filter_congr fun v inside => ?_
    rw [waits]
    by_cases here : v = .timer w
    · simp [here]
    · simpa [here] using (queued.mem_line.mp inside).1

/-- The least timer expires before the others. -/
theorem Expires.cons {c : EvLoop T ι β} {w : ι} {ws : List ι} (first : Expires s [w] c)
    (rest : Expires c ws t)
    (least : ∀ v, s.active (.timer v) ≠ 0 → s.at_ (.timer w) ≤ s.at_ (.timer v)) :
    Expires s (w :: ws) t := by
  have due := first.due w (List.mem_singleton_self w)
  have fresh : w ∉ ws := by
    intro inside
    obtain ⟨runs, late⟩ := rest.due w inside
    by_cases repeats : s.repeat_ w = 0
    · exact runs (first.stopped w (List.mem_singleton_self w) repeats).1
    · rw [(first.repeated w (List.mem_singleton_self w) repeats).2, first.mnNow_eq] at late
      exact absurd (s.le_rescheduled w) (not_le.mpr late)
  have other : ∀ v ∈ ws, v ∉ [w] := by
    intro v inside here
    exact fresh (List.mem_singleton.mp here ▸ inside)
  have stops : ∀ v, s.Stops (w :: ws) v ↔ s.Stops [w] v ∨ c.Stops ws v := by
    intro v
    simp only [Stops, first.repeat_eq, List.mem_cons, List.not_mem_nil, or_false]
    constructor
    · rintro ⟨u, rfl | inside, rfl, once⟩
      · exact .inl ⟨u, rfl, rfl, once⟩
      · exact .inr ⟨u, inside, rfl, once⟩
    · rintro (⟨u, rfl, rfl, once⟩ | ⟨u, inside, rfl, once⟩)
      · exact ⟨u, .inl rfl, rfl, once⟩
      · exact ⟨u, .inr inside, rfl, once⟩
  have old_due : ∀ v ∈ ws, s.Due v := by
    intro v inside
    obtain ⟨runs, late⟩ := rest.due v inside
    obtain ⟨still, time⟩ := first.kept v (other v inside)
    exact ⟨still.mp runs, by rwa [time, first.mnNow_eq] at late⟩
  have count : s.once (w :: ws) = s.once [w] + c.once ws := by
    unfold once
    rw [first.repeat_eq, ← List.countP_append, List.singleton_append]
  refine ⟨rest.ok, rest.queued, first.same.trans rest.same, ?_, ?_, ?_, fun v kind =>
    ⟨(rest.kinds v kind).1.trans (first.kinds v kind).1,
      (rest.kinds v kind).2.trans (first.kinds v kind).2⟩, ?_,
    List.nodup_cons.mpr ⟨fresh, rest.nodup⟩,
    List.pairwise_cons.mpr ⟨fun v inside => least v (old_due v inside).1, ?_⟩, ?_, ?_, ?_, ?_, ?_, ?_⟩
  · rw [rest.activecnt_eq, first.activecnt_eq, count]
    omega
  · have now := first.timercnt_eq
    have later := rest.timercnt_eq
    omega
  · rw [rest.rfeeds_eq, first.rfeeds_eq, List.append_assoc]
    rfl
  · rintro v (_ | ⟨_, inside⟩)
    · exact due
    · exact old_due v inside
  · refine rest.sorted.imp_of_mem fun {u v} inside inside' le => ?_
    rwa [(first.kept u (other u inside)).2, (first.kept v (other v inside')).2] at le
  · rintro v (_ | ⟨_, inside⟩) repeats
    · obtain ⟨runs, time⟩ := first.repeated w (List.mem_singleton_self w) repeats
      obtain ⟨still, time'⟩ := rest.kept w fresh
      exact ⟨still.mpr runs, time'.trans time⟩
    · obtain ⟨runs, time⟩ := rest.repeated v inside (first.repeat_eq ▸ repeats)
      refine ⟨runs, time.trans ?_⟩
      simp only [rescheduled, first.repeat_eq, first.mnNow_eq, (first.kept v (other v inside)).2]
  · rintro v (_ | ⟨_, inside⟩) once
    · obtain ⟨stopped, time⟩ := first.stopped w (List.mem_singleton_self w) once
      obtain ⟨still, time'⟩ := rest.kept w fresh
      exact ⟨not_not.mp (mt still.mp (not_not.mpr stopped)), time'.trans time⟩
    · obtain ⟨stopped, time⟩ := rest.stopped v inside (first.repeat_eq ▸ once)
      refine ⟨stopped, time.trans ?_⟩
      rw [(first.kept v (other v inside)).2, first.mnNow_eq]
  · intro v outside
    have away : v ∉ [w] := fun here => outside (List.mem_cons.mpr (.inl (List.mem_singleton.mp here)))
    have outside := List.not_mem_of_not_mem_cons outside
    exact ⟨(rest.kept v outside).1.trans (first.kept v away).1,
      (rest.kept v outside).2.trans (first.kept v away).2⟩
  · intro v stopped
    by_cases later : c.Stops ws v
    · exact rest.waiting_stopped v later
    · rw [rest.waiting_kept v later]
      exact first.waiting_stopped v (((stops v).mp stopped).resolve_right later)
  · intro v goes_on
    rw [rest.waiting_kept v fun later => goes_on ((stops v).mpr (.inr later)),
      first.waiting_kept v fun now => goes_on ((stops v).mpr (.inl now))]
  · intro pri
    rw [rest.line_eq, first.line_eq, List.filter_filter]
    refine List.filter_congr fun v _ => ?_
    by_cases later : c.Stops ws v
    · simp [rest.waiting_stopped v later]
    · simp [rest.waiting_kept v later]

theorem TimersOk.expires (ok : s.TimersOk) (queued : s.Queued) {w : ι} (due : s.Due w)
    (root : s.active (.timer w) = heap0) : Expires s [w] (s.expire w) := by
  by_cases repeats : s.repeat_ w ≠ 0
  · exact ok.expires_repeats queued due root repeats
  · exact ok.expires_once queued due (not_not.mp repeats)

/-- The loop of `timers_reify` ends when no timer is due, unless the turns do not suffice. -/
theorem expireLoop_spec (fuel : Nat) (ok : s.TimersOk) (queued : s.Queued) :
    ∃ ws, Expires s ws (expireLoop fuel s) ∧
      ((∀ w, ¬(expireLoop fuel s).Due w) ∨ ws.length = fuel) := by
  induction fuel generalizing s with
  | zero => exact ⟨[], .refl ok queued, .inr rfl⟩
  | succ fuel ih =>
      by_cases goes_on : 0 < s.timercnt ∧ (s.timers heap0).at_ < s.mnNow
      · obtain ⟨w, here, root, least⟩ := ok.root goes_on.1
        have due : s.Due w := by
          refine ⟨fun zero => ?_, ?_⟩
          · rw [root] at zero
            exact absurd zero (by decide)
          · have late := goes_on.2
            rwa [here] at late
        have turn : expireLoop (fuel + 1) s = expireLoop fuel (s.expire w) := by
          rw [here] at goes_on
          simp only [expireLoop, here, goes_on, and_self, if_true]
        have first := ok.expires queued due root
        obtain ⟨ws, rest, ends⟩ := ih first.ok first.queued
        rw [turn]
        exact ⟨w :: ws, first.cons rest least, ends.imp_right fun all => by
          rw [List.length_cons, all]⟩
      · have turn : expireLoop (fuel + 1) s = s := by
          unfold expireLoop
          split
          · rw [if_neg goes_on]
          · rfl
        rw [turn]
        exact ⟨[], .refl ok queued, .inl (ok.not_due goes_on)⟩

/-- There are at most `timercnt` active timers, and a list as long as that has all of them. -/
theorem TimersOk.mem_of_timercnt (ok : s.TimersOk) {ws : List ι} (nodup : ws.Nodup)
    (starts : ∀ w ∈ ws, s.active (.timer w) ≠ 0) (many : s.timercnt ≤ ws.length) {v : ι}
    (runs : s.active (.timer v) ≠ 0) : v ∈ ws := by
  refine mem_of_many (fun w => s.active (.timer w)) heap0 ?_ ?_ nodup starts many runs
  · intro w w' runs runs' same
    have here := (ok.active_eq runs).2.2
    rw [same, (ok.active_eq runs').2.2] at here
    exact W.timer.inj (congrArg ANHE.w here).symm
  · exact fun w runs => ⟨(ok.active_eq runs).1, (ok.active_eq runs).2.1⟩

/-- `t` is `s` after `timers_reify`: the timers `ws` were due, the first of them first. -/
structure Reified (s : EvLoop T ι β) (ws : List ι) (t : EvLoop T ι β) : Prop where
  ok : t.TimersOk
  queued : t.Queued
  /-- Nothing else changes: neither the descriptors nor the other watchers nor the backend. -/
  same : SameButTimers s t
  activecnt_eq : t.activecnt = s.activecnt - s.once ws
  timercnt_eq : s.timercnt = t.timercnt + s.once ws
  rfeeds_eq : t.rfeeds = []
  mem_iff : ∀ w, w ∈ ws ↔ s.Due w
  nodup : ws.Nodup
  sorted : ws.Pairwise fun w v => s.at_ (.timer w) ≤ s.at_ (.timer v)
  none_due : ∀ w, ¬t.Due w
  repeated : ∀ w, s.Due w → s.repeat_ w ≠ 0 → t.active (.timer w) ≠ 0 ∧
    t.at_ (.timer w) = s.rescheduled w ∧
    t.waiting (.timer w) = some ((s.waiting (.timer w)).getD 0 ||| evTimer)
  stopped : ∀ w, s.Due w → s.repeat_ w = 0 → t.active (.timer w) = 0 ∧
    t.at_ (.timer w) = s.at_ (.timer w) - s.mnNow ∧ t.waiting (.timer w) = some evTimer
  kept : ∀ w, ¬s.Due w → (t.active (.timer w) ≠ 0 ↔ s.active (.timer w) ≠ 0) ∧
    t.at_ (.timer w) = s.at_ (.timer w) ∧ t.waiting (.timer w) = s.waiting (.timer w)
  kinds : ∀ v, (∀ u, v ≠ .timer u) →
    t.active v = s.active v ∧ t.at_ v = s.at_ v ∧ t.waiting v = s.waiting v
  /-- The timers that become pending are called in the order of their times. -/
  line_eq : ∀ pri, t.line pri = ((s.line pri).filter fun v => ¬s.Stops ws v) ++
    (ws.map .timer).reverse.filter fun v =>
      s.abspri v = pri ∧ (s.waiting v = none ∨ s.Stops ws v)

theorem Expires.reified {ws : List ι} (queued : s.Queued) (rests : s.rfeeds = [])
    (ranged : ∀ w, s.active (.timer w) ≠ 0 → s.Ranged (.timer w)) (expires : Expires s ws t)
    (all : ∀ w, ¬t.Due w) : Reified s ws (t.feedReverseDone evTimer) := by
  have rfeeds_eq : t.rfeeds.reverse = (ws.map .timer).reverse := by
    rw [expires.rfeeds_eq, rests, List.nil_append]
  have abspri_eq : t.abspri = s.abspri := by
    funext v
    simp only [abspri, expires.priority_eq]
  have fits : ∀ v ∈ (ws.map .timer).reverse, t.Ranged v ∧ v ≠ .pendingW := by
    intro v member
    obtain ⟨w, inside, rfl⟩ := List.mem_map.mp (List.mem_reverse.mp member)
    refine ⟨?_, fun wrong => by cases wrong⟩
    rw [Ranged, expires.priority_eq]
    exact ranged w (expires.due w inside).1
  have nodup : (ws.map (W.timer (ι := ι))).reverse.Nodup :=
    List.nodup_reverse.mpr (expires.nodup.map fun _ _ => W.timer.inj)
  have feeds := expires.queued.feeds_foldl (ws.map .timer).reverse (fun v => (v, evTimer)) fits
  have lines := expires.queued.line_feeds evTimer nodup fits
  have queues : SameQueues ((ws.map .timer).reverse.foldl
      (fun s w => s.evFeedEvent w evTimer) t) (t.feedReverseDone evTimer) := by
    rw [feedReverseDone, rfeeds_eq]
    exact ⟨rfl, rfl, rfl, rfl⟩
  have same : SameBut t (t.feedReverseDone evTimer) := by
    rw [feedReverseDone, rfeeds_eq, feeds.same.eq]
    exact ⟨rfl⟩
  have waits : ∀ v, (t.feedReverseDone evTimer).waiting v =
      if v ∈ ws.map .timer then some ((t.waiting v).getD 0 ||| evTimer) else t.waiting v := by
    intro v
    rw [queues.waiting_eq, feeds.waiting_eq, foldl_fed]
    simp only [List.mem_reverse]
  have mem_iff : ∀ w, w ∈ ws ↔ s.Due w := by
    refine fun w => ⟨expires.due w, fun due => ?_⟩
    by_contra outside
    obtain ⟨still, time⟩ := expires.kept w outside
    exact all w ⟨still.mpr due.1, by rw [time, expires.mnNow_eq]; exact due.2⟩
  have goes_on : ∀ w, s.repeat_ w ≠ 0 → ¬s.Stops ws (.timer w) := by
    rintro w repeats ⟨u, -, eq, once⟩
    rw [← W.timer.inj eq] at once
    exact repeats once
  have mem_timer : ∀ w, W.timer w ∈ ws.map .timer ↔ w ∈ ws := fun w =>
    List.mem_map_of_injective fun _ _ => W.timer.inj
  refine ⟨expires.ok.of_same same, queues.queued feeds.queued, expires.same.trans (.of_same same),
    by rw [same.eq]; exact expires.activecnt_eq, by rw [same.eq]; exact expires.timercnt_eq, rfl,
    mem_iff, expires.nodup, expires.sorted, fun w => ?_, fun w due repeats => ?_,
    fun w due once => ?_, fun w later => ?_, fun v kind => ?_, fun pri => ?_⟩
  · rw [Due, same.eq]
    exact all w
  · obtain ⟨runs, time⟩ := expires.repeated w ((mem_iff w).mpr due) repeats
    refine ⟨by rwa [same.active_eq], by rw [same.eq]; exact time, ?_⟩
    rw [waits, if_pos ((mem_timer w).mpr ((mem_iff w).mpr due)),
      expires.waiting_kept _ (goes_on w repeats)]
  · obtain ⟨stopped, time⟩ := expires.stopped w ((mem_iff w).mpr due) once
    refine ⟨by rw [same.active_eq, stopped], by rw [same.eq]; exact time, ?_⟩
    rw [waits, if_pos ((mem_timer w).mpr ((mem_iff w).mpr due)),
      expires.waiting_stopped _ ⟨w, (mem_iff w).mpr due, rfl, once⟩]
    rfl
  · have outside : w ∉ ws := fun inside => later ((mem_iff w).mp inside)
    obtain ⟨still, time⟩ := expires.kept w outside
    refine ⟨by rwa [same.active_eq], by rw [same.eq]; exact time, ?_⟩
    rw [waits, if_neg fun inside => outside ((mem_timer w).mp inside), expires.waiting_kept]
    rintro ⟨u, inside, eq, -⟩
    exact outside (W.timer.inj eq ▸ inside)
  · have outside : v ∉ ws.map .timer := by
      intro inside
      obtain ⟨w, -, rfl⟩ := List.mem_map.mp inside
      exact kind w rfl
    refine ⟨by rw [same.active_eq, (expires.kinds v kind).1], by
      rw [same.eq]; exact (expires.kinds v kind).2, ?_⟩
    rw [waits, if_neg outside, expires.waiting_kept]
    rintro ⟨u, -, rfl, -⟩
    exact kind u rfl
  · rw [queues.line_eq, lines, expires.line_eq, abspri_eq]
    refine congrArg₂ _ (List.filter_congr fun v inside => ?_) (List.filter_congr fun v inside => ?_)
    · have waited := (queued.mem_line.mp inside).1
      by_cases stops : s.Stops ws v
      · simp [expires.waiting_stopped v stops, stops]
      · simp [expires.waiting_kept v stops, stops, waited]
    · by_cases stops : s.Stops ws v
      · simp [expires.waiting_stopped v stops, stops]
      · simp [expires.waiting_kept v stops, stops, and_comm]

/-- Each timer that is due expires once, and nothing else happens to any timer. -/
theorem timersReify_expires (ok : s.TimersOk) (queued : s.Queued) (rests : s.rfeeds = [])
    (ranged : ∀ w, s.active (.timer w) ≠ 0 → s.Ranged (.timer w)) :
    ∃ ws, Reified s ws s.timersReify := by
  unfold timersReify
  split
  · obtain ⟨ws, expires, ends⟩ := expireLoop_spec s.timercnt ok queued
    refine ⟨ws, expires.reified queued rests ranged fun w due => ?_⟩
    rcases ends with ends | full
    · exact ends w due
    · have starts : ∀ v ∈ ws, s.active (.timer v) ≠ 0 := fun v inside => (expires.due v inside).1
      by_cases inside : w ∈ ws
      · by_cases repeats : s.repeat_ w = 0
        · exact due.1 (expires.stopped w inside repeats).1
        · have late := due.2
          rw [(expires.repeated w inside repeats).2, expires.mnNow_eq] at late
          exact absurd (s.le_rescheduled w) (not_le.mpr late)
      · exact inside (ok.mem_of_timercnt expires.nodup starts full.ge
          ((expires.kept w inside).1.mp due.1))
  · rename_i ends
    have none_due := ok.not_due ends
    have none_stops : ∀ v, ¬s.Stops [] v := by
      rintro v ⟨w, inside, -⟩
      cases inside
    refine ⟨[], ok, queued, ⟨rfl⟩, by simp [once], by simp [once], rests, fun w => iff_of_false List.not_mem_nil (none_due w), .nil, .nil,
      none_due, fun w due => absurd due (none_due w), fun w due => absurd due (none_due w),
      fun _ _ => ⟨Iff.rfl, rfl, rfl⟩, fun _ _ => ⟨rfl, rfl, rfl⟩, fun pri => ?_⟩
    simp [none_stops]

end EvLoop

end CLibs.Libev
