import CLibs.Libev.Verify

/-!
# What the functions of the loop do to pending events

Each function adds to the events that some watchers wait to be called with, and takes what
other watchers have waited for.
-/

set_option autoImplicit false
set_option linter.unusedSectionVars false

open CLibs.General

namespace CLibs.Libev

namespace EvLoop

variable {T ι β : Type} [Tstamp T] [DecidableEq ι] {s t : EvLoop T ι β} {i : Nat} {v : W ι}

/-- What a watcher waits for when its events are gone or were fed to it, in this order. -/
def account (gone : Bool) (fed : Option Events) (waits : Option Events) :
    Option Events :=
  let kept := if gone then none else waits
  match fed with
  | none => kept
  | some revents => some (kept.getD 0 ||| revents)

/-- A change of priorities is not seen by the watchers that are pending. -/
theorem waiting_reprioritized (pending_eq : t.pending = s.pending)
    (pendings_eq : t.pendings = s.pendings)
    (priority_eq : ∀ w, s.pending w ≠ 0 → t.priority w = s.priority w) : t.waiting = s.waiting := by
  funext w
  unfold waiting
  rw [pending_eq, pendings_eq]
  split
  · rfl
  · rename_i pends
    rw [abspri, priority_eq w pends]
    rfl

theorem Queued.waiting_starts (queued : s.Queued) {w : W ι} (starts : Starts s w t)
    (pending_eq : t.pending = s.pending) (pendings_eq : t.pendings = s.pendings) :
    t.waiting = s.waiting :=
  waiting_reprioritized pending_eq pendings_eq fun u pends =>
    starts.priority_of_ranged (queued.ranged u pends)

/-! ## Starting and stopping -/

theorem GoodFrom.waiting_io_start (good : s.GoodFrom i) (w : ι) :
    (s.evIoStart w).waiting = s.waiting := by
  by_cases off : s.active (.io w) = 0
  · have eq := evIoStart_eq good.fds.outside off
    exact good.queued.waiting_starts (evIoStart_starts good.fds off) (by rw [eq]; rfl)
      (by rw [eq]; rfl)
  · rw [evIoStart, if_pos off]

theorem GoodFrom.waiting_io_stop (good : s.GoodFrom i) (w : ι) (v : W ι) :
    (s.evIoStop w).waiting v = if v = .io w then none else s.waiting v := by
  rw [← good.queued.waiting_clear]
  by_cases on : s.active (.io w) = 0
  · rw [evIoStop_rests on]
  · rw [evIoStop_eq on]
    exact congrFun (SameQueues.waiting_eq ⟨rfl, rfl, rfl, rfl⟩) v

theorem GoodFrom.waiting_timer_start (good : s.GoodFrom i) (w : ι) :
    (s.evTimerStart w).waiting = s.waiting := by
  by_cases off : s.active (.timer w) = 0
  · have eq := evTimerStart_eq off
    obtain ⟨step, on⟩ := good.timers.start off
    exact good.queued.waiting_starts ⟨off, on, step.others, by rw [eq], by rw [eq]⟩ (by rw [eq]; rfl)
      (by rw [eq]; rfl)
  · rw [evTimerStart_active off]

theorem GoodFrom.waiting_timer_stop (good : s.GoodFrom i) (w : ι) (v : W ι) :
    (s.evTimerStop w).waiting v = if v = .timer w then none else s.waiting v := by
  rw [← good.queued.waiting_clear]
  by_cases on : s.active (.timer w) = 0
  · rw [evTimerStop_rests on]
  · rw [evTimerStop_eq on]
    exact congrFun (SameQueues.waiting_eq ⟨rfl, rfl, rfl, rfl⟩) v

theorem GoodFrom.waiting_timer_again (good : s.GoodFrom i) (w : ι) (v : W ι) :
    (s.evTimerAgain w).waiting v = if v = .timer w then none else s.waiting v := by
  have cleared := good.queued.waiting_clear (.timer w)
  rw [← cleared]
  have good := good.clear (.timer w)
  unfold evTimerAgain
  generalize s.clearPending (.timer w) = c at good cleared
  dsimp only
  split
  · split
    · exact congrFun (SameQueues.waiting_eq ⟨rfl, rfl, rfl, rfl⟩) v
    · rw [good.waiting_timer_stop, cleared]
      split <;> rfl
  · split
    · rename_i off _
      have set := good.timed (good.timers.set_at (not_not.mp off) (c.repeat_ w)) Iff.rfl rfl
      rw [set.waiting_timer_start]
      exact congrFun (SameQueues.waiting_eq ⟨rfl, rfl, rfl, rfl⟩) v
    · rfl

/-- Starting a watcher in an array. -/
theorem Queued.waiting_startIn (queued : s.Queued) (ws : Ws) {w : W ι} (off : s.active w = 0) :
    (s.startIn ws w).waiting = s.waiting :=
  queued.waiting_starts (startIn_starts ws off) rfl rfl

theorem waiting_stopIn (s : EvLoop T ι β) (ws : Ws) (w : W ι) :
    (s.stopIn ws w).waiting = s.waiting := by
  unfold stopIn
  dsimp only
  split <;> exact SameQueues.waiting_eq ⟨rfl, rfl, rfl, rfl⟩

theorem GoodFrom.waiting_idle_start (good : s.GoodFrom i) (w : ι) :
    (s.evIdleStart w).waiting = s.waiting := by
  unfold evIdleStart
  split
  · rfl
  · rename_i off
    have adjusted := good.priAdjust (.idle w)
    have same : (s.priAdjust (.idle w)).waiting = s.waiting := by
      refine waiting_reprioritized rfl rfl fun u pends => ?_
      by_cases here : u = .idle w
      · subst here
        rw [priAdjust_of_ranged (good.queued.ranged _ pends)]
      · exact priAdjust_other here
    rw [← same]
    exact adjusted.queued.waiting_startIn (.idles ((s.priAdjust (.idle w)).abspri (.idle w)))
      (not_not.mp off)

/-- Stopping a watcher in an array. -/
theorem GoodFrom.waiting_array_stop (good : s.GoodFrom i) (ws : Ws) (w v : W ι) :
    (if (s.clearPending w).active w = 0 then s.clearPending w
      else (s.clearPending w).stopIn ws w).waiting v = if v = w then none else s.waiting v := by
  rw [← good.queued.waiting_clear]
  split
  · rfl
  · rw [waiting_stopIn]

theorem GoodFrom.waiting_idle_stop (good : s.GoodFrom i) (w : ι) (v : W ι) :
    (s.evIdleStop w).waiting v = if v = .idle w then none else s.waiting v := by
  rw [← good.queued.waiting_clear]
  unfold evIdleStop
  dsimp only
  split
  · rfl
  · rw [← waiting_stopIn (s.clearPending (.idle w)) (.idles ((s.clearPending (.idle w)).abspri (.idle w)))
      (.idle w)]
    rfl

/-! ## Feeding -/

/-- What the watchers of descriptors `ws` are fed when there are `revents`. -/
def ioFed (s : EvLoop T ι β) (ws : List ι) (revents : Events) : W ι → Option Events
  | .io w =>
      if w ∈ ws ∧ s.events w &&& revents ≠ 0 then some (s.events w &&& revents) else none
  | _ => none

theorem Queued.waiting_feedIo (queued : s.Queued) (revents : Events) (w : ι) (v : W ι) :
    (feedIo revents s w).waiting v = account false (s.ioFed [w] revents v) (s.waiting v) := by
  unfold feedIo
  dsimp only
  split
  · rename_i wants
    rw [queued.waiting_feed]
    by_cases here : v = .io w
    · subst here
      rw [if_pos rfl, ioFed, if_pos ⟨List.mem_singleton_self w, wants⟩]
      rfl
    · rw [if_neg here]
      cases v with
      | io u =>
          have other : u ∉ [w] := by simpa using here
          rw [ioFed, if_neg fun both => other both.1]
          rfl
      | _ => rfl
  · rename_i idle
    cases v with
    | io u =>
        rw [ioFed, if_neg]
        · rfl
        · rintro ⟨member, wants⟩
          rw [List.mem_singleton.mp member] at wants
          exact idle wants
    | _ => rfl

theorem GoodFrom.waiting_feedIos (good : s.GoodFrom i) (revents : Events) {ws : List ι}
    (nodup : ws.Nodup) (ranged : ∀ w ∈ ws, s.Ranged (.io w)) (v : W ι) :
    (ws.foldl (feedIo revents) s).waiting v =
      account false (s.ioFed ws revents v) (s.waiting v) := by
  induction ws generalizing s with
  | nil => cases v <;> simp [ioFed, account]
  | cons w ws ih =>
      obtain ⟨fresh, nodup⟩ := List.nodup_cons.mp nodup
      have same := feedIo_same revents s w
      have events_eq : (feedIo revents s w).events = s.events := by rw [same.eq]
      have fed : (feedIo revents s w).GoodFrom i := good.feedIos revents [w] fun u member => by
        rw [List.mem_singleton.mp member]
        exact ranged w List.mem_cons_self
      rw [List.foldl_cons, ih fed nodup fun u member => (same.ranged_iff _).mpr
        (ranged u (List.mem_cons_of_mem w member)), good.queued.waiting_feedIo]
      cases v with
      | io u =>
          simp only [ioFed, events_eq]
          by_cases here : u = w
          · subst here
            simp [fresh, account]
          · simp [here, account]
      | _ => rfl

theorem GoodFrom.waiting_fdEventNocheck (good : s.GoodFrom i) (fd : Nat) (revents : Events)
    (v : W ι) : (s.fdEventNocheck fd revents).waiting v =
      account false (s.ioFed (s.anfds fd).head revents v) (s.waiting v) :=
  good.waiting_feedIos revents (good.fds.nodup fd) (fun w member =>
    good.counted.ranged _ ((good.fds.mem_iff fd w).mp member).1) v

/-- Feeding the same events to several watchers. -/
theorem GoodFrom.waiting_feeds (good : s.GoodFrom i) (ws : List (W ι)) (revents : Events)
    (ok : ∀ w ∈ ws, s.Ranged w ∧ w ≠ .pendingW) (v : W ι) :
    (ws.foldl (fun s w => s.evFeedEvent w revents) s).waiting v =
      account false (if v ∈ ws then some revents else none) (s.waiting v) := by
  have feeds := good.queued.feeds_foldl ws (fun w => (w, revents)) ok
  rw [feeds.waiting_eq, foldl_fed]
  split <;> rfl

theorem GoodFrom.waiting_queueEvents (good : s.GoodFrom i) (ws : Ws) (type : Events) (v : W ι) :
    (s.queueEvents (s.arrays ws) type).waiting v =
      account false (if v ∈ s.arrays ws then some type else none) (s.waiting v) := by
  refine good.waiting_feeds (s.arrays ws) type (fun w member => ?_) v
  have on := ((good.arrays.mem_iff ws w).mp member).1
  refine ⟨good.counted.ranged w on, fun wrong => on ?_⟩
  rw [wrong, good.counted.real]

/-- The idle watchers of the priority that `idle_reify` chooses from below `pri`. -/
def idleChoice (s : EvLoop T ι β) : Nat → List (W ι)
  | 0 => []
  | pri + 1 =>
      if (s.pendings pri).isEmpty then
        if (s.arrays (.idles pri)).isEmpty then idleChoice s pri else s.arrays (.idles pri)
      else []

theorem GoodFrom.waiting_idleLoop (good : s.GoodFrom i) (pri : Nat) (v : W ι) :
    (s.idleLoop pri).waiting v =
      account false (if v ∈ s.idleChoice pri then some evIdle else none) (s.waiting v) := by
  induction pri with
  | zero => rfl
  | succ pri ih =>
      unfold EvLoop.idleLoop idleChoice
      by_cases pends : s.pendings pri = []
      · rw [if_neg (not_not.mpr pends), if_pos (List.isEmpty_iff.mpr pends)]
        by_cases idles : s.arrays (.idles pri) = []
        · rw [if_neg (not_not.mpr idles), if_pos (List.isEmpty_iff.mpr idles)]
          exact ih
        · rw [if_pos idles, if_neg (mt List.isEmpty_iff.mp idles)]
          exact good.waiting_queueEvents (.idles pri) evIdle v
      · rw [if_pos pends, if_neg (mt List.isEmpty_iff.mp pends)]
        rfl

/-- Without active idle watchers there is nothing to choose. -/
theorem GoodFrom.waiting_idleReify (good : s.GoodFrom i) (v : W ι) :
    s.idleReify.waiting v =
      account false (if v ∈ s.idleChoice numpri then some evIdle else none) (s.waiting v) := by
  unfold EvLoop.idleReify
  split
  · exact good.waiting_idleLoop numpri v
  · rename_i none
    have sum : ∑ pri ∈ Finset.range numpri, (s.arrays (.idles pri)).length = 0 := by
      have eq := good.arrays.idleall_eq
      rw [not_not.mp none] at eq
      omega
    have empty : ∀ pri < numpri, s.arrays (.idles pri) = [] := fun pri less =>
      List.length_eq_zero_iff.mp (Finset.sum_eq_zero_iff.mp sum pri (Finset.mem_range.mpr less))
    have choice : ∀ pri ≤ numpri, s.idleChoice pri = [] := by
      intro pri le
      induction pri with
      | zero => rfl
      | succ pri ih =>
          unfold idleChoice
          rw [empty pri le, ih (Nat.le_of_succ_le le)]
          split <;> rfl
    rw [choice numpri (le_refl _), if_neg List.not_mem_nil]
    rfl

/-! ## Killing -/

def killedEvents : Events := evError ||| evRead ||| evWrite

/-- `t` is `s` after some descriptors were killed: their watchers are stopped, and wait to be
called with an error. -/
structure Kills (s t : EvLoop T ι β) : Prop where
  each : ∀ v, (t.waiting v = s.waiting v ∧ (t.active v ≠ 0 ↔ s.active v ≠ 0)) ∨
    (∃ w, v = .io w) ∧ s.active v ≠ 0 ∧ t.active v = 0 ∧ t.waiting v = some killedEvents
  rfeeds_eq : t.rfeeds = s.rfeeds
  repeat_eq : t.repeat_ = s.repeat_

theorem Kills.refl (s : EvLoop T ι β) : Kills s s := ⟨fun _ => .inl ⟨rfl, Iff.rfl⟩, rfl, rfl⟩

theorem Kills.trans {u : EvLoop T ι β} (first : Kills s t) (second : Kills t u) : Kills s u where
  each v := by
    rcases second.each v with ⟨waits, iff⟩ | ⟨kind, on, off, waits⟩
    · rcases first.each v with ⟨waits', iff'⟩ | ⟨kind, on, off, waits'⟩
      · exact .inl ⟨waits.trans waits', iff.trans iff'⟩
      · exact .inr ⟨kind, on, not_not.mp (mt iff.mp (not_not.mpr off)), waits.trans waits'⟩
    · rcases first.each v with ⟨-, iff'⟩ | ⟨-, -, off', -⟩
      · exact .inr ⟨kind, iff'.mp on, off, waits⟩
      · exact absurd off' on
  rfeeds_eq := second.rfeeds_eq.trans first.rfeeds_eq
  repeat_eq := second.repeat_eq.trans first.repeat_eq

theorem evFeedEvent_rfeeds (s : EvLoop T ι β) (w : W ι) (revents : Events) :
    (s.evFeedEvent w revents).rfeeds = s.rfeeds := by
  unfold evFeedEvent
  split <;> rfl

theorem evIoStop_rfeeds (s : EvLoop T ι β) (w : ι) : (s.evIoStop w).rfeeds = s.rfeeds := by
  by_cases off : s.active (.io w) = 0
  · rw [evIoStop_rests off, clearPending_rfeeds]
  · rw [evIoStop_eq off]
    exact clearPending_rfeeds s _

/-- A turn of the loop of `fd_kill`. -/
theorem GoodFrom.kills_one (good : s.GoodFrom i) {w : ι} (on : s.active (.io w) ≠ 0) :
    Kills s ((s.evIoStop w).evFeedEvent (.io w) killedEvents) where
  each v := by
    have stops := evIoStop_stops on
    have stopped := good.io_stop w
    rw [stopped.queued.waiting_feed, (evFeedEvent_same _ _ _).active_eq, good.waiting_io_stop,
      good.waiting_io_stop]
    by_cases here : v = .io w
    · subst here
      refine .inr ⟨⟨w, rfl⟩, on, stops.off, ?_⟩
      simp
    · rw [if_neg here, if_neg here]
      exact .inl ⟨rfl, stops.others v here⟩
  rfeeds_eq := by rw [evFeedEvent_rfeeds, evIoStop_rfeeds]
  repeat_eq := by
    rw [(evFeedEvent_same _ _ _).repeat_eq, evIoStop_eq on]
    exact (clearPending_same s _).repeat_eq

theorem GoodFrom.kills_loop (good : s.GoodFrom i) (fd fuel : Nat) :
    Kills s (EvLoop.fdKillLoop fd fuel s) := by
  induction fuel generalizing s with
  | zero => exact .refl s
  | succ fuel ih =>
      unfold EvLoop.fdKillLoop
      split
      · exact .refl s
      · rename_i w ws first
        have on := ((good.fds.mem_iff fd w).mp (first ▸ List.mem_cons_self)).1
        have ranged : (s.evIoStop w).Ranged (.io w) := by
          rw [Ranged, evIoStop_priority]
          exact good.counted.ranged _ on
        exact (good.kills_one on).trans (ih ((good.io_stop w).feed _ ranged (by simp)))

theorem GoodFrom.kills (good : s.GoodFrom i) (fd : Nat) : Kills s (s.fdKill fd) :=
  good.kills_loop fd _

/-- `fd_kill` leaves no watcher of the descriptor. -/
theorem fdKillLoop_head (fd fuel : Nat) (s : EvLoop T ι β) (good : s.GoodFrom i)
    (enough : (s.anfds fd).head.length ≤ fuel) : ((EvLoop.fdKillLoop fd fuel s).anfds fd).head = [] := by
  induction fuel generalizing s with
  | zero => exact List.eq_nil_of_length_eq_zero (Nat.le_zero.mp enough)
  | succ fuel ih =>
      unfold EvLoop.fdKillLoop
      split
      · assumption
      · rename_i w ws first
        obtain ⟨on, fd_eq⟩ := (good.fds.mem_iff fd w).mp (first ▸ List.mem_cons_self)
        have ranged : (s.evIoStop w).Ranged (.io w) := by
          rw [Ranged, evIoStop_priority]
          exact good.counted.ranged _ on
        have head : (((s.evIoStop w).evFeedEvent (.io w) killedEvents).anfds fd).head = ws := by
          have same := clearPending_same s (.io w)
          rw [(evFeedEvent_same _ _ _).eq]
          dsimp only
          rw [evIoStop_eq on, fdChange_head, delisted, same.eq]
          dsimp only
          rw [fd_eq, Function.update_self, first, List.erase_cons_head]
        refine ih _ ((good.io_stop w).feed _ ranged (by simp)) ?_
        change (((s.evIoStop w).evFeedEvent (.io w) killedEvents).anfds fd).head.length ≤ fuel
        rw [first] at enough
        rw [head]
        exact Nat.le_of_succ_le_succ enough

end EvLoop

end CLibs.Libev
