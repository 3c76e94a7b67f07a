import CLibs.General.Runs
import CLibs.Libev.Reify

/-!
# Runs of the loop

The calls that a program makes, from callbacks or between the phases of `ev_run`, and the
phases themselves, in any order. In every state that they lead to `ev_verify` finds nothing,
and each watcher is called with exactly the events that were fed to it.
-/

set_option autoImplicit false
set_option linter.unusedSectionVars false

open CLibs.General

namespace CLibs.Libev

/-- What can happen to a loop. The program sets, starts and stops watchers and feeds events;
`fd_event` and `fd_kill` are what the backend's poll function does; the others are the phases
of `ev_run`, where `queue_events` is for the watchers of an array. -/
inductive Act (T ι : Type) where
  | evSetPriority (w : W ι) (pri : Int)
  | evIoSet (w : ι) (fd : Nat) (events : Events)
  | evTimerSet (w : ι) (after repeat_ : T)
  | setRepeat (w : ι) (repeat_ : T)
  | evIoStart (w : ι)
  | evIoStop (w : ι)
  | evTimerStart (w : ι)
  | evTimerStop (w : ι)
  | evTimerAgain (w : ι)
  | evIdleStart (w : ι)
  | evIdleStop (w : ι)
  | evPrepareStart (w : ι)
  | evPrepareStop (w : ι)
  | evCheckStart (w : ι)
  | evCheckStop (w : ι)
  | evForkStart (w : ι)
  | evForkStop (w : ι)
  | evFeedEvent (w : W ι) (revents : Events)
  | evFeedFdEvent (fd : Nat) (revents : Events)
  | evClearPending (w : W ι)
  | timeUpdate (now : T)
  | timersReschedule (adjust : T)
  | fdReify
  | fdEvent (fd : Nat) (revents : Events)
  | fdKill (fd : Nat)
  | fdRearmAll
  | timersReify
  | idleReify
  | queueEvents (ws : Ws) (type : Events)
  | invokeFirst
  | invokeNext

namespace EvLoop

variable {T ι β : Type} [Tstamp T] [DecidableEq ι] {s t : EvLoop T ι β}

/-- What the documentation of the functions, and their assertions, ask of a program. -/
def Allowed (s : EvLoop T ι β) : Act T ι → Prop
  | .evSetPriority w _ => s.active w = 0 ∧ s.pending w = 0
  | .evIoSet w _ _ => s.active (.io w) = 0
  | .evTimerSet w _ repeat_ => s.active (.timer w) = 0 ∧ 0 ≤ repeat_
  | .setRepeat _ repeat_ => 0 ≤ repeat_
  | .evIoStart w => Legal (s.events w)
  | .evFeedEvent w _ => s.Ranged w ∧ w ≠ .pendingW
  | .timersReschedule adjust => ∀ x y : T, x ≤ y → x + adjust ≤ y + adjust
  | _ => True

/-- The loop after an act; `fd_reify` leaves this to the backend. -/
inductive Step (backend : Backend T ι β) (s : EvLoop T ι β) : Act T ι → EvLoop T ι β → Prop
  | evSetPriority (w pri) : Step backend s (.evSetPriority w pri) (s.evSetPriority w pri)
  | evIoSet (w fd events) : Step backend s (.evIoSet w fd events) (s.evIoSet w fd events)
  | evTimerSet (w after repeat_) :
      Step backend s (.evTimerSet w after repeat_) (s.evTimerSet w after repeat_)
  | setRepeat (w repeat_) :
      Step backend s (.setRepeat w repeat_) { s with repeat_ := Function.update s.repeat_ w repeat_ }
  | evIoStart (w) : Step backend s (.evIoStart w) (s.evIoStart w)
  | evIoStop (w) : Step backend s (.evIoStop w) (s.evIoStop w)
  | evTimerStart (w) : Step backend s (.evTimerStart w) (s.evTimerStart w)
  | evTimerStop (w) : Step backend s (.evTimerStop w) (s.evTimerStop w)
  | evTimerAgain (w) : Step backend s (.evTimerAgain w) (s.evTimerAgain w)
  | evIdleStart (w) : Step backend s (.evIdleStart w) (s.evIdleStart w)
  | evIdleStop (w) : Step backend s (.evIdleStop w) (s.evIdleStop w)
  | evPrepareStart (w) : Step backend s (.evPrepareStart w) (s.evPrepareStart w)
  | evPrepareStop (w) : Step backend s (.evPrepareStop w) (s.evPrepareStop w)
  | evCheckStart (w) : Step backend s (.evCheckStart w) (s.evCheckStart w)
  | evCheckStop (w) : Step backend s (.evCheckStop w) (s.evCheckStop w)
  | evForkStart (w) : Step backend s (.evForkStart w) (s.evForkStart w)
  | evForkStop (w) : Step backend s (.evForkStop w) (s.evForkStop w)
  | evFeedEvent (w revents) : Step backend s (.evFeedEvent w revents) (s.evFeedEvent w revents)
  | evFeedFdEvent (fd revents) :
      Step backend s (.evFeedFdEvent fd revents) (s.evFeedFdEvent fd revents)
  | evClearPending (w) : Step backend s (.evClearPending w) (s.evClearPending w).1
  | timeUpdate (now) : Step backend s (.timeUpdate now) { s with mnNow := now }
  | timersReschedule (adjust) : Step backend s (.timersReschedule adjust) (s.timersReschedule adjust)
  | fdReify (fuel t) : s.fdReify backend.modify fuel = some t → Step backend s .fdReify t
  | fdEvent (fd revents) : Step backend s (.fdEvent fd revents) (s.fdEvent fd revents)
  | fdKill (fd) : Step backend s (.fdKill fd) (s.fdKill fd)
  | fdRearmAll : Step backend s .fdRearmAll s.fdRearmAll
  | timersReify : Step backend s .timersReify s.timersReify
  | idleReify : Step backend s .idleReify s.idleReify
  | queueEvents (ws type) : Step backend s (.queueEvents ws type) (s.queueEvents (s.arrays ws) type)
  | invokeFirst : Step backend s .invokeFirst s.invokeFirst.1
  | invokeNext : Step backend s .invokeNext s.invokeNext.1

/-- A new loop, and watchers that were only initialised. -/
def loopInit (now : T) (backend : β) : EvLoop T ι β where
  active _ := 0
  pending _ := 0
  priority _ := 0
  fd _ := 0
  events _ := 0
  at_ _ := 0
  repeat_ _ := 0
  mnNow := now
  timers _ := ⟨0, .pendingW⟩
  backend := backend

/-- The runs of a loop. -/
def system (backend : Backend T ι β) : System (EvLoop T ι β) (Act T ι) where
  start s := ∃ now b, s = loopInit now b
  step s act t := s.Allowed act ∧ s.Step backend act t

/-- What holds between any two acts. -/
structure Good (s : EvLoop T ι β) : Prop extends s.GoodFrom 0 where
  rests : s.rfeeds = []

theorem loopInit_good (now : T) (b : β) : (loopInit now b : EvLoop T ι β).Good where
  queued := {
    found _ pends := absurd rfl pends
    back _ _ _ entry := absurd entry (by simp [loopInit])
    dummy := rfl
    ranged _ pends := absurd rfl pends
    above _ _ := rfl
    top := show 0 < numpri by decide }
  timers := {
    heaped := {
      ordered _ behind inside := absurd (lt_trans behind inside) (lt_irrefl _)
      active_eq k low high := absurd (lt_of_le_of_lt low high) (lt_irrefl _) }
    has_iff e := by
      constructor
      · rintro ⟨k, low, high, -⟩
        exact absurd (lt_of_le_of_lt low high) (lt_irrefl _)
      · rintro ⟨w, on, -⟩
        exact absurd rfl on }
  arrays := {
    placed _ := Placed.nil
    mem_iff _ _ := iff_of_false List.not_mem_nil fun both => both.1 rfl
    idleall_eq := by simp [loopInit] }
  fds := {
    mem_iff _ _ := iff_of_false List.not_mem_nil fun both => both.1 rfl
    nodup _ := .nil
    one _ on := absurd rfl on
    legal _ on := absurd rfl on
    outside _ _ := rfl
    synced _ _ := rfl }
  changes := {
    mem_iff _ := iff_of_false List.not_mem_nil (not_not.mpr rfl)
    nodup := .nil
    le_length := le_refl _ }
  counted := {
    count := ⟨∅, fun _ => iff_of_false (Finset.notMem_empty _) (not_not.mpr rfl), rfl⟩
    real := rfl
    ranged _ on := absurd rfl on }
  rfeeds _ member := absurd member List.not_mem_nil
  rests := rfl

/-! ## The ledger -/

instance (w : ι) : Decidable (s.Due w) :=
  inferInstanceAs (Decidable (s.active (.timer w) ≠ 0 ∧ s.at_ (.timer w) < s.mnNow))

/-- What an act that leads from `s` to `t` feeds a watcher. -/
def fedBy (s t : EvLoop T ι β) : Act T ι → W ι → Option Events
  | .evFeedEvent w revents, v => if v = w then some revents else none
  | .evFeedFdEvent fd revents, v =>
      if fd < s.anfdmax then s.ioFed (s.anfds fd).head revents v else none
  | .fdEvent fd revents, v =>
      if (s.anfds fd).reify = 0 then s.ioFed (s.anfds fd).head revents v else none
  | .fdKill _, v | .fdReify, v => if s.active v ≠ 0 ∧ t.active v = 0 then some killedEvents else none
  | .timersReify, .timer w => if s.Due w then some evTimer else none
  | .idleReify, v => if v ∈ s.idleChoice numpri then some evIdle else none
  | .queueEvents ws type, v => if v ∈ s.arrays ws then some type else none
  | _, _ => none

/-- The watcher that an act calls, with its events. -/
def calledBy (s : EvLoop T ι β) : Act T ι → Option (ANPENDING ι)
  | .invokeFirst => s.invokeFirst.2
  | .invokeNext => s.invokeNext.2
  | _ => none

/-- An act that leads from `s` to `t` calls the watcher, or stops or clears it. -/
def goneBy (s t : EvLoop T ι β) : Act T ι → W ι → Bool
  | .evIoStop w, v => v = .io w
  | .evTimerStop w, v | .evTimerAgain w, v => v = .timer w
  | .evIdleStop w, v => v = .idle w
  | .evPrepareStop w, v => v = .prepare w
  | .evCheckStop w, v => v = .check w
  | .evForkStop w, v => v = .fork w
  | .evClearPending w, v => v = w
  | .fdKill _, v | .fdReify, v => s.active v ≠ 0 ∧ t.active v = 0
  | .timersReify, .timer w => s.Due w ∧ s.repeat_ w = 0
  | .invokeFirst, v => s.invokeFirst.2.map ANPENDING.w = some v
  | .invokeNext, v => s.invokeNext.2.map ANPENDING.w = some v
  | _, _ => false

/-- What an act does to the loop and to what the watchers wait for. -/
structure Effect (s : EvLoop T ι β) (act : Act T ι) (t : EvLoop T ι β) : Prop where
  good : t.Good
  waiting_eq : ∀ v, t.waiting v = account (s.goneBy t act v) (s.fedBy t act v) (s.waiting v)

theorem Kills.waiting_eq (kills : Kills s t) (v : W ι) : t.waiting v =
    account (s.active v ≠ 0 ∧ t.active v = 0)
      (if s.active v ≠ 0 ∧ t.active v = 0 then some killedEvents else none) (s.waiting v) := by
  rcases kills.each v with ⟨waits, iff⟩ | ⟨-, on, off, waits⟩
  · have alive : ¬(s.active v ≠ 0 ∧ t.active v = 0) := fun both => iff.mpr both.1 both.2
    rw [waits, if_neg alive, decide_eq_false alive]
    rfl
  · have dead : s.active v ≠ 0 ∧ t.active v = 0 := ⟨on, off⟩
    rw [waits, if_pos dead, decide_eq_true dead]
    simp [account]

/-- An act that no watcher notices. -/
theorem Effect.quiet {act : Act T ι} (good : t.Good) (waiting_eq : t.waiting = s.waiting)
    (gone : ∀ v, s.goneBy t act v = false) (fed : ∀ v, s.fedBy t act v = none) : Effect s act t :=
  ⟨good, fun v => by rw [gone, fed, waiting_eq]; rfl⟩

/-- An act that stops or clears one watcher. -/
theorem Effect.stop {act : Act T ι} {w : W ι} (good : t.Good)
    (waiting_eq : ∀ v, t.waiting v = if v = w then none else s.waiting v)
    (gone : ∀ v, s.goneBy t act v = decide (v = w)) (fed : ∀ v, s.fedBy t act v = none) :
    Effect s act t := by
  refine ⟨good, fun v => ?_⟩
  rw [gone, fed, waiting_eq]
  by_cases here : v = w
  · simp [here, account]
  · simp [here, account]

theorem Good.timersReify (good : s.Good) : Effect s .timersReify s.timersReify := by
  obtain ⟨ws, reified⟩ := timersReify_expires good.timers good.queued good.rests fun w on =>
    good.counted.ranged _ on
  refine ⟨⟨good.toGoodFrom.timersReify, reified.rfeeds_eq⟩, fun v => ?_⟩
  cases v with
  | timer w =>
      simp only [goneBy, fedBy]
      by_cases due : s.Due w
      · by_cases once : s.repeat_ w = 0
        · rw [(reified.stopped w due once).2.2]
          simp [due, once, account]
        · rw [(reified.repeated w due once).2.2]
          simp [due, once, account]
      · rw [(reified.kept w due).2.2]
        simp [due, account]
  | _ =>
      rw [(reified.kinds _ (by simp)).2.2]
      rfl

theorem Good.invoke (good : s.Good) {pri : Nat} (past : s.pendingpri < pri) (most : pri ≤ numpri)
    (v : W ι) : (s.nextPending pri).1.waiting v =
      account ((s.nextPending pri).2.map ANPENDING.w = some v) none (s.waiting v) := by
  have next := good.queued.next past most
  generalize s.nextPending pri = result at next
  obtain ⟨t, _ | p⟩ := result
  · rw [(next.2 v).1, (next.2 v).2]
    rfl
  · rw [next.waiting_eq]
    by_cases here : v = p.w
    · simp [here, account]
    · simp [here, Ne.symm here, account]

/-! ## What only few acts change

Only `timers_reify` feeds in reverse, and only the program says how a timer repeats. -/

structure Steady (s t : EvLoop T ι β) : Prop where
  rfeeds_eq : t.rfeeds = s.rfeeds
  repeat_eq : t.repeat_ = s.repeat_

namespace Steady

theorem refl (s : EvLoop T ι β) : Steady s s := ⟨rfl, rfl⟩

theorem trans {u : EvLoop T ι β} (first : Steady s t) (second : Steady t u) : Steady s u :=
  ⟨second.rfeeds_eq.trans first.rfeeds_eq, second.repeat_eq.trans first.repeat_eq⟩

theorem foldl {α : Type} {f : EvLoop T ι β → α → EvLoop T ι β} (step : ∀ s x, Steady s (f s x))
    (xs : List α) (s : EvLoop T ι β) : Steady s (xs.foldl f s) := by
  induction xs generalizing s with
  | nil => exact .refl s
  | cons x xs ih => exact (step s x).trans (ih _)

theorem feed (s : EvLoop T ι β) (w : W ι) (revents : Events) :
    Steady s (s.evFeedEvent w revents) :=
  ⟨evFeedEvent_rfeeds s w revents, (evFeedEvent_same s w revents).repeat_eq⟩

theorem clear (s : EvLoop T ι β) (w : W ι) : Steady s (s.clearPending w) :=
  ⟨clearPending_rfeeds s w, (clearPending_same s w).repeat_eq⟩

theorem next (s : EvLoop T ι β) (pri : Nat) : Steady s (s.nextPending pri).1 := by
  rcases nextPending_cases s pri with ⟨eq, -⟩ | ⟨k, -, rest, p, -, -, eq⟩
  · rw [eq]
    exact ⟨rfl, rfl⟩
  · rw [eq]
    exact ⟨rfl, rfl⟩

theorem io_start (s : EvLoop T ι β) (w : ι) : Steady s (s.evIoStart w) := by
  unfold evIoStart needAnfds
  split
  · exact .refl s
  · dsimp only
    split <;> exact ⟨rfl, rfl⟩

theorem io_stop (s : EvLoop T ι β) (w : ι) : Steady s (s.evIoStop w) := by
  by_cases off : s.active (.io w) = 0
  · rw [evIoStop_rests off]
    exact .clear s _
  · rw [evIoStop_eq off]
    exact (clear s (.io w)).trans ⟨rfl, rfl⟩

theorem timer_start (s : EvLoop T ι β) (w : ι) : Steady s (s.evTimerStart w) := by
  unfold evTimerStart
  split
  · exact .refl s
  · exact ⟨rfl, rfl⟩

theorem timer_stop (s : EvLoop T ι β) (w : ι) : Steady s (s.evTimerStop w) := by
  refine (clear s (.timer w)).trans ?_
  unfold evTimerStop
  dsimp only
  split
  · exact .refl _
  · split <;> exact ⟨rfl, rfl⟩

theorem timer_again (s : EvLoop T ι β) (w : ι) : Steady s (s.evTimerAgain w) := by
  refine (clear s (.timer w)).trans ?_
  unfold evTimerAgain
  generalize s.clearPending (.timer w) = c
  dsimp only
  split
  · split
    · exact ⟨rfl, rfl⟩
    · exact timer_stop c w
  · split
    · have set : Steady c { c with at_ := Function.update c.at_ (.timer w) (c.repeat_ w) } :=
        ⟨rfl, rfl⟩
      exact set.trans (timer_start _ w)
    · exact .refl c

theorem stopIn (s : EvLoop T ι β) (ws : Ws) (w : W ι) : Steady s (s.stopIn ws w) := by
  unfold EvLoop.stopIn
  dsimp only
  split <;> exact ⟨rfl, rfl⟩

theorem idle_start (s : EvLoop T ι β) (w : ι) : Steady s (s.evIdleStart w) := by
  unfold evIdleStart
  split
  · exact .refl s
  · exact ⟨rfl, rfl⟩

theorem idle_stop (s : EvLoop T ι β) (w : ι) : Steady s (s.evIdleStop w) := by
  refine (clear s (.idle w)).trans ?_
  unfold evIdleStop
  dsimp only
  split
  · exact .refl _
  · exact (stopIn _ _ _).trans ⟨rfl, rfl⟩

/-- Stopping a watcher in another array. -/
theorem array_stop (s : EvLoop T ι β) (ws : Ws) (w : W ι) :
    Steady s (if (s.clearPending w).active w = 0 then s.clearPending w
      else (s.clearPending w).stopIn ws w) := by
  refine (clear s w).trans ?_
  split
  · exact .refl _
  · exact stopIn _ ws w

theorem array_start (s : EvLoop T ι β) (ws : Ws) (w : W ι) :
    Steady s (if s.active w ≠ 0 then s else s.startIn ws w) := by
  split
  · exact .refl s
  · exact ⟨rfl, rfl⟩

theorem queueEvents (s : EvLoop T ι β) (ws : List (W ι)) (type : Events) :
    Steady s (s.queueEvents ws type) :=
  foldl (fun s w => feed s w type) ws s

theorem fdEventNocheck (s : EvLoop T ι β) (fd : Nat) (revents : Events) :
    Steady s (s.fdEventNocheck fd revents) := by
  refine foldl (fun s w => ?_) _ s
  unfold feedIo
  dsimp only
  split
  · exact feed s _ _
  · exact .refl s

theorem feed_fdEvent (s : EvLoop T ι β) (fd : Nat) (revents : Events) :
    Steady s (s.evFeedFdEvent fd revents) := by
  unfold evFeedFdEvent
  split
  · exact fdEventNocheck s fd revents
  · exact .refl s

theorem fdEvent (s : EvLoop T ι β) (fd : Nat) (revents : Events) :
    Steady s (s.fdEvent fd revents) := by
  unfold EvLoop.fdEvent
  split
  · exact fdEventNocheck s fd revents
  · exact .refl s

theorem idleLoop (s : EvLoop T ι β) (pri : Nat) : Steady s (s.idleLoop pri) := by
  induction pri with
  | zero => exact .refl s
  | succ pri ih =>
      unfold EvLoop.idleLoop
      split
      · exact .refl s
      · split
        · exact queueEvents s _ _
        · exact ih

theorem idleReify (s : EvLoop T ι β) : Steady s s.idleReify := by
  unfold EvLoop.idleReify
  split
  · exact idleLoop s numpri
  · exact .refl s

theorem fdRearmAll (s : EvLoop T ι β) : Steady s s.fdRearmAll := by
  refine foldl (fun s fd => ?_) _ s
  dsimp only
  split <;> exact ⟨rfl, rfl⟩

theorem timersReschedule (s : EvLoop T ι β) (adjust : T) : Steady s (s.timersReschedule adjust) := by
  refine foldl (fun s k => ?_) _ s
  exact ⟨rfl, rfl⟩

end Steady

theorem SameQueues.fdRearmAll (s : EvLoop T ι β) : SameQueues s s.fdRearmAll := by
  refine .foldl (fun s fd => ?_) _ s
  dsimp only
  split <;> exact ⟨rfl, rfl, rfl, rfl⟩

theorem SameQueues.timersReschedule (s : EvLoop T ι β) (adjust : T) :
    SameQueues s (s.timersReschedule adjust) := by
  refine .foldl (fun s k => ?_) _ s
  exact ⟨rfl, rfl, rfl, rfl⟩

theorem Good.next (good : s.Good) {pri : Nat} (past : s.pendingpri < pri) (most : pri ≤ numpri) :
    (s.nextPending pri).1.Good :=
  ⟨good.toGoodFrom.next past most, (Steady.next s pri).rfeeds_eq.trans good.rests⟩

theorem Good.waiting_array_start (good : s.Good) (ws : Ws) (w : W ι) :
    (if s.active w ≠ 0 then s else s.startIn ws w).waiting = s.waiting := by
  split
  · rfl
  · exact good.queued.waiting_startIn ws (not_not.mp (by assumption))

/-- Each act keeps the invariant, and does to what the watchers wait for what the ledger
says. -/
theorem Good.step {backend : Backend T ι β} {act : Act T ι} (good : s.Good)
    (allowed : s.Allowed act) (step : s.Step backend act t) : Effect s act t := by
  have from_ := good.toGoodFrom
  have rests := good.rests
  cases step with
  | evSetPriority w pri =>
      refine .quiet ⟨from_.set_priority pri allowed.1 allowed.2 rests, rests⟩ ?_ (fun _ => rfl)
        fun _ => rfl
      refine waiting_reprioritized rfl rfl fun u pends => Function.update_of_ne ?_ ..
      rintro rfl
      exact pends allowed.2
  | evIoSet w fd events =>
      exact .quiet ⟨from_.io_set fd events allowed, rests⟩
        (SameQueues.waiting_eq ⟨rfl, rfl, rfl, rfl⟩) (fun _ => rfl) fun _ => rfl
  | evTimerSet w after repeat_ =>
      exact .quiet ⟨from_.timer_set after repeat_ allowed.1, rests⟩
        (SameQueues.waiting_eq ⟨rfl, rfl, rfl, rfl⟩) (fun _ => rfl) fun _ => rfl
  | setRepeat w repeat_ =>
      exact .quiet ⟨from_.of_times (fun _ _ => rfl) rfl, rests⟩
        (SameQueues.waiting_eq ⟨rfl, rfl, rfl, rfl⟩) (fun _ => rfl) fun _ => rfl
  | evIoStart w =>
      exact .quiet ⟨from_.io_start allowed, (Steady.io_start s w).rfeeds_eq.trans rests⟩
        (from_.waiting_io_start w) (fun _ => rfl) fun _ => rfl
  | evIoStop w =>
      exact .stop ⟨from_.io_stop w, (Steady.io_stop s w).rfeeds_eq.trans rests⟩ (from_.waiting_io_stop w)
        (fun _ => rfl) fun _ => rfl
  | evTimerStart w =>
      exact .quiet ⟨from_.timer_start w, (Steady.timer_start s w).rfeeds_eq.trans rests⟩
        (from_.waiting_timer_start w) (fun _ => rfl) fun _ => rfl
  | evTimerStop w =>
      exact .stop ⟨from_.timer_stop w, (Steady.timer_stop s w).rfeeds_eq.trans rests⟩
        (from_.waiting_timer_stop w) (fun _ => rfl) fun _ => rfl
  | evTimerAgain w =>
      exact .stop ⟨from_.timer_again w, (Steady.timer_again s w).rfeeds_eq.trans rests⟩
        (from_.waiting_timer_again w) (fun _ => rfl) fun _ => rfl
  | evIdleStart w =>
      exact .quiet ⟨from_.idle_start w, (Steady.idle_start s w).rfeeds_eq.trans rests⟩
        (from_.waiting_idle_start w) (fun _ => rfl) fun _ => rfl
  | evIdleStop w =>
      exact .stop ⟨from_.idle_stop w, (Steady.idle_stop s w).rfeeds_eq.trans rests⟩
        (from_.waiting_idle_stop w) (fun _ => rfl) fun _ => rfl
  | evPrepareStart w =>
      exact .quiet ⟨from_.prepare_start w, (Steady.array_start s _ _).rfeeds_eq.trans rests⟩
        (good.waiting_array_start .prepares _) (fun _ => rfl) fun _ => rfl
  | evPrepareStop w =>
      exact .stop ⟨from_.prepare_stop w, (Steady.array_stop s _ _).rfeeds_eq.trans rests⟩
        (from_.waiting_array_stop .prepares _) (fun _ => rfl) fun _ => rfl
  | evCheckStart w =>
      exact .quiet ⟨from_.check_start w, (Steady.array_start s _ _).rfeeds_eq.trans rests⟩
        (good.waiting_array_start .checks _) (fun _ => rfl) fun _ => rfl
  | evCheckStop w =>
      exact .stop ⟨from_.check_stop w, (Steady.array_stop s _ _).rfeeds_eq.trans rests⟩
        (from_.waiting_array_stop .checks _) (fun _ => rfl) fun _ => rfl
  | evForkStart w =>
      exact .quiet ⟨from_.fork_start w, (Steady.array_start s _ _).rfeeds_eq.trans rests⟩
        (good.waiting_array_start .forks _) (fun _ => rfl) fun _ => rfl
  | evForkStop w =>
      exact .stop ⟨from_.fork_stop w, (Steady.array_stop s _ _).rfeeds_eq.trans rests⟩
        (from_.waiting_array_stop .forks _) (fun _ => rfl) fun _ => rfl
  | evFeedEvent w revents =>
      refine ⟨⟨from_.feed revents allowed.1 allowed.2, (Steady.feed s w revents).rfeeds_eq.trans rests⟩,
        fun v => ?_⟩
      rw [good.queued.waiting_feed]
      by_cases here : v = w
      · simp [goneBy, fedBy, here, account]
      · simp [goneBy, fedBy, here, account]
  | evFeedFdEvent fd revents =>
      refine ⟨⟨from_.feed_fdEvent fd revents, (Steady.feed_fdEvent s _ _).rfeeds_eq.trans rests⟩,
        fun v => ?_⟩
      · simp only [evFeedFdEvent, goneBy, fedBy]
        split
        · exact from_.waiting_fdEventNocheck fd revents v
        · rfl
  | evClearPending w =>
      rw [evClearPending_fst]
      exact .stop ⟨from_.clear w, (Steady.clear s w).rfeeds_eq.trans rests⟩ (good.queued.waiting_clear w)
        (fun _ => rfl) fun _ => rfl
  | timeUpdate now =>
      exact .quiet ⟨from_.of_times (fun _ _ => rfl) rfl, rests⟩
        (SameQueues.waiting_eq ⟨rfl, rfl, rfl, rfl⟩) (fun _ => rfl) fun _ => rfl
  | timersReschedule adjust =>
      exact .quiet ⟨from_.timersReschedule adjust allowed,
        (Steady.timersReschedule s adjust).rfeeds_eq.trans rests⟩
        (SameQueues.timersReschedule s adjust).waiting_eq (fun _ => rfl) fun _ => rfl
  | fdReify fuel t ends =>
      obtain ⟨still, kills, -⟩ := from_.fdReify backend ends
      exact ⟨⟨still, kills.rfeeds_eq.trans rests⟩, kills.waiting_eq⟩
  | fdEvent fd revents =>
      refine ⟨⟨from_.fdEvent fd revents, (Steady.fdEvent s _ _).rfeeds_eq.trans rests⟩,
        fun v => ?_⟩
      · simp only [EvLoop.fdEvent, goneBy, fedBy]
        split
        · exact from_.waiting_fdEventNocheck fd revents v
        · rfl
  | fdKill fd =>
      have kills := from_.kills fd
      exact ⟨⟨from_.fdKill fd, kills.rfeeds_eq.trans rests⟩, kills.waiting_eq⟩
  | fdRearmAll =>
      exact .quiet ⟨from_.fdRearmAll, (Steady.fdRearmAll s).rfeeds_eq.trans rests⟩
        (SameQueues.fdRearmAll s).waiting_eq (fun _ => rfl) fun _ => rfl
  | timersReify => exact good.timersReify
  | idleReify =>
      exact ⟨⟨from_.idleReify, (Steady.idleReify s).rfeeds_eq.trans rests⟩, from_.waiting_idleReify⟩
  | queueEvents ws type =>
      exact ⟨⟨from_.queueEvents ws type, (Steady.queueEvents s _ _).rfeeds_eq.trans rests⟩,
        from_.waiting_queueEvents ws type⟩
  | invokeFirst =>
      exact ⟨good.next good.queued.top (le_refl _), good.invoke good.queued.top (le_refl _)⟩
  | invokeNext =>
      have past := Nat.lt_succ_self s.pendingpri
      exact ⟨good.next past good.queued.top, good.invoke past good.queued.top⟩

/-! ## What the functions assert -/

theorem loopInit_roomy (now : T) (b : β) : (loopInit now b : EvLoop T ι β).Roomy where
  fdchanges := le_refl _
  pendings _ := le_refl _
  rfeeds := le_refl _
  timers := .inl rfl
  arrays _ := le_refl _

/-- No act makes an array longer than its memory. -/
theorem Roomy.step {backend : Backend T ι β} {act : Act T ι} (roomy : s.Roomy)
    (step : s.Step backend act t) : t.Roomy := by
  cases step with
  | evIoStart w => exact roomy.io_start w
  | evIoStop w => exact roomy.io_stop w
  | evTimerStart w => exact roomy.timer_start w
  | evTimerStop w => exact roomy.timer_stop w
  | evTimerAgain w => exact roomy.timer_again w
  | evIdleStart w => exact roomy.idle_start w
  | evIdleStop w => exact roomy.idle_stop w
  | evPrepareStart w => exact roomy.array_start .prepares _
  | evPrepareStop w => exact roomy.array_stop .prepares _
  | evCheckStart w => exact roomy.array_start .checks _
  | evCheckStop w => exact roomy.array_stop .checks _
  | evForkStart w => exact roomy.array_start .forks _
  | evForkStop w => exact roomy.array_stop .forks _
  | evFeedEvent w revents => exact roomy.feed w revents
  | evFeedFdEvent fd revents =>
      unfold evFeedFdEvent
      split
      · exact roomy.fdEventNocheck fd revents
      · exact roomy
  | evClearPending w =>
      rw [evClearPending_fst]
      exact roomy.clear w
  | timersReschedule adjust => exact roomy.timersReschedule adjust
  | fdReify fuel t ends => exact roomy.fdReify backend ends
  | fdEvent fd revents => exact roomy.fdEvent fd revents
  | fdKill fd => exact roomy.fdKill fd
  | fdRearmAll => exact roomy.fdRearmAll
  | timersReify => exact roomy.timersReify
  | idleReify => exact roomy.idleReify
  | queueEvents ws type => exact roomy.queueEvents _ type
  | invokeFirst => exact roomy.next _
  | invokeNext => exact roomy.next _
  | _ => exact ⟨roomy.fdchanges, roomy.pendings, roomy.rfeeds, roomy.timers, roomy.arrays⟩

/-- Only the program says how a timer repeats. -/
theorem Good.repeat_eq {backend : Backend T ι β} {act : Act T ι} (good : s.Good)
    (step : s.Step backend act t) (other : ∀ w after repeat_, act ≠ .evTimerSet w after repeat_)
    (other' : ∀ w repeat_, act ≠ .setRepeat w repeat_) : t.repeat_ = s.repeat_ := by
  cases step with
  | evTimerSet w after repeat_ => exact absurd rfl (other w after repeat_)
  | setRepeat w repeat_ => exact absurd rfl (other' w repeat_)
  | evIoStart w => exact (Steady.io_start s w).repeat_eq
  | evIoStop w => exact (Steady.io_stop s w).repeat_eq
  | evTimerStart w => exact (Steady.timer_start s w).repeat_eq
  | evTimerStop w => exact (Steady.timer_stop s w).repeat_eq
  | evTimerAgain w => exact (Steady.timer_again s w).repeat_eq
  | evIdleStart w => exact (Steady.idle_start s w).repeat_eq
  | evIdleStop w => exact (Steady.idle_stop s w).repeat_eq
  | evPrepareStart w | evCheckStart w | evForkStart w =>
      exact (Steady.array_start s _ _).repeat_eq
  | evPrepareStop w | evCheckStop w | evForkStop w =>
      exact (Steady.array_stop s _ _).repeat_eq
  | evFeedEvent w revents => exact (Steady.feed s w revents).repeat_eq
  | evFeedFdEvent fd revents => exact (Steady.feed_fdEvent s fd revents).repeat_eq
  | evClearPending w =>
      rw [evClearPending_fst]
      exact (Steady.clear s w).repeat_eq
  | timersReschedule adjust => exact (Steady.timersReschedule s adjust).repeat_eq
  | fdReify fuel t ends => exact (good.fdReify backend ends).2.1.repeat_eq
  | fdEvent fd revents => exact (Steady.fdEvent s fd revents).repeat_eq
  | fdKill fd => exact (good.kills fd).repeat_eq
  | fdRearmAll => exact (Steady.fdRearmAll s).repeat_eq
  | timersReify =>
      obtain ⟨ws, reified⟩ := timersReify_expires good.timers good.queued good.rests fun w on =>
        good.counted.ranged _ on
      rw [reified.same.eq]
  | idleReify => exact (Steady.idleReify s).repeat_eq
  | queueEvents ws type => exact (Steady.queueEvents s _ type).repeat_eq
  | invokeFirst => exact (Steady.next s _).repeat_eq
  | invokeNext => exact (Steady.next s _).repeat_eq
  | _ => rfl

theorem repeats_of_update {repeat_ : ι → T} (repeats : ∀ w, 0 ≤ repeat_ w) {w : ι} {x : T}
    (positive : 0 ≤ x) (v : ι) : 0 ≤ Function.update repeat_ w x v := by
  by_cases here : v = w
  · rwa [here, Function.update_self]
  · rw [Function.update_of_ne here]
    exact repeats v

/-! ## What the backend was told -/

/-- The descriptor may be another file than before, so that the backend will hear of it even
if its events are the same. -/
def Renewed (s : EvLoop T ι β) (fd : Nat) : Prop :=
  (s.anfds fd).reify &&& evIofdset.setWidth 8 ≠ 0

/-- The backend, and what the loop remembers of it, are as before. -/
structure SameKernel (s t : EvLoop T ι β) : Prop where
  backend_eq : t.backend = s.backend
  anfdmax_le : s.anfdmax ≤ t.anfdmax
  events_eq : ∀ fd, (t.anfds fd).events = (s.anfds fd).events
  emask_eq : ∀ fd, (t.anfds fd).emask = (s.anfds fd).emask
  egen_eq : ∀ fd, (t.anfds fd).egen = (s.anfds fd).egen
  renewed : ∀ fd, s.Renewed fd → t.Renewed fd

namespace SameKernel

theorem refl (s : EvLoop T ι β) : SameKernel s s :=
  ⟨rfl, le_refl _, fun _ => rfl, fun _ => rfl, fun _ => rfl, fun _ => id⟩

theorem trans {u : EvLoop T ι β} (first : SameKernel s t) (second : SameKernel t u) :
    SameKernel s u :=
  ⟨second.backend_eq.trans first.backend_eq, first.anfdmax_le.trans second.anfdmax_le,
    fun fd => (second.events_eq fd).trans (first.events_eq fd),
    fun fd => (second.emask_eq fd).trans (first.emask_eq fd),
    fun fd => (second.egen_eq fd).trans (first.egen_eq fd),
    fun fd => second.renewed fd ∘ first.renewed fd⟩

theorem foldl {α : Type} {f : EvLoop T ι β → α → EvLoop T ι β}
    (step : ∀ s x, SameKernel s (f s x)) (xs : List α) (s : EvLoop T ι β) :
    SameKernel s (xs.foldl f s) := by
  induction xs generalizing s with
  | nil => exact .refl s
  | cons x xs ih => exact (step s x).trans (ih _)

theorem of_anfds (backend_eq : t.backend = s.backend) (anfdmax_eq : t.anfdmax = s.anfdmax)
    (anfds_eq : t.anfds = s.anfds) : SameKernel s t :=
  ⟨backend_eq, anfdmax_eq.ge, fun _ => by rw [anfds_eq], fun _ => by rw [anfds_eq], fun _ => by rw [anfds_eq],
    fun _ => by rw [Renewed, Renewed, anfds_eq]; exact id⟩

theorem of_same (same : SameBut s t) : SameKernel s t :=
  of_anfds (by rw [same.eq]) (by rw [same.eq]) (by rw [same.eq])

theorem fdChange (s : EvLoop T ι β) (fd : Nat) (flags : BitVec 8) :
    SameKernel s (s.fdChange fd flags) := by
  have each : ∀ fd', (s.fdChange fd flags).anfds fd' =
      { s.anfds fd' with reify := ((s.fdChange fd flags).anfds fd').reify } := by
    intro fd'
    by_cases here : fd' = fd
    · subst here
      rw [fdChange_reify]
      exact Function.update_self ..
    · rw [fdChange_other s flags here]
  refine ⟨rfl, le_refl _, fun fd' => by rw [each], fun fd' => by rw [each], fun fd' => by rw [each],
    fun fd' renewed => ?_⟩
  by_cases here : fd' = fd
  · subst here
    rw [Renewed, fdChange_reify, BitVec.and_comm, BitVec.and_or_distrib_left, BitVec.and_comm]
    exact fun zero => renewed (BitVec.or_eq_zero_iff.mp zero).1
  · rw [Renewed, fdChange_other s flags here]
    exact renewed

/-- Changing the list of a descriptor. -/
theorem of_head {fd : Nat} {head : List ι} (backend_eq : t.backend = s.backend)
    (anfdmax_le : s.anfdmax ≤ t.anfdmax)
    (anfds_eq : t.anfds = Function.update s.anfds fd { s.anfds fd with head := head }) :
    SameKernel s t := by
  have each : ∀ fd', t.anfds fd' = { s.anfds fd' with head := (t.anfds fd').head } := by
    intro fd'
    rw [anfds_eq]
    by_cases here : fd' = fd
    · rw [here, Function.update_self]
    · rw [Function.update_of_ne here]
  exact ⟨backend_eq, anfdmax_le, fun fd' => by rw [each], fun fd' => by rw [each], fun fd' => by rw [each],
    fun fd' => by rw [Renewed, Renewed, each]; exact id⟩

theorem io_stop (s : EvLoop T ι β) (w : ι) : SameKernel s (s.evIoStop w) := by
  have same := clearPending_same s (.io w)
  by_cases off : s.active (.io w) = 0
  · rw [evIoStop_rests off]
    exact .of_same same
  · rw [evIoStop_eq off]
    have delisted : SameKernel (s.clearPending (.io w)) ((s.clearPending (.io w)).delisted w) :=
      of_head rfl (le_refl _) rfl
    exact (of_same same).trans (delisted.trans (fdChange ..))

theorem fdKill (s : EvLoop T ι β) (fd : Nat) : SameKernel s (s.fdKill fd) := by
  unfold EvLoop.fdKill
  generalize (s.anfds fd).head.length = fuel
  induction fuel generalizing s with
  | zero => exact .refl s
  | succ fuel ih =>
      unfold EvLoop.fdKillLoop
      split
      · exact .refl s
      · exact ((io_stop s _).trans (.of_same (evFeedEvent_same _ _ _))).trans (ih _)

theorem timer_start (s : EvLoop T ι β) (w : ι) : SameKernel s (s.evTimerStart w) := by
  unfold evTimerStart
  split
  · exact .refl s
  · exact of_anfds rfl rfl rfl

theorem timer_stop (s : EvLoop T ι β) (w : ι) : SameKernel s (s.evTimerStop w) := by
  refine (of_same (clearPending_same s (.timer w))).trans ?_
  unfold evTimerStop
  dsimp only
  split
  · exact .refl _
  · split <;> exact of_anfds rfl rfl rfl

theorem timer_again (s : EvLoop T ι β) (w : ι) : SameKernel s (s.evTimerAgain w) := by
  refine (of_same (clearPending_same s (.timer w))).trans ?_
  unfold evTimerAgain
  generalize s.clearPending (.timer w) = c
  dsimp only
  split
  · split
    · exact of_anfds rfl rfl rfl
    · exact timer_stop c w
  · split
    · have set : SameKernel c
          { c with at_ := Function.update c.at_ (.timer w) (c.repeat_ w) } := of_anfds rfl rfl rfl
      exact set.trans (timer_start _ w)
    · exact .refl c

theorem withTimers (s : EvLoop T ι β) (m : HeapMem T (W ι)) : SameKernel s (s.withTimers m) :=
  of_anfds rfl rfl rfl

theorem cacheAt (s : EvLoop T ι β) (k : Nat) : SameKernel s (s.cacheAt k) := of_anfds rfl rfl rfl

theorem feedReverse (s : EvLoop T ι β) (w : W ι) : SameKernel s (s.feedReverse w) :=
  of_anfds rfl rfl rfl

theorem expire (s : EvLoop T ι β) (w : ι) : SameKernel s (s.expire w) := by
  unfold EvLoop.expire
  split
  · refine trans ?_ ((cacheAt _ _).trans ((withTimers _ _).trans (feedReverse _ _)))
    dsimp only
    split <;> exact of_anfds rfl rfl rfl
  · exact (timer_stop s w).trans (feedReverse _ _)

theorem timersReify (s : EvLoop T ι β) : SameKernel s s.timersReify := by
  unfold EvLoop.timersReify
  split
  · have loop : ∀ fuel (s : EvLoop T ι β), SameKernel s (expireLoop fuel s) := by
      intro fuel
      induction fuel with
      | zero => exact .refl
      | succ fuel ih =>
          intro s
          unfold expireLoop
          split
          · split
            · exact (expire s _).trans (ih _)
            · exact .refl s
          · exact .refl s
    refine (loop _ s).trans ((foldl (fun s w => of_same (evFeedEvent_same s w evTimer)) _ _).trans
      (of_anfds rfl rfl rfl))
  · exact .refl s

theorem stopIn (s : EvLoop T ι β) (ws : Ws) (w : W ι) : SameKernel s (s.stopIn ws w) := by
  unfold EvLoop.stopIn
  dsimp only
  split <;> exact of_anfds rfl rfl rfl

theorem array_start (s : EvLoop T ι β) (ws : Ws) (w : W ι) :
    SameKernel s (if s.active w ≠ 0 then s else s.startIn ws w) := by
  split
  · exact .refl s
  · exact of_anfds rfl rfl rfl

theorem array_stop (s : EvLoop T ι β) (ws : Ws) (w : W ι) :
    SameKernel s (if (s.clearPending w).active w = 0 then s.clearPending w
      else (s.clearPending w).stopIn ws w) := by
  refine (of_same (clearPending_same s w)).trans ?_
  split
  · exact .refl _
  · exact stopIn _ ws w

theorem fdEventNocheck (s : EvLoop T ι β) (fd : Nat) (revents : Events) :
    SameKernel s (s.fdEventNocheck fd revents) :=
  foldl (fun s w => of_same (feedIo_same revents s w)) _ s

theorem idleLoop (s : EvLoop T ι β) (pri : Nat) : SameKernel s (s.idleLoop pri) := by
  induction pri with
  | zero => exact .refl s
  | succ pri ih =>
      unfold EvLoop.idleLoop
      split
      · exact .refl s
      · split
        · exact foldl (fun s w => of_same (evFeedEvent_same s w evIdle)) _ s
        · exact ih

end SameKernel

/-- Only `fd_reify` and a fork change what the backend was told. -/
theorem Good.same_kernel {backend : Backend T ι β} {act : Act T ι} (good : s.Good)
    (step : s.Step backend act t) (other : act ≠ .fdReify) (other' : act ≠ .fdRearmAll) :
    SameKernel s t := by
  cases step with
  | evIoStart w =>
      by_cases off : s.active (.io w) = 0
      · rw [evIoStart_eq good.fds.outside off]
        have listed : SameKernel s (s.listed w) := .of_head rfl (s.le_needAnfds _).2 rfl
        exact listed.trans ((SameKernel.fdChange ..).trans (.of_anfds rfl rfl rfl))
      · rw [evIoStart, if_pos off]
        exact .refl s
  | evIoStop w => exact .io_stop s w
  | evTimerStart w => exact .timer_start s w
  | evTimerStop w => exact .timer_stop s w
  | evTimerAgain w => exact .timer_again s w
  | evIdleStart w =>
      unfold evIdleStart
      split
      · exact .refl s
      · exact .of_anfds rfl rfl rfl
  | evIdleStop w =>
      refine (SameKernel.of_same (clearPending_same s (.idle w))).trans ?_
      unfold evIdleStop
      dsimp only
      split
      · exact .refl _
      · exact (SameKernel.stopIn ..).trans (.of_anfds rfl rfl rfl)
  | evPrepareStart w => exact .array_start s _ _
  | evPrepareStop w => exact .array_stop s _ _
  | evCheckStart w => exact .array_start s _ _
  | evCheckStop w => exact .array_stop s _ _
  | evForkStart w => exact .array_start s _ _
  | evForkStop w => exact .array_stop s _ _
  | evFeedEvent w revents => exact .of_same (evFeedEvent_same s w revents)
  | evFeedFdEvent fd revents =>
      unfold evFeedFdEvent
      split
      · exact .fdEventNocheck s fd revents
      · exact .refl s
  | evClearPending w =>
      rw [evClearPending_fst]
      exact .of_same (clearPending_same s w)
  | timersReschedule adjust =>
      refine .foldl (fun s k => ?_) _ s
      exact .of_anfds rfl rfl rfl
  | fdReify => exact absurd rfl other
  | fdEvent fd revents =>
      unfold EvLoop.fdEvent
      split
      · exact .fdEventNocheck s fd revents
      · exact .refl s
  | fdKill fd => exact .fdKill s fd
  | fdRearmAll => exact absurd rfl other'
  | timersReify => exact .timersReify s
  | idleReify =>
      unfold EvLoop.idleReify
      split
      · exact .idleLoop s numpri
      · exact .refl s
  | queueEvents ws type => exact .foldl (fun s w => .of_same (evFeedEvent_same s w type)) _ s
  | invokeFirst => exact .of_same (nextPending_same s _)
  | invokeNext => exact .of_same (nextPending_same s _)
  | _ => exact .of_anfds rfl rfl rfl

end EvLoop

end CLibs.Libev
