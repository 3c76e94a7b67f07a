import CLibs.Libev.Poll

/-!
# What a program can rely on

In every run of a loop its assertions hold, timers expire when they are due, and each
watcher is called with the events that were fed to it since it was called last.
-/

set_option autoImplicit false
set_option linter.unusedSectionVars false

open CLibs.General

namespace CLibs.Libev

namespace EvLoop

variable {T ι β : Type} [Tstamp T] [DecidableEq ι] {s t : EvLoop T ι β}
  {backend : Backend T ι β} {acts : List (Act T ι)}

theorem run_good (run : (system backend).Run acts s) : s.Good := by
  refine System.Run.invariant Good ?_ ?_ run
  · rintro s ⟨now, b, rfl⟩
    exact loopInit_good now b
  · rintro s act t good ⟨allowed, step⟩
    exact (good.step allowed step).good

/-- What the functions assert of a watcher: that `ev_io_start` has not made it the next one of
itself, that its descriptor is in the array and it is in the heap when it is stopped, and that
it does not repeat in the past. -/
structure Asserted (s : EvLoop T ι β) : Prop where
  evIoStart : ∀ w, s.active (.io w) = 0 → w ∉ (s.anfds (s.fd w)).head
  evIoStop : ∀ w, s.active (.io w) ≠ 0 → s.fd w < s.anfdmax
  evTimerStart : ∀ w, 0 ≤ s.repeat_ w
  evTimerStop : ∀ w, s.active (.timer w) ≠ 0 → (s.timers (s.active (.timer w))).w = .timer w
  timersReify : ∀ w, s.repeat_ w ≠ 0 → 0 < s.repeat_ w

theorem run_roomy (run : (system backend).Run acts s) : s.Roomy := by
  refine System.Run.invariant Roomy ?_ ?_ run
  · rintro s ⟨now, b, rfl⟩
    exact loopInit_roomy now b
  · rintro s act t roomy ⟨-, step⟩
    exact roomy.step step

theorem run_repeats (run : (system backend).Run acts s) : s.Good ∧ ∀ w, 0 ≤ s.repeat_ w := by
  refine System.Run.invariant (fun s => s.Good ∧ ∀ w, 0 ≤ s.repeat_ w) ?_ ?_ run
  · rintro s ⟨now, b, rfl⟩
    exact ⟨loopInit_good now b, fun _ => le_refl _⟩
  · rintro s act t ⟨good, repeats⟩ ⟨allowed, step⟩
    refine ⟨(good.step allowed step).good, ?_⟩
    cases act with
    | evTimerSet w after repeat_ =>
        cases step
        exact repeats_of_update repeats allowed.2
    | setRepeat w repeat_ =>
        cases step
        exact repeats_of_update repeats allowed
    | _ =>
        rw [good.repeat_eq step (by simp) (by simp)]
        exact repeats

/-- No assertion of `ev_verify`, or of the functions that start and stop watchers, ever fails. -/
theorem evVerify_holds (run : (system backend).Run acts s) : s.EvVerify ∧ s.Asserted := by
  obtain ⟨good, repeats⟩ := run_repeats run
  refine ⟨good.toGoodFrom.evVerify (run_roomy run), fun w off inside => ?_,
    fun w on => good.fds.inside on, repeats, fun w on => ?_, fun w some => ?_⟩
  · exact ((good.fds.mem_iff _ w).mp inside).1 off
  · rw [(good.timers.active_eq on).2.2]
  · exact lt_of_le_of_ne (repeats w) some.symm

theorem run_step {act : Act T ι} (run : (system backend).Run acts s) (step : s.Step backend act t)
    (allowed : s.Allowed act) : (system backend).Run (acts ++ [act]) t :=
  .step run ⟨allowed, step⟩

/-- A loop that waits for a descriptor to become readable, with a timer for each fifth second
and one of a higher priority that is for the first second only. -/
def watched : EvLoop Int Nat Polls :=
  (((loopInit 0 pollInit).evIoSet 8 3 evRead).evIoStart 8).evTimerSet 7 1 5
    |>.evTimerStart 7 |>.evSetPriority (.timer 9) 2 |>.evTimerSet 9 1 0 |>.evTimerStart 9

/-- The loop when both timers are late. -/
def sample : EvLoop Int Nat Polls := { watched with mnNow := 2 }

theorem sample_run : (system pollBackend).Run
    [.evIoSet 8 3 evRead, .evIoStart 8, .evTimerSet 7 1 5, .evTimerStart 7,
      .evSetPriority (.timer 9) 2, .evTimerSet 9 1 0, .evTimerStart 9, .timeUpdate 2]
    sample := by
  have start : (system pollBackend).Run [] (loopInit (0 : Int) pollInit : EvLoop Int Nat Polls) :=
    .start ⟨0, pollInit, rfl⟩
  have io_set := run_step start (.evIoSet 8 3 evRead) rfl
  have io_start := run_step io_set (.evIoStart 8) (by unfold Allowed Legal; decide)
  have set := run_step io_start (.evTimerSet 7 1 5) ⟨rfl, by decide⟩
  have first := run_step set (.evTimerStart 7) trivial
  have higher := run_step first (.evSetPriority (.timer 9) 2) ⟨rfl, rfl⟩
  have set := run_step higher (.evTimerSet 9 1 0) ⟨rfl, by decide⟩
  have second := run_step set (.evTimerStart 9) trivial
  exact run_step second (.timeUpdate 2) trivial

theorem evVerify_holds_sample : sample.EvVerify ∧ sample.Asserted := evVerify_holds sample_run

/-- `timers_reify` lets each timer that is due expire once, in the order of their times. -/
theorem timers_expire (run : (system backend).Run acts s) : ∃ ws, Reified s ws s.timersReify := by
  have good := run_good run
  exact timersReify_expires good.timers good.queued good.rests fun w on => good.counted.ranged _ on

theorem timers_expire_sample : sample.Due 7 ∧ sample.Due 9 ∧
    ∃ ws, Reified sample ws sample.timersReify :=
  ⟨by decide, by decide, timers_expire sample_run⟩

/-! ## The ledger -/

/-- A loop beside a ledger, which has for each watcher the events that were fed to it since it
was last called, stopped or cleared. The ledger is kept by what the acts are, not by the queues. -/
def ledgered (backend : Backend T ι β) :
    System (EvLoop T ι β × (W ι → Option Events)) (Act T ι) where
  start x := (∃ now b, x.1 = loopInit now b) ∧ x.2 = fun _ => none
  step x act y := x.1.Allowed act ∧ x.1.Step backend act y.1 ∧
    y.2 = fun v => account (x.1.goneBy y.1 act v) (x.1.fedBy y.1 act v) (x.2 v)

theorem ledgered_balance {x : EvLoop T ι β × (W ι → Option Events)}
    (run : (ledgered backend).Run acts x) : x.1.Good ∧ x.1.waiting = x.2 := by
  refine System.Run.invariant (fun x => x.1.Good ∧ x.1.waiting = x.2) ?_ ?_ run
  · rintro ⟨s, ledger⟩ ⟨⟨now, b, rfl⟩, empty⟩
    exact ⟨loopInit_good now b, empty.symm⟩
  · rintro ⟨s, ledger⟩ act ⟨t, after⟩ ⟨good, balance⟩ ⟨allowed, step, booked⟩
    have effect := good.step allowed step
    refine ⟨effect.good, ?_⟩
    dsimp only at booked balance ⊢
    rw [booked]
    exact funext fun v => by rw [effect.waiting_eq, balance]

/-- A ledger can be kept beside every run. -/
theorem ledgered_of_run (run : (system backend).Run acts s) :
    ∃ ledger, (ledgered backend).Run acts (s, ledger) := by
  induction run with
  | start first => exact ⟨fun _ => none, .start ⟨first, rfl⟩⟩
  | @step acts act s t _ taken ih =>
      obtain ⟨ledger, run⟩ := ih
      exact ⟨fun v => account (s.goneBy t act v) (s.fedBy t act v) (ledger v),
        .step run ⟨taken.1, taken.2, rfl⟩⟩

/-- What `ev_invoke_pending` calls is paid out of the ledger: a watcher of the highest priority
that has events there, the last of its queue, is called with just these events. When there is
nothing to call, there are no events in the ledger. -/
def PaysOut (s : EvLoop T ι β) (ledger : W ι → Option Events) (act : Act T ι) : Prop :=
  match s.calledBy act with
  | none => ∀ v, ledger v = none
  | some p => p.w ≠ .pendingW → ledger p.w = some p.events ∧
      (∀ v, ledger v ≠ none → s.abspri v ≤ s.abspri p.w) ∧
      ∃ earlier, s.line (s.abspri p.w) = earlier ++ [p.w]

theorem calls_pay_out {ledger : W ι → Option Events} (run : (ledgered backend).Run acts (s, ledger))
    {act : Act T ι} (invokes : act = .invokeFirst ∨ act = .invokeNext) : s.PaysOut ledger act := by
  obtain ⟨good, balance⟩ := ledgered_balance run
  dsimp only at good balance
  rw [← balance]
  have found : ∀ pri, s.pendingpri < pri → pri ≤ numpri → match (s.nextPending pri).2 with
      | none => ∀ v, s.waiting v = none
      | some p => p.w ≠ .pendingW → s.waiting p.w = some p.events ∧
          (∀ v, s.waiting v ≠ none → s.abspri v ≤ s.abspri p.w) ∧
          ∃ earlier, s.line (s.abspri p.w) = earlier ++ [p.w] := by
    intro pri past most
    have next := good.queued.next past most
    generalize s.nextPending pri = result at next
    obtain ⟨t, _ | p⟩ := result
    · exact fun v => (next.2 v).1
    · intro real
      obtain ⟨waits, here⟩ := next.delivered real
      rw [here]
      exact ⟨waits, next.highest, _, next.latest real⟩
  rcases invokes with rfl | rfl
  · exact found numpri good.queued.top (le_refl _)
  · exact found _ (Nat.lt_succ_self _) good.queued.top

/-- The sample when both timers have expired and something was fed to the third watcher. -/
def overdue : EvLoop Int Nat Polls := sample.timersReify.evFeedEvent (.io 8) evWrite

/-- The timer of the higher priority is called first. -/
theorem calls_pay_out_overdue : overdue.invokeFirst.2.map ANPENDING.w = some (.timer 9) ∧
    ∃ ledger, overdue.PaysOut ledger .invokeFirst := by
  have late := run_step sample_run .timersReify trivial
  have run := run_step late (.evFeedEvent (.io 8) evWrite) ⟨by unfold Ranged; decide, by simp⟩
  obtain ⟨ledger, run⟩ := ledgered_of_run run
  exact ⟨by decide, ledger, calls_pay_out run (.inl rfl)⟩

end EvLoop

end CLibs.Libev
