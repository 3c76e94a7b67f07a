import CLibs.Libev.Reify

/-!
# What the backends deliver

After it has asked the kernel, a backend feeds the events of a descriptor to its watchers, or
stops them if it has learnt that the descriptor is not valid. The other watchers do not notice.
-/

set_option autoImplicit false
set_option linter.unusedSectionVars false

namespace CLibs.Libev

/-- The values of `errno` that a backend knows. -/
inductive Errno where
  | eperm
  | enoent
  | eintr
  | ebadf
  | enomem
  | eexist
  | enospc
  | other
deriving DecidableEq

/-- What the kernel has told of a descriptor. -/
inductive Report where
  | got (revents : Events)
  | invalid

/-- The report on one descriptor; nothing is told of the others. -/
def Report.only (fd : Nat) (report : Report) (fd' : Nat) : Report :=
  if fd' = fd then report else .got 0

theorem Report.only_quiet (fd fd' : Nat) : Report.only fd (.got 0) fd' = .got 0 := by
  unfold Report.only
  split <;> rfl

namespace EvLoop

variable {T ι β : Type} [Tstamp T] [DecidableEq ι] {s t : EvLoop T ι β} {fd : Nat}

/-- `t` differs from `s` at most in what is pending, in which watchers are active, and in what
is known of descriptors. -/
structure SameButIo (s t : EvLoop T ι β) : Prop where
  eq : t = { s with
    active := t.active, activecnt := t.activecnt, pending := t.pending, pendings := t.pendings,
    pendingmax := t.pendingmax, pendingpri := t.pendingpri, anfds := t.anfds,
    fdchanges := t.fdchanges, fdchangemax := t.fdchangemax }

namespace SameButIo

theorem refl (s : EvLoop T ι β) : SameButIo s s := ⟨rfl⟩

theorem trans {u : EvLoop T ι β} (first : SameButIo s t) (second : SameButIo t u) :
    SameButIo s u := by
  refine ⟨?_⟩
  rw [second.eq, first.eq]

theorem foldl {α : Type} {f : EvLoop T ι β → α → EvLoop T ι β} (step : ∀ s x, SameButIo s (f s x))
    (xs : List α) (s : EvLoop T ι β) : SameButIo s (xs.foldl f s) := by
  induction xs generalizing s with
  | nil => exact .refl s
  | cons x xs ih => exact (step s x).trans (ih _)

theorem fd_eq (same : SameButIo s t) : t.fd = s.fd := by rw [same.eq]

theorem events_eq (same : SameButIo s t) : t.events = s.events := by rw [same.eq]

theorem feed (s : EvLoop T ι β) (w : W ι) (revents : Events) :
    SameButIo s (s.evFeedEvent w revents) := by
  refine ⟨?_⟩
  unfold evFeedEvent
  split <;> rfl

theorem clear (s : EvLoop T ι β) (w : W ι) : SameButIo s (s.clearPending w) := by
  refine ⟨?_⟩
  unfold clearPending
  split <;> rfl

theorem io_stop (s : EvLoop T ι β) (w : ι) : SameButIo s (s.evIoStop w) := by
  refine (clear s (.io w)).trans ?_
  by_cases off : s.active (.io w) = 0
  · rw [evIoStop_rests off]
    exact .refl _
  · rw [evIoStop_eq off]
    exact ⟨rfl⟩

theorem fdKillLoop (s : EvLoop T ι β) (fd fuel : Nat) : SameButIo s (EvLoop.fdKillLoop fd fuel s) := by
  induction fuel generalizing s with
  | zero => exact .refl s
  | succ fuel ih =>
      unfold EvLoop.fdKillLoop
      split
      · exact .refl s
      · exact ((io_stop s _).trans (feed _ _ _)).trans (ih _)

theorem fdEvent (s : EvLoop T ι β) (fd : Nat) (revents : Events) :
    SameButIo s (s.fdEvent fd revents) := by
  unfold EvLoop.fdEvent
  split
  · refine .foldl (fun s w => ?_) _ s
    unfold feedIo
    dsimp only
    split
    · exact feed s _ _
    · exact .refl s
  · exact .refl s

theorem fdRearmAll (s : EvLoop T ι β) : SameButIo s s.fdRearmAll := by
  refine .foldl (fun s fd => ?_) _ s
  dsimp only
  split
  · exact ⟨rfl⟩
  · exact .refl s

end SameButIo

/-- `fd_kill` is about the active watchers of its descriptor. -/
theorem GoodFrom.fdKillLoop_spares {i : Nat} (good : s.GoodFrom i) (fuel : Nat) {v : W ι}
    (other : ∀ w, v = .io w → s.active v ≠ 0 → s.fd w ≠ fd) :
    (EvLoop.fdKillLoop fd fuel s).active v = s.active v ∧
      (EvLoop.fdKillLoop fd fuel s).waiting v = s.waiting v := by
  induction fuel generalizing s with
  | zero => exact ⟨rfl, rfl⟩
  | succ fuel ih =>
      unfold EvLoop.fdKillLoop
      split
      · exact ⟨rfl, rfl⟩
      · rename_i u us first
        obtain ⟨on, fd_eq⟩ := (good.fds.mem_iff fd u).mp (first ▸ List.mem_cons_self)
        have away : v ≠ .io u := by
          rintro rfl
          exact other u rfl on fd_eq
        have stopped := good.io_stop u
        have ranged : (s.evIoStop u).Ranged (.io u) := by
          rw [Ranged, evIoStop_priority]
          exact good.counted.ranged _ on
        have active_eq : ((s.evIoStop u).evFeedEvent (.io u) killedEvents).active v = s.active v := by
          rw [(evFeedEvent_same _ _ _).active_eq, evIoStop_eq on,
            ← (clearPending_same s (.io u)).active_eq]
          exact Function.update_of_ne away ..
        have waiting_eq : ((s.evIoStop u).evFeedEvent (.io u) killedEvents).waiting v = s.waiting v := by
          rw [stopped.queued.waiting_feed, if_neg away, good.waiting_io_stop, if_neg away]
        have same := (SameButIo.io_stop s u).trans (.feed _ (.io u) killedEvents)
        obtain ⟨active, waiting⟩ := ih (stopped.feed killedEvents ranged (by simp)) fun w kind runs => by
          rw [same.fd_eq]
          exact other w kind (active_eq ▸ runs)
        exact ⟨active.trans active_eq, waiting.trans waiting_eq⟩

theorem GoodFrom.fdKillLoop_anfds {i : Nat} (good : s.GoodFrom i) (fuel : Nat) {fd' : Nat}
    (other : fd' ≠ fd) : (EvLoop.fdKillLoop fd fuel s).anfds fd' = s.anfds fd' := by
  induction fuel generalizing s with
  | zero => rfl
  | succ fuel ih =>
      unfold EvLoop.fdKillLoop
      split
      · rfl
      · rename_i u us first
        obtain ⟨on, fd_eq⟩ := (good.fds.mem_iff fd u).mp (first ▸ List.mem_cons_self)
        have ranged : (s.evIoStop u).Ranged (.io u) := by
          rw [Ranged, evIoStop_priority]
          exact good.counted.ranged _ on
        have away : fd' ≠ s.fd u := fd_eq ▸ other
        rw [ih ((good.io_stop u).feed _ ranged (by simp)), (evFeedEvent_same _ _ _).eq]
        dsimp only
        rw [evIoStop_eq on, fdChange_other _ _ away, (clearPending_same s (.io u)).eq]
        exact Function.update_of_ne away ..

/-- What a watcher is fed when its descriptor is ready for `revents`. -/
def share (s : EvLoop T ι β) (w : ι) (revents : Events) : Option Events :=
  if s.events w &&& revents ≠ 0 then some (s.events w &&& revents) else none

theorem share_zero (s : EvLoop T ι β) (w : ι) : s.share w 0 = none :=
  if_neg (not_not.mpr BitVec.and_zero)

theorem share_congr (same : SameButIo s t) (w : ι) (revents : Events) :
    t.share w revents = s.share w revents := by
  rw [share, share, same.events_eq]

theorem ioFed_io (s : EvLoop T ι β) {ws : List ι} {w : ι} (member : w ∈ ws) (revents : Events) :
    s.ioFed ws revents (.io w) = s.share w revents := by
  simp only [ioFed, share, member, true_and]

/-- `t` is `s` after the reports on the descriptors were delivered. A watcher is stopped and fed
an error if its descriptor is not valid; else it is fed what it waits for, if there is anything.
Nothing else changes. -/
structure Delivers (s : EvLoop T ι β) (reports : Nat → Report) (t : EvLoop T ι β) : Prop where
  good : t.GoodFrom 0
  same : SameButIo s t
  anfds_eq : ∀ fd, reports fd ≠ .invalid → t.anfds fd = s.anfds fd
  stopped : ∀ w, s.active (.io w) ≠ 0 → reports (s.fd w) = .invalid →
    t.active (.io w) = 0 ∧ t.waiting (.io w) = some killedEvents
  fed : ∀ w revents, s.active (.io w) ≠ 0 → reports (s.fd w) = .got revents →
    t.active (.io w) = s.active (.io w) ∧
      t.waiting (.io w) = account false (s.share w revents) (s.waiting (.io w))
  others : ∀ v, (∀ w, v = .io w → s.active v = 0) →
    t.active v = s.active v ∧ t.waiting v = s.waiting v

namespace Delivers

variable {reports : Nat → Report}

/-- Nothing is delivered. -/
theorem refl (good : s.GoodFrom 0) (quiet : ∀ fd, reports fd = .got 0) : Delivers s reports s where
  good := good
  same := .refl s
  anfds_eq _ _ := rfl
  stopped w _ wrong := by
    rw [quiet] at wrong
    cases wrong
  fed w revents _ got := by
    rw [quiet, Report.got.injEq] at got
    rw [← got, share_zero]
    exact ⟨rfl, rfl⟩
  others _ _ := ⟨rfl, rfl⟩

theorem fdKill (good : s.GoodFrom 0) (fd : Nat) :
    Delivers s (Report.only fd .invalid) (s.fdKill fd) where
  good := good.fdKill fd
  same := .fdKillLoop s fd _
  anfds_eq fd' valid := by
    refine good.fdKillLoop_anfds _ fun here => valid ?_
    rw [Report.only, if_pos here]
  stopped w on report := by
    have here : s.fd w = fd := by
      by_contra other
      rw [Report.only, if_neg other] at report
      cases report
    have off : (s.fdKill fd).active (.io w) = 0 := by
      by_contra still
      have inside := ((good.fdKill fd).fds.mem_iff fd w).mpr
        ⟨still, by rwa [EvLoop.fdKill, (SameButIo.fdKillLoop s fd _).fd_eq]⟩
      rw [EvLoop.fdKill, fdKillLoop_head fd _ s good (le_refl _)] at inside
      exact List.not_mem_nil inside
    refine ⟨off, ?_⟩
    rcases (good.kills fd).each (.io w) with ⟨-, iff⟩ | ⟨-, -, -, waits⟩
    · exact absurd off (iff.mpr on)
    · exact waits
  fed w revents on report := by
    have other : s.fd w ≠ fd := by
      intro here
      rw [Report.only, if_pos here] at report
      cases report
    rw [Report.only, if_neg other, Report.got.injEq] at report
    rw [← report, share_zero]
    refine good.fdKillLoop_spares _ fun u kind _ => ?_
    rwa [← W.io.inj kind]
  others v kind := good.fdKillLoop_spares _ fun w eq on => absurd (kind w eq) on

theorem fdEvent (good : s.GoodFrom 0) {fd : Nat} (unchanged : (s.anfds fd).reify = 0)
    (revents : Events) : Delivers s (Report.only fd (.got revents)) (s.fdEvent fd revents) where
  good := good.fdEvent fd revents
  same := .fdEvent s fd revents
  anfds_eq fd' _ := by rw [(s.fdEvent_same fd revents).eq]
  stopped w _ report := by
    unfold Report.only at report
    split at report <;> cases report
  fed w got on report := by
    have member : w ∈ (s.anfds fd).head ↔ s.fd w = fd := by
      rw [good.fds.mem_iff, and_iff_right on]
    rw [(s.fdEvent_same fd revents).active_eq, EvLoop.fdEvent, if_pos unchanged,
      good.waiting_fdEventNocheck]
    unfold Report.only at report
    by_cases here : s.fd w = fd
    · rw [if_pos here, Report.got.injEq] at report
      rw [s.ioFed_io (member.mpr here), report]
      exact ⟨rfl, rfl⟩
    · rw [if_neg here, Report.got.injEq] at report
      rw [← report, share_zero, ioFed, if_neg fun both => here (member.mp both.1)]
      exact ⟨rfl, rfl⟩
  others v kind := by
    rw [(s.fdEvent_same fd revents).active_eq, EvLoop.fdEvent, if_pos unchanged,
      good.waiting_fdEventNocheck]
    refine ⟨rfl, ?_⟩
    cases v with
    | io w =>
        have outside : w ∉ (s.anfds fd).head := fun inside =>
          ((good.fds.mem_iff fd w).mp inside).1 (kind w rfl)
        rw [ioFed, if_neg fun both => outside both.1]
        rfl
    | _ => rfl

/-- Reports on different descriptors are delivered one after the other. -/
theorem trans {u : EvLoop T ι β} {first second : Nat → Report} (begins : Delivers s first t)
    (ends : Delivers t second u) (apart : ∀ fd, (first fd = .got 0 ∧ reports fd = second fd) ∨
      (second fd = .got 0 ∧ reports fd = first fd)) : Delivers s reports u where
  good := ends.good
  same := begins.same.trans ends.same
  anfds_eq fd valid := by
    rcases apart fd with ⟨quiet, eq⟩ | ⟨quiet, eq⟩
    · rw [ends.anfds_eq fd (eq ▸ valid), begins.anfds_eq fd (by rw [quiet]; simp)]
    · rw [ends.anfds_eq fd (by rw [quiet]; simp), begins.anfds_eq fd (eq ▸ valid)]
  stopped w on report := by
    rcases apart (s.fd w) with ⟨quiet, eq⟩ | ⟨quiet, eq⟩
    · obtain ⟨active_eq, -⟩ := begins.fed w 0 on quiet
      refine ends.stopped w (by rwa [active_eq]) ?_
      rw [begins.same.fd_eq, ← eq, report]
    · obtain ⟨off, waits⟩ := begins.stopped w on (eq ▸ report)
      obtain ⟨active_eq, waiting_eq⟩ := ends.others (.io w) fun _ _ => off
      exact ⟨active_eq.trans off, waiting_eq.trans waits⟩
  fed w revents on report := by
    rcases apart (s.fd w) with ⟨quiet, eq⟩ | ⟨quiet, eq⟩
    · obtain ⟨active_eq, waiting_eq⟩ := begins.fed w 0 on quiet
      obtain ⟨active_eq', waiting_eq'⟩ := ends.fed w revents (by rwa [active_eq])
        (by rw [begins.same.fd_eq, ← eq, report])
      rw [share_zero] at waiting_eq
      refine ⟨active_eq'.trans active_eq, ?_⟩
      rw [waiting_eq', share_congr begins.same, waiting_eq]
      rfl
    · obtain ⟨active_eq, waiting_eq⟩ := begins.fed w revents on (eq ▸ report)
      obtain ⟨active_eq', waiting_eq'⟩ := ends.fed w 0 (by rwa [active_eq])
        (by rw [begins.same.fd_eq, quiet])
      rw [share_zero] at waiting_eq'
      exact ⟨active_eq'.trans active_eq, waiting_eq'.trans waiting_eq⟩
  others v kind := by
    obtain ⟨active_eq, waiting_eq⟩ := begins.others v kind
    obtain ⟨active_eq', waiting_eq'⟩ := ends.others v fun w eq => active_eq.trans (kind w eq)
    exact ⟨active_eq'.trans active_eq, waiting_eq'.trans waiting_eq⟩

/-- The reports of a list of entries. -/
def of {α : Type} (fdOf : α → Nat) (report : α → Report) (xs : List α) (fd : Nat) : Report :=
  ((xs.find? fun x => fdOf x = fd).map report).getD (.got 0)

/-- A loop each turn of which delivers the report on another descriptor. -/
theorem foldl {α : Type} (turn : EvLoop T ι β → α → EvLoop T ι β) (fdOf : α → Nat)
    (report : α → Report) (start : EvLoop T ι β) (xs : List α)
    (each : ∀ (u : EvLoop T ι β) (x : α), u.GoodFrom 0 → u.anfds (fdOf x) = start.anfds (fdOf x) →
      x ∈ xs → Delivers u (Report.only (fdOf x) (report x)) (turn u x))
    (nodup : (xs.map fdOf).Nodup) (good : s.GoodFrom 0)
    (known : ∀ x ∈ xs, s.anfds (fdOf x) = start.anfds (fdOf x)) :
    Delivers s (of fdOf report xs) (xs.foldl turn s) := by
  induction xs generalizing s with
  | nil => exact .refl good fun _ => rfl
  | cons x xs ih =>
      obtain ⟨fresh, nodup⟩ := List.nodup_cons.mp nodup
      have first := each s x good (known x List.mem_cons_self) List.mem_cons_self
      have other : ∀ y ∈ xs, fdOf y ≠ fdOf x := fun y member same =>
        fresh (same ▸ List.mem_map_of_mem member)
      refine first.trans (ih (fun u y good known member => each u y good known
        (List.mem_cons_of_mem x member)) nodup first.good fun y member => ?_) fun fd => ?_
      · rw [first.anfds_eq _ (by rw [Report.only, if_neg (other y member)]; simp)]
        exact known y (List.mem_cons_of_mem x member)
      · unfold Report.only of
        by_cases here : fd = fdOf x
        · have gone : xs.find? (fun y => fdOf y = fd) = none := by
            rw [List.find?_eq_none]
            exact fun y member => by simpa [here] using other y member
          rw [gone, if_pos here]
          exact .inr ⟨rfl, by simp [here]⟩
        · rw [if_neg here, List.find?_cons_of_neg (by simpa using Ne.symm here)]
          exact .inl ⟨rfl, rfl⟩

end Delivers

end EvLoop

end CLibs.Libev
