import CLibs.Libev.Ledger

/-!
# `fd_reify`

For any backend whose `modify` keeps what holds of the loop, `fd_reify` leaves no
descriptor that is changed, and the loop knows for each what its watchers wait for.
-/

set_option autoImplicit false
set_option linter.unusedSectionVars false

namespace CLibs.Libev

namespace EvLoop

variable {T ι β : Type} [Tstamp T] [DecidableEq ι] {s t : EvLoop T ι β} {i fd : Nat}

/-- A backend: its `modify` keeps what holds of the loop, and calls `fd_kill` for descriptors
at most. A descriptor that is changed again has lost a watcher. -/
structure Backend (T ι β : Type) [Tstamp T] [DecidableEq ι] where
  modify : EvLoop T ι β → Nat → BitVec 8 → BitVec 8 → EvLoop T ι β
  keeps : ∀ {s : EvLoop T ι β} {i fd : Nat} (oev nev : BitVec 8), fd < s.anfdmax → s.GoodFrom i →
    (modify s fd oev nev).GoodFrom i
  kills : ∀ {s : EvLoop T ι β} {i fd : Nat} (oev nev : BitVec 8), fd < s.anfdmax → s.GoodFrom i →
    Kills s (modify s fd oev nev)
  fewer : ∀ {s : EvLoop T ι β} {i fd : Nat} (oev nev : BitVec 8), fd < s.anfdmax → s.GoodFrom i →
    (modify s fd oev nev).fdchanges.length + (modify s fd oev nev).activecnt ≤
      s.fdchanges.length + s.activecnt
  roomy : ∀ {s : EvLoop T ι β} {fd : Nat} (oev nev : BitVec 8), s.Roomy → (modify s fd oev nev).Roomy

/-- What `fd_reify` tells the backend of a descriptor, if anything. -/
theorem reifyFd_eq (modify : EvLoop T ι β → Nat → BitVec 8 → BitVec 8 → EvLoop T ι β)
    (s : EvLoop T ι β) (fd : Nat) : reifyFd modify s fd =
      if s.wanted fd ≠ (s.anfds fd).events ∨ (s.anfds fd).reify &&& evIofdset.setWidth 8 ≠ 0 then
        modify (s.reified fd) fd (s.anfds fd).events (s.wanted fd)
      else s.reified fd := by
  have events_eq : ((s.reified fd).anfds fd).events = s.wanted fd := by rw [reified_self]
  change (if (if (s.anfds fd).events ≠ ((s.reified fd).anfds fd).events then evIofdset.setWidth 8
      else (s.anfds fd).reify) &&& evIofdset.setWidth 8 ≠ 0 then
    modify (s.reified fd) fd (s.anfds fd).events ((s.reified fd).anfds fd).events
      else s.reified fd) = _
  rw [events_eq]
  by_cases same : (s.anfds fd).events ≠ s.wanted fd
  · rw [if_pos same, if_pos (by decide), if_pos (.inl same.symm)]
  · rw [if_neg same]
    have equal := not_not.mp same
    simp only [ne_eq, equal, not_true_eq_false, false_or]

/-- The loop of `fd_reify`, for what each turn keeps. -/
theorem reifyLoop_induct {modify : EvLoop T ι β → Nat → BitVec 8 → BitVec 8 → EvLoop T ι β}
    (inv : Nat → EvLoop T ι β → Prop)
    (turn : ∀ i s fd, inv i s → s.fdchanges[i]? = some fd → inv (i + 1) (reifyFd modify s fd))
    (fuel : Nat) (holds : inv i s) (ends : reifyLoop modify fuel i s = some t) :
    ∃ last u, inv last u ∧ u.fdchanges.length ≤ last ∧ t = { u with fdchanges := [] } := by
  induction fuel generalizing s i with
  | zero => cases ends
  | succ fuel ih =>
      unfold reifyLoop at ends
      split at ends
      · rename_i last
        exact ⟨i, s, holds, List.getElem?_eq_none_iff.mp last, (Option.some.inj ends).symm⟩
      · rename_i fd next
        exact ih (turn i s fd holds next) ends

variable (backend : Backend T ι β)

/-- The descriptors that are changed are in the array. -/
theorem GoodFrom.next_lt (good : s.GoodFrom i) (next : s.fdchanges[i]? = some fd) :
    fd < s.anfdmax := by
  obtain ⟨less, rfl⟩ := List.getElem?_eq_some_iff.mp next
  have changed := (good.changes.mem_iff s.fdchanges[i]).mp (by
    rw [List.drop_eq_getElem_cons less]
    exact List.mem_cons_self)
  by_contra out
  rw [good.fds.outside _ (not_lt.mp out)] at changed
  exact changed rfl

/-- Each turn of `fd_reify`. -/
theorem GoodFrom.reifyFd (good : s.GoodFrom i) (next : s.fdchanges[i]? = some fd) :
    (EvLoop.reifyFd backend.modify s fd).GoodFrom (i + 1) ∧
      Kills s (EvLoop.reifyFd backend.modify s fd) ∧
      (EvLoop.reifyFd backend.modify s fd).fdchanges.length +
          (EvLoop.reifyFd backend.modify s fd).activecnt ≤ s.fdchanges.length + s.activecnt := by
  have reified := good.reified next
  have inside : fd < (s.reified fd).anfdmax := good.next_lt next
  have kills : Kills s (s.reified fd) :=
    ⟨fun v => .inl ⟨congrFun (SameQueues.waiting_eq ⟨rfl, rfl, rfl, rfl⟩) v, Iff.rfl⟩, rfl, rfl⟩
  rw [reifyFd_eq]
  split
  · exact ⟨backend.keeps _ _ inside reified, kills.trans (backend.kills _ _ inside reified),
      backend.fewer _ _ inside reified⟩
  · exact ⟨reified, kills, le_refl _⟩

theorem GoodFrom.forget_changes {u : EvLoop T ι β} (good : u.GoodFrom i)
    (last : u.fdchanges.length ≤ i) :
    ({ u with fdchanges := [] } : EvLoop T ι β).GoodFrom 0 ∧ ∀ fd, (u.anfds fd).reify = 0 := by
  have all : u.fdchanges.drop i = [] := List.drop_eq_nil_of_le last
  have unchanged : ∀ fd, (u.anfds fd).reify = 0 := by
    intro fd
    by_contra changed
    have member := (good.changes.mem_iff fd).mpr changed
    rw [all] at member
    exact List.not_mem_nil member
  have queues : SameQueues u { u with fdchanges := [] } := ⟨rfl, rfl, rfl, rfl⟩
  exact ⟨⟨queues.queued good.queued,
    good.timers.congr rfl rfl (fun _ => rfl) fun _ _ => rfl,
    good.arrays.congr rfl rfl (fun _ _ => rfl) (fun _ _ => rfl) fun u => mt (home_eq_none u).mpr,
    good.fds.congr rfl rfl (fun _ => rfl) (fun _ _ => rfl) fun _ _ => rfl,
    ⟨fun fd => iff_of_false List.not_mem_nil (not_not.mpr (unchanged fd)), .nil, le_refl _⟩,
    good.counted.congr (fun _ => Iff.rfl) rfl fun _ _ => rfl, good.rfeeds⟩, unchanged⟩

/-- After `fd_reify` no descriptor is changed any more. -/
theorem GoodFrom.fdReify (good : s.GoodFrom 0) {fuel : Nat}
    (ends : s.fdReify backend.modify fuel = some t) :
    t.GoodFrom 0 ∧ Kills s t ∧ ∀ fd, (t.anfds fd).reify = 0 := by
  obtain ⟨last, u, ⟨good, kills⟩, end_, rfl⟩ := reifyLoop_induct
    (fun i u => u.GoodFrom i ∧ Kills s u)
    (fun i u fd holds next => by
      obtain ⟨good, kills, -⟩ := holds.1.reifyFd backend next
      exact ⟨good, holds.2.trans kills⟩) fuel ⟨good, .refl s⟩ ends
  obtain ⟨still, unchanged⟩ := good.forget_changes end_
  exact ⟨still, ⟨kills.each, kills.rfeeds_eq, kills.repeat_eq⟩, unchanged⟩

theorem Roomy.fdReify (roomy : s.Roomy) {fuel : Nat}
    (ends : s.fdReify backend.modify fuel = some t) : t.Roomy := by
  obtain ⟨last, u, roomy, -, rfl⟩ := reifyLoop_induct (fun _ u => u.Roomy)
    (fun _ u fd roomy _ => by
      have reified : (u.reified fd).Roomy :=
        ⟨roomy.fdchanges, roomy.pendings, roomy.rfeeds, roomy.timers, roomy.arrays⟩
      rw [reifyFd_eq]
      split
      · exact backend.roomy _ _ reified
      · exact reified) fuel roomy ends
  exact ⟨Nat.zero_le _, roomy.pendings, roomy.rfeeds, roomy.timers, roomy.arrays⟩

/-- `fd_reify` comes to an end: with each descriptor that is changed on the way the loop has
lost a watcher. -/
theorem GoodFrom.reifyLoop_ends (fuel : Nat) (good : s.GoodFrom i)
    (enough : s.fdchanges.length + s.activecnt < fuel + i) :
    ∃ t, EvLoop.reifyLoop backend.modify fuel i s = some t := by
  induction fuel generalizing s i with
  | zero =>
      obtain ⟨all, -, count⟩ := good.counted.count
      have le := good.changes.le_length
      omega
  | succ fuel ih =>
      unfold EvLoop.reifyLoop
      split
      · exact ⟨_, rfl⟩
      · rename_i fd next
        obtain ⟨good, -, fewer⟩ := good.reifyFd backend next
        exact ih good (by omega)

theorem GoodFrom.fdReify_ends (good : s.GoodFrom 0) :
    ∃ t, s.fdReify backend.modify (s.fdchanges.length + s.activecnt.toNat + 1) = some t := by
  obtain ⟨all, -, count⟩ := good.counted.count
  exact good.reifyLoop_ends backend _ (by omega)

/-! ## What the backends share -/

/-- What holds of a loop does not depend on its backend, nor on what it remembers for it. -/
theorem GoodFrom.of_kernel (good : s.GoodFrom i)
    (same : t = { s with anfds := t.anfds, backend := t.backend })
    (each : ∀ fd, t.anfds fd =
      { s.anfds fd with emask := (t.anfds fd).emask, egen := (t.anfds fd).egen })
    (outside : ∀ fd, s.anfdmax ≤ fd → t.anfds fd = {}) : t.GoodFrom i := by
  have queues : SameQueues s t := by
    rw [same]
    exact ⟨rfl, rfl, rfl, rfl⟩
  have active_eq : t.active = s.active := by rw [same]
  have fd_eq : t.fd = s.fd := by rw [same]
  have events_eq : t.events = s.events := by rw [same]
  have head_eq : ∀ fd, (t.anfds fd).head = (s.anfds fd).head := fun fd => by rw [each]
  have wanted_eq : ∀ fd, t.wanted fd = s.wanted fd := fun fd =>
    wanted_congr (head_eq fd) fun w _ => by rw [events_eq]
  have fds : t.FdsOk := by
    refine ⟨fun fd w => ?_, fun fd => ?_, fun w => ?_, fun w => ?_, fun fd less => ?_,
      fun fd still => ?_⟩
    · rw [head_eq, active_eq, fd_eq]
      exact good.fds.mem_iff fd w
    · rw [head_eq]
      exact good.fds.nodup fd
    · rw [active_eq]
      exact good.fds.one w
    · rw [active_eq, events_eq]
      exact good.fds.legal w
    · exact outside fd (by rwa [same] at less)
    · rw [each] at still
      rw [each, wanted_eq]
      exact good.fds.synced fd still
  exact ⟨queues.queued good.queued,
    good.timers.congr (by rw [same]) (by rw [same]) (fun _ => by rw [same]) fun _ _ => by rw [same],
    good.arrays.congr (by rw [same]) (by rw [same]) (fun _ _ => by rw [same])
      (fun _ _ => by rw [same]) fun u => mt (home_eq_none u).mpr, fds,
    good.changes.congr (fun _ => by rw [each]) (by rw [same]),
    good.counted.congr (fun _ => by rw [same]) (by rw [same]) fun _ _ => by rw [same],
    fun w member => by
      rw [queues.ranged_iff]
      exact good.rfeeds w (by rwa [same] at member)⟩

theorem fdEvent_same (s : EvLoop T ι β) (fd : Nat) (revents : Events) :
    SameBut s (s.fdEvent fd revents) := by
  unfold EvLoop.fdEvent
  split
  · exact .foldl (fun s w => feedIo_same revents s w) _ s
  · exact .refl s

/-- A descriptor wants what one of its watchers wants. -/
theorem wanted_and (s : EvLoop T ι β) (fd : Nat) (mask : BitVec 8) :
    s.wanted fd &&& mask ≠ 0 ↔ ∃ w ∈ (s.anfds fd).head, (s.events w).setWidth 8 &&& mask ≠ 0 := by
  have each : ∀ (ws : List ι) (x : BitVec 8),
      ws.foldl (fun events w => events ||| (s.events w).setWidth 8) x &&& mask ≠ 0 ↔
        x &&& mask ≠ 0 ∨ ∃ w ∈ ws, (s.events w).setWidth 8 &&& mask ≠ 0 := by
    intro ws
    induction ws with
    | nil => simp
    | cons w ws ih =>
        intro x
        have split : (x ||| (s.events w).setWidth 8) &&& mask ≠ 0 ↔
            x &&& mask ≠ 0 ∨ (s.events w).setWidth 8 &&& mask ≠ 0 := by
          rw [BitVec.and_comm, BitVec.and_or_distrib_left, BitVec.and_comm mask,
            BitVec.and_comm mask]
          exact (not_congr BitVec.or_eq_zero_iff).trans not_and_or
        rw [List.foldl_cons, ih, split, or_assoc]
        simp
  have zero : (0 : BitVec 8) &&& mask = 0 := BitVec.zero_and
  exact (each _ 0).trans (or_iff_right (not_not.mpr zero))

/-- The byte of a descriptor has room for the events that a mask of bytes is about. -/
theorem setWidth_and (events : Events) (mask : BitVec 8) :
    events.setWidth 8 &&& mask ≠ 0 ↔ events &&& mask.setWidth 32 ≠ 0 := by
  have same : events &&& mask.setWidth 32 = (events.setWidth 8 &&& mask).setWidth 32 := by
    ext i inside
    by_cases low : i < 8
    · simp [low, inside]
    · have out : mask.getLsbD i = false := BitVec.getLsbD_of_ge mask i (not_lt.mp low)
      simp [low, out]
  rw [same]
  refine not_congr ⟨fun zero => by rw [zero]; rfl, fun zero => ?_⟩
  have back := congrArg (BitVec.setWidth 8) zero
  rwa [BitVec.setWidth_setWidth_of_le _ (by decide), BitVec.setWidth_eq] at back

theorem legal_ne_zero {events : Events} (legal : events &&& ~~~(evRead ||| evWrite) = 0) :
    events.setWidth 8 ≠ 0 ↔ events ≠ 0 := by
  have parts : events &&& (evRead ||| evWrite) = events := by
    have whole : events &&& (evRead ||| evWrite) ||| events &&& ~~~(evRead ||| evWrite) =
        events := by
      rw [← BitVec.and_or_distrib_left, BitVec.or_not_self, BitVec.and_allOnes]
    rw [legal] at whole
    exact BitVec.or_zero.symm.trans whole
  constructor
  · rintro some rfl
    exact some rfl
  · intro some zero
    have masked := setWidth_and events (evRead.setWidth 8 ||| evWrite.setWidth 8)
    rw [zero, show (evRead.setWidth 8 ||| evWrite.setWidth 8).setWidth 32 =
      evRead ||| evWrite by decide, parts] at masked
    exact masked.mpr some BitVec.zero_and

/-- What the backend is to be told of a descriptor. -/
theorem GoodFrom.wanted_iff (good : s.GoodFrom i) (fd : Nat) (mask : BitVec 8) :
    s.wanted fd &&& mask ≠ 0 ↔
      ∃ w, s.active (.io w) ≠ 0 ∧ s.fd w = fd ∧ s.events w &&& mask.setWidth 32 ≠ 0 := by
  rw [wanted_and]
  simp only [setWidth_and, good.fds.mem_iff, and_assoc]

theorem GoodFrom.wanted_ne_zero (good : s.GoodFrom i) (fd : Nat) :
    s.wanted fd ≠ 0 ↔ ∃ w, s.active (.io w) ≠ 0 ∧ s.fd w = fd ∧ s.events w ≠ 0 := by
  have whole := s.wanted_and fd (BitVec.allOnes 8)
  simp only [BitVec.and_allOnes, good.fds.mem_iff, and_assoc] at whole
  rw [whole]
  refine exists_congr fun w => and_congr_right fun on => and_congr_right fun _ => ?_
  exact legal_ne_zero (good.fds.legal w on)

end EvLoop

end CLibs.Libev
