import CLibs.Libev.Active

/-!
# Descriptors

The watchers of a descriptor are in the list of that descriptor, and each change is on the
list for `fd_reify`.
-/

set_option autoImplicit false
set_option linter.unusedSectionVars false

namespace CLibs.Libev

theorem nextsizeLoop_le (cnt fuel ncur : Nat) (enough : cnt ≤ ncur + fuel) (some : 0 < ncur) :
    cnt ≤ nextsizeLoop cnt fuel ncur := by
  induction fuel generalizing ncur with
  | zero => exact enough
  | succ fuel ih =>
      unfold nextsizeLoop
      have double : ncur <<< 1 = 2 * ncur := by rw [Nat.shiftLeft_eq, pow_one, Nat.mul_comm]
      simp only [double]
      split
      · exact ih (2 * ncur) (by omega) (by omega)
      · exact not_lt.mp (by assumption)

/-- The array has room for `cnt` elements. -/
theorem le_arrayNextsize (elem cur cnt : Nat) (some : 0 < elem) :
    cnt ≤ arrayNextsize elem cur cnt := by
  have enough := nextsizeLoop_le cnt (cnt + 1) (cur + 1) (by omega) (Nat.succ_pos cur)
  unfold arrayNextsize
  dsimp only
  generalize nextsizeLoop cnt (cnt + 1) (cur + 1) = ncur at enough ⊢
  split
  · refine enough.trans ((Nat.le_div_iff_mul_le some).mpr ?_)
    unfold mallocRound
    omega
  · exact enough

namespace EvLoop

variable {T ι β : Type} [Tstamp T] [DecidableEq ι] {s t : EvLoop T ι β} {w : ι} {i : Nat}

/-- What a watcher of descriptors may wait for. -/
def Legal (events : Events) : Prop :=
  events &&& ~~~(evIofdset ||| evRead ||| evWrite) = 0

/-- What `ev_verify` asserts of the descriptors. The events of a descriptor are those of its
watchers unless it is going to be reified. -/
structure FdsOk (s : EvLoop T ι β) : Prop where
  mem_iff : ∀ fd w, w ∈ (s.anfds fd).head ↔ s.active (.io w) ≠ 0 ∧ s.fd w = fd
  nodup : ∀ fd, (s.anfds fd).head.Nodup
  one : ∀ w, s.active (.io w) ≠ 0 → s.active (.io w) = 1
  legal : ∀ w, s.active (.io w) ≠ 0 → s.events w &&& ~~~(evRead ||| evWrite) = 0
  outside : ∀ fd, s.anfdmax ≤ fd → s.anfds fd = {}
  synced : ∀ fd, (s.anfds fd).reify = 0 → (s.anfds fd).events = s.wanted fd

/-- From index `i` on `fdchanges` has the descriptors that are to be reified. -/
structure ChangesOk (s : EvLoop T ι β) (i : Nat) : Prop where
  mem_iff : ∀ fd, fd ∈ s.fdchanges.drop i ↔ (s.anfds fd).reify ≠ 0
  nodup : (s.fdchanges.drop i).Nodup
  le_length : i ≤ s.fdchanges.length

theorem FdsOk.inside (ok : s.FdsOk) (on : s.active (.io w) ≠ 0) : s.fd w < s.anfdmax := by
  by_contra out
  have member := (ok.mem_iff (s.fd w) w).mpr ⟨on, rfl⟩
  rw [ok.outside _ (not_lt.mp out)] at member
  exact List.not_mem_nil member

/-- `wanted` is about the watchers in the list only. -/
theorem wanted_congr {fd : Nat} (head_eq : (t.anfds fd).head = (s.anfds fd).head)
    (events_eq : ∀ w ∈ (s.anfds fd).head, t.events w = s.events w) : t.wanted fd = s.wanted fd := by
  unfold wanted
  rw [head_eq]
  generalize (0 : BitVec 8) = none
  generalize (s.anfds fd).head = ws at events_eq
  induction ws generalizing none with
  | nil => rfl
  | cons w ws ih =>
      rw [List.foldl_cons, List.foldl_cons, events_eq w List.mem_cons_self]
      exact ih _ fun v inside => events_eq v (List.mem_cons_of_mem w inside)

theorem FdsOk.congr (ok : s.FdsOk) (anfds_eq : t.anfds = s.anfds) (anfdmax_eq : t.anfdmax = s.anfdmax)
    (active_eq : ∀ w, t.active (.io w) = s.active (.io w))
    (fd_eq : ∀ w, s.active (.io w) ≠ 0 → t.fd w = s.fd w)
    (events_eq : ∀ w, s.active (.io w) ≠ 0 → t.events w = s.events w) : t.FdsOk := by
  refine ⟨fun fd w => ?_, anfds_eq ▸ ok.nodup, fun w => active_eq w ▸ ok.one w, fun w on => ?_,
    by rw [anfds_eq, anfdmax_eq]; exact ok.outside, fun fd still => ?_⟩
  · rw [anfds_eq, ok.mem_iff, active_eq]
    exact and_congr_right fun on => by rw [fd_eq w on]
  · rw [active_eq] at on
    rw [events_eq w on]
    exact ok.legal w on
  · rw [anfds_eq] at still ⊢
    rw [ok.synced fd still]
    exact (wanted_congr (by rw [anfds_eq]) fun w inside =>
      events_eq w ((ok.mem_iff fd w).mp inside).1).symm

theorem ChangesOk.congr (ok : s.ChangesOk i)
    (reify_eq : ∀ fd, (t.anfds fd).reify = (s.anfds fd).reify)
    (fdchanges_eq : t.fdchanges = s.fdchanges) : t.ChangesOk i where
  mem_iff fd := by
    rw [reify_eq, fdchanges_eq]
    exact ok.mem_iff fd
  nodup := fdchanges_eq ▸ ok.nodup
  le_length := fdchanges_eq ▸ ok.le_length

/-! ## Changes -/

theorem fdChange_head (s : EvLoop T ι β) (fd fd' : Nat) (flags : BitVec 8) :
    ((s.fdChange fd flags).anfds fd').head = (s.anfds fd').head := by
  unfold fdChange
  dsimp only
  by_cases here : fd' = fd
  · rw [here, Function.update_self]
  · rw [Function.update_of_ne here]

theorem fdChange_other (s : EvLoop T ι β) {fd fd' : Nat} (flags : BitVec 8) (other : fd' ≠ fd) :
    (s.fdChange fd flags).anfds fd' = s.anfds fd' :=
  Function.update_of_ne other ..

theorem fdChange_reify (s : EvLoop T ι β) (fd : Nat) (flags : BitVec 8) :
    ((s.fdChange fd flags).anfds fd).reify = (s.anfds fd).reify ||| flags := by
  unfold fdChange
  dsimp only
  rw [Function.update_self]

theorem or_ne_zero {n : Nat} {x y : BitVec n} (some : y ≠ 0) : x ||| y ≠ 0 := fun zero =>
  some ((BitVec.or_eq_zero_iff.mp zero).2)

/-- The descriptor is on the list of changes afterwards, once. -/
theorem ChangesOk.change (ok : s.ChangesOk i) (fd : Nat) {flags : BitVec 8} (some : flags ≠ 0) :
    (s.fdChange fd flags).ChangesOk i := by
  have changes : (s.fdChange fd flags).fdchanges =
      if (s.anfds fd).reify = 0 then s.fdchanges ++ [fd] else s.fdchanges := rfl
  have reify_iff : ∀ fd', ((s.fdChange fd flags).anfds fd').reify ≠ 0 ↔
      fd' = fd ∨ (s.anfds fd').reify ≠ 0 := by
    intro fd'
    by_cases here : fd' = fd
    · rw [here, fdChange_reify]
      exact iff_of_true (or_ne_zero some) (.inl rfl)
    · rw [fdChange_other s flags here]
      exact (or_iff_right here).symm
  by_cases fresh : (s.anfds fd).reify = 0
  · rw [if_pos fresh] at changes
    have drop_eq : (s.fdChange fd flags).fdchanges.drop i = s.fdchanges.drop i ++ [fd] := by
      rw [changes, List.drop_append_of_le_length ok.le_length]
    refine ⟨fun fd' => ?_, ?_, ?_⟩
    · rw [drop_eq, reify_iff, List.mem_append, List.mem_singleton, ok.mem_iff, or_comm]
    · rw [drop_eq]
      refine List.nodup_append.mpr ⟨ok.nodup, List.nodup_singleton fd, ?_⟩
      rintro a member b single rfl
      rw [List.mem_singleton.mp single] at member
      exact (ok.mem_iff fd).mp member fresh
    · rw [changes, List.length_append]
      exact Nat.le_add_right_of_le ok.le_length
  · rw [if_neg fresh] at changes
    refine ⟨fun fd' => ?_, changes ▸ ok.nodup, changes ▸ ok.le_length⟩
    rw [changes, reify_iff, ok.mem_iff, iff_or_self]
    rintro rfl
    exact fresh

/-- Growing the array changes none of its elements: the new ones are as before. -/
theorem needAnfds_eq (s : EvLoop T ι β) (cnt : Nat) (outside : ∀ fd, s.anfdmax ≤ fd → s.anfds fd = {}) :
    s.needAnfds cnt = { s with anfdmax := (s.needAnfds cnt).anfdmax } := by
  have anfds_eq : (s.needAnfds cnt).anfds = s.anfds := by
    unfold needAnfds
    split
    · funext fd
      dsimp only
      split
      · rename_i new
        exact (outside fd new.1).symm
      · rfl
    · rfl
  unfold needAnfds at anfds_eq ⊢
  split
  · rename_i more
    rw [if_pos more] at anfds_eq
    dsimp only at anfds_eq ⊢
    rw [anfds_eq]
  · rfl

theorem needAnfds_anfdmax (s : EvLoop T ι β) (cnt : Nat) : (s.needAnfds cnt).anfdmax =
    if cnt > s.anfdmax then arrayNextsize 16 s.anfdmax cnt else s.anfdmax := by
  unfold needAnfds
  split <;> rfl

theorem le_needAnfds (s : EvLoop T ι β) (cnt : Nat) :
    cnt ≤ (s.needAnfds cnt).anfdmax ∧ s.anfdmax ≤ (s.needAnfds cnt).anfdmax := by
  unfold needAnfds
  split
  · rename_i more
    have room := le_arrayNextsize 16 s.anfdmax cnt (by decide)
    exact ⟨room, (Nat.le_of_lt more).trans room⟩
  · exact ⟨not_lt.mp (by assumption), le_refl _⟩

/-! ## Starting and stopping -/

/-- The loop in which `w` is active and in the list of its descriptor. -/
def listed (s : EvLoop T ι β) (w : ι) : EvLoop T ι β :=
  { s.priAdjust (.io w) with
    active := Function.update s.active (.io w) 1
    activecnt := s.activecnt + 1
    anfdmax := (s.needAnfds (s.fd w + 1)).anfdmax
    anfds := Function.update s.anfds (s.fd w)
      { s.anfds (s.fd w) with head := w :: (s.anfds (s.fd w)).head } }

/-- The loop in which `w` is not active and not in the list of its descriptor. -/
def delisted (s : EvLoop T ι β) (w : ι) : EvLoop T ι β :=
  { s with
    active := Function.update s.active (.io w) 0
    activecnt := s.activecnt - 1
    anfds := Function.update s.anfds (s.fd w)
      { s.anfds (s.fd w) with head := (s.anfds (s.fd w)).head.erase w } }

/-- A watcher at rest joins the list of its descriptor, which is to be reified. -/
theorem evIoStart_eq (outside : ∀ fd, s.anfdmax ≤ fd → s.anfds fd = {})
    (off : s.active (.io w) = 0) :
    s.evIoStart w =
      { (s.listed w).fdChange (s.fd w)
          ((s.events w &&& evIofdset).setWidth 8 ||| evAnfdReify) with
        events := Function.update s.events w (s.events w &&& ~~~evIofdset) } := by
  have grown := (s.evStart (.io w) 1).needAnfds_eq (s.fd w + 1) outside
  have room : ((s.evStart (.io w) 1).needAnfds (s.fd w + 1)).anfdmax =
      (s.needAnfds (s.fd w + 1)).anfdmax := by
    rw [needAnfds_anfdmax, needAnfds_anfdmax]
    rfl
  unfold evIoStart
  rw [if_neg (not_not.mpr off)]
  dsimp only
  rw [grown, room]
  rfl

/-- An active watcher leaves the list of its descriptor, which is to be reified. -/
theorem evIoStop_eq (on : s.active (.io w) ≠ 0) :
    s.evIoStop w = ((s.clearPending (.io w)).delisted w).fdChange (s.fd w) evAnfdReify := by
  have same := clearPending_same s (.io w)
  have fd_eq : (s.clearPending (.io w)).fd = s.fd := by rw [same.eq]
  unfold evIoStop
  rw [if_neg (by rwa [same.active_eq]), ← fd_eq]
  rfl

theorem evIoStop_rests (off : s.active (.io w) = 0) :
    s.evIoStop w = s.clearPending (.io w) := by
  rw [evIoStop, if_pos (by rwa [(clearPending_same s (.io w)).active_eq])]

theorem evIoStart_starts (ok : s.FdsOk) (off : s.active (.io w) = 0) :
    Starts s (.io w) (s.evIoStart w) := by
  rw [evIoStart_eq ok.outside off]
  refine ⟨off, ?_, fun v other => ?_, rfl, rfl⟩
  · change Function.update s.active (.io w) 1 (.io w) ≠ 0
    rw [Function.update_self]
    exact one_ne_zero
  · change Function.update s.active (.io w) 1 v ≠ 0 ↔ _
    rw [Function.update_of_ne other]

theorem evIoStop_stops (on : s.active (.io w) ≠ 0) : Rests s (.io w) (s.evIoStop w) := by
  have same := clearPending_same s (.io w)
  have active_eq : (s.evIoStop w).active = Function.update s.active (.io w) 0 := by
    rw [evIoStop_eq on, ← same.active_eq]
    rfl
  refine ⟨on, by rw [active_eq, Function.update_self], fun v other => ?_, ?_, ?_⟩
  · rw [active_eq, Function.update_of_ne other]
  · rw [evIoStop_eq on]
    change (s.clearPending (.io w)).activecnt - 1 = _
    rw [same.eq]
  · rw [evIoStop_eq on]
    exact same.priority_eq

/-- The flags that `ev_io_start` passes on are never none. -/
theorem start_flags_ne_zero (events : Events) :
    (events &&& evIofdset).setWidth 8 ||| evAnfdReify ≠ 0 :=
  or_ne_zero (by decide)

theorem FdsOk.io_start (ok : s.FdsOk) (changes : s.ChangesOk i) (off : s.active (.io w) = 0)
    (legal : Legal (s.events w)) : (s.evIoStart w).FdsOk ∧ (s.evIoStart w).ChangesOk i := by
  have starts := evIoStart_starts ok off
  have eq := evIoStart_eq ok.outside off
  have flags := start_flags_ne_zero (s.events w)
  have head : ∀ fd, ((s.evIoStart w).anfds fd).head =
      if fd = s.fd w then w :: (s.anfds fd).head else (s.anfds fd).head := by
    intro fd
    rw [eq]
    dsimp only
    rw [fdChange_head, listed]
    dsimp only
    by_cases here : fd = s.fd w
    · rw [if_pos here, here, Function.update_self]
    · rw [if_neg here, Function.update_of_ne here]
  have other_fd : ∀ fd, fd ≠ s.fd w → (s.evIoStart w).anfds fd = s.anfds fd := by
    intro fd other
    rw [eq]
    dsimp only
    rw [fdChange_other _ _ other]
    exact Function.update_of_ne other ..
  have reify : ((s.evIoStart w).anfds (s.fd w)).reify ≠ 0 := by
    rw [eq]
    dsimp only
    rw [fdChange_reify]
    exact or_ne_zero flags
  have fd_eq : (s.evIoStart w).fd = s.fd := by rw [eq]; rfl
  have events_eq : (s.evIoStart w).events =
      Function.update s.events w (s.events w &&& ~~~evIofdset) := by rw [eq]
  have fresh : ∀ fd, w ∉ (s.anfds fd).head := fun fd inside => ((ok.mem_iff fd w).mp inside).1 off
  refine ⟨⟨fun fd v => ?_, fun fd => ?_, fun v on => ?_, fun v on => ?_, fun fd out => ?_,
    fun fd still => ?_⟩, ?_⟩
  · rw [head, fd_eq]
    by_cases self : v = w
    · rw [self, and_iff_right starts.on]
      by_cases here : fd = s.fd w
      · simp [here]
      · simp [here, Ne.symm here, fresh fd]
    · rw [starts.others (.io v) (by simpa), ← ok.mem_iff]
      by_cases here : fd = s.fd w
      · simp [here, self]
      · simp [here]
  · rw [head]
    split
    · exact List.nodup_cons.mpr ⟨fresh fd, ok.nodup fd⟩
    · exact ok.nodup fd
  · have active_eq : (s.evIoStart w).active = Function.update s.active (.io w) 1 := by rw [eq]; rfl
    rw [active_eq] at on ⊢
    by_cases self : W.io v = .io w
    · rw [self, Function.update_self]
    · rw [Function.update_of_ne self] at on ⊢
      exact ok.one v on
  · rw [events_eq]
    by_cases self : v = w
    · rw [self, Function.update_self]
      rw [BitVec.and_assoc, show ~~~evIofdset &&& ~~~(evRead ||| evWrite) =
        ~~~(evIofdset ||| evRead ||| evWrite) by decide]
      exact legal
    · rw [Function.update_of_ne self]
      exact ok.legal v ((starts.others (.io v) (by simpa)).mp on)
  · have grown := s.le_needAnfds (s.fd w + 1)
    have anfdmax_eq : (s.evIoStart w).anfdmax = (s.needAnfds (s.fd w + 1)).anfdmax := by
      rw [eq]; rfl
    rw [anfdmax_eq] at out
    rw [other_fd fd (by omega)]
    exact ok.outside fd (by omega)
  · by_cases here : fd = s.fd w
    · exact absurd (here ▸ still) reify
    · rw [other_fd fd here] at still ⊢
      rw [ok.synced fd still]
      refine (wanted_congr (by rw [other_fd fd here]) fun v inside => ?_).symm
      rw [events_eq, Function.update_of_ne]
      rintro rfl
      exact fresh fd inside
  · rw [eq]
    have listed : (s.listed w).ChangesOk i := changes.congr (fun fd => ?_) rfl
    · exact (listed.change (s.fd w) flags).congr (fun _ => rfl) rfl
    · unfold EvLoop.listed
      dsimp only
      by_cases here : fd = s.fd w
      · rw [here, Function.update_self]
      · rw [Function.update_of_ne here]

theorem FdsOk.of_same (ok : s.FdsOk) (same : SameBut s t) : t.FdsOk := by
  rw [same.eq]
  exact ok.congr rfl rfl (fun _ => rfl) (fun _ _ => rfl) fun _ _ => rfl

theorem ChangesOk.of_same (ok : s.ChangesOk i) (same : SameBut s t) : t.ChangesOk i := by
  rw [same.eq]
  exact ok.congr (fun _ => rfl) rfl

theorem FdsOk.io_stop (ok : s.FdsOk) (changes : s.ChangesOk i) (on : s.active (.io w) ≠ 0) :
    (s.evIoStop w).FdsOk ∧ (s.evIoStop w).ChangesOk i := by
  have stops := evIoStop_stops on
  have same := clearPending_same s (.io w)
  have eq := evIoStop_eq on
  generalize s.clearPending (.io w) = c at same eq
  have head : ∀ fd, ((s.evIoStop w).anfds fd).head =
      if fd = s.fd w then (s.anfds fd).head.erase w else (s.anfds fd).head := by
    intro fd
    rw [eq, fdChange_head, delisted, same.eq]
    dsimp only
    by_cases here : fd = s.fd w
    · rw [if_pos here, here, Function.update_self]
    · rw [if_neg here, Function.update_of_ne here]
  have other_fd : ∀ fd, fd ≠ s.fd w → (s.evIoStop w).anfds fd = s.anfds fd := by
    intro fd other
    rw [eq, fdChange_other _ _ other, same.eq]
    exact Function.update_of_ne other ..
  have reify : ((s.evIoStop w).anfds (s.fd w)).reify ≠ 0 := by
    rw [eq, fdChange_reify]
    exact or_ne_zero (by decide)
  have fd_eq : (s.evIoStop w).fd = s.fd := by rw [eq, same.eq]; rfl
  have events_eq : (s.evIoStop w).events = s.events := by rw [eq, same.eq]; rfl
  have anfdmax_eq : (s.evIoStop w).anfdmax = s.anfdmax := by rw [eq, same.eq]; rfl
  have was : ∀ v, (s.evIoStop w).active (.io v) ≠ 0 → v ≠ w ∧ s.active (.io v) ≠ 0 := by
    intro v still
    have other : v ≠ w := by
      rintro rfl
      exact still stops.off
    exact ⟨other, (stops.others (.io v) (by simpa)).mp still⟩
  refine ⟨⟨fun fd v => ?_, fun fd => ?_, fun v still => ?_, fun v still => ?_, fun fd out => ?_,
    fun fd still => ?_⟩, ?_⟩
  · rw [head, fd_eq]
    by_cases self : v = w
    · rw [self, stops.off]
      by_cases here : fd = s.fd w
      · simp [here, (ok.nodup (s.fd w)).mem_erase_iff]
      · simp [here, ok.mem_iff, Ne.symm here]
    · rw [stops.others (.io v) (by simpa), ← ok.mem_iff]
      by_cases here : fd = s.fd w
      · rw [if_pos here, List.mem_erase_of_ne self]
      · rw [if_neg here]
  · rw [head]
    split
    · exact (ok.nodup fd).erase w
    · exact ok.nodup fd
  · obtain ⟨other, on'⟩ := was v still
    have active_eq : (s.evIoStop w).active = Function.update s.active (.io w) 0 := by
      rw [eq, same.eq]
      rfl
    rw [active_eq, Function.update_of_ne (by simpa)]
    exact ok.one v on'
  · rw [events_eq]
    exact ok.legal v (was v still).2
  · rw [anfdmax_eq] at out
    rw [other_fd fd]
    · exact ok.outside fd out
    · rintro rfl
      exact absurd (ok.inside on) (not_lt.mpr out)
  · by_cases here : fd = s.fd w
    · exact absurd (here ▸ still) reify
    · rw [other_fd fd here] at still ⊢
      rw [ok.synced fd still]
      exact (wanted_congr (by rw [other_fd fd here]) fun v _ => by rw [events_eq]).symm
  · rw [eq]
    have listed : (c.delisted w).ChangesOk i := (changes.of_same same).congr (fun fd => ?_) rfl
    · exact listed.change (s.fd w) (by decide)
    · unfold delisted
      dsimp only
      by_cases here : fd = c.fd w
      · rw [here, Function.update_self]
      · rw [Function.update_of_ne here]

end EvLoop

end CLibs.Libev
