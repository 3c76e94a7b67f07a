import CLibs.Libev.Epoll

/-!
# Registrations

What the set of the kernel has for a descriptor is what the loop remembers to have told it.
After `fd_reify` each descriptor that watchers wait for is registered with their events, unless
the file is of a kind that `epoll` refuses, and no event that is reported is a spurious one.

No file has two descriptors here: an entry whose file stays open under another descriptor, for
which there are generations, is not modelled.
-/

set_option autoImplicit false
set_option linter.unusedSectionVars false

open CLibs.General

namespace CLibs.Libev

namespace EvLoop

variable {T ι : Type} [Tstamp T] [DecidableEq ι] {s t : EvLoop T ι Epoll} {fd : Nat}

/-! ## A descriptor and its entry -/

/-- An entry of the kernel is for an open file, and as the loop remembers it. -/
structure KernelOk (s : EvLoop T ι Epoll) (fd : Nat) : Prop where
  small : s.backend.kernel.files fd ≠ none → fd < 2 ^ 31
  supported : s.backend.kernel.set fd ≠ none → s.backend.kernel.files fd = some true
  inside : s.backend.kernel.set fd ≠ none → fd < s.anfdmax
  keyed : ∀ ev, s.backend.kernel.set fd = some ev →
    ev = ⟨epollEvents (s.anfds fd).emask, EpollEvent.pack fd (s.anfds fd).egen⟩

/-- The kernel waits for the events that the loop knows of, or refuses the file. -/
def Registered (s : EvLoop T ι Epoll) (fd : Nat) : Prop :=
  (s.backend.kernel.set fd ≠ none ∧ (s.anfds fd).emask = (s.anfds fd).events) ∨
    (s.backend.kernel.files fd = some false ∧ (s.anfds fd).emask = evEmaskEperm)

/-- Unless the loop is going to say so again, or was not told of another file. -/
def Registers (s : EvLoop T ι Epoll) (changed : Nat → Bool) (fd : Nat) : Prop :=
  (s.anfds fd).events ≠ 0 → ¬s.Renewed fd → changed fd = false → s.Registered fd

/-- Neither the loop nor the kernel sees a difference in a descriptor. -/
structure SameEntry (s t : EvLoop T ι Epoll) (fd : Nat) : Prop where
  files_eq : t.backend.kernel.files fd = s.backend.kernel.files fd
  set_eq : t.backend.kernel.set fd = s.backend.kernel.set fd
  emask_eq : (t.anfds fd).emask = (s.anfds fd).emask
  egen_eq : (t.anfds fd).egen = (s.anfds fd).egen
  events_eq : (t.anfds fd).events = (s.anfds fd).events
  renewed : s.Renewed fd → t.Renewed fd
  anfdmax_le : s.anfdmax ≤ t.anfdmax

theorem SameKernel.entry (same : SameKernel s t) (fd : Nat) : SameEntry s t fd :=
  ⟨by rw [same.backend_eq], by rw [same.backend_eq], same.emask_eq fd, same.egen_eq fd,
    same.events_eq fd, same.renewed fd, same.anfdmax_le⟩

theorem KernelOk.of_unset (small : s.backend.kernel.files fd ≠ none → fd < 2 ^ 31)
    (unset : s.backend.kernel.set fd = none) : s.KernelOk fd where
  small := small
  supported present := absurd unset present
  inside present := absurd unset present
  keyed ev entry := by
    rw [unset] at entry
    cases entry

theorem KernelOk.same (ok : s.KernelOk fd) (same : SameEntry s t fd) : t.KernelOk fd where
  small := by
    rw [same.files_eq]
    exact ok.small
  supported := by
    rw [same.set_eq, same.files_eq]
    exact ok.supported
  inside := by
    rw [same.set_eq]
    exact fun present => (ok.inside present).trans_le same.anfdmax_le
  keyed := by
    rw [same.set_eq, same.emask_eq, same.egen_eq]
    exact ok.keyed

theorem Registers.same {changed : Nat → Bool} (registers : s.Registers changed fd)
    (same : SameEntry s t fd) : t.Registers changed fd := by
  intro some still told
  rw [Registered, same.files_eq, same.set_eq, same.emask_eq, same.events_eq]
  rw [same.events_eq] at some
  exact registers some (mt same.renewed still) told

/-! ## Telling the kernel -/

/-- `t` is `s` after the kernel may have been told of `fd`. -/
structure Speaks (s : EvLoop T ι Epoll) (fd : Nat) (t : EvLoop T ι Epoll) : Prop where
  ok : t.KernelOk fd
  postfork_eq : t.backend.postfork = s.backend.postfork
  others : ∀ fd' ≠ fd, SameEntry s t fd' ∧ (t.anfds fd').head = (s.anfds fd').head

/-- The kernel was told of `fd`, whose watchers were killed if it did not listen. -/
structure Tells (s : EvLoop T ι Epoll) (fd : Nat) (t : EvLoop T ι Epoll) : Prop
    extends Speaks s fd t where
  registered : (t.anfds fd).events ≠ 0 → t.Registered fd ∨ (t.anfds fd).head = []

theorem Speaks.refl (ok : s.KernelOk fd) : Speaks s fd s :=
  ⟨ok, rfl, fun fd' _ => ⟨(SameKernel.refl s).entry fd', rfl⟩⟩

theorem Remembers.sameEntry (remembers : Remembers s fd t) {fd' : Nat} (other : fd' ≠ fd)
    (files_eq : t.backend.kernel.files = s.backend.kernel.files)
    (set_eq : t.backend.kernel.set fd' = s.backend.kernel.set fd') :
    SameEntry s t fd' ∧ (t.anfds fd').head = (s.anfds fd').head := by
  have entry := remembers.other other
  have anfdmax_eq : t.anfdmax = s.anfdmax := by rw [remembers.same]
  exact ⟨⟨by rw [files_eq], set_eq, by rw [entry], by rw [entry], by rw [entry],
    by rw [Renewed, Renewed, entry]; exact id, anfdmax_eq.ge⟩, by rw [entry]⟩

theorem noted_self (s : EvLoop T ι Epoll) (fd : Nat) (nev : BitVec 8) :
    (s.noted fd nev).anfds fd = { s.anfds fd with emask := nev, egen := (s.anfds fd).egen + 1 } :=
  Function.update_self ..

theorem KernelOk.unset (ok : s.KernelOk fd) (file : s.backend.kernel.files fd ≠ some true) :
    s.backend.kernel.set fd = none := by
  by_contra present
  exact file (ok.supported present)

/-- The kernel has taken a new entry. -/
theorem KernelOk.told (ok : s.KernelOk fd) (inside : fd < s.anfdmax)
    (file : s.backend.kernel.files fd = some true) :
    Tells s fd ((s.noted fd (s.anfds fd).events).withEntry fd
      (some ⟨epollEvents (s.anfds fd).events, EpollEvent.pack fd ((s.anfds fd).egen + 1)⟩)) := by
  refine ⟨⟨⟨ok.small, fun _ => file, fun _ => inside, fun ev entry => ?_⟩, rfl,
    fun fd' other => ?_⟩, fun _ => .inl (.inl ⟨?_, ?_⟩)⟩
  · change Function.update s.backend.kernel.set fd _ fd = some ev at entry
    rw [Function.update_self, Option.some.injEq] at entry
    change ev = ⟨epollEvents ((s.noted fd _).anfds fd).emask,
      EpollEvent.pack fd ((s.noted fd _).anfds fd).egen⟩
    rw [noted_self, entry]
  · exact (withEntry_remembers s fd _ _).sameEntry other rfl (Function.update_of_ne other ..)
  · change Function.update s.backend.kernel.set fd _ fd ≠ none
    rw [Function.update_self]
    exact Option.some_ne_none _
  · change ((s.noted fd _).anfds fd).emask = ((s.noted fd _).anfds fd).events
    rw [noted_self]

theorem refused_backend (s : EvLoop T ι Epoll) (fd : Nat) (oldmask : BitVec 8) :
    (s.refused fd oldmask).backend.kernel = s.backend.kernel ∧
      (s.refused fd oldmask).backend.postfork = s.backend.postfork := by
  unfold refused
  dsimp only
  split <;> exact ⟨rfl, rfl⟩

theorem refused_emask (s : EvLoop T ι Epoll) (fd : Nat) (oldmask : BitVec 8) :
    ((s.refused fd oldmask).anfds fd).emask = evEmaskEperm := by
  unfold refused
  dsimp only
  split <;> simp [setEmask]

/-- The kernel refuses the file. -/
theorem KernelOk.refuses (ok : s.KernelOk fd) (file : s.backend.kernel.files fd = some false)
    (nev oldmask : BitVec 8) : Tells s fd ((s.noted fd nev).refused fd oldmask) := by
  have remembers := refused_remembers s fd nev oldmask
  obtain ⟨kernel_eq, postfork_eq⟩ := (s.noted fd nev).refused_backend fd oldmask
  have unset := ok.unset (by rw [file]; simp)
  have none : ((s.noted fd nev).refused fd oldmask).backend.kernel.set fd = none := by
    rw [kernel_eq]
    exact unset
  refine ⟨⟨.of_unset ?_ none, postfork_eq, fun fd' other => ?_⟩, fun _ => .inl (.inr ⟨?_, ?_⟩)⟩
  · rw [kernel_eq]
    exact ok.small
  · exact remembers.sameEntry other (by rw [kernel_eq]; rfl) (by rw [kernel_eq]; rfl)
  · rw [kernel_eq]
    exact file
  · exact refused_emask _ fd oldmask

/-- The kernel does not take the entry, so that the watchers lose their descriptor. -/
theorem KernelOk.kills {i : Nat} (ok : s.KernelOk fd) (good : s.GoodFrom i) (inside : fd < s.anfdmax)
    (unset : s.backend.kernel.set fd = none) (nev : BitVec 8) :
    Tells s fd (((s.noted fd nev).fdKill fd).decEgen fd) := by
  have noted := (noted_remembers s fd nev).good inside good
  have kernel := SameKernel.fdKill (s.noted fd nev) fd
  have backend_eq : (((s.noted fd nev).fdKill fd).decEgen fd).backend = s.backend :=
    kernel.backend_eq
  have none : (((s.noted fd nev).fdKill fd).decEgen fd).backend.kernel.set fd = none := by
    rw [backend_eq, unset]
  refine ⟨⟨.of_unset ?_ none, by rw [backend_eq], fun fd' other => ?_⟩, fun _ => .inr ?_⟩
  · rw [backend_eq]
    exact ok.small
  · have first := (noted_remembers s fd nev).sameEntry other rfl rfl
    have away : ((s.noted fd nev).fdKill fd).anfds fd' = (s.noted fd nev).anfds fd' :=
      noted.fdKillLoop_anfds _ other
    have last : (((s.noted fd nev).fdKill fd).decEgen fd).anfds fd' = s.anfds fd' := by
      rw [(decEgen_remembers _ fd).other other, away, (noted_remembers s fd nev).other other]
    exact ⟨⟨by rw [backend_eq], by rw [backend_eq], by rw [last], by rw [last], by rw [last],
      by rw [Renewed, Renewed, last]; exact id, kernel.anfdmax_le⟩, by rw [last]⟩
  · have head : (((s.noted fd nev).fdKill fd).anfds fd).head = [] :=
      fdKillLoop_head fd _ _ noted (le_refl _)
    rw [(decEgen_remembers _ fd).anfds_eq, Function.update_self]
    exact head

/-- `epoll_modify` for the events that the loop knows a descriptor to want. -/
theorem KernelOk.modify {i : Nat} (ok : s.KernelOk fd) (good : s.GoodFrom i)
    (inside : fd < s.anfdmax) (oev : BitVec 8) :
    Tells s fd (s.epollModify fd oev (s.anfds fd).events) := by
  by_cases wants : (s.anfds fd).events = 0
  · rw [epollModify, if_pos wants]
    exact ⟨.refl ok, fun some => absurd wants some⟩
  · obtain ⟨file, eq⟩ | ⟨present, mask, eq⟩ | ⟨file, eq⟩ | ⟨missing, eq⟩ :=
      epollModify_cases s fd oev wants
    · rw [eq]
      exact ok.told inside file
    · rw [eq]
      exact ⟨.refl ok, fun _ => .inl (.inl ⟨present, mask⟩)⟩
    · rw [eq]
      exact ok.refuses file _ _
    · rw [eq]
      refine ok.kills good inside ?_ _
      by_cases file : s.backend.kernel.files fd = some true
      · exact missing file
      · exact ok.unset file

/-! ## What holds in all runs -/

/-- The loop and the kernel agree, but for the descriptors that are `changed`: each of them is
another file now than the one that the loop has told the kernel of. -/
structure Told (s : EvLoop T ι Epoll) (changed : Nat → Bool) : Prop where
  good : s.Good
  each : ∀ fd, s.KernelOk fd
  calm : s.backend.postfork = false
  registers : ∀ fd, s.Registers changed fd

variable {changed : Nat → Bool}

/-- What is good of a loop is not about its kernel. -/
theorem Good.withBackend (good : s.Good) (backend : Epoll) : Good { s with backend := backend } :=
  ⟨good.toGoodFrom.of_kernel rfl (fun _ => rfl) good.fds.outside, good.rests⟩

theorem Told.of_entries (told : s.Told changed) (good : t.Good) (same : ∀ fd, SameEntry s t fd)
    (postfork_eq : t.backend.postfork = s.backend.postfork) : t.Told changed :=
  ⟨good, fun fd => (told.each fd).same (same fd), postfork_eq.trans told.calm,
    fun fd => (told.registers fd).same (same fd)⟩

theorem Told.of_speaks (told : s.Told changed) (good : t.Good) (speaks : Speaks s fd t)
    (registers : t.Registers changed fd) : t.Told changed := by
  refine ⟨good, fun fd' => ?_, speaks.postfork_eq.trans told.calm, fun fd' => ?_⟩
  · by_cases here : fd' = fd
    · exact here ▸ speaks.ok
    · exact (told.each fd').same (speaks.others fd' here).1
  · by_cases here : fd' = fd
    · exact here ▸ registers
    · exact (told.registers fd').same (speaks.others fd' here).1

/-- The acts that the backend does not notice. -/
theorem Told.of_kernel (told : s.Told changed) (good : t.Good) (same : SameKernel s t) :
    t.Told changed :=
  told.of_entries good same.entry (by rw [same.backend_eq])

/-! ## `fd_reify` -/

/-- What holds within `fd_reify`, where watchers may have been killed. -/
structure Telling (s : EvLoop T ι Epoll) (changed : Nat → Bool) (i : Nat) : Prop where
  good : s.GoodFrom i
  each : ∀ fd, s.KernelOk fd
  calm : s.backend.postfork = false
  registers : ∀ fd, s.Registers changed fd ∨ (s.anfds fd).head = []

theorem reified_entry (s : EvLoop T ι Epoll) {fd' : Nat} (other : fd' ≠ fd) :
    SameEntry s (s.reified fd) fd' := by
  have entry := s.reified_other other
  exact ⟨rfl, rfl, by rw [entry], by rw [entry], by rw [entry], by
    rw [Renewed, Renewed, entry]; exact id, le_refl _⟩

theorem Telling.turn {i : Nat} (telling : s.Telling changed i)
    (next : s.fdchanges[i]? = some fd) :
    (EvLoop.reifyFd epollModify s fd).Telling changed (i + 1) := by
  obtain ⟨good, -⟩ := telling.good.reifyFd epollBackend next
  have reified := telling.good.reified next
  have inside : fd < (s.reified fd).anfdmax := telling.good.next_lt next
  have self := s.reified_self fd
  have ok : (s.reified fd).KernelOk fd :=
    ⟨(telling.each fd).small, (telling.each fd).supported, (telling.each fd).inside, by
      rw [self]
      exact (telling.each fd).keyed⟩
  have others : ∀ fd' ≠ fd, (s.reified fd).KernelOk fd' ∧
      ((s.reified fd).Registers changed fd' ∨ ((s.reified fd).anfds fd').head = []) := by
    intro fd' other
    have entry : SameEntry s (s.reified fd) fd' := s.reified_entry other
    refine ⟨(telling.each fd').same entry, (telling.registers fd').imp (fun told => told.same entry)
      fun empty => ?_⟩
    rw [s.reified_other other]
    exact empty
  change (EvLoop.reifyFd epollModify s fd).GoodFrom (i + 1) at good
  have wants : ((s.reified fd).anfds fd).events = s.wanted fd := by rw [self]
  rw [reifyFd_eq] at good ⊢
  split at good
  · rename_i speaks
    rw [if_pos speaks]
    have tells := ok.modify reified inside (s.anfds fd).events
    rw [wants] at tells
    refine ⟨good, fun fd' => ?_, tells.postfork_eq.trans telling.calm, fun fd' => ?_⟩
    · by_cases here : fd' = fd
      · exact here ▸ tells.ok
      · exact (others fd' here).1.same (tells.others fd' here).1
    · by_cases here : fd' = fd
      · subst here
        by_cases some : ((epollModify (s.reified fd') fd' (s.anfds fd').events
            (s.wanted fd')).anfds fd').events ≠ 0
        · exact (tells.registered some).imp (fun told _ _ _ => told) id
        · exact .inl fun wrong => absurd wrong some
      · obtain ⟨entry, head_eq⟩ := tells.others fd' here
        exact (others fd' here).2.imp (fun told => told.same entry) fun empty => head_eq.trans empty
  · rename_i quiet
    rw [if_neg quiet]
    obtain ⟨known, still⟩ := not_or.mp quiet
    refine ⟨good, fun fd' => ?_, telling.calm, fun fd' => ?_⟩
    · by_cases here : fd' = fd
      · exact here ▸ ok
      · exact (others fd' here).1
    · by_cases here : fd' = fd
      · subst here
        refine (telling.registers fd').imp (fun told some _ same => ?_) fun empty => ?_
        · rw [wants, not_not.mp known] at some
          have registered := told some still same
          rw [Registered, self]
          rw [Registered, ← not_not.mp known] at registered
          exact registered
        · rw [self]
          exact empty
      · exact (others fd' here).2

theorem Told.fdReify (told : s.Told changed) {fuel : Nat}
    (ends : s.fdReify epollModify fuel = some t) :
    t.Told changed ∧ ∀ fd, (t.anfds fd).reify = 0 := by
  obtain ⟨last, u, telling, end_, rfl⟩ := reifyLoop_induct (fun i u => u.Telling changed i)
    (fun i u fd telling next => telling.turn next) fuel
    ⟨told.good.toGoodFrom, told.each, told.calm, fun fd => .inl (told.registers fd)⟩ ends
  obtain ⟨good, kills, unchanged⟩ := told.good.fdReify epollBackend ends
  have same : SameKernel u { u with fdchanges := [] } := .of_anfds rfl rfl rfl
  refine ⟨⟨⟨good, kills.rfeeds_eq.trans told.good.rests⟩, fun fd =>
    (telling.each fd).same (same.entry fd), telling.calm, fun fd => ?_⟩, unchanged⟩
  rcases telling.registers fd with told | empty
  · exact told.same (same.entry fd)
  · intro some
    rw [good.fds.synced fd (unchanged fd)] at some
    refine absurd ?_ some
    unfold wanted
    dsimp only
    rw [empty]
    rfl

/-! ## `epoll_poll` -/

/-- What `epoll_wait(2)` may return: entries of the set, each once. -/
structure Reported (s : EvLoop T ι Epoll) (events : List EpollEvent) : Prop where
  nodup : (events.map EpollEvent.data).Nodup
  entry : ∀ ev ∈ events, ∃ fd asked, s.backend.kernel.set fd = some ⟨asked, ev.data⟩

/-- The loop that has told the kernel what it knows to be wanted of a descriptor, for an event
of it that nobody waits for. -/
def corrected (s : EvLoop T ι Epoll) (ev : EpollEvent) : EvLoop T ι Epoll :=
  let want := (s.anfds ev.fd).events
  if epollGot ev.events &&& ~~~want ≠ 0 then
    (s.setEmask ev.fd want).withEntry ev.fd
      (if want ≠ 0 then some ⟨epollEvents want, ev.data⟩ else none)
  else s

/-- An entry and the event that is reported of it. -/
theorem KernelOk.reported (ok : s.KernelOk fd) {asked : BitVec 32} {data : BitVec 64}
    (entry : s.backend.kernel.set fd = some ⟨asked, data⟩) (revents : BitVec 32) :
    (EpollEvent.mk revents data).fd = fd ∧
      (EpollEvent.mk revents data).egen = (s.anfds fd).egen := by
  have data_eq : data = EpollEvent.pack fd (s.anfds fd).egen :=
    congrArg EpollEvent.data (ok.keyed _ entry)
  have small : fd < 2 ^ 31 := by
    refine ok.small ?_
    rw [ok.supported (by rw [entry]; simp)]
    simp
  rw [data_eq]
  exact ⟨EpollEvent.fd_pack small revents _, EpollEvent.egen_pack fd revents _⟩

/-- An entry of the set can be changed, and taken out. -/
theorem epollCtl_ok (s : EvLoop T ι Epoll) {old : EpollEvent} (ev : EpollEvent)
    (file : s.backend.kernel.files fd = some true)
    (entry : s.backend.kernel.set fd = some old) :
    s.epollCtl .epollCtlMod fd ev = .ok (s.withEntry fd (some ev)) ∧
      s.epollCtl .epollCtlDel fd ev = .ok (s.withEntry fd none) := by
  simp [EvLoop.epollCtl, Kernel.epollCtl, file, entry, Except.map, withEntry]

theorem epollTurn_eq {ev : EpollEvent} (ok : s.KernelOk ev.fd) {asked : BitVec 32}
    (entry : s.backend.kernel.set ev.fd = some ⟨asked, ev.data⟩) :
    s.epollTurn ev = (s.corrected ev).fdEvent ev.fd ((epollGot ev.events).setWidth 32) := by
  have current : (s.anfds ev.fd).egen = ev.egen := (ok.reported entry ev.events).2.symm
  have file := ok.supported (by rw [entry]; simp)
  have ctl := fun ev' => epollCtl_ok (s.setEmask ev.fd (s.anfds ev.fd).events) ev' file entry
  unfold epollTurn corrected
  dsimp only
  rw [if_neg (not_not.mpr current)]
  by_cases spare : epollGot ev.events &&& ~~~(s.anfds ev.fd).events ≠ 0
  · rw [if_pos spare, if_pos spare]
    by_cases some : (s.anfds ev.fd).events ≠ 0
    · simp only [if_pos some, (ctl _).1]
    · simp only [if_neg some, (ctl _).2]
  · rw [if_neg spare, if_neg spare]

theorem corrected_remembers (s : EvLoop T ι Epoll) (ev : EpollEvent) :
    Remembers s ev.fd (s.corrected ev) := by
  unfold corrected
  dsimp only
  split
  · exact ⟨rfl, by simp [setEmask, withEntry]⟩
  · exact ⟨rfl, by simp⟩

/-- An event that nobody waits for is not reported again. -/
theorem KernelOk.corrected {ev : EpollEvent} (ok : s.KernelOk ev.fd) {asked : BitVec 32}
    (entry : s.backend.kernel.set ev.fd = some ⟨asked, ev.data⟩)
    (registers : s.Registers changed ev.fd) :
    Speaks s ev.fd (s.corrected ev) ∧ (s.corrected ev).Registers changed ev.fd := by
  have present : s.backend.kernel.set ev.fd ≠ none := by
    rw [entry]
    exact Option.some_ne_none _
  have remembers := s.corrected_remembers ev
  unfold EvLoop.corrected at remembers ⊢
  dsimp only at remembers ⊢
  split
  · rename_i spare
    rw [if_pos spare] at remembers
    have data_eq : ev.data = EpollEvent.pack ev.fd (s.anfds ev.fd).egen :=
      congrArg EpollEvent.data (ok.keyed _ entry)
    have self : (s.setEmask ev.fd (s.anfds ev.fd).events).anfds ev.fd =
        { s.anfds ev.fd with emask := (s.anfds ev.fd).events } := Function.update_self ..
    have registered : (s.anfds ev.fd).events ≠ 0 →
        ((s.setEmask ev.fd (s.anfds ev.fd).events).withEntry ev.fd
          (if (s.anfds ev.fd).events ≠ 0 then
            some ⟨epollEvents (s.anfds ev.fd).events, ev.data⟩ else none)).Registered ev.fd := by
      intro some
      refine .inl ⟨?_, ?_⟩
      · change Function.update s.backend.kernel.set ev.fd _ ev.fd ≠ none
        rw [Function.update_self, if_pos some]
        exact Option.some_ne_none _
      · change ((s.setEmask ev.fd _).anfds ev.fd).emask = ((s.setEmask ev.fd _).anfds ev.fd).events
        rw [self]
    have known : (((s.setEmask ev.fd (s.anfds ev.fd).events).withEntry ev.fd
        (if (s.anfds ev.fd).events ≠ 0 then
          some ⟨epollEvents (s.anfds ev.fd).events, ev.data⟩ else none)).anfds ev.fd).events =
        (s.anfds ev.fd).events := by
      change ((s.setEmask ev.fd _).anfds ev.fd).events = _
      rw [self]
    refine ⟨⟨⟨ok.small, fun _ => ok.supported present, fun _ => ok.inside present,
      fun ev' entry' => ?_⟩, rfl, fun fd' other => ?_⟩,
      fun some _ _ => registered (known ▸ some)⟩
    · change Function.update s.backend.kernel.set ev.fd _ ev.fd = some ev' at entry'
      rw [Function.update_self] at entry'
      split at entry'
      · change ev' = ⟨epollEvents ((s.setEmask ev.fd _).anfds ev.fd).emask,
          EpollEvent.pack ev.fd ((s.setEmask ev.fd _).anfds ev.fd).egen⟩
        rw [self, ← Option.some.inj entry', data_eq]
      · cases entry'
    · exact remembers.sameEntry other rfl (Function.update_of_ne other ..)
  · exact ⟨.refl ok, registers⟩

theorem Remembers.keeps (remembers : Remembers s fd t) (inside : fd < s.anfdmax) (good : s.Good) :
    t.Good :=
  ⟨remembers.good inside good.toGoodFrom, by
    rw [remembers.same]
    exact good.rests⟩

theorem Told.fdEvent (told : s.Told changed) (fd : Nat) (revents : Events) :
    (s.fdEvent fd revents).Told changed :=
  told.of_kernel ⟨told.good.toGoodFrom.fdEvent fd revents,
    (Steady.fdEvent s fd revents).rfeeds_eq.trans told.good.rests⟩ (.of_same (s.fdEvent_same ..))

/-- An event is delivered, and is no spurious one. -/
theorem Told.epollTurn (told : s.Told changed) {ev : EpollEvent} {asked : BitVec 32}
    (entry : s.backend.kernel.set ev.fd = some ⟨asked, ev.data⟩) :
    (s.epollTurn ev).Told changed ∧ ∀ fd' ≠ ev.fd,
      (s.epollTurn ev).backend.kernel.set fd' = s.backend.kernel.set fd' := by
  have ok := told.each ev.fd
  obtain ⟨speaks, registers⟩ := ok.corrected entry (told.registers ev.fd)
  have inside := ok.inside (by rw [entry]; simp)
  have good := (s.corrected_remembers ev).keeps inside told.good
  rw [epollTurn_eq ok entry]
  refine ⟨(told.of_speaks good speaks registers).fdEvent _ _, fun fd' other => ?_⟩
  rw [((s.corrected ev).fdEvent_same _ _).eq]
  exact (speaks.others fd' other).1.set_eq

/-- The descriptors of the events that are reported. -/
theorem Told.reported (told : s.Told changed) {events : List EpollEvent}
    (reported : s.Reported events) : (events.map EpollEvent.fd).Nodup ∧
      ∀ ev ∈ events, ∃ asked, s.backend.kernel.set ev.fd = some ⟨asked, ev.data⟩ := by
  have entry : ∀ ev ∈ events, ∃ asked, s.backend.kernel.set ev.fd = some ⟨asked, ev.data⟩ := by
    intro ev member
    obtain ⟨fd, asked, entry⟩ := reported.entry ev member
    have here : ev.fd = fd := ((told.each fd).reported entry ev.events).1
    exact ⟨asked, here ▸ entry⟩
  refine ⟨List.pairwise_map.mpr ?_, entry⟩
  refine (List.pairwise_map.mp reported.nodup).imp_of_mem fun {ev ev'} member member' other same => ?_
  obtain ⟨asked, here⟩ := entry ev member
  obtain ⟨asked', there⟩ := entry ev' member'
  rw [same, there, Option.some.injEq, EpollEvent.mk.injEq] at here
  exact other here.2.symm

theorem Told.epollTurns (told : s.Told changed) (events : List EpollEvent)
    (nodup : (events.map EpollEvent.fd).Nodup)
    (entry : ∀ ev ∈ events, ∃ asked, s.backend.kernel.set ev.fd = some ⟨asked, ev.data⟩) :
    (events.foldl EvLoop.epollTurn s).Told changed := by
  induction events generalizing s with
  | nil => exact told
  | cons ev events ih =>
      obtain ⟨fresh, nodup⟩ := List.nodup_cons.mp nodup
      obtain ⟨asked, here⟩ := entry ev List.mem_cons_self
      obtain ⟨turned, others⟩ := told.epollTurn here
      refine ih turned nodup fun ev' member => ?_
      rw [others ev'.fd fun same => fresh (same ▸ List.mem_map_of_mem member)]
      exact entry ev' (List.mem_cons_of_mem ev member)

/-- The set of the kernel is not touched. -/
theorem Told.of_backend (told : s.Told changed) {backend : Epoll}
    (kernel_eq : backend.kernel = s.backend.kernel)
    (postfork_eq : backend.postfork = s.backend.postfork) :
    Told { s with backend := backend } changed := by
  refine told.of_entries (told.good.withBackend backend) (fun fd => ?_) postfork_eq
  exact ⟨congrFun (congrArg Kernel.files kernel_eq) fd, congrFun (congrArg Kernel.set kernel_eq) fd,
    rfl, rfl, rfl, id, le_refl _⟩

theorem Told.epermLoop (told : s.Told changed) (i : Nat) : (EvLoop.epermLoop i s).Told changed := by
  induction i generalizing s with
  | zero => exact told
  | succ i ih =>
      unfold EvLoop.epermLoop
      dsimp only
      split
      · exact ih (told.fdEvent _ _)
      · exact ih (told.of_backend rfl rfl)

theorem Told.epollPoll (told : s.Told changed) {events : List EpollEvent}
    (reported : s.Reported events) : (s.epollPoll events).Told changed := by
  obtain ⟨nodup, entry⟩ := told.reported reported
  exact (told.epollTurns events nodup entry).epermLoop _

/-! ## The world -/

/-- The loop when something has happened in the kernel. -/
def withKernel (s : EvLoop T ι Epoll) (kernel : Kernel) : EvLoop T ι Epoll :=
  { s with backend := { s.backend with kernel := kernel } }

/-- The kernel has changed for one descriptor at most. -/
theorem Told.withKernel (told : s.Told changed) {kernel : Kernel} {changed' : Nat → Bool}
    (files_eq : ∀ fd' ≠ fd, kernel.files fd' = s.backend.kernel.files fd')
    (set_eq : ∀ fd' ≠ fd, kernel.set fd' = s.backend.kernel.set fd')
    (changed_eq : ∀ fd' ≠ fd, changed' fd' = changed fd') (ok : (s.withKernel kernel).KernelOk fd)
    (registers : (s.withKernel kernel).Registers changed' fd) :
    (s.withKernel kernel).Told changed' := by
  have others : ∀ fd' ≠ fd, SameEntry s (s.withKernel kernel) fd' := fun fd' other =>
    ⟨files_eq fd' other, set_eq fd' other, rfl, rfl, rfl, id, le_refl _⟩
  refine ⟨told.good.withBackend _, fun fd' => ?_, told.calm, fun fd' => ?_⟩
  · by_cases here : fd' = fd
    · exact here ▸ ok
    · exact (told.each fd').same (others fd' here)
  · by_cases here : fd' = fd
    · exact here ▸ registers
    · have same := (told.registers fd').same (others fd' here)
      rw [Registers, changed_eq fd' here]
      exact same

/-- The descriptors that are not open leave the set, and others may take their place. -/
theorem Told.close (told : s.Told changed) (fd : Nat) :
    (s.withKernel (s.backend.kernel.close fd)).Told (Function.update changed fd true) := by
  have gone : (s.backend.kernel.close fd).files fd = none := Function.update_self ..
  have unset : (s.backend.kernel.close fd).set fd = none := Function.update_self ..
  refine told.withKernel (fun _ other => Function.update_of_ne other ..)
    (fun _ other => Function.update_of_ne other ..) (fun _ other => Function.update_of_ne other ..)
    (.of_unset (fun opened => absurd gone opened) unset) fun _ _ same => ?_
  rw [Function.update_self] at same
  cases same

theorem Told.openFile (told : s.Told changed) {fd : Nat} (closed : s.backend.kernel.files fd = none)
    (small : fd < 2 ^ 31) (supported : Bool) :
    (s.withKernel (s.backend.kernel.openFile fd supported)).Told changed := by
  have unset := (told.each fd).unset (by rw [closed]; simp)
  refine told.withKernel (fun _ other => Function.update_of_ne other ..) (fun _ _ => rfl)
    (fun _ _ => rfl) (.of_unset (fun _ => small) unset) fun some still same => ?_
  rcases told.registers fd some still same with ⟨present, -⟩ | ⟨file, -⟩
  · exact absurd unset present
  · rw [closed] at file
    cases file

theorem rearm_events (fds : List Nat) (s : EvLoop T ι Epoll) (fd : Nat)
    (clear : fd ∈ fds ∨ (s.anfds fd).events = 0) :
    ((fds.foldl (fun s fd =>
      if (s.anfds fd).events ≠ 0 then
        (s.forgotten fd).fdChange fd (evIofdset.setWidth 8 ||| evAnfdReify)
      else s) s).anfds fd).events = 0 := by
  induction fds generalizing s with
  | nil => exact clear.resolve_left List.not_mem_nil
  | cons fd' fds ih =>
      refine ih _ ?_
      have other : fd ≠ fd' → ((s.forgotten fd').fdChange fd'
          (evIofdset.setWidth 8 ||| evAnfdReify)).anfds fd = s.anfds fd := fun away => by
        rw [fdChange_other _ _ away, forgotten_other s away]
      by_cases here : fd = fd'
      · refine .inr ?_
        subst here
        dsimp only
        split
        · rw [(SameKernel.fdChange ..).events_eq, forgotten_self]
        · exact not_not.mp (by assumption)
      · refine clear.imp (fun member => (List.mem_cons.mp member).resolve_left here) fun known => ?_
        dsimp only
        split
        · rw [other here, known]
        · exact known

/-- After a fork everything is told again. -/
theorem Told.epollFork (told : s.Told changed) : s.epollFork.Told fun _ => false := by
  have good := told.good.withBackend { s.backend with
    kernel := { s.backend.kernel with set := fun _ => none } }
  have rearmed : s.epollFork.Good :=
    ⟨good.toGoodFrom.fdRearmAll, (Steady.fdRearmAll _).rfeeds_eq.trans good.rests⟩
  have backend_eq : s.epollFork.backend = { s.backend with
      kernel := { s.backend.kernel with set := fun _ => none } } := by
    rw [EvLoop.epollFork, (SameButIo.fdRearmAll _).eq]
  have unset : ∀ fd, s.epollFork.backend.kernel.set fd = none := fun fd => by rw [backend_eq]
  refine ⟨rearmed, fun fd => .of_unset ?_ (unset fd), ?_, fun fd some => ?_⟩
  · rw [backend_eq]
    exact (told.each fd).small
  · rw [backend_eq]
    exact told.calm
  · refine absurd (rearm_events _ _ fd ?_) some
    by_cases inside : fd < s.anfdmax
    · exact .inl (List.mem_range.mpr inside)
    · refine .inr ?_
      change (s.anfds fd).events = 0
      rw [told.good.fds.outside fd (not_lt.mp inside)]

/-- A watcher that was set says when it starts that its descriptor may be another file. -/
theorem io_start_renewed {w : ι} (outside : ∀ fd, s.anfdmax ≤ fd → s.anfds fd = {})
    (off : s.active (.io w) = 0) (set : s.events w &&& evIofdset ≠ 0) :
    (s.evIoStart w).Renewed (s.fd w) := by
  have flag : (s.events w &&& evIofdset).setWidth 8 &&& evIofdset.setWidth 8 ≠ 0 := by
    rw [setWidth_and, show (evIofdset.setWidth 8).setWidth 32 = evIofdset by decide,
      BitVec.and_assoc, BitVec.and_self]
    exact set
  rw [evIoStart_eq outside off, Renewed]
  dsimp only
  rw [fdChange_reify, BitVec.and_comm, BitVec.and_or_distrib_left, BitVec.and_or_distrib_left]
  intro zero
  have zero := (BitVec.or_eq_zero_iff.mp (BitVec.or_eq_zero_iff.mp zero).2).1
  rw [BitVec.and_comm] at zero
  exact flag zero

/-- What can happen to a loop and to its kernel: a descriptor is closed or opened, and the kernel
has memory for more entries or for fewer. -/
inductive EpollAct (T ι : Type) where
  | act (act : Act T ι)
  | epollPoll (events : List EpollEvent)
  | epollFork
  | close (fd : Nat)
  | openFile (fd : Nat) (supported : Bool)
  | memory (room : Nat → Bool)

/-- The descriptors that are still changed after an act. -/
def heard (s : EvLoop T ι Epoll) (changed : Nat → Bool) : Act T ι → Nat → Bool
  | .evIoStart w =>
      if s.active (.io w) = 0 ∧ s.events w &&& evIofdset ≠ 0 then
        Function.update changed (s.fd w) false
      else changed
  | _ => changed

inductive EpollStep : EvLoop T ι Epoll × (Nat → Bool) → EpollAct T ι →
    EvLoop T ι Epoll × (Nat → Bool) → Prop
  | act {s t : EvLoop T ι Epoll} {changed : Nat → Bool} {act : Act T ι} : act ≠ .fdRearmAll →
      s.Allowed act → s.Step epollBackend act t →
      EpollStep (s, changed) (.act act) (t, s.heard changed act)
  | epollPoll {s : EvLoop T ι Epoll} {changed : Nat → Bool} {events : List EpollEvent} :
      s.Reported events →
      EpollStep (s, changed) (.epollPoll events) (s.epollPoll events, changed)
  | epollFork (s : EvLoop T ι Epoll) (changed : Nat → Bool) :
      EpollStep (s, changed) .epollFork (s.epollFork, fun _ => false)
  | close (s : EvLoop T ι Epoll) (changed : Nat → Bool) (fd : Nat) :
      EpollStep (s, changed) (.close fd)
        (s.withKernel (s.backend.kernel.close fd), Function.update changed fd true)
  | openFile {s : EvLoop T ι Epoll} (changed : Nat → Bool) {fd : Nat} (supported : Bool) :
      s.backend.kernel.files fd = none → fd < 2 ^ 31 →
      EpollStep (s, changed) (.openFile fd supported)
        (s.withKernel (s.backend.kernel.openFile fd supported), changed)
  | memory (s : EvLoop T ι Epoll) (changed : Nat → Bool) (room : Nat → Bool) :
      EpollStep (s, changed) (.memory room)
        (s.withKernel { s.backend.kernel with room := room }, changed)

/-- The runs of a new loop with any open files. -/
def epollSystem : System (EvLoop T ι Epoll × (Nat → Bool)) (EpollAct T ι) where
  start x := ∃ now files room, (∀ fd, files fd ≠ none → fd < 2 ^ 31) ∧
    x = (loopInit now { kernel := { files := files, room := room } }, fun _ => false)
  step := EpollStep

theorem Told.init (now : T) {files : Nat → Option Bool} (room : Nat → Bool)
    (small : ∀ fd, files fd ≠ none → fd < 2 ^ 31) :
    Told (loopInit now { kernel := { files := files, room := room } } : EvLoop T ι Epoll)
      fun _ => false where
  good := loopInit_good now _
  each fd := ⟨small fd, fun present => absurd rfl present, fun present => absurd rfl present,
    fun _ entry => absurd entry (by simp [loopInit])⟩
  calm := rfl
  registers _ some := absurd rfl some

theorem Told.act (told : s.Told changed) {act : Act T ι} (other : act ≠ .fdRearmAll)
    (allowed : s.Allowed act) (step : s.Step epollBackend act t) : t.Told (s.heard changed act) := by
  have good := (told.good.step allowed step).good
  by_cases reify : act = .fdReify
  · subst reify
    cases step with
    | fdReify fuel t ends => exact (told.fdReify ends).1
  · have same := told.of_kernel good (told.good.same_kernel step reify other)
    cases act with
    | evIoStart w =>
        cases step
        rw [heard]
        split
        · rename_i both
          refine ⟨good, same.each, same.calm, fun fd => ?_⟩
          by_cases here : fd = s.fd w
          · intro _ still
            rw [here] at still
            exact absurd (io_start_renewed told.good.fds.outside both.1 both.2) still
          · rw [Registers, Function.update_of_ne here]
            exact same.registers fd
        · exact same
    | _ => exact same

theorem epollSystem_told {acts : List (EpollAct T ι)} {x : EvLoop T ι Epoll × (Nat → Bool)}
    (run : epollSystem.Run acts x) : x.1.Told x.2 := by
  refine System.Run.invariant (fun x => x.1.Told x.2) ?_ ?_ run
  · rintro x ⟨now, files, room, small, rfl⟩
    exact .init now room small
  · rintro x act y told step
    cases step with
    | act other allowed step => exact told.act other allowed step
    | epollPoll reported => exact told.epollPoll reported
    | epollFork => exact told.epollFork
    | close _ _ fd => exact told.close fd
    | openFile _ supported closed small => exact told.openFile closed small supported
    | memory _ _ room =>
        exact told.of_entries (told.good.withBackend _)
          (fun fd => ⟨rfl, rfl, rfl, rfl, rfl, id, le_refl _⟩) rfl

/-- The kernel waits for exactly what the active watchers of a descriptor wait for, and reports
it as the current file of this descriptor, unless it refuses such files or the loop was not told
that the descriptor is another file now. No report has been a spurious one. -/
structure KernelWaits (t : EvLoop T ι Epoll) (changed : Nat → Bool) : Prop where
  calm : t.backend.postfork = false
  waits : ∀ fd, t.wanted fd ≠ 0 → changed fd = false →
    t.backend.kernel.set fd =
        some ⟨epollEvents (t.wanted fd), EpollEvent.pack fd (t.anfds fd).egen⟩ ∨
      t.backend.kernel.files fd = some false ∧ (t.anfds fd).emask = evEmaskEperm

/-- After `fd_reify` the kernel waits for what the watchers wait for, whatever has happened
before. -/
theorem fdReify_registers {acts : List (EpollAct T ι)} (run : epollSystem.Run acts (s, changed)) :
    ∃ t, s.fdReify epollModify (s.fdchanges.length + s.activecnt.toNat + 1) = some t ∧
      t.KernelWaits changed := by
  have told := epollSystem_told run
  obtain ⟨t, ends⟩ := told.good.fdReify_ends epollBackend
  obtain ⟨after, unchanged⟩ := told.fdReify ends
  refine ⟨t, ends, after.calm, fun fd wants same => ?_⟩
  have known : (t.anfds fd).events = t.wanted fd :=
    after.good.fds.synced fd (unchanged fd)
  have still : ¬t.Renewed fd := by
    rw [Renewed, unchanged]
    exact not_not.mpr BitVec.zero_and
  refine (after.registers fd (known ▸ wants) still same).imp (fun both => ?_) id
  obtain ⟨present, mask⟩ := both
  obtain ⟨ev, entry⟩ := Option.ne_none_iff_exists'.mp present
  rw [entry, (after.each fd).keyed ev entry, mask, known]

/-- A kernel with two open files, of which `epoll` does not support that of descriptor 7. -/
def twoFiles : Kernel where
  files fd := if fd = 3 then some true else if fd = 7 then some false else none
  room _ := true

/-- A loop that is going to wait for both. -/
def registering : EvLoop Int Nat Epoll :=
  (((loopInit 0 { kernel := twoFiles }).evIoSet 8 3 evRead).evIoStart 8).evIoSet 9 7 evWrite
    |>.evIoStart 9

theorem epollSystem_step {acts : List (EpollAct T ι)} {act : Act T ι}
    (run : epollSystem.Run acts (s, changed)) (step : s.Step epollBackend act t)
    (other : act ≠ .fdRearmAll) (allowed : s.Allowed act) :
    epollSystem.Run (acts ++ [.act act]) (t, s.heard changed act) :=
  .step run (.act other allowed step)

theorem registering_run : ∃ changed, epollSystem.Run
    [.act (.evIoSet 8 3 evRead), .act (.evIoStart 8), .act (.evIoSet 9 7 evWrite),
      .act (.evIoStart 9)] (registering, changed) := by
  have small : ∀ fd, twoFiles.files fd ≠ none → fd < 2 ^ 31 := by
    intro fd opened
    unfold twoFiles at opened
    dsimp only at opened
    split at opened
    · omega
    · split at opened
      · omega
      · exact absurd rfl opened
  have start : epollSystem.Run []
      ((loopInit 0 { kernel := twoFiles } : EvLoop Int Nat Epoll), fun _ => false) :=
    .start ⟨0, twoFiles.files, twoFiles.room, small, rfl⟩
  have set := epollSystem_step start (.evIoSet 8 3 evRead) (by simp) rfl
  have first := epollSystem_step set (.evIoStart 8) (by simp) (by unfold Allowed Legal; decide)
  have set := epollSystem_step first (.evIoSet 9 7 evWrite) (by simp) rfl
  exact ⟨_, epollSystem_step set (.evIoStart 9) (by simp) (by unfold Allowed Legal; decide)⟩

theorem fdReify_registers_registering :
    ∃ changed t, registering.fdReify epollModify 5 = some t ∧ t.KernelWaits changed := by
  obtain ⟨changed, run⟩ := registering_run
  exact ⟨changed, fdReify_registers run⟩

end EvLoop

end CLibs.Libev
