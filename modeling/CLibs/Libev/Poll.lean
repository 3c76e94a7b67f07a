import CLibs.Libev.System

/-!
# The poll backend

`ev_poll.c`: the array for `poll(2)` has one entry for each descriptor that watchers wait
for, with their events.
-/

set_option autoImplicit false
set_option linter.unusedSectionVars false

open CLibs.General

namespace CLibs.Libev

def pollin : BitVec 16 := 0x001
def pollout : BitVec 16 := 0x004
def pollerr : BitVec 16 := 0x008
def pollhup : BitVec 16 := 0x010
def pollnval : BitVec 16 := 0x020

/-- `struct pollfd`; what `poll(2)` returns is an argument below. -/
structure Pollfd where
  fd : Nat
  events : BitVec 16
deriving DecidableEq

/-- The backend's part of the loop; `polls` is as long as `pollcnt`. -/
structure Polls where
  pollidxs : Nat → Int := fun _ => -1
  pollidxmax : Nat := 0
  polls : List Pollfd := []

def pollInit : Polls := {}

namespace Polls

/-- `array_needsize` with `pollidx_init`. -/
def needidxs (p : Polls) (cnt : Nat) : Polls :=
  if cnt > p.pollidxmax then
    let max := arrayNextsize 4 p.pollidxmax cnt
    { p with
      pollidxs := fun i => if p.pollidxmax ≤ i ∧ i < max then -1 else p.pollidxs i
      pollidxmax := max }
  else p

/-- The events of `poll(2)` for those of the loop. -/
def pollEvents (nev : BitVec 8) : BitVec 16 :=
  (if nev &&& evRead.setWidth 8 ≠ 0 then pollin else 0) |||
    (if nev &&& evWrite.setWidth 8 ≠ 0 then pollout else 0)

/-- `need to allocate a new pollfd`, whose events are not read before they are set. -/
def allocate (p : Polls) (fd : Nat) : Polls :=
  if p.pollidxs fd < 0 then
    { p with
      pollidxs := Function.update p.pollidxs fd p.polls.length
      polls := p.polls ++ [⟨fd, 0⟩] }
  else p

/-- `remove pollfd`: the last entry takes its place, unless it is the last one itself. -/
def remove (p : Polls) (fd idx : Nat) : Polls :=
  let moved := p.polls.getLast?
  let p := { p with
    pollidxs := Function.update p.pollidxs fd (-1)
    polls := swapOut p.polls (idx + 1) }
  match moved with
  | some last =>
      if idx < p.polls.length then
        { p with pollidxs := Function.update p.pollidxs last.fd idx }
      else p
  | none => p

/-- The body of `poll_modify`. -/
def modify (p : Polls) (fd : Nat) (oev nev : BitVec 8) : Polls :=
  if oev = nev then p
  else
    let p := (p.needidxs (fd + 1)).allocate fd
    let idx := (p.pollidxs fd).toNat
    if nev ≠ 0 then
      { p with polls := p.polls.modify idx fun poll => { poll with events := pollEvents nev } }
    else p.remove fd idx

/-- Where a descriptor stands in `polls`, counted from one. -/
def place (p : Polls) (fd : Nat) : Nat := (p.pollidxs fd + 1).toNat

/-- `pollidxs` knows where each descriptor stands in `polls`, and which do not. -/
structure Ok (p : Polls) : Prop where
  placed : Placed p.place (p.polls.map Pollfd.fd)
  mem_iff : ∀ fd, fd ∈ p.polls.map Pollfd.fd ↔ 0 ≤ p.pollidxs fd
  low : ∀ fd, -1 ≤ p.pollidxs fd
  outside : ∀ fd, p.pollidxmax ≤ fd → p.pollidxs fd = -1

/-- What `poll(2)` is asked when the loop wants the events of a descriptor. -/
def Asks (p : Polls) (fd : Nat) (events : BitVec 8) : Prop :=
  ∀ asked, ⟨fd, asked⟩ ∈ p.polls ↔ events ≠ 0 ∧ asked = pollEvents events

variable {p : Polls} {fd : Nat}

theorem Ok.init : pollInit.Ok where
  placed := Placed.nil
  mem_iff _ := iff_of_false List.not_mem_nil (by simp [pollInit])
  low _ := le_refl _
  outside _ _ := rfl

theorem Ok.needidxs_eq (ok : p.Ok) (cnt : Nat) :
    p.needidxs cnt = { p with pollidxmax := (p.needidxs cnt).pollidxmax } := by
  unfold needidxs
  split
  · have same : (fun i => if p.pollidxmax ≤ i ∧ i < arrayNextsize 4 p.pollidxmax cnt then -1
        else p.pollidxs i) = p.pollidxs := by
      funext i
      split
      · rename_i new
        exact (ok.outside i new.1).symm
      · rfl
    dsimp only
    rw [same]
  · rfl

theorem le_needidxs (p : Polls) (cnt : Nat) :
    cnt ≤ (p.needidxs cnt).pollidxmax ∧ p.pollidxmax ≤ (p.needidxs cnt).pollidxmax := by
  unfold needidxs
  split
  · rename_i more
    have room := le_arrayNextsize 4 p.pollidxmax cnt (by decide)
    exact ⟨room, (Nat.le_of_lt more).trans room⟩
  · exact ⟨not_lt.mp (by assumption), le_refl _⟩

theorem Ok.needidxs (ok : p.Ok) (cnt : Nat) : (p.needidxs cnt).Ok := by
  have grown := (p.le_needidxs cnt).2
  rw [ok.needidxs_eq]
  exact ⟨ok.placed, ok.mem_iff, ok.low, fun fd out => ok.outside fd (grown.trans out)⟩

/-- The entry of a descriptor, as `poll_modify` asserts. -/
theorem Ok.entry (ok : p.Ok) (inside : 0 ≤ p.pollidxs fd) :
    ∃ poll, p.polls[(p.pollidxs fd).toNat]? = some poll ∧ poll.fd = fd := by
  have there := ok.placed.there ((ok.mem_iff fd).mpr inside)
  have index : p.place fd - 1 = (p.pollidxs fd).toNat := by
    unfold place
    omega
  rw [index, List.getElem?_map, Option.map_eq_some_iff] at there
  exact there

/-- Two entries of a descriptor are one. -/
theorem Ok.entry_unique (ok : p.Ok) {poll poll' : Pollfd} (member : poll ∈ p.polls)
    (member' : poll' ∈ p.polls) (same : poll.fd = poll'.fd) : poll = poll' :=
  List.inj_on_of_nodup_map ok.placed.nodup member member' same

/-- After `allocate` there is an entry; the others are as before. -/
theorem Ok.allocate (ok : p.Ok) (room : fd < p.pollidxmax) :
    (p.allocate fd).Ok ∧ 0 ≤ (p.allocate fd).pollidxs fd ∧
      ∀ poll, poll.fd ≠ fd → (poll ∈ (p.allocate fd).polls ↔ poll ∈ p.polls) := by
  unfold Polls.allocate
  split
  · rename_i absent
    have fresh : fd ∉ p.polls.map Pollfd.fd := fun inside =>
      absurd ((ok.mem_iff fd).mp inside) (not_le.mpr absent)
    have idx : ∀ fd', Function.update p.pollidxs fd (p.polls.length : Int) fd' =
        if fd' = fd then (p.polls.length : Int) else p.pollidxs fd' := fun fd' => by
      by_cases here : fd' = fd
      · rw [if_pos here, here, Function.update_self]
      · rw [if_neg here, Function.update_of_ne here]
    refine ⟨⟨?_, fun fd' => ?_, fun fd' => ?_, fun fd' out => ?_⟩, ?_, fun poll other => ?_⟩
    · rw [List.map_append, List.map_singleton]
      refine (ok.placed.append fresh).congr fun fd' _ => ?_
      unfold place
      dsimp only
      rw [idx]
      by_cases here : fd' = fd
      · rw [if_pos here, here, Function.update_self, List.length_map]
        omega
      · rw [if_neg here, Function.update_of_ne here]
    · rw [List.map_append, List.mem_append, ok.mem_iff]
      dsimp only
      rw [idx]
      by_cases here : fd' = fd
      · simp [here]
      · simp [here]
    · dsimp only
      rw [idx]
      split
      · omega
      · exact ok.low fd'
    · dsimp only at out ⊢
      rw [idx, if_neg (by omega)]
      exact ok.outside fd' out
    · dsimp only
      rw [idx, if_pos rfl]
      exact Int.natCast_nonneg _
    · rw [List.mem_append, List.mem_singleton]
      refine or_iff_left ?_
      rintro rfl
      exact other rfl
  · rename_i present
    exact ⟨ok, not_lt.mp present, fun _ _ => Iff.rfl⟩

/-- The last entry moves to where the removed one was, and knows it. -/
theorem Ok.remove (ok : p.Ok) (inside : 0 ≤ p.pollidxs fd) :
    (p.remove fd (p.pollidxs fd).toNat).Ok ∧
      ∀ poll, poll ∈ (p.remove fd (p.pollidxs fd).toNat).polls ↔ poll ∈ p.polls ∧ poll.fd ≠ fd := by
  obtain ⟨gone, entry, rfl⟩ := ok.entry inside
  have member := List.mem_of_getElem? entry
  obtain ⟨rest, last, split⟩ := List.eq_nil_or_concat' p.polls |>.resolve_left
    (List.ne_nil_of_mem member)
  have moved : p.polls.getLast? = some last := by rw [split, List.getLast?_concat]
  have index : (p.pollidxs gone.fd).toNat + 1 = p.place gone.fd := by
    unfold place
    omega
  have length : (swapOut p.polls (p.place gone.fd)).length = rest.length := by
    rw [length_swapOut, split, List.length_append, List.length_singleton, Nat.add_sub_cancel]
  have last_place : p.place last.fd = rest.length + 1 := by
    refine ok.placed rest.length last.fd ?_
    rw [split]
    simp
  have eq : p.remove gone.fd (p.pollidxs gone.fd).toNat = { p with
      pollidxs := fun fd => if fd = gone.fd then -1 else
        if fd = last.fd then p.pollidxs gone.fd else p.pollidxs fd
      polls := swapOut p.polls (p.place gone.fd) } := by
    unfold Polls.remove
    rw [moved, index]
    dsimp only
    rw [length]
    by_cases before : (p.pollidxs gone.fd).toNat < rest.length
    · rw [if_pos before]
      have other : last.fd ≠ gone.fd := by
        intro same
        rw [same] at last_place
        omega
      congr 1
      funext fd
      by_cases here : fd = gone.fd
      · rw [here, Function.update_of_ne other.symm, Function.update_self, if_pos rfl]
      · rw [if_neg here]
        by_cases there : fd = last.fd
        · rw [there, Function.update_self, if_pos rfl, Int.toNat_of_nonneg inside]
        · rw [Function.update_of_ne there, Function.update_of_ne here, if_neg there]
    · rw [if_neg before]
      congr 1
      funext fd
      by_cases here : fd = gone.fd
      · rw [here, Function.update_self, if_pos rfl]
      · rw [Function.update_of_ne here, if_neg here, if_neg]
        have at_end : (p.pollidxs gone.fd).toNat = rest.length := by
          have less := (List.getElem?_eq_some_iff.mp entry).1
          rw [split, List.length_append, List.length_singleton] at less
          omega
        rw [at_end, split, List.getElem?_concat_length] at entry
        rw [Option.some.inj entry]
        exact here
  have places : ∀ fd, ({ p with
      pollidxs := fun fd => if fd = gone.fd then -1 else
        if fd = last.fd then p.pollidxs gone.fd else p.pollidxs fd
      polls := swapOut p.polls (p.place gone.fd) } : Polls).place fd =
      Function.update (Function.update p.place last.fd (p.place gone.fd)) gone.fd 0 fd := by
    intro fd
    unfold place
    dsimp only
    by_cases here : fd = gone.fd
    · rw [if_pos here, here, Function.update_self]
      rfl
    · rw [if_neg here, Function.update_of_ne here]
      by_cases there : fd = last.fd
      · rw [if_pos there, there, Function.update_self]
      · rw [if_neg there, Function.update_of_ne there]
  have fds : (p.polls.map Pollfd.fd) = rest.map Pollfd.fd ++ [last.fd] := by rw [split]; simp
  have gone_fd := List.mem_map_of_mem (f := Pollfd.fd) member
  obtain ⟨placed, mem_fds⟩ := (fds ▸ ok.placed).taken_out (fds ▸ gone_fd) 0
  rw [← fds, ← map_swapOut] at placed
  rw [eq]
  refine ⟨⟨placed.congr fun fd _ => places fd, fun fd => ?_, fun fd => ?_, fun fd out => ?_⟩,
    fun poll => ?_⟩
  · rw [map_swapOut, fds, mem_fds, ← fds, ok.mem_iff]
    dsimp only
    by_cases here : fd = gone.fd
    · simp [here]
    · rw [if_neg here, and_iff_left here]
      by_cases there : fd = last.fd
      · have last_inside : 0 ≤ p.pollidxs last.fd := (ok.mem_iff last.fd).mp (by rw [fds]; simp)
        rw [if_pos there, there]
        exact iff_of_true last_inside inside
      · rw [if_neg there]
  · dsimp only
    split
    · exact le_refl _
    · split
      · exact ok.low gone.fd
      · exact ok.low fd
  · dsimp only at out ⊢
    have away : ∀ fd', 0 ≤ p.pollidxs fd' → fd ≠ fd' := by
      rintro fd' present rfl
      rw [ok.outside fd out] at present
      exact absurd present (by decide)
    rw [if_neg (away _ inside), if_neg (away _ ((ok.mem_iff last.fd).mp (by rw [fds]; simp)))]
    exact ok.outside fd out
  · dsimp only
    have entries := ok.placed.of_map
    obtain ⟨-, mem_polls⟩ := (split ▸ entries).taken_out (split ▸ member) 0
    rw [Function.comp_apply, ← split] at mem_polls
    rw [mem_polls]
    refine and_congr_right fun held => not_congr ⟨fun same => by rw [same], fun same => ?_⟩
    exact ok.entry_unique held member same

/-- Setting the events of an entry. -/
theorem Ok.set_events (ok : p.Ok) (inside : 0 ≤ p.pollidxs fd) (events : BitVec 16) :
    Ok { p with polls := p.polls.modify (p.pollidxs fd).toNat fun poll => { poll with events } } ∧
      ∀ poll, poll ∈ p.polls.modify (p.pollidxs fd).toNat (fun poll => { poll with events }) ↔
        (poll.fd ≠ fd ∧ poll ∈ p.polls) ∨ poll = ⟨fd, events⟩ := by
  obtain ⟨old, entry, rfl⟩ := ok.entry inside
  have fds : (p.polls.modify (p.pollidxs old.fd).toNat fun poll => { poll with events }).map
      Pollfd.fd = p.polls.map Pollfd.fd := by
    refine List.ext_getElem? fun i => ?_
    rw [List.getElem?_map, List.getElem?_map, List.getElem?_modify]
    cases p.polls[i]? with
    | none => rfl
    | some poll =>
        simp only [Option.map_some]
        split <;> rfl
  have index : ∀ i poll, p.polls[i]? = some poll → poll.fd = old.fd →
      i = (p.pollidxs old.fd).toNat := by
    intro i poll there same
    have placed := ok.placed i poll.fd (by rw [List.getElem?_map, there]; rfl)
    unfold place at placed
    rw [same] at placed
    omega
  refine ⟨⟨?_, fun fd => ?_, ok.low, ok.outside⟩, fun poll => ?_⟩
  · rw [fds]
    exact ok.placed
  · rw [fds]
    exact ok.mem_iff fd
  · rw [List.mem_iff_getElem?]
    constructor
    · rintro ⟨i, there⟩
      rw [List.getElem?_modify, Option.map_eq_map, Option.map_eq_some_iff] at there
      obtain ⟨was, there, rfl⟩ := there
      split
      · rename_i here
        rw [here, there] at entry
        rw [Option.some.inj entry]
        exact .inr rfl
      · rename_i other
        exact .inl ⟨fun same => other (index i was there same).symm, List.mem_of_getElem? there⟩
    · rintro (⟨other, held⟩ | rfl)
      · obtain ⟨i, there⟩ := List.mem_iff_getElem?.mp held
        refine ⟨i, ?_⟩
        rw [List.getElem?_modify, Option.map_eq_map, there, Option.map_some, if_neg]
        rintro rfl
        rw [entry] at there
        exact other (by rw [Option.some.inj there])
      · refine ⟨(p.pollidxs old.fd).toNat, ?_⟩
        rw [List.getElem?_modify, Option.map_eq_map, entry, Option.map_some, if_pos rfl]

/-- `poll_modify` changes what is asked of one descriptor. -/
theorem Ok.modify (ok : p.Ok) {oev : BitVec 8} (asks : p.Asks fd oev) (nev : BitVec 8) :
    (p.modify fd oev nev).Ok ∧ (p.modify fd oev nev).Asks fd nev ∧
      ∀ poll, poll.fd ≠ fd → (poll ∈ (p.modify fd oev nev).polls ↔ poll ∈ p.polls) := by
  unfold Polls.modify
  by_cases same : oev = nev
  · rw [if_pos same]
    exact ⟨ok, same ▸ asks, fun _ _ => Iff.rfl⟩
  · rw [if_neg same]
    have grown := ok.needidxs (fd + 1)
    have room := (p.le_needidxs (fd + 1)).1
    have polls_eq : (p.needidxs (fd + 1)).polls = p.polls := by rw [ok.needidxs_eq]
    obtain ⟨allocated, present, others⟩ := grown.allocate (show fd < _ from room)
    rw [polls_eq] at others
    generalize (p.needidxs (fd + 1)).allocate fd = q at allocated present others
    dsimp only
    by_cases some : nev ≠ 0
    · rw [if_pos some]
      obtain ⟨set, mem_iff⟩ := allocated.set_events present (pollEvents nev)
      refine ⟨set, fun asked => ?_, fun poll other => ?_⟩
      · rw [mem_iff, Pollfd.mk.injEq]
        constructor
        · rintro (⟨other, -⟩ | ⟨-, rfl⟩)
          · exact absurd rfl other
          · exact ⟨some, rfl⟩
        · rintro ⟨-, rfl⟩
          exact .inr ⟨rfl, rfl⟩
      · rw [mem_iff, and_iff_right other, others poll other]
        refine or_iff_left ?_
        rintro rfl
        exact other rfl
    · rw [if_neg some]
      obtain ⟨removed, mem_iff⟩ := allocated.remove present
      refine ⟨removed, fun asked => ?_, fun poll other => ?_⟩
      · rw [mem_iff]
        exact iff_of_false (fun both => both.2 rfl) fun both => some both.1
      · rw [mem_iff, and_iff_left other, others poll other]

end Polls

namespace EvLoop

variable {T ι : Type} [Tstamp T] [DecidableEq ι] {s t : EvLoop T ι Polls} {fd : Nat}

def pollModify (s : EvLoop T ι Polls) (fd : Nat) (oev nev : BitVec 8) : EvLoop T ι Polls :=
  { s with backend := s.backend.modify fd oev nev }

def pollBackend : Backend T ι Polls where
  modify := pollModify
  keeps _ _ _ good := good.of_kernel rfl (fun _ => rfl) good.fds.outside
  kills _ _ _ _ :=
    ⟨fun v => .inl ⟨congrFun (SameQueues.waiting_eq ⟨rfl, rfl, rfl, rfl⟩) v, Iff.rfl⟩, rfl, rfl⟩
  fewer _ _ _ _ := le_refl _
  roomy _ _ roomy := ⟨roomy.fdchanges, roomy.pendings, roomy.rfeeds, roomy.timers, roomy.arrays⟩

/-- `poll(2)` is asked what the loop has told the backend. -/
structure PollSynced (s : EvLoop T ι Polls) : Prop where
  ok : s.backend.Ok
  asks : ∀ fd, s.backend.Asks fd (s.anfds fd).events

theorem PollSynced.of_kernel (synced : s.PollSynced) (same : SameKernel s t) : t.PollSynced := by
  refine ⟨same.backend_eq ▸ synced.ok, fun fd => ?_⟩
  rw [same.backend_eq, same.events_eq]
  exact synced.asks fd

theorem PollSynced.reifyFd (synced : s.PollSynced) (fd : Nat) :
    (EvLoop.reifyFd pollModify s fd).PollSynced := by
  rw [reifyFd_eq]
  split
  · obtain ⟨ok, asks, others⟩ := synced.ok.modify (synced.asks fd) (s.wanted fd)
    refine ⟨ok, fun fd' => ?_⟩
    change (s.backend.modify fd _ _).Asks fd' ((s.reified fd).anfds fd').events
    by_cases here : fd' = fd
    · rw [here, reified_self]
      exact asks
    · rw [reified_other s here]
      exact fun asked => (others ⟨fd', asked⟩ here).trans (synced.asks fd' asked)
  · rename_i quiet
    have known : s.wanted fd = (s.anfds fd).events := not_not.mp fun differs => quiet (.inl differs)
    refine ⟨synced.ok, fun fd' => ?_⟩
    by_cases here : fd' = fd
    · rw [here, reified_self]
      dsimp only
      rw [known]
      exact synced.asks fd
    · rw [reified_other s here]
      exact synced.asks fd'

theorem PollSynced.fdReify (synced : s.PollSynced) {fuel : Nat}
    (ends : s.fdReify pollModify fuel = some t) : t.PollSynced := by
  obtain ⟨last, u, synced, -, rfl⟩ := reifyLoop_induct (fun _ u => u.PollSynced)
    (fun _ u fd synced _ => synced.reifyFd fd) fuel synced ends
  exact ⟨synced.ok, synced.asks⟩

/-- The runs of a loop with this backend, which nothing has to be done for in a fork. -/
def pollSystem : System (EvLoop T ι Polls) (Act T ι) where
  start s := ∃ now, s = loopInit now pollInit
  step s act t := act ≠ .fdRearmAll ∧ s.Allowed act ∧ s.Step pollBackend act t

theorem pollSystem_synced {acts : List (Act T ι)} (run : pollSystem.Run acts s) :
    s.Good ∧ s.PollSynced := by
  refine System.Run.invariant (fun s => s.Good ∧ s.PollSynced) ?_ ?_ run
  · rintro s ⟨now, rfl⟩
    exact ⟨loopInit_good now pollInit, Polls.Ok.init, fun _ _ =>
      iff_of_false List.not_mem_nil fun both => both.1 rfl⟩
  · rintro s act t ⟨good, synced⟩ ⟨other, allowed, step⟩
    refine ⟨(good.step allowed step).good, ?_⟩
    by_cases reify : act = .fdReify
    · subst reify
      cases step with
      | fdReify fuel t ends => exact synced.fdReify ends
    · exact synced.of_kernel (good.same_kernel step reify other)

/-- `poll(2)` is asked for exactly what the active watchers wait for. -/
structure PollsWatchers (t : EvLoop T ι Polls) : Prop where
  nodup : (t.backend.polls.map Pollfd.fd).Nodup
  mem_iff : ∀ fd, fd ∈ t.backend.polls.map Pollfd.fd ↔
    ∃ w, t.active (.io w) ≠ 0 ∧ t.fd w = fd ∧ t.events w ≠ 0
  events_eq : ∀ poll ∈ t.backend.polls, poll.events = Polls.pollEvents (t.wanted poll.fd)
  reads : ∀ poll ∈ t.backend.polls, poll.events &&& pollin ≠ 0 ↔
    ∃ w, t.active (.io w) ≠ 0 ∧ t.fd w = poll.fd ∧ t.events w &&& evRead ≠ 0
  writes : ∀ poll ∈ t.backend.polls, poll.events &&& pollout ≠ 0 ↔
    ∃ w, t.active (.io w) ≠ 0 ∧ t.fd w = poll.fd ∧ t.events w &&& evWrite ≠ 0

theorem pollEvents_and (events : BitVec 8) :
    (Polls.pollEvents events &&& pollin ≠ 0 ↔ events &&& evRead.setWidth 8 ≠ 0) ∧
      (Polls.pollEvents events &&& pollout ≠ 0 ↔ events &&& evWrite.setWidth 8 ≠ 0) := by
  unfold Polls.pollEvents
  split <;> split
  · exact ⟨iff_of_true (by decide) (by assumption), iff_of_true (by decide) (by assumption)⟩
  · exact ⟨iff_of_true (by decide) (by assumption), iff_of_false (by decide) (by assumption)⟩
  · exact ⟨iff_of_false (by decide) (by assumption), iff_of_true (by decide) (by assumption)⟩
  · exact ⟨iff_of_false (by decide) (by assumption), iff_of_false (by decide) (by assumption)⟩

/-- In a loop without changes `poll(2)` is asked for what the watchers wait for. -/
theorem PollSynced.watchers (synced : s.PollSynced) (good : s.GoodFrom 0)
    (unchanged : ∀ fd, (s.anfds fd).reify = 0) : s.PollsWatchers := by
  have known : ∀ fd, (s.anfds fd).events = s.wanted fd := fun fd => good.fds.synced fd (unchanged fd)
  have asked : ∀ poll ∈ s.backend.polls, poll.events = Polls.pollEvents (s.wanted poll.fd) := by
    intro poll member
    rw [← known]
    exact ((synced.asks poll.fd poll.events).mp member).2
  refine ⟨synced.ok.placed.nodup, fun fd => ?_, asked, fun poll member => ?_, fun poll member => ?_⟩
  · have listed : fd ∈ s.backend.polls.map Pollfd.fd ↔ s.wanted fd ≠ 0 := by
      rw [← known]
      constructor
      · intro inside
        obtain ⟨poll, member, rfl⟩ := List.mem_map.mp inside
        exact ((synced.asks poll.fd poll.events).mp member).1
      · intro some
        exact List.mem_map_of_mem (f := Pollfd.fd) ((synced.asks fd _).mpr ⟨some, rfl⟩)
    rw [listed, good.wanted_ne_zero]
  · rw [asked poll member, (pollEvents_and _).1, good.wanted_iff]
    rfl
  · rw [asked poll member, (pollEvents_and _).2, good.wanted_iff]
    rfl

/-- After `fd_reify` the kernel is asked for the events that the watchers wait for, whatever
has happened before. -/
theorem fdReify_polls {acts : List (Act T ι)} (run : pollSystem.Run acts s) :
    ∃ t, s.fdReify pollModify (s.fdchanges.length + s.activecnt.toNat + 1) = some t ∧
      t.PollsWatchers := by
  obtain ⟨good, synced⟩ := pollSystem_synced run
  obtain ⟨t, ends⟩ := good.fdReify_ends pollBackend
  obtain ⟨still, -, unchanged⟩ := good.fdReify pollBackend ends
  exact ⟨t, ends, (synced.fdReify ends).watchers still unchanged⟩

/-- A loop that is going to wait for descriptor 3 to become readable and 5 to become writable. -/
def watching : EvLoop Int Nat Polls :=
  (((loopInit 0 pollInit).evIoSet 8 3 evRead).evIoStart 8).evIoSet 9 5 evWrite
    |>.evIoStart 9

theorem pollSystem_step {acts : List (Act T ι)} {act : Act T ι} (run : pollSystem.Run acts s)
    (step : s.Step pollBackend act t) (other : act ≠ .fdRearmAll) (allowed : s.Allowed act) :
    pollSystem.Run (acts ++ [act]) t :=
  .step run ⟨other, allowed, step⟩

theorem watching_run : pollSystem.Run
    [.evIoSet 8 3 evRead, .evIoStart 8, .evIoSet 9 5 evWrite, .evIoStart 9] watching := by
  have start : pollSystem.Run [] (loopInit (0 : Int) pollInit : EvLoop Int Nat Polls) :=
    .start ⟨0, rfl⟩
  have set := pollSystem_step start (.evIoSet 8 3 evRead) (by simp) rfl
  have first := pollSystem_step set (.evIoStart 8) (by simp) (by unfold Allowed Legal; decide)
  have set := pollSystem_step first (.evIoSet 9 5 evWrite) (by simp) rfl
  exact pollSystem_step set (.evIoStart 9) (by simp) (by unfold Allowed Legal; decide)

theorem fdReify_polls_watching : ∃ t, watching.fdReify pollModify 5 = some t ∧ t.PollsWatchers :=
  fdReify_polls watching_run

end EvLoop

end CLibs.Libev
