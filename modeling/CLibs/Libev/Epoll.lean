import CLibs.Libev.Delivery
import CLibs.Libev.Poll

/-!
# The epoll backend

`ev_epoll.c` with what `epoll_ctl(2)` is documented to do. A descriptor that is closed leaves
the set of the kernel by itself. The backend does not take descriptors out that nobody waits
for: it deals with them when they are reported.
-/

set_option autoImplicit false
set_option linter.unusedSectionVars false

open CLibs.General

namespace CLibs.Libev

def epollin : BitVec 32 := 0x001
def epollout : BitVec 32 := 0x004
def epollerr : BitVec 32 := 0x008
def epollhup : BitVec 32 := 0x010

def evEmaskEperm : BitVec 8 := 0x80

structure EpollEvent where
  events : BitVec 32
  data : BitVec 64
deriving DecidableEq

namespace EpollEvent

/-- The generation in the upper 32 bits, the descriptor in the lower 32 bits. -/
def pack (fd : Nat) (egen : BitVec 32) : BitVec 64 :=
  (BitVec.ofNat 32 fd).setWidth 64 ||| (egen.setWidth 64 <<< 32)

def fd (ev : EpollEvent) : Nat := (ev.data.setWidth 32).toNat

def egen (ev : EpollEvent) : BitVec 32 := (ev.data >>> 32).setWidth 32

theorem fd_pack {fd : Nat} (small : fd < 2 ^ 31) (events : BitVec 32) (egen : BitVec 32) :
    (EpollEvent.mk events (pack fd egen)).fd = fd := by
  have low : (pack fd egen).setWidth 32 = BitVec.ofNat 32 fd := by
    ext i inside
    simp [pack]
  rw [EpollEvent.fd]
  dsimp only
  rw [low, BitVec.toNat_ofNat, Nat.mod_eq_of_lt (small.trans (by decide))]

theorem egen_pack (fd : Nat) (events : BitVec 32) (egen : BitVec 32) :
    (EpollEvent.mk events (pack fd egen)).egen = egen := by
  ext i inside
  have high : 32 + i < 64 := by omega
  have low : i < 64 := by omega
  simp [EpollEvent.egen, pack, inside, high, low]

end EpollEvent

/-! ## The kernel -/

inductive EpollOp where
  | epollCtlAdd
  | epollCtlMod
  | epollCtlDel
deriving DecidableEq

/-- What a process has of the kernel: its open files, of which epoll supports those with
`true`, the set of `backend_fd`, and which descriptors there is memory for in it. -/
structure Kernel where
  files : Nat → Option Bool
  set : Nat → Option EpollEvent := fun _ => none
  room : Nat → Bool

namespace Kernel

def epollCtl (k : Kernel) (op : EpollOp) (fd : Nat) (ev : EpollEvent) : Except Errno Kernel :=
  match k.files fd with
  | none => .error .ebadf
  | some false => .error .eperm
  | some true =>
      match op, k.set fd with
      | .epollCtlAdd, some _ => .error .eexist
      | .epollCtlAdd, none =>
          if k.room fd then .ok { k with set := Function.update k.set fd (some ev) }
          else .error .enospc
      | _, none => .error .enoent
      | .epollCtlMod, some _ => .ok { k with set := Function.update k.set fd (some ev) }
      | .epollCtlDel, some _ => .ok { k with set := Function.update k.set fd none }

/-- When a file is closed it leaves the set. -/
def close (k : Kernel) (fd : Nat) : Kernel :=
  { k with files := Function.update k.files fd none, set := Function.update k.set fd none }

def openFile (k : Kernel) (fd : Nat) (supported : Bool) : Kernel :=
  { k with files := Function.update k.files fd (some supported) }

end Kernel

/-- What the backend keeps, and the kernel it keeps it for. -/
structure Epoll where
  kernel : Kernel
  epollEperms : List Nat := []
  postfork : Bool := false

namespace EvLoop

variable {T ι : Type} [Tstamp T] [DecidableEq ι] {s t : EvLoop T ι Epoll} {fd : Nat}

/-! ## The functions -/

def epollEvents (nev : BitVec 8) : BitVec 32 :=
  (if nev &&& evRead.setWidth 8 ≠ 0 then epollin else 0) |||
    (if nev &&& evWrite.setWidth 8 ≠ 0 then epollout else 0)

def epollCtl (s : EvLoop T ι Epoll) (op : EpollOp) (fd : Nat) (ev : EpollEvent) :
    Except Errno (EvLoop T ι Epoll) :=
  (s.backend.kernel.epollCtl op fd ev).map fun kernel =>
    { s with backend := { s.backend with kernel := kernel } }

def setEmask (s : EvLoop T ι Epoll) (fd : Nat) (emask : BitVec 8) : EvLoop T ι Epoll :=
  { s with anfds := Function.update s.anfds fd { s.anfds fd with emask := emask } }

def setEgen (s : EvLoop T ι Epoll) (fd : Nat) (egen : BitVec 32) : EvLoop T ι Epoll :=
  { s with anfds := Function.update s.anfds fd { s.anfds fd with egen := egen } }

def decEgen (s : EvLoop T ι Epoll) (fd : Nat) : EvLoop T ι Epoll :=
  s.setEgen fd ((s.anfds fd).egen - 1)

/-- `epoll_ctl` does not accept the file, which is always ready. -/
def refused (s : EvLoop T ι Epoll) (fd : Nat) (oldmask : BitVec 8) : EvLoop T ι Epoll :=
  let s := s.setEmask fd evEmaskEperm
  if oldmask &&& evEmaskEperm = 0 then
    { s with backend := { s.backend with epollEperms := s.backend.epollEperms ++ [fd] } }
  else s

/-- Not to want anything is not told to the kernel. -/
def epollModify (s : EvLoop T ι Epoll) (fd : Nat) (oev nev : BitVec 8) : EvLoop T ι Epoll :=
  if nev = 0 then s
  else
    let oldmask := (s.anfds fd).emask
    let s := s.setEmask fd nev
    let s := s.setEgen fd ((s.anfds fd).egen + 1)
    let ev : EpollEvent := ⟨epollEvents nev, EpollEvent.pack fd (s.anfds fd).egen⟩
    match s.epollCtl (if oev ≠ 0 ∧ oldmask ≠ nev then .epollCtlMod else .epollCtlAdd) fd ev with
    | .ok s => s
    | .error .enoent =>
        match s.epollCtl .epollCtlAdd fd ev with
        | .ok s => s
        | .error _ => (s.fdKill fd).decEgen fd
    | .error .eexist =>
        if oldmask = nev then s.decEgen fd
        else
          match s.epollCtl .epollCtlMod fd ev with
          | .ok s => s
          | .error _ => (s.fdKill fd).decEgen fd
    | .error .eperm => s.refused fd oldmask
    | .error _ => (s.fdKill fd).decEgen fd

/-- The events of the loop for those of `epoll_wait(2)`. -/
def epollGot (events : BitVec 32) : BitVec 8 :=
  (if events &&& (epollout ||| epollerr ||| epollhup) ≠ 0 then evWrite.setWidth 8 else 0) |||
    (if events &&& (epollin ||| epollerr ||| epollhup) ≠ 0 then evRead.setWidth 8 else 0)

/-- The kernel's state is to be recreated. -/
def spurious (s : EvLoop T ι Epoll) : EvLoop T ι Epoll :=
  { s with backend := { s.backend with postfork := true } }

/-- A turn of the loop of `epoll_poll` over the events. -/
def epollTurn (s : EvLoop T ι Epoll) (ev : EpollEvent) : EvLoop T ι Epoll :=
  let want := (s.anfds ev.fd).events
  let got := epollGot ev.events
  if (s.anfds ev.fd).egen ≠ ev.egen then s.spurious
  else if got &&& ~~~want ≠ 0 then
    let s := s.setEmask ev.fd want
    match s.epollCtl (if want ≠ 0 then .epollCtlMod else .epollCtlDel) ev.fd
        { ev with events := epollEvents want } with
    | .ok s => s.fdEvent ev.fd (got.setWidth 32)
    | .error _ => s.spurious
  else s.fdEvent ev.fd (got.setWidth 32)

/-- The loop of `epoll_poll` over the descriptors that epoll does not support, from the last
of the `i` first on. -/
def epermLoop : Nat → EvLoop T ι Epoll → EvLoop T ι Epoll
  | 0, s => s
  | i + 1, s =>
      let fd := s.backend.epollEperms.getD i 0
      let events := (s.anfds fd).events &&& (evRead ||| evWrite).setWidth 8
      epermLoop i <|
        if (s.anfds fd).emask &&& evEmaskEperm ≠ 0 ∧ events ≠ 0 then
          s.fdEvent fd (events.setWidth 32)
        else
          { s with backend := { s.backend with
              epollEperms := swapOut s.backend.epollEperms (i + 1) } }

/-- `epoll_poll` when `epoll_wait(2)` has returned `events`. -/
def epollPoll (s : EvLoop T ι Epoll) (events : List EpollEvent) : EvLoop T ι Epoll :=
  let s := events.foldl epollTurn s
  epermLoop s.backend.epollEperms.length s

/-- The new `backend_fd` has an empty set. -/
def epollFork (s : EvLoop T ι Epoll) : EvLoop T ι Epoll :=
  fdRearmAll { s with
    backend := { s.backend with kernel := { s.backend.kernel with set := fun _ => none } } }

/-! ## Requests -/

/-- The loop that has written down what it is going to tell the kernel. -/
def noted (s : EvLoop T ι Epoll) (fd : Nat) (nev : BitVec 8) : EvLoop T ι Epoll :=
  { s with
    anfds := Function.update s.anfds fd
      { s.anfds fd with emask := nev, egen := (s.anfds fd).egen + 1 } }

/-- The loop whose kernel has `ev` for a descriptor. -/
def withEntry (s : EvLoop T ι Epoll) (fd : Nat) (ev : Option EpollEvent) : EvLoop T ι Epoll :=
  { s with backend := { s.backend with kernel := { s.backend.kernel with
      set := Function.update s.backend.kernel.set fd ev } } }

theorem noted_eq (s : EvLoop T ι Epoll) (fd : Nat) (nev : BitVec 8) :
    (s.setEmask fd nev).setEgen fd (((s.setEmask fd nev).anfds fd).egen + 1) = s.noted fd nev := by
  simp [setEgen, setEmask, noted]

theorem noted_decEgen (s : EvLoop T ι Epoll) (fd : Nat) :
    (s.noted fd (s.anfds fd).emask).decEgen fd = s := by
  simp [decEgen, setEgen, noted]

/-- What becomes of a request of the loop to wait for `nev`: the kernel takes it, it had it
already, it never takes this file, or it cannot take it now. -/
theorem epollModify_cases (s : EvLoop T ι Epoll) (fd : Nat) (oev : BitVec 8) {nev : BitVec 8}
    (wants : nev ≠ 0) :
    (s.backend.kernel.files fd = some true ∧ s.epollModify fd oev nev =
        (s.noted fd nev).withEntry fd
          (some ⟨epollEvents nev, EpollEvent.pack fd ((s.anfds fd).egen + 1)⟩)) ∨
      (s.backend.kernel.set fd ≠ none ∧ (s.anfds fd).emask = nev ∧ s.epollModify fd oev nev = s) ∨
      (s.backend.kernel.files fd = some false ∧
        s.epollModify fd oev nev = (s.noted fd nev).refused fd (s.anfds fd).emask) ∨
      ((s.backend.kernel.files fd = some true → s.backend.kernel.set fd = none) ∧
        s.epollModify fd oev nev = ((s.noted fd nev).fdKill fd).decEgen fd) := by
  have egen_eq : ((s.noted fd nev).anfds fd).egen = (s.anfds fd).egen + 1 := by simp [noted]
  have ctl : ∀ op ev, (s.noted fd nev).epollCtl op fd ev =
      (s.backend.kernel.epollCtl op fd ev).map fun kernel =>
        { s.noted fd nev with backend := { s.backend with kernel := kernel } } := fun _ _ => rfl
  unfold epollModify
  rw [if_neg wants]
  dsimp only
  rw [noted_eq, egen_eq]
  simp only [ctl, Kernel.epollCtl]
  cases file : s.backend.kernel.files fd with
  | none => exact .inr (.inr (.inr ⟨by simp, rfl⟩))
  | some supported =>
      cases supported with
      | false => exact .inr (.inr (.inl ⟨rfl, rfl⟩))
      | true =>
          cases entry : s.backend.kernel.set fd with
          | none =>
              by_cases room : s.backend.kernel.room fd = true
              · refine .inl ⟨rfl, ?_⟩
                by_cases modifies : oev ≠ 0 ∧ (s.anfds fd).emask ≠ nev
                · simp only [if_pos modifies, if_pos room]
                  rfl
                · simp only [if_neg modifies, if_pos room]
                  rfl
              · refine .inr (.inr (.inr ⟨fun _ => rfl, ?_⟩))
                by_cases modifies : oev ≠ 0 ∧ (s.anfds fd).emask ≠ nev
                · simp only [if_pos modifies, if_neg room]
                  rfl
                · simp only [if_neg modifies, if_neg room]
                  rfl
          | some ev =>
              by_cases modifies : oev ≠ 0 ∧ (s.anfds fd).emask ≠ nev
              · rw [if_pos modifies]
                exact .inl ⟨rfl, rfl⟩
              · rw [if_neg modifies]
                by_cases same : (s.anfds fd).emask = nev
                · refine .inr (.inl ⟨by simp, same, ?_⟩)
                  simp only [Except.map, if_pos same]
                  rw [← same, noted_decEgen]
                · refine .inl ⟨rfl, ?_⟩
                  simp only [Except.map, if_neg same]
                  rfl

/-! ## The laws of a backend -/

/-- `t` remembers something else of the kernel for `fd`. -/
structure Remembers (s : EvLoop T ι Epoll) (fd : Nat) (t : EvLoop T ι Epoll) : Prop where
  same : t = { s with anfds := t.anfds, backend := t.backend }
  anfds_eq : t.anfds = Function.update s.anfds fd
    { s.anfds fd with emask := (t.anfds fd).emask, egen := (t.anfds fd).egen }

theorem Remembers.other (remembers : Remembers s fd t) {fd' : Nat} (other : fd' ≠ fd) :
    t.anfds fd' = s.anfds fd' := by
  rw [remembers.anfds_eq, Function.update_of_ne other]

theorem Remembers.good {i : Nat} (remembers : Remembers s fd t) (inside : fd < s.anfdmax)
    (good : s.GoodFrom i) : t.GoodFrom i := by
  refine good.of_kernel remembers.same (fun fd' => ?_) fun fd' less => ?_
  · by_cases here : fd' = fd
    · rw [here]
      conv_lhs => rw [remembers.anfds_eq, Function.update_self]
    · rw [remembers.other here]
  · rw [remembers.other (inside.trans_le less).ne']
    exact good.fds.outside fd' less

theorem Remembers.kills (remembers : Remembers s fd t) : Kills s t := by
  have queues : SameQueues s t := by
    rw [remembers.same]
    exact ⟨rfl, rfl, rfl, rfl⟩
  have active_eq : t.active = s.active := by rw [remembers.same]
  exact ⟨fun v => .inl ⟨congrFun queues.waiting_eq v, by rw [active_eq]⟩, by rw [remembers.same],
    by rw [remembers.same]⟩

theorem Remembers.roomy (remembers : Remembers s fd t) (roomy : s.Roomy) : t.Roomy := by
  rw [remembers.same]
  exact ⟨roomy.fdchanges, roomy.pendings, roomy.rfeeds, roomy.timers, roomy.arrays⟩

theorem noted_remembers (s : EvLoop T ι Epoll) (fd : Nat) (nev : BitVec 8) :
    Remembers s fd (s.noted fd nev) := ⟨rfl, by simp [noted]⟩

theorem decEgen_remembers (s : EvLoop T ι Epoll) (fd : Nat) : Remembers s fd (s.decEgen fd) :=
  ⟨rfl, by simp [decEgen, setEgen]⟩

theorem withEntry_remembers (s : EvLoop T ι Epoll) (fd : Nat) (nev : BitVec 8)
    (ev : Option EpollEvent) : Remembers s fd ((s.noted fd nev).withEntry fd ev) :=
  ⟨rfl, by simp [noted, withEntry]⟩

theorem refused_remembers (s : EvLoop T ι Epoll) (fd : Nat) (nev oldmask : BitVec 8) :
    Remembers s fd ((s.noted fd nev).refused fd oldmask) := by
  unfold refused
  dsimp only
  split <;> exact ⟨rfl, by simp [noted, setEmask]⟩

/-- A watcher that is killed leaves one change at most. -/
theorem GoodFrom.fdKillLoop_fewer {i : Nat} (good : s.GoodFrom i) (fuel : Nat) :
    (EvLoop.fdKillLoop fd fuel s).fdchanges.length + (EvLoop.fdKillLoop fd fuel s).activecnt ≤
      s.fdchanges.length + s.activecnt := by
  induction fuel generalizing s with
  | zero => exact le_refl _
  | succ fuel ih =>
      unfold EvLoop.fdKillLoop
      split
      · exact le_refl _
      · rename_i v ws first
        obtain ⟨on, fd_eq⟩ := (good.fds.mem_iff fd v).mp (first ▸ List.mem_cons_self)
        have ranged : (s.evIoStop v).Ranged (.io v) := by
          rw [Ranged, evIoStop_priority]
          exact good.counted.ranged _ on
        refine (ih ((good.io_stop v).feed _ ranged (by simp))).trans ?_
        have clear := clearPending_same s (.io v)
        rw [(evFeedEvent_same _ _ _).eq]
        dsimp only
        rw [evIoStop_eq on, clear.eq]
        unfold fdChange delisted
        dsimp only
        split
        · rw [List.length_append, List.length_singleton]
          omega
        · omega

def epollBackend : Backend T ι Epoll where
  modify := epollModify
  keeps {s i fd} oev nev inside good := by
    by_cases wants : nev = 0
    · rwa [epollModify, if_pos wants]
    · obtain ⟨-, eq⟩ | ⟨-, -, eq⟩ | ⟨-, eq⟩ | ⟨-, eq⟩ := epollModify_cases s fd oev wants
      · rw [eq]
        exact (withEntry_remembers s fd nev _).good inside good
      · rwa [eq]
      · rw [eq]
        exact (refused_remembers s fd nev _).good inside good
      · rw [eq]
        have noted := (noted_remembers s fd nev).good inside good
        refine (decEgen_remembers _ fd).good ?_ (noted.fdKill fd)
        exact inside.trans_le (SameKernel.fdKill (s.noted fd nev) fd).anfdmax_le
  kills {s i fd} oev nev inside good := by
    by_cases wants : nev = 0
    · rw [epollModify, if_pos wants]
      exact .refl s
    · obtain ⟨-, eq⟩ | ⟨-, -, eq⟩ | ⟨-, eq⟩ | ⟨-, eq⟩ := epollModify_cases s fd oev wants
      · rw [eq]
        exact (withEntry_remembers s fd nev _).kills
      · rw [eq]
        exact .refl s
      · rw [eq]
        exact (refused_remembers s fd nev _).kills
      · rw [eq]
        have noted := (noted_remembers s fd nev).good inside good
        exact (noted_remembers s fd nev).kills.trans
          ((noted.kills fd).trans (decEgen_remembers _ fd).kills)
  fewer {s i fd} oev nev inside good := by
    by_cases wants : nev = 0
    · rw [epollModify, if_pos wants]
    · obtain ⟨-, eq⟩ | ⟨-, -, eq⟩ | ⟨-, eq⟩ | ⟨-, eq⟩ := epollModify_cases s fd oev wants
      · rw [eq]
        exact le_refl _
      · rw [eq]
      · rw [eq, (refused_remembers s fd nev _).same]
      · rw [eq]
        have noted := (noted_remembers s fd nev).good inside good
        exact noted.fdKillLoop_fewer _
  roomy {s fd} oev nev roomy := by
    by_cases wants : nev = 0
    · rwa [epollModify, if_pos wants]
    · obtain ⟨-, eq⟩ | ⟨-, -, eq⟩ | ⟨-, eq⟩ | ⟨-, eq⟩ := epollModify_cases s fd oev wants
      · rw [eq]
        exact (withEntry_remembers s fd nev _).roomy roomy
      · rwa [eq]
      · rw [eq]
        exact (refused_remembers s fd nev _).roomy roomy
      · rw [eq]
        have killed := ((noted_remembers s fd nev).roomy roomy).fdKill fd
        exact (decEgen_remembers _ fd).roomy killed

end EvLoop

end CLibs.Libev
