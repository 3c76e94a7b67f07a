import CLibs.General.Places
import CLibs.Libev.Heap
import Mathlib.Data.BitVec
import Mathlib.Tactic.Ring

/-!
# The event loop

The data of `struct ev_loop` and of its watchers, and the functions of `ev.c` that start
and stop watchers, make them pending and invoke them, for programs without periodic, signal,
child, stat, embed, cleanup and async watchers. The linked list of the watchers of a descriptor
is a list of them here. Asserted conditions are tested nowhere: those of `ev_verify`, and what
the functions assert of watchers, are proved of every run of calls that are allowed.
-/

set_option autoImplicit false

open CLibs.General

namespace CLibs.Libev

/-- An `int` that is a set of events. -/
abbrev Events : Type := BitVec 32

def evRead : Events := 0x01
def evWrite : Events := 0x02
def evIofdset : Events := 0x80
def evTimer : Events := 0x00000100
def evIdle : Events := 0x00002000
def evError : Events := 0x80000000

def evMinpri : Int := -2
def evMaxpri : Int := 2
def numpri : Nat := (evMaxpri - evMinpri + 1).toNat

def evAnfdReify : BitVec 8 := 1

/-- Pointers to watchers. A pointer knows what it points to; `pending_w` is the loop's own
watcher, which takes the place of watchers that are not pending any more. -/
inductive W (ι : Type) where
  | pendingW
  | io (w : ι)
  | timer (w : ι)
  | idle (w : ι)
  | prepare (w : ι)
  | check (w : ι)
  | fork (w : ι)
deriving DecidableEq

structure ANPENDING (ι : Type) where
  w : W ι
  events : Events

/-- What is known of a descriptor; `head` is the list that begins there. -/
structure ANFD (ι : Type) where
  head : List ι := []
  events : BitVec 8 := 0
  reify : BitVec 8 := 0
  emask : BitVec 8 := 0
  egen : BitVec 32 := 0

/-- The arrays of watchers in a loop. -/
inductive Ws where
  | idles (pri : Nat)
  | prepares
  | checks
  | forks
deriving DecidableEq

/-- An `ev_tstamp`. Its operations are those of the machine: only the order is known. A
`double` that is no number is not among the times here, as it has no place in the order. -/
class Tstamp (T : Type) extends LinearOrder T, Zero T, Add T, Sub T

instance : Tstamp Int where

/-- A loop: first the fields of all watchers, then those of the loop. `pendings` and the
other arrays are as long as their counts, and have memory for as many elements as their `max`;
`β` is what the backend keeps. -/
structure EvLoop (T ι β : Type) where
  active : W ι → Nat
  pending : W ι → Nat
  priority : W ι → Int
  /-- `ev_io` -/
  fd : ι → Nat
  events : ι → Events
  /-- `ev_timer` -/
  at_ : W ι → T
  repeat_ : ι → T
  mnNow : T
  activecnt : Int := 0
  pendings : Nat → List (ANPENDING ι) := fun _ => []
  pendingmax : Nat → Nat := fun _ => 0
  pendingpri : Nat := 0
  rfeeds : List (W ι) := []
  rfeedmax : Nat := 0
  anfds : Nat → ANFD ι := fun _ => {}
  anfdmax : Nat := 0
  fdchanges : List Nat := []
  fdchangemax : Nat := 0
  timers : Nat → ANHE T (W ι)
  timermax : Nat := 0
  timercnt : Nat := 0
  arrays : Ws → List (W ι) := fun _ => []
  arraymax : Ws → Nat := fun _ => 0
  idleall : Int := 0
  backend : β

/-- The loop of `array_nextsize`, which doubles `ncur` at least once. -/
def nextsizeLoop (cnt : Nat) : Nat → Nat → Nat
  | 0, ncur => ncur
  | fuel + 1, ncur =>
      let ncur := ncur <<< 1
      if cnt > ncur then nextsizeLoop cnt fuel ncur else ncur

def mallocRound : Nat := 4096

/-- Pointers have 8 bytes. -/
def arrayNextsize (elem cur cnt : Nat) : Nat :=
  let ncur := nextsizeLoop cnt (cnt + 1) (cur + 1)
  if elem * ncur > mallocRound - 8 * 4 then
    let ncur := ncur * elem
    let ncur := (ncur + elem + (mallocRound - 1) + 8 * 4) / mallocRound * mallocRound
    let ncur := ncur - 8 * 4
    ncur / elem
  else ncur

/-- The new `cur`. -/
def arrayNeedsize (elem cur cnt : Nat) : Nat :=
  if cnt > cur then arrayNextsize elem cur cnt else cur

namespace EvLoop

variable {T ι β : Type} [Tstamp T] [DecidableEq ι]

def abspri (s : EvLoop T ι β) (w : W ι) : Nat := (s.priority w - evMinpri).toNat

/-! ## Pending events -/

def evFeedEvent (s : EvLoop T ι β) (w : W ι) (revents : Events) : EvLoop T ι β :=
  let pri := s.abspri w
  let s :=
    if s.pending w ≠ 0 then
      { s with
        pendings := Function.update s.pendings pri
          ((s.pendings pri).modify (s.pending w - 1) fun p =>
            { p with events := p.events ||| revents }) }
    else
      { s with
        pending := Function.update s.pending w ((s.pendings pri).length + 1)
        pendingmax := Function.update s.pendingmax pri
          (arrayNeedsize 16 (s.pendingmax pri) ((s.pendings pri).length + 1))
        pendings := Function.update s.pendings pri (s.pendings pri ++ [⟨w, revents⟩]) }
  { s with pendingpri := numpri - 1 }

def feedReverse (s : EvLoop T ι β) (w : W ι) : EvLoop T ι β :=
  { s with
    rfeedmax := arrayNeedsize 8 s.rfeedmax (s.rfeeds.length + 1)
    rfeeds := s.rfeeds ++ [w] }

/-- Called when there is something in `rfeeds`. -/
def feedReverseDone (s : EvLoop T ι β) (revents : Events) : EvLoop T ι β :=
  { s.rfeeds.reverse.foldl (fun s w => s.evFeedEvent w revents) s with rfeeds := [] }

def queueEvents (s : EvLoop T ι β) (events : List (W ι)) (type : Events) : EvLoop T ι β :=
  events.foldl (fun s w => s.evFeedEvent w type) s

def clearPending (s : EvLoop T ι β) (w : W ι) : EvLoop T ι β :=
  if s.pending w ≠ 0 then
    { s with
      pendings := Function.update s.pendings (s.abspri w)
        ((s.pendings (s.abspri w)).modify (s.pending w - 1) fun p => { p with w := .pendingW })
      pending := Function.update s.pending w 0 }
  else s

/-- The pending events go with the watcher's place in the queue. -/
def evClearPending (s : EvLoop T ι β) (w : W ι) : EvLoop T ι β × Events :=
  if s.pending w ≠ 0 then
    (s.clearPending w,
      ((s.pendings (s.abspri w))[s.pending w - 1]?.map ANPENDING.events).getD 0)
  else (s, 0)

/-- The two loops of `ev_invoke_pending` up to the next call of a callback: the watcher that
is called with its events, or nothing if the loops end. -/
def nextPending (s : EvLoop T ι β) : Nat → EvLoop T ι β × Option (ANPENDING ι)
  | 0 => ({ s with pendingpri := 0 }, none)
  | pri + 1 =>
      match (s.pendings pri).getLast? with
      | none => nextPending s pri
      | some p =>
          ({ s with
              pendingpri := pri
              pendings := Function.update s.pendings pri (s.pendings pri).dropLast
              pending := Function.update s.pending p.w 0 }, some p)

/-- From the begin of `ev_invoke_pending`. -/
def invokeFirst (s : EvLoop T ι β) : EvLoop T ι β × Option (ANPENDING ι) := s.nextPending numpri

/-- When a callback has returned: the inner loop goes on with the queue of `pendingpri`, to
which the callback may have written. -/
def invokeNext (s : EvLoop T ι β) : EvLoop T ι β × Option (ANPENDING ι) :=
  s.nextPending (s.pendingpri + 1)

/-! ## Watchers -/

def evSetPriority (s : EvLoop T ι β) (w : W ι) (pri : Int) : EvLoop T ι β :=
  { s with priority := Function.update s.priority w pri }

/-- `EV__IOFDSET` says that the descriptor may be another file than before. -/
def evIoSet (s : EvLoop T ι β) (w : ι) (fd : Nat) (events : Events) : EvLoop T ι β :=
  { s with
    fd := Function.update s.fd w fd
    events := Function.update s.events w (events ||| evIofdset) }

def evTimerSet (s : EvLoop T ι β) (w : ι) (after repeat_ : T) : EvLoop T ι β :=
  { s with
    at_ := Function.update s.at_ (.timer w) after
    repeat_ := Function.update s.repeat_ w repeat_ }

def priAdjust (s : EvLoop T ι β) (w : W ι) : EvLoop T ι β :=
  let pri := s.priority w
  let pri := if pri < evMinpri then evMinpri else pri
  let pri := if pri > evMaxpri then evMaxpri else pri
  { s with priority := Function.update s.priority w pri }

def evStart (s : EvLoop T ι β) (w : W ι) (active : Nat) : EvLoop T ι β :=
  let s := s.priAdjust w
  { s with active := Function.update s.active w active, activecnt := s.activecnt + 1 }

def evStop (s : EvLoop T ι β) (w : W ι) : EvLoop T ι β :=
  { s with activecnt := s.activecnt - 1, active := Function.update s.active w 0 }

/-! ## Descriptors -/

def fdChange (s : EvLoop T ι β) (fd : Nat) (flags : BitVec 8) : EvLoop T ι β :=
  let reify := (s.anfds fd).reify
  { s with
    anfds := Function.update s.anfds fd { s.anfds fd with reify := reify ||| flags }
    fdchangemax :=
      if reify = 0 then arrayNeedsize 4 s.fdchangemax (s.fdchanges.length + 1) else s.fdchangemax
    fdchanges := if reify = 0 then s.fdchanges ++ [fd] else s.fdchanges }

/-- `array_needsize` with `array_init_zero`; an `ANFD` has 16 bytes. -/
def needAnfds (s : EvLoop T ι β) (cnt : Nat) : EvLoop T ι β :=
  if cnt > s.anfdmax then
    let max := arrayNextsize 16 s.anfdmax cnt
    { s with
      anfds := fun i => if s.anfdmax ≤ i ∧ i < max then {} else s.anfds i
      anfdmax := max }
  else s

def evIoStart (s : EvLoop T ι β) (w : ι) : EvLoop T ι β :=
  let fd := s.fd w
  if s.active (.io w) ≠ 0 then s
  else
    let s := s.evStart (.io w) 1
    let s := s.needAnfds (fd + 1)
    let s := { s with
      anfds := Function.update s.anfds fd { s.anfds fd with head := w :: (s.anfds fd).head } }
    let s := s.fdChange fd ((s.events w &&& evIofdset).setWidth 8 ||| evAnfdReify)
    { s with events := Function.update s.events w (s.events w &&& ~~~evIofdset) }

def evIoStop (s : EvLoop T ι β) (w : ι) : EvLoop T ι β :=
  let s := s.clearPending (.io w)
  if s.active (.io w) = 0 then s
  else
    let fd := s.fd w
    let s := { s with
      anfds := Function.update s.anfds fd { s.anfds fd with head := (s.anfds fd).head.erase w } }
    let s := s.evStop (.io w)
    s.fdChange fd evAnfdReify

/-- A turn of the loop over the watchers of a descriptor. -/
def feedIo (revents : Events) (s : EvLoop T ι β) (w : ι) : EvLoop T ι β :=
  let ev := s.events w &&& revents
  if ev ≠ 0 then s.evFeedEvent (.io w) ev else s

def fdEventNocheck (s : EvLoop T ι β) (fd : Nat) (revents : Events) : EvLoop T ι β :=
  (s.anfds fd).head.foldl (feedIo revents) s

def fdEvent (s : EvLoop T ι β) (fd : Nat) (revents : Events) : EvLoop T ι β :=
  if (s.anfds fd).reify = 0 then s.fdEventNocheck fd revents else s

def evFeedFdEvent (s : EvLoop T ι β) (fd : Nat) (revents : Events) : EvLoop T ι β :=
  if fd < s.anfdmax then s.fdEventNocheck fd revents else s

/-- The loop of `fd_kill`: each turn stops the first watcher of the list. -/
def fdKillLoop (fd : Nat) : Nat → EvLoop T ι β → EvLoop T ι β
  | 0, s => s
  | fuel + 1, s =>
      match (s.anfds fd).head with
      | [] => s
      | w :: _ =>
          let s := s.evIoStop w
          fdKillLoop fd fuel (s.evFeedEvent (.io w) (evError ||| evRead ||| evWrite))

def fdKill (s : EvLoop T ι β) (fd : Nat) : EvLoop T ι β :=
  fdKillLoop fd (s.anfds fd).head.length s

def fdRearmAll (s : EvLoop T ι β) : EvLoop T ι β :=
  (List.range s.anfdmax).foldl (fun s fd =>
    if (s.anfds fd).events ≠ 0 then
      let s := { s with
        anfds := Function.update s.anfds fd { s.anfds fd with events := 0, emask := 0 } }
      s.fdChange fd (evIofdset.setWidth 8 ||| evAnfdReify)
    else s) s

/-- The events that the watchers of a descriptor wait for. -/
def wanted (s : EvLoop T ι β) (fd : Nat) : BitVec 8 :=
  (s.anfds fd).head.foldl (fun events w => events ||| (s.events w).setWidth 8) 0

/-- The body of the loop of `fd_reify`, for the backend's `modify`. -/
def reifyFd (modify : EvLoop T ι β → Nat → BitVec 8 → BitVec 8 → EvLoop T ι β)
    (s : EvLoop T ι β) (fd : Nat) : EvLoop T ι β :=
  let oEvents := (s.anfds fd).events
  let oReify := (s.anfds fd).reify
  let s := { s with
    anfds := Function.update s.anfds fd { s.anfds fd with reify := 0, events := s.wanted fd } }
  let oReify := if oEvents ≠ (s.anfds fd).events then evIofdset.setWidth 8 else oReify
  if oReify &&& evIofdset.setWidth 8 ≠ 0 then modify s fd oEvents (s.anfds fd).events else s

/-- The loop of `fd_reify` from index `i` on. `modify` may make `fdchanges` longer. -/
def reifyLoop (modify : EvLoop T ι β → Nat → BitVec 8 → BitVec 8 → EvLoop T ι β) :
    Nat → Nat → EvLoop T ι β → Option (EvLoop T ι β)
  | 0, _, _ => none
  | fuel + 1, i, s =>
      match s.fdchanges[i]? with
      | none => some { s with fdchanges := [] }
      | some fd => reifyLoop modify fuel (i + 1) (reifyFd modify s fd)

def fdReify (modify : EvLoop T ι β → Nat → BitVec 8 → BitVec 8 → EvLoop T ι β) (fuel : Nat)
    (s : EvLoop T ι β) : Option (EvLoop T ι β) :=
  reifyLoop modify fuel 0 s

/-! ## Timers -/

def timerMem (s : EvLoop T ι β) : HeapMem T (W ι) := ⟨s.timers, s.active⟩

/-- What the heap functions write is written to the loop. -/
def withTimers (s : EvLoop T ι β) (m : HeapMem T (W ι)) : EvLoop T ι β :=
  { s with timers := m.heap, active := m.active }

def evTimerStart (s : EvLoop T ι β) (w : ι) : EvLoop T ι β :=
  if s.active (.timer w) ≠ 0 then s
  else
    let s := { s with
      at_ := Function.update s.at_ (.timer w) (s.at_ (.timer w) + s.mnNow)
      timercnt := s.timercnt + 1 }
    let s := s.evStart (.timer w) (s.timercnt + heap0 - 1)
    let k := s.active (.timer w)
    let s := { s with
      timermax := arrayNeedsize 16 s.timermax (k + 1)
      timers := Function.update s.timers k ⟨s.at_ (.timer w), .timer w⟩ }
    s.withTimers (upheap s.timerMem k)

def evTimerStop (s : EvLoop T ι β) (w : ι) : EvLoop T ι β :=
  let s := s.clearPending (.timer w)
  if s.active (.timer w) = 0 then s
  else
    let active := s.active (.timer w)
    let s := { s with timercnt := s.timercnt - 1 }
    let s :=
      if active < s.timercnt + heap0 then
        let s := { s with timers := Function.update s.timers active (s.timers (s.timercnt + heap0)) }
        s.withTimers (adjustheap s.timerMem s.timercnt active)
      else s
    let s := { s with at_ := Function.update s.at_ (.timer w) (s.at_ (.timer w) - s.mnNow) }
    s.evStop (.timer w)

/-- `ANHE_at_cache (timers [k])`. -/
def cacheAt (s : EvLoop T ι β) (k : Nat) : EvLoop T ι β :=
  { s with timers := Function.update s.timers k { s.timers k with at_ := s.at_ (s.timers k).w } }

def evTimerAgain (s : EvLoop T ι β) (w : ι) : EvLoop T ι β :=
  let s := s.clearPending (.timer w)
  if s.active (.timer w) ≠ 0 then
    if s.repeat_ w ≠ 0 then
      let s := { s with at_ := Function.update s.at_ (.timer w) (s.mnNow + s.repeat_ w) }
      let s := s.cacheAt (s.active (.timer w))
      s.withTimers (adjustheap s.timerMem s.timercnt (s.active (.timer w)))
    else s.evTimerStop w
  else if s.repeat_ w ≠ 0 then
    evTimerStart { s with at_ := Function.update s.at_ (.timer w) (s.repeat_ w) } w
  else s

/-- The body of the loop of `timers_reify`, for the timer `w` at the root. -/
def expire (s : EvLoop T ι β) (w : ι) : EvLoop T ι β :=
  let s :=
    if s.repeat_ w ≠ 0 then
      let s := { s with
        at_ := Function.update s.at_ (.timer w) (s.at_ (.timer w) + s.repeat_ w) }
      let s :=
        if s.at_ (.timer w) < s.mnNow then
          { s with at_ := Function.update s.at_ (.timer w) s.mnNow }
        else s
      let s := s.cacheAt heap0
      s.withTimers (downheap s.timerMem s.timercnt heap0)
    else s.evTimerStop w
  s.feedReverse (.timer w)

/-- The loop of `timers_reify`. No timer expires twice, so that there are at most as many
turns as timers. -/
def expireLoop : Nat → EvLoop T ι β → EvLoop T ι β
  | 0, s => s
  | fuel + 1, s =>
      match (s.timers heap0).w with
      | .timer w =>
          if 0 < s.timercnt ∧ (s.timers heap0).at_ < s.mnNow then expireLoop fuel (s.expire w) else s
      | _ => s

def timersReify (s : EvLoop T ι β) : EvLoop T ι β :=
  if 0 < s.timercnt ∧ (s.timers heap0).at_ < s.mnNow then
    (expireLoop s.timercnt s).feedReverseDone evTimer
  else s

/-- The timers move with the clock. -/
def timersReschedule (s : EvLoop T ι β) (adjust : T) : EvLoop T ι β :=
  (List.range s.timercnt).foldl (fun s i =>
    let k := i + heap0
    let s := { s with
      at_ := Function.update s.at_ (s.timers k).w (s.at_ (s.timers k).w + adjust) }
    s.cacheAt k) s

/-! ## Watchers in arrays -/

/-- What the functions that start a watcher in an array have in common. -/
def startIn (s : EvLoop T ι β) (ws : Ws) (w : W ι) : EvLoop T ι β :=
  let s := s.evStart w ((s.arrays ws).length + 1)
  { s with
    arraymax := Function.update s.arraymax ws (arrayNeedsize 8 (s.arraymax ws) (s.active w))
    arrays := Function.update s.arrays ws (s.arrays ws ++ [w]) }

/-- What the functions that stop a watcher in an array have in common: the last watcher of
the array takes its place and learns where it is now, before `w` is inactive. -/
def stopIn (s : EvLoop T ι β) (ws : Ws) (w : W ι) : EvLoop T ι β :=
  let active := s.active w
  let moved := (s.arrays ws).getLast?
  let s := { s with arrays := Function.update s.arrays ws (swapOut (s.arrays ws) active) }
  let s :=
    match moved with
    | some last => { s with active := Function.update s.active last active }
    | none => s
  s.evStop w

def evIdleStart (s : EvLoop T ι β) (w : ι) : EvLoop T ι β :=
  if s.active (.idle w) ≠ 0 then s
  else
    let s := s.priAdjust (.idle w)
    let s := { s with idleall := s.idleall + 1 }
    s.startIn (.idles (s.abspri (.idle w))) (.idle w)

def evIdleStop (s : EvLoop T ι β) (w : ι) : EvLoop T ι β :=
  let s := s.clearPending (.idle w)
  if s.active (.idle w) = 0 then s
  else
    let s := s.stopIn (.idles (s.abspri (.idle w))) (.idle w)
    { s with idleall := s.idleall - 1 }

def evPrepareStart (s : EvLoop T ι β) (w : ι) : EvLoop T ι β :=
  if s.active (.prepare w) ≠ 0 then s else s.startIn .prepares (.prepare w)

def evPrepareStop (s : EvLoop T ι β) (w : ι) : EvLoop T ι β :=
  let s := s.clearPending (.prepare w)
  if s.active (.prepare w) = 0 then s else s.stopIn .prepares (.prepare w)

def evCheckStart (s : EvLoop T ι β) (w : ι) : EvLoop T ι β :=
  if s.active (.check w) ≠ 0 then s else s.startIn .checks (.check w)

def evCheckStop (s : EvLoop T ι β) (w : ι) : EvLoop T ι β :=
  let s := s.clearPending (.check w)
  if s.active (.check w) = 0 then s else s.stopIn .checks (.check w)

def evForkStart (s : EvLoop T ι β) (w : ι) : EvLoop T ι β :=
  if s.active (.fork w) ≠ 0 then s else s.startIn .forks (.fork w)

def evForkStop (s : EvLoop T ι β) (w : ι) : EvLoop T ι β :=
  let s := s.clearPending (.fork w)
  if s.active (.fork w) = 0 then s else s.stopIn .forks (.fork w)

/-- The loop of `idle_reify` from the priority below `pri` on. -/
def idleLoop (s : EvLoop T ι β) : Nat → EvLoop T ι β
  | 0 => s
  | pri + 1 =>
      if s.pendings pri ≠ [] then s
      else if s.arrays (.idles pri) ≠ [] then s.queueEvents (s.arrays (.idles pri)) evIdle
      else idleLoop s pri

def idleReify (s : EvLoop T ι β) : EvLoop T ι β :=
  if s.idleall ≠ 0 then s.idleLoop numpri else s

end EvLoop

end CLibs.Libev
