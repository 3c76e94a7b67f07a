import CLibs.Libev.Delivery
import CLibs.Libev.Poll

/-!
# Polling

`poll_poll`: for whatever `poll(2)` answers, what it has marked is delivered to the watchers.
-/

set_option autoImplicit false
set_option linter.unusedSectionVars false

open CLibs.General

namespace CLibs.Libev

/-- What `poll(2)` answers: how many entries it has marked and what with, or an error. -/
inductive PollAnswer where
  | marked (res : Nat) (revents : List (BitVec 16))
  | failed (errno : Errno)

/-- Why the program ends. -/
inductive Fatal where
  | assertion
  | evSyserr

/-- The events of the loop for those of `poll(2)`. -/
def got (revents : BitVec 16) : Events :=
  (if revents &&& (pollout ||| pollerr ||| pollhup) ≠ 0 then evWrite else 0) |||
    (if revents &&& (pollin ||| pollerr ||| pollhup) ≠ 0 then evRead else 0)

namespace EvLoop

variable {T ι : Type} [Tstamp T] [DecidableEq ι] {s t : EvLoop T ι Polls} {fd : Nat}

/-- Without a callback for such errors it is the end. -/
def evSyserr (syserrCb : Bool) (s : EvLoop T ι Polls) : Except Fatal (EvLoop T ι Polls) :=
  if syserrCb then .ok s else .error .evSyserr

/-- What `poll_poll` does for an entry. -/
def pollTurn (s : EvLoop T ι Polls) (entry : Pollfd × BitVec 16) : EvLoop T ι Polls :=
  if entry.2 &&& pollnval ≠ 0 then s.fdKill entry.1.fd else s.fdEvent entry.1.fd (got entry.2)

def reportOf (revents : BitVec 16) : Report :=
  if revents &&& pollnval ≠ 0 then .invalid else .got (got revents)

/-- The last descriptor that the backend knows events of. -/
def topmost (s : EvLoop T ι Polls) : Option Nat :=
  (List.range s.anfdmax).reverse.find? fun fd => (s.anfds fd).events ≠ 0

/-- What an answer amounts to. When a descriptor is not valid those that are not lose their
watchers, and when there is no memory the last descriptor does. -/
def reports (valid : Nat → Bool) (syserrCb : Bool) (s : EvLoop T ι Polls) :
    PollAnswer → Nat → Report
  | .marked _ revents, fd =>
      Delivers.of (fun entry => entry.1.fd) (fun entry => reportOf entry.2)
        (s.backend.polls.zip revents) fd
  | .failed .ebadf, fd => if (s.anfds fd).events ≠ 0 ∧ !valid fd then .invalid else .got 0
  | .failed .enomem, fd => if !syserrCb ∧ s.topmost = some fd then .invalid else .got 0
  | .failed _, _ => .got 0

theorem Delivers.pollTurn (good : s.GoodFrom 0) (entry : Pollfd × BitVec 16)
    (unchanged : (s.anfds entry.1.fd).reify = 0) :
    Delivers s (Report.only entry.1.fd (reportOf entry.2))
      (if entry.2 ≠ 0 then s.pollTurn entry else s) := by
  unfold EvLoop.pollTurn reportOf
  by_cases marked : entry.2 ≠ 0
  · rw [if_pos marked]
    split
    · exact .fdKill good entry.1.fd
    · exact .fdEvent good unchanged (got entry.2)
  · rw [if_neg marked, not_not.mp marked]
    exact .refl good (Report.only_quiet _)

theorem Delivers.marked (good : s.GoodFrom 0) (ok : s.backend.Ok)
    (unchanged : ∀ fd, (s.anfds fd).reify = 0) (revents : List (BitVec 16))
    (length : revents.length = s.backend.polls.length) :
    Delivers s (Delivers.of (fun entry => entry.1.fd) (fun entry => reportOf entry.2)
        (s.backend.polls.zip revents))
      ((s.backend.polls.zip revents).foldl
        (fun s entry => if entry.2 ≠ 0 then s.pollTurn entry else s) s) := by
  have fds : (s.backend.polls.zip revents).map (fun entry => entry.1.fd) =
      s.backend.polls.map Pollfd.fd := by
    have first : (s.backend.polls.zip revents).map Prod.fst = s.backend.polls :=
      List.map_fst_zip length.ge
    conv_rhs => rw [← first]
    rw [List.map_map]
    rfl
  refine .foldl _ _ _ s _ (fun u entry good known _ => ?_) ?_ good fun _ _ => rfl
  · exact .pollTurn good entry (by rw [known, unchanged])
  · rw [fds]
    exact ok.placed.nodup

end EvLoop

end CLibs.Libev
