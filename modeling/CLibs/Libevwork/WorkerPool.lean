import CLibs.General.Counting
import CLibs.Libevwork.AsyncDataHandler
import Mathlib.Tactic

/-!
# Every request is dispatched once

The requests of `CAsyncDataHandler` leave its queue in the order in which they came,
each to one worker, and all are dispatched when `__destroyThreadWorker` returns.
-/

set_option autoImplicit false
set_option linter.style.nameCheck false

namespace CLibs.Libevwork

open General

namespace PoolEvent

def pushed? : PoolEvent → Option SRequestWrap
  | .push reqWrap => some reqWrap
  | _ => none

def popped? : PoolEvent → Option (Nat × SRequestWrap)
  | .pop worker reqWrap => some (worker, reqWrap)
  | _ => none

def dispatched? : PoolEvent → Option (Nat × Nat)
  | .dispatch worker pRequest _ _ => some (worker, pRequest)
  | _ => none

def deleted? : PoolEvent → Option (Nat × Nat)
  | .delete worker pRequest => some (worker, pRequest)
  | _ => none

/-- The event is one of the worker's. -/
def By (worker : Nat) : PoolEvent → Prop
  | .push _ => False
  | .pop own _ => own = worker
  | .dispatch own _ _ _ => own = worker
  | .delete own _ => own = worker

namespace By

variable {event : PoolEvent} {worker other : Nat}

theorem not_pushed (own : event.By worker) : event.pushed? = none := by
  cases event with
  | push reqWrap => exact own.elim
  | _ => rfl

theorem popped_other (own : event.By worker) (different : worker ≠ other)
    (reqWrap : SRequestWrap) : event.popped?.toList.count (other, reqWrap) = 0 := by
  cases event with
  | pop sender wrap =>
      cases own
      simp [popped?, different]
  | _ => rfl

theorem dispatched_other (own : event.By worker) (different : worker ≠ other) (pRequest : Nat) :
    event.dispatched?.toList.count (other, pRequest) = 0 := by
  cases event with
  | dispatch sender request pConn found =>
      cases own
      simp [dispatched?, different]
  | _ => rfl

theorem deleted_other (own : event.By worker) (different : worker ≠ other) (pRequest : Nat) :
    event.deleted?.toList.count (other, pRequest) = 0 := by
  cases event with
  | delete sender request =>
      cases own
      simp [deleted?, different]
  | _ => rfl

end By

end PoolEvent

/-- The wrapper that `__makeRequest` pushes. -/
def SRequestWrap.of (pRequest : Nat) : SRequestWrap := { pRequest := some pRequest, pConn := none }

/-- How many NULL wrappers the event-loop thread has pushed. With `2 ^ 32` workers or
more the counter of its loop wraps around, and it pushes them for ever. -/
def LoopThread.Nulls (workers nulls : Nat) : LoopThread → Prop
  | .running => nulls = 0
  | .creating _ => nulls = 0
  | .pushing i => workers < 2 ^ 32 → nulls = i.toNat ∧ nulls ≤ workers
  | .joining _ => nulls = workers
  | .returned => nulls = workers

/-- The workers that the event-loop thread has joined. -/
def LoopThread.Joined (workers : List CThreadWorker) : LoopThread → Prop
  | .joining iter => ∀ worker < iter, workers[worker]? = some .ended
  | .returned => ∀ worker < workers.length, workers[worker]? = some .ended
  | _ => True

/-- The event-loop thread is in `__destroyThreadWorker`. -/
def LoopThread.Destroying : LoopThread → Prop
  | .pushing _ => True
  | .joining _ => True
  | _ => False

/-- The request that `__makeRequest` makes. -/
def PoolAct.made (mfc : Mfc) : PoolAct → Option Request
  | .makeRequest pPacket uPktLen => some (CAsyncDataHandler.request mfc pPacket uPktLen)
  | _ => none

namespace CThreadWorker

/-- The steps to the next `pop`. -/
def remaining : CThreadWorker → Nat
  | .popping => 0
  | .dispatching _ _ => 2
  | .deleting _ => 1
  | .ended => 0

theorem getElem?_set {workers : List CThreadWorker} {worker : Nat} {old : CThreadWorker}
    (before : workers[worker]? = some old) (new : CThreadWorker) (other : Nat) :
    (workers.set worker new)[other]? = if worker = other then some new else workers[other]? := by
  rw [List.getElem?_set, if_pos (List.getElem?_eq_some_iff.mp before).1]

theorem getElem?_started {workers : List CThreadWorker} {state : CThreadWorker}
    (busy : state ≠ .popping) (worker : Nat) :
    (workers ++ [.popping])[worker]? = some state ↔ workers[worker]? = some state := by
  rw [List.getElem?_append]
  split
  · rfl
  · rename_i after
    rw [List.getElem?_eq_none (Nat.le_of_not_lt after)]
    cases left : worker - workers.length with
    | zero => simp [busy.symm]
    | succ more => simp

end CThreadWorker

theorem LoopThread.Joined.set {thread : LoopThread} {workers : List CThreadWorker} {worker : Nat}
    {old : CThreadWorker} (joined : thread.Joined workers) (before : workers[worker]? = some old)
    (alive : old ≠ .ended) (new : CThreadWorker) : thread.Joined (workers.set worker new) := by
  have kept : ∀ index : Nat, workers[index]? = some .ended →
      (workers.set worker new)[index]? = some .ended := by
    intro index ended
    rw [CThreadWorker.getElem?_set before, if_neg, ended]
    rintro rfl
    rw [before] at ended
    exact alive (Option.some.inj ended)
  cases thread with
  | joining iter => exact fun index below => kept index (joined index below)
  | returned =>
      intro index below
      rw [List.length_set] at below
      exact kept index (joined index below)
  | running => trivial
  | creating i => trivial
  | pushing i => trivial

namespace CAsyncDataHandler

def pushes (s : CAsyncDataHandler) : List SRequestWrap := s.log.filterMap PoolEvent.pushed?

/-- Which worker took which wrapper. -/
def pops (s : CAsyncDataHandler) : List (Nat × SRequestWrap) := s.log.filterMap PoolEvent.popped?

/-- Which worker dispatched which request. -/
def dispatches (s : CAsyncDataHandler) : List (Nat × Nat) := s.log.filterMap PoolEvent.dispatched?

def deletes (s : CAsyncDataHandler) : List (Nat × Nat) := s.log.filterMap PoolEvent.deleted?

/-- What every step keeps. A worker holds what it has taken and not dispatched, and
what it has dispatched and not deleted. -/
structure Orderly (s : CAsyncDataHandler) : Prop where
  fifo : s.pops.map Prod.snd ++ s.requestQueue = s.pushes
  pushed : ∃ nulls, s.thread.Nulls s.workers.length nulls ∧
    s.pushes = (List.range s.requests.length).map SRequestWrap.of ++ List.replicate nulls .null
  listed : s.thread ≠ .returned → s.vecWorker = List.range s.workers.length
  ended : ∀ worker : Nat, s.pops.count (worker, .null) = if s.workers[worker]? = some .ended then 1 else 0
  plain : ∀ (worker pRequest : Nat) (pConn : Option Nat), s.workers[worker]? = some (.dispatching pRequest pConn) →
    pConn = none
  taken : ∀ worker pRequest : Nat, s.pops.count (worker, .of pRequest) =
    s.dispatches.count (worker, pRequest) +
      if s.workers[worker]? = some (.dispatching pRequest none) then 1 else 0
  dispatched : ∀ worker pRequest : Nat, s.dispatches.count (worker, pRequest) =
    s.deletes.count (worker, pRequest) +
      if s.workers[worker]? = some (.deleting pRequest) then 1 else 0
  deleted : s.deleted = s.deletes.map Prod.snd
  found : ∀ worker pRequest pConn found, .dispatch worker pRequest pConn found ∈ s.log →
    pConn = none ∧ ∃ request, found = some request ∧ s.requests[pRequest]? = some request
  joined : s.thread.Joined s.workers

/-! ## The steps -/

/-- What a step of the system can do. -/
inductive Stepped (mfc : Mfc) (s : CAsyncDataHandler) : PoolAct → CAsyncDataHandler → Prop where
  | setWorkerCount (uCount : UInt32) : s.thread = .running →
      Stepped mfc s (.setWorkerCount uCount) { s with uWorkerCount := uCount }
  | setWorking : s.thread = .running → Stepped mfc s .setWorking { s with thread := .creating 0 }
  | makeRequest (pPacket : List UInt8) (uPktLen : UInt32) : s.thread = .running →
      Stepped mfc s (.makeRequest pPacket uPktLen) (s.__makeRequest mfc pPacket uPktLen)
  | destroy : s.thread = .running → Stepped mfc s .destroy { s with thread := .pushing 0 }
  | create (i : UInt32) : s.thread = .creating i → Stepped mfc s .loop { s with
      workers := s.workers ++ [.popping]
      vecWorker := s.vecWorker ++ [s.workers.length]
      thread := .creating (i + 1) }
  | created (i : UInt32) : s.thread = .creating i → Stepped mfc s .loop { s with thread := .running }
  | pushNull (i : UInt32) : s.thread = .pushing i → i.toNat < s.vecWorker.length →
      Stepped mfc s .loop { s.push .null with thread := .pushing (i + 1) }
  | pushedAll (i : UInt32) : s.thread = .pushing i → s.vecWorker.length ≤ i.toNat →
      Stepped mfc s .loop { s with thread := .joining 0 }
  | join (iter worker : Nat) : s.thread = .joining iter → s.vecWorker[iter]? = some worker →
      s.workers[worker]? = some .ended → Stepped mfc s .loop { s with thread := .joining (iter + 1) }
  | joinedAll (iter : Nat) : s.thread = .joining iter → s.vecWorker.length ≤ iter →
      Stepped mfc s .loop { s with vecWorker := [], thread := .returned }
  | popNull (worker : Nat) (pConn : Option Nat) (rest : List SRequestWrap) :
      s.workers[worker]? = some .popping → s.requestQueue = ⟨none, pConn⟩ :: rest →
      Stepped mfc s (.work worker) { s with
        requestQueue := rest
        workers := s.workers.set worker .ended
        log := s.log ++ [.pop worker ⟨none, pConn⟩] }
  | pop (worker pRequest : Nat) (pConn : Option Nat) (rest : List SRequestWrap) :
      s.workers[worker]? = some .popping → s.requestQueue = ⟨some pRequest, pConn⟩ :: rest →
      Stepped mfc s (.work worker) { s with
        requestQueue := rest
        workers := s.workers.set worker (.dispatching pRequest pConn)
        log := s.log ++ [.pop worker ⟨some pRequest, pConn⟩] }
  | dispatch (worker pRequest : Nat) (pConn : Option Nat) :
      s.workers[worker]? = some (.dispatching pRequest pConn) → Stepped mfc s (.work worker) { s with
        workers := s.workers.set worker (.deleting pRequest)
        log := s.log ++ [.dispatch worker pRequest pConn (s.find pRequest)] }
  | delete (worker pRequest : Nat) : s.workers[worker]? = some (.deleting pRequest) →
      Stepped mfc s (.work worker) { s with
        deleted := s.deleted ++ [pRequest]
        workers := s.workers.set worker .popping
        log := s.log ++ [.delete worker pRequest] }

theorem loop_stepped {mfc : Mfc} {s next : CAsyncDataHandler} (looped : s.loop = some next) :
    Stepped mfc s .loop next := by
  unfold loop at looped
  cases phase : s.thread with
  | running => simp [phase] at looped
  | creating i =>
      simp only [phase] at looped
      split at looped <;> cases looped
      · exact .create i phase
      · exact .created i phase
  | pushing i =>
      simp only [phase] at looped
      split at looped <;> cases looped
      · exact .pushNull i phase ‹_›
      · exact .pushedAll i phase (Nat.le_of_not_lt ‹_›)
  | joining iter =>
      simp only [phase] at looped
      cases listed : s.vecWorker[iter]? with
      | none =>
          simp only [listed, Option.some.injEq] at looped
          subst looped
          exact .joinedAll iter phase (List.getElem?_eq_none_iff.mp listed)
      | some worker =>
          simp only [listed, Option.ite_none_right_eq_some, Option.some.injEq] at looped
          obtain ⟨done, rfl⟩ := looped
          exact .join iter worker phase listed done
  | returned => simp [phase] at looped

theorem work_stepped {mfc : Mfc} {s next : CAsyncDataHandler} {worker : Nat}
    (worked : s.work worker = some next) : Stepped mfc s (.work worker) next := by
  unfold work at worked
  cases phase : s.workers[worker]? with
  | none => simp [phase] at worked
  | some state =>
      cases state with
      | popping =>
          simp only [phase] at worked
          cases queued : s.requestQueue with
          | nil => simp [queued] at worked
          | cons reqWrap rest =>
              obtain ⟨pRequest, pConn⟩ := reqWrap
              cases pRequest with
              | none =>
                  simp only [queued, Option.some.injEq] at worked
                  subst worked
                  exact .popNull worker pConn rest phase queued
              | some pRequest =>
                  simp only [queued, Option.some.injEq] at worked
                  subst worked
                  exact .pop worker pRequest pConn rest phase queued
      | dispatching pRequest pConn =>
          simp only [phase, Option.some.injEq] at worked
          subst worked
          exact .dispatch worker pRequest pConn phase
      | deleting pRequest =>
          simp only [phase, Option.some.injEq] at worked
          subst worked
          exact .delete worker pRequest phase
      | ended => simp [phase] at worked

theorem apply_stepped {mfc : Mfc} {s next : CAsyncDataHandler} {act : PoolAct}
    (applied : act.apply mfc s = some next) : Stepped mfc s act next := by
  cases act with
  | setWorkerCount uCount =>
      simp only [PoolAct.apply, Option.ite_none_right_eq_some, Option.some.injEq] at applied
      obtain ⟨running, rfl⟩ := applied
      exact .setWorkerCount uCount running
  | setWorking =>
      simp only [PoolAct.apply, Option.ite_none_right_eq_some, Option.some.injEq] at applied
      obtain ⟨running, rfl⟩ := applied
      exact .setWorking running
  | makeRequest pPacket uPktLen =>
      simp only [PoolAct.apply, Option.ite_none_right_eq_some, Option.some.injEq] at applied
      obtain ⟨running, rfl⟩ := applied
      exact .makeRequest pPacket uPktLen running
  | destroy =>
      simp only [PoolAct.apply, Option.ite_none_right_eq_some, Option.some.injEq] at applied
      obtain ⟨running, rfl⟩ := applied
      exact .destroy running
  | loop => exact loop_stepped applied
  | work worker => exact work_stepped applied

/-! ## What they keep -/

theorem pushes_of_log {s next : CAsyncDataHandler} {event : PoolEvent}
    (log : next.log = s.log ++ [event]) : next.pushes = s.pushes ++ event.pushed?.toList := by
  rw [pushes, log, List.filterMap_append]
  cases event <;> rfl

theorem pops_of_log {s next : CAsyncDataHandler} {event : PoolEvent}
    (log : next.log = s.log ++ [event]) : next.pops = s.pops ++ event.popped?.toList := by
  rw [pops, log, List.filterMap_append]
  cases event <;> rfl

theorem dispatches_of_log {s next : CAsyncDataHandler} {event : PoolEvent}
    (log : next.log = s.log ++ [event]) :
    next.dispatches = s.dispatches ++ event.dispatched?.toList := by
  rw [dispatches, log, List.filterMap_append]
  cases event <;> rfl

theorem deletes_of_log {s next : CAsyncDataHandler} {event : PoolEvent}
    (log : next.log = s.log ++ [event]) : next.deletes = s.deletes ++ event.deleted?.toList := by
  rw [deletes, log, List.filterMap_append]
  cases event <;> rfl

namespace Orderly

variable {s : CAsyncDataHandler}

theorem withThread (orderly : s.Orderly) {thread : LoopThread} {vecWorker : List Nat}
    (uWorkerCount : UInt32)
    (nulls : ∀ count, s.thread.Nulls s.workers.length count → thread.Nulls s.workers.length count)
    (listed : thread ≠ .returned → vecWorker = List.range s.workers.length)
    (joined : thread.Joined s.workers) :
    Orderly { s with uWorkerCount := uWorkerCount, vecWorker := vecWorker, thread := thread } where
  fifo := orderly.fifo
  pushed := by
    obtain ⟨count, known, pushed⟩ := orderly.pushed
    exact ⟨count, nulls count known, pushed⟩
  listed := listed
  ended := orderly.ended
  plain := orderly.plain
  taken := orderly.taken
  dispatched := orderly.dispatched
  deleted := orderly.deleted
  found := orderly.found
  joined := joined

theorem create (orderly : s.Orderly) {i : UInt32} (phase : s.thread = .creating i) :
    Orderly { s with
      workers := s.workers ++ [.popping]
      vecWorker := s.vecWorker ++ [s.workers.length]
      thread := .creating (i + 1) } where
  fifo := orderly.fifo
  pushed := by
    obtain ⟨count, known, pushed⟩ := orderly.pushed
    rw [phase] at known
    exact ⟨count, known, pushed⟩
  listed _ := by
    rw [orderly.listed (by simp [phase]), List.length_append, List.length_singleton,
      List.range_succ]
  ended worker := by
    simp only [CThreadWorker.getElem?_started (by decide : CThreadWorker.ended ≠ .popping)]
    exact orderly.ended worker
  plain worker pRequest pConn busy :=
    orderly.plain worker pRequest pConn ((CThreadWorker.getElem?_started (by simp) worker).mp busy)
  taken worker pRequest := by
    simp only [CThreadWorker.getElem?_started (by simp : CThreadWorker.dispatching pRequest none ≠ .popping)]
    exact orderly.taken worker pRequest
  dispatched worker pRequest := by
    simp only [CThreadWorker.getElem?_started (by simp : CThreadWorker.deleting pRequest ≠ .popping)]
    exact orderly.dispatched worker pRequest
  deleted := orderly.deleted
  found := orderly.found
  joined := trivial

theorem push (orderly : s.Orderly) {reqWrap : SRequestWrap} {requests : List Request}
    {thread : LoopThread}
    (kept : ∀ (pRequest : Nat) (request : Request), s.requests[pRequest]? = some request →
      requests[pRequest]? = some request)
    (pushed : ∃ nulls, thread.Nulls s.workers.length nulls ∧ s.pushes ++ [reqWrap] =
      (List.range requests.length).map SRequestWrap.of ++ List.replicate nulls .null)
    (listed : thread ≠ .returned → s.vecWorker = List.range s.workers.length)
    (joined : thread.Joined s.workers) :
    Orderly { s.push reqWrap with requests := requests, thread := thread } := by
  let next : CAsyncDataHandler := { s.push reqWrap with requests := requests, thread := thread }
  have log : next.log = s.log ++ [.push reqWrap] := rfl
  have pushes := pushes_of_log log
  have pops := pops_of_log log
  have dispatches := dispatches_of_log log
  have deletes := deletes_of_log log
  simp only [PoolEvent.pushed?, PoolEvent.popped?, PoolEvent.dispatched?, PoolEvent.deleted?,
    Option.toList_some, Option.toList_none, List.append_nil] at pushes pops dispatches deletes
  show next.Orderly
  refine ⟨?_, ?_, listed, ?_, orderly.plain, ?_, ?_, ?_, ?_, joined⟩
  · rw [pops, pushes, ← orderly.fifo, List.append_assoc]
    rfl
  · rw [pushes]
    exact pushed
  · rw [pops]
    exact orderly.ended
  · rw [pops, dispatches]
    exact orderly.taken
  · rw [dispatches, deletes]
    exact orderly.dispatched
  · rw [deletes]
    exact orderly.deleted
  · intro worker pRequest pConn found recorded
    rw [log, List.mem_append, List.mem_singleton] at recorded
    obtain ⟨noConn, request, same, made⟩ :=
      orderly.found worker pRequest pConn found (recorded.resolve_right (by simp))
    exact ⟨noConn, request, same, kept pRequest request made⟩

theorem makeRequest (orderly : s.Orderly) (mfc : Mfc) (pPacket : List UInt8) (uPktLen : UInt32)
    (running : s.thread = .running) : Orderly (s.__makeRequest mfc pPacket uPktLen) := by
  refine orderly.push ?_ ?_ orderly.listed orderly.joined
  · intro pRequest request made
    rw [List.getElem?_append_left (List.getElem?_eq_some_iff.mp made).1]
    exact made
  · obtain ⟨count, known, pushed⟩ := orderly.pushed
    rw [running] at known ⊢
    cases known
    refine ⟨0, rfl, ?_⟩
    rw [pushed]
    simp [List.range_succ, SRequestWrap.of]

theorem pushNull (orderly : s.Orderly) {i : UInt32} (phase : s.thread = .pushing i)
    (more : i.toNat < s.vecWorker.length) :
    Orderly { s.push .null with thread := .pushing (i + 1) } := by
  have listed := orderly.listed (by simp [phase])
  refine orderly.push (fun _ _ made => made) ?_ (fun _ => listed) trivial
  obtain ⟨count, known, pushed⟩ := orderly.pushed
  rw [phase] at known
  rw [listed, List.length_range] at more
  refine ⟨count + 1, ?_, ?_⟩
  · intro few
    obtain ⟨same, -⟩ := known few
    rw [UInt32.toNat_add, UInt32.toNat_one, Nat.mod_eq_of_lt (by omega), same]
    exact ⟨rfl, more⟩
  · rw [pushed, List.append_assoc, List.replicate_succ']
    rfl

/-- A worker's step moves that worker from one state to another, and balances what
the worker has taken, dispatched and deleted. -/
theorem move (orderly : s.Orderly) {worker : Nat} {old new : CThreadWorker} {event : PoolEvent}
    {rest : List SRequestWrap} {deleted : List Nat}
    (before : s.workers[worker]? = some old) (alive : old ≠ .ended) (own : event.By worker)
    (queue : event.popped?.toList.map Prod.snd ++ rest = s.requestQueue)
    (ended : event.popped?.toList.count (worker, .null) = if new = .ended then 1 else 0)
    (plain : ∀ pRequest pConn, new = .dispatching pRequest pConn → pConn = none)
    (taken : ∀ pRequest, event.popped?.toList.count (worker, .of pRequest) +
        (if old = .dispatching pRequest none then 1 else 0) =
      event.dispatched?.toList.count (worker, pRequest) +
        if new = .dispatching pRequest none then 1 else 0)
    (dispatched : ∀ pRequest, event.dispatched?.toList.count (worker, pRequest) +
        (if old = .deleting pRequest then 1 else 0) =
      event.deleted?.toList.count (worker, pRequest) + if new = .deleting pRequest then 1 else 0)
    (freed : deleted = s.deleted ++ event.deleted?.toList.map Prod.snd)
    (found : ∀ sender pRequest pConn found, event = .dispatch sender pRequest pConn found →
      pConn = none ∧ ∃ request, found = some request ∧ s.requests[pRequest]? = some request) :
    Orderly { s with
      requestQueue := rest
      workers := s.workers.set worker new
      deleted := deleted
      log := s.log ++ [event] } := by
  let next : CAsyncDataHandler := { s with
    requestQueue := rest
    workers := s.workers.set worker new
    deleted := deleted
    log := s.log ++ [event] }
  have log : next.log = s.log ++ [event] := rfl
  have moved : ∀ other : Nat, next.workers[other]? =
      if worker = other then some new else s.workers[other]? := CThreadWorker.getElem?_set before new
  have length : next.workers.length = s.workers.length := List.length_set
  show next.Orderly
  refine ⟨?_, ?_, ?_, ?_, ?_, ?_, ?_, ?_, ?_, orderly.joined.set before alive new⟩
  · rw [pops_of_log log, pushes_of_log log, own.not_pushed, ← orderly.fifo, ← queue]
    simp [next]
  · rw [pushes_of_log log, own.not_pushed, length, Option.toList_none, List.append_nil]
    exact orderly.pushed
  · rw [length]
    exact orderly.listed
  · intro other
    rw [pops_of_log log, List.count_append, orderly.ended other, moved other]
    by_cases same : worker = other
    · subst same
      simp [before, alive, ended]
    · simp [same, own.popped_other same]
  · intro other pRequest pConn busy
    rw [moved other] at busy
    split at busy
    · exact plain pRequest pConn (Option.some.inj busy)
    · exact orderly.plain other pRequest pConn busy
  · intro other pRequest
    have counted := orderly.taken other pRequest
    rw [pops_of_log log, dispatches_of_log log, List.count_append, List.count_append, moved other]
    by_cases same : worker = other
    · subst same
      have balance := taken pRequest
      simp only [before, Option.some.injEq, if_true] at counted ⊢
      omega
    · simpa [same, own.popped_other same, own.dispatched_other same] using counted
  · intro other pRequest
    have counted := orderly.dispatched other pRequest
    rw [dispatches_of_log log, deletes_of_log log, List.count_append, List.count_append,
      moved other]
    by_cases same : worker = other
    · subst same
      have balance := dispatched pRequest
      simp only [before, Option.some.injEq, if_true] at counted ⊢
      omega
    · simpa [same, own.dispatched_other same, own.deleted_other same] using counted
  · rw [deletes_of_log log, List.map_append, ← orderly.deleted]
    exact freed
  · intro other pRequest pConn what recorded
    rw [log, List.mem_append, List.mem_singleton] at recorded
    rcases recorded with old | last
    · exact orderly.found other pRequest pConn what old
    · exact found other pRequest pConn what last.symm

theorem wrap_of_mem (orderly : s.Orderly) {reqWrap : SRequestWrap} (mem : reqWrap ∈ s.pushes) :
    reqWrap = .null ∨ ∃ pRequest < s.requests.length, reqWrap = .of pRequest := by
  obtain ⟨nulls, -, pushed⟩ := orderly.pushed
  rw [pushed, List.mem_append, List.mem_map] at mem
  rcases mem with ⟨pRequest, inside, rfl⟩ | null
  · exact .inr ⟨pRequest, List.mem_range.mp inside, rfl⟩
  · exact .inl (List.eq_of_mem_replicate null)

theorem head_mem (orderly : s.Orderly) {reqWrap : SRequestWrap} {rest : List SRequestWrap}
    (queued : s.requestQueue = reqWrap :: rest) : reqWrap ∈ s.pushes := by
  rw [← orderly.fifo, queued]
  simp

theorem popNull (orderly : s.Orderly) {worker : Nat} {pConn : Option Nat}
    {rest : List SRequestWrap} (before : s.workers[worker]? = some .popping)
    (queued : s.requestQueue = ⟨none, pConn⟩ :: rest) :
    Orderly { s with
      requestQueue := rest
      workers := s.workers.set worker .ended
      log := s.log ++ [.pop worker ⟨none, pConn⟩] } := by
  have null : (⟨none, pConn⟩ : SRequestWrap) = .null := by
    rcases orderly.wrap_of_mem (orderly.head_mem queued) with null | ⟨pRequest, -, request⟩
    · exact null
    · cases request
  rw [null] at queued ⊢
  refine orderly.move before (by simp) rfl queued.symm ?_ ?_ ?_ ?_ ?_ ?_
  all_goals simp [PoolEvent.popped?, PoolEvent.dispatched?, PoolEvent.deleted?, SRequestWrap.of,
    SRequestWrap.null]

theorem pop (orderly : s.Orderly) {worker pRequest : Nat} {pConn : Option Nat}
    {rest : List SRequestWrap} (before : s.workers[worker]? = some .popping)
    (queued : s.requestQueue = ⟨some pRequest, pConn⟩ :: rest) :
    Orderly { s with
      requestQueue := rest
      workers := s.workers.set worker (.dispatching pRequest pConn)
      log := s.log ++ [.pop worker ⟨some pRequest, pConn⟩] } := by
  have noConn : pConn = none := by
    rcases orderly.wrap_of_mem (orderly.head_mem queued) with null | ⟨pRequest, -, request⟩
    · cases null
    · cases request
      rfl
  subst noConn
  refine orderly.move before (by simp) rfl queued.symm ?_ ?_ ?_ ?_ ?_ ?_
  all_goals simp [PoolEvent.popped?, PoolEvent.dispatched?, PoolEvent.deleted?, SRequestWrap.of,
    SRequestWrap.null, List.count_singleton]

theorem popped_once (orderly : s.Orderly) (pRequest : Nat) :
    (s.pops.map Prod.snd).count (.of pRequest) ≤ 1 := by
  obtain ⟨nulls, -, pushed⟩ := orderly.pushed
  have once : ((List.range s.requests.length).map SRequestWrap.of).Nodup :=
    List.nodup_range.map (fun left right same => by simpa [SRequestWrap.of] using same)
  have noNull : (List.replicate nulls SRequestWrap.null).count (.of pRequest) = 0 := by
    simp [List.count_replicate, SRequestWrap.null, SRequestWrap.of]
  calc (s.pops.map Prod.snd).count (.of pRequest)
      ≤ s.pushes.count (.of pRequest) := by
        rw [← orderly.fifo, List.count_append]
        exact Nat.le_add_right _ _
    _ = ((List.range s.requests.length).map SRequestWrap.of).count (.of pRequest) := by
        rw [pushed, List.count_append, noNull, Nat.add_zero]
    _ ≤ 1 := List.nodup_iff_count_le_one.mp once _

/-- Of two takings of a request, both are by the same worker. -/
theorem popped_by_one (orderly : s.Orderly) {first second pRequest : Nat}
    (one : 0 < s.pops.count (first, .of pRequest))
    (two : 0 < s.pops.count (second, .of pRequest)) : first = second := by
  by_contra different
  have both : [first, second].length ≤ (s.pops.map Prod.snd).count (.of pRequest) := by
    refine length_le_count_snd (by simpa using different) ?_
    intro key mem
    simp only [List.mem_cons, List.not_mem_nil, or_false] at mem
    rcases mem with rfl | rfl
    · exact List.count_pos_iff.mp one
    · exact List.count_pos_iff.mp two
  exact absurd (both.trans (orderly.popped_once pRequest)) (by simp)

theorem popped_le_one (orderly : s.Orderly) (worker pRequest : Nat) :
    s.pops.count (worker, .of pRequest) ≤ 1 :=
  (List.count_le_count_map (f := Prod.snd)).trans (orderly.popped_once pRequest)

theorem inside_of_popped (orderly : s.Orderly) {worker pRequest : Nat}
    (popped : 0 < s.pops.count (worker, .of pRequest)) : pRequest < s.requests.length := by
  have mem : SRequestWrap.of pRequest ∈ s.pushes := by
    rw [← orderly.fifo]
    exact List.mem_append_left _ (List.mem_map_of_mem (f := Prod.snd) (List.count_pos_iff.mp popped))
  rcases orderly.wrap_of_mem mem with null | ⟨other, inside, same⟩
  · cases null
  · cases same
    exact inside

theorem find_alive (orderly : s.Orderly) {worker pRequest : Nat}
    (before : s.workers[worker]? = some (.dispatching pRequest none)) :
    ∃ request, s.find pRequest = some request ∧ s.requests[pRequest]? = some request := by
  have taken := orderly.taken worker pRequest
  rw [if_pos before] at taken
  have inside := orderly.inside_of_popped (by omega : 0 < s.pops.count (worker, .of pRequest))
  have kept : pRequest ∉ s.deleted := by
    intro gone
    rw [orderly.deleted, List.mem_map] at gone
    obtain ⟨⟨other, request⟩, mem, same⟩ := gone
    change request = pRequest at same
    subst same
    -- Whoever deleted the request had taken it, so it was this worker, and it took it twice.
    have deleted : 0 < s.deletes.count (other, request) := List.count_pos_iff.mpr mem
    have earlier := orderly.dispatched other request
    have poppedOther := orderly.taken other request
    have twoTakers : worker = other :=
      orderly.popped_by_one (by omega : 0 < s.pops.count (worker, .of request)) (by omega)
    subst twoTakers
    have once := orderly.popped_le_one worker request
    omega
  refine ⟨s.requests[pRequest], ?_, List.getElem?_eq_getElem inside⟩
  rw [find, if_neg kept, List.getElem?_eq_getElem inside]

theorem dispatch (orderly : s.Orderly) {worker pRequest : Nat} {pConn : Option Nat}
    (before : s.workers[worker]? = some (.dispatching pRequest pConn)) :
    Orderly { s with
      workers := s.workers.set worker (.deleting pRequest)
      log := s.log ++ [.dispatch worker pRequest pConn (s.find pRequest)] } := by
  cases orderly.plain worker pRequest pConn before
  refine orderly.move before (by simp) rfl rfl ?_ ?_ ?_ ?_ ?_ ?_
  case refine_6 =>
    intro sender request pConn found same
    cases same
    exact ⟨rfl, orderly.find_alive before⟩
  all_goals simp [PoolEvent.popped?, PoolEvent.dispatched?, PoolEvent.deleted?,
    List.count_singleton]

theorem delete (orderly : s.Orderly) {worker pRequest : Nat}
    (before : s.workers[worker]? = some (.deleting pRequest)) :
    Orderly { s with
      deleted := s.deleted ++ [pRequest]
      workers := s.workers.set worker .popping
      log := s.log ++ [.delete worker pRequest] } := by
  refine orderly.move before (by simp) rfl rfl ?_ ?_ ?_ ?_ ?_ ?_
  all_goals simp [PoolEvent.popped?, PoolEvent.dispatched?, PoolEvent.deleted?,
    List.count_singleton]

theorem step (orderly : s.Orderly) {mfc : Mfc} {act : PoolAct} {next : CAsyncDataHandler}
    (stepped : Stepped mfc s act next) : next.Orderly := by
  cases stepped with
  | setWorkerCount uCount running =>
      exact orderly.withThread uCount (fun _ known => known) orderly.listed orderly.joined
  | setWorking running =>
      refine orderly.withThread _ ?_ (fun _ => orderly.listed (by simp [running])) trivial
      rw [running]
      exact fun _ known => known
  | makeRequest pPacket uPktLen running => exact orderly.makeRequest mfc pPacket uPktLen running
  | destroy running =>
      refine orderly.withThread _ ?_ (fun _ => orderly.listed (by simp [running])) trivial
      rw [running]
      rintro _ rfl few
      exact ⟨rfl, Nat.zero_le _⟩
  | create i phase => exact orderly.create phase
  | created i phase =>
      refine orderly.withThread _ ?_ (fun _ => orderly.listed (by simp [phase])) trivial
      rw [phase]
      exact fun _ known => known
  | pushNull i phase more => exact orderly.pushNull phase more
  | pushedAll i phase all =>
      have listed := orderly.listed (by simp [phase])
      rw [listed, List.length_range] at all
      refine orderly.withThread _ ?_ (fun _ => listed) ?_
      · rw [phase]
        intro count known
        -- The counter has reached the number of workers, so that number fits into it.
        have few : s.workers.length < 2 ^ 32 := by
          have := i.toNat_lt
          omega
        obtain ⟨same, below⟩ := known few
        exact Nat.le_antisymm below (by omega)
      · intro worker below
        exact absurd below (Nat.not_lt_zero worker)
  | join iter worker phase listed done =>
      have vec := orderly.listed (by simp [phase])
      refine orderly.withThread _ ?_ (fun _ => vec) ?_
      · rw [phase]
        exact fun _ known => known
      · have joined := orderly.joined
        rw [phase] at joined
        rw [vec, List.getElem?_eq_some_iff] at listed
        obtain ⟨inside, same⟩ := listed
        rw [List.getElem_range] at same
        subst same
        intro index below
        rcases Nat.lt_succ_iff_lt_or_eq.mp below with earlier | rfl
        · exact joined index earlier
        · exact done
  | joinedAll iter phase all =>
      have vec := orderly.listed (by simp [phase])
      refine orderly.withThread _ ?_ (fun wrong => absurd rfl wrong) ?_
      · rw [phase]
        exact fun _ known => known
      · have joined := orderly.joined
        rw [phase] at joined
        rw [vec, List.length_range] at all
        exact fun worker below => joined worker (Nat.lt_of_lt_of_le below all)
  | popNull worker pConn rest before queued => exact orderly.popNull before queued
  | pop worker pRequest pConn rest before queued => exact orderly.pop before queued
  | dispatch worker pRequest pConn before => exact orderly.dispatch before
  | delete worker pRequest before => exact orderly.delete before

theorem queue_empty (orderly : s.Orderly) (returned : s.thread = .returned)
    (some : s.workers ≠ []) : s.requestQueue = [] := by
  obtain ⟨nulls, known, pushed⟩ := orderly.pushed
  have joined := orderly.joined
  rw [returned] at known joined
  change nulls = s.workers.length at known
  subst known
  have taken : s.workers.length ≤ (s.pops.map Prod.snd).count SRequestWrap.null := by
    rw [← List.length_range (n := s.workers.length)]
    refine length_le_count_snd List.nodup_range ?_
    intro worker below
    have ended := orderly.ended worker
    rw [if_pos (joined worker (List.mem_range.mp below))] at ended
    exact List.count_pos_iff.mp (by omega)
  have total : s.pushes.count SRequestWrap.null = s.workers.length := by
    rw [pushed, List.count_append, List.count_replicate_self, List.count_eq_zero_of_not_mem]
    · exact Nat.zero_add _
    · simp [SRequestWrap.of, SRequestWrap.null]
  rw [← orderly.fifo, List.count_append] at total
  have none : SRequestWrap.null ∉ s.requestQueue := List.count_eq_zero.mp (by omega)
  have last : s.pushes.getLast? = Option.some SRequestWrap.null := by
    rw [pushed, List.getLast?_append, List.getLast?_replicate, if_neg]
    · rfl
    · simpa using some
  by_contra nonempty
  rw [← orderly.fifo, List.getLast?_append_of_ne_nil _ nonempty] at last
  exact none (List.mem_of_getLast? last)

theorem dispatched_all (orderly : s.Orderly) (returned : s.thread = .returned)
    (some : s.workers ≠ []) {pRequest : Nat} (made : pRequest < s.requests.length) :
    ∃ worker, ∀ other, s.dispatches.count (other, pRequest) =
      if other = worker then 1 else 0 := by
  have joined := orderly.joined
  rw [returned] at joined
  have settled : ∀ other, s.dispatches.count (other, pRequest) =
      s.pops.count (other, .of pRequest) := by
    intro other
    have idle : s.workers[other]? ≠ Option.some (.dispatching pRequest none) := by
      intro busy
      have ended := joined other (List.getElem?_eq_some_iff.mp busy).1
      rw [busy] at ended
      cases ended
    rw [orderly.taken other pRequest, if_neg idle, Nat.add_zero]
  have popped : SRequestWrap.of pRequest ∈ s.pops.map Prod.snd := by
    obtain ⟨nulls, -, pushed⟩ := orderly.pushed
    have fifo := orderly.fifo
    rw [orderly.queue_empty returned some, List.append_nil] at fifo
    rw [fifo, pushed]
    exact List.mem_append_left _ (List.mem_map_of_mem (List.mem_range.mpr made))
  obtain ⟨⟨worker, reqWrap⟩, mem, same⟩ := List.mem_map.mp popped
  change reqWrap = .of pRequest at same
  subst same
  have once : 0 < s.pops.count (worker, .of pRequest) := List.count_pos_iff.mpr mem
  refine ⟨worker, fun other => ?_⟩
  rw [settled other]
  split
  · rename_i same
    subst same
    exact Nat.le_antisymm (orderly.popped_le_one other pRequest) once
  · rename_i different
    by_contra more
    exact different (orderly.popped_by_one (Nat.pos_of_ne_zero more) once)

end Orderly

theorem orderly_of_run {mfc : Mfc} {acts : List PoolAct} {s : CAsyncDataHandler}
    (run : (poolSystem mfc).Run acts s) : s.Orderly := by
  refine run.invariant Orderly ?_ ?_
  · rintro first rfl
    refine ⟨rfl, ⟨0, rfl, rfl⟩, fun _ => rfl, ?_, ?_, ?_, ?_, rfl, ?_, trivial⟩
    all_goals simp [pops, dispatches, deletes]
  · intro before act after orderly applied
    exact orderly.step (apply_stepped applied)

/-- The requests that were made are those of the packets given to `__makeRequest`. -/
theorem requests_of_run {mfc : Mfc} {acts : List PoolAct} {s : CAsyncDataHandler}
    (run : (poolSystem mfc).Run acts s) : s.requests = acts.filterMap (PoolAct.made mfc) := by
  induction run with
  | start first =>
      cases first
      rfl
  | step run applied ih =>
      rw [List.filterMap_append, ← ih]
      cases apply_stepped applied with
      | makeRequest pPacket uPktLen running => rfl
      | _ => exact (List.append_nil _).symm

/-! ## The end of the pool -/

/-- At most how many steps the workers have left, and the event-loop thread until it
returns from `__destroyThreadWorker`. -/
def remaining (s : CAsyncDataHandler) : Nat :=
  (match s.thread with
    | .pushing i => 5 * (s.workers.length - i.toNat) + s.workers.length + 2
    | .joining iter => s.workers.length + 1 - iter
    | _ => 0) +
  3 * s.requestQueue.length + (s.workers.map CThreadWorker.remaining).sum

theorem remaining_set {workers : List CThreadWorker} {worker : Nat} {old : CThreadWorker}
    (before : workers[worker]? = some old) (new : CThreadWorker) :
    ((workers.set worker new).map CThreadWorker.remaining).sum + old.remaining =
      (workers.map CThreadWorker.remaining).sum + new.remaining := by
  induction workers generalizing worker with
  | nil => simp at before
  | cons first rest ih =>
      cases worker with
      | zero =>
          rw [List.getElem?_cons_zero, Option.some.injEq] at before
          subst before
          simp only [List.set_cons_zero, List.map_cons, List.sum_cons]
          omega
      | succ worker =>
          have others := ih (by simpa using before)
          simp only [List.set_cons_succ, List.map_cons, List.sum_cons]
          omega

theorem Orderly.queue_pending {s : CAsyncDataHandler} (orderly : s.Orderly) {iter worker : Nat}
    (phase : s.thread = .joining iter) (waiting : s.workers[worker]? = some .popping) :
    s.requestQueue ≠ [] := by
  intro empty
  obtain ⟨nulls, known, pushed⟩ := orderly.pushed
  rw [phase] at known
  change nulls = s.workers.length at known
  subst known
  have inside := (List.getElem?_eq_some_iff.mp waiting).1
  have few : (s.pops.map Prod.snd).count SRequestWrap.null ≤
      ((List.range s.workers.length).erase worker).length := by
    refine count_snd_le_length ?_ ?_
    · intro key
      rw [orderly.ended key]
      split <;> omega
    · intro key mem
      have ended := orderly.ended key
      have positive := List.count_pos_iff.mpr mem
      split at ended
      · rename_i done
        have different : key ≠ worker := by
          rintro rfl
          rw [waiting] at done
          cases done
        have below := (List.getElem?_eq_some_iff.mp done).1
        exact (List.mem_erase_of_ne different).mpr (List.mem_range.mpr below)
      · omega
  have all : s.workers.length ≤ (s.pops.map Prod.snd).count SRequestWrap.null := by
    have fifo := orderly.fifo
    rw [empty, List.append_nil] at fifo
    rw [fifo, pushed, List.count_append, List.count_replicate_self]
    exact Nat.le_add_left _ _
  rw [List.length_erase_of_mem (List.mem_range.mpr inside), List.length_range] at few
  omega

theorem Orderly.goes_on {s : CAsyncDataHandler} (orderly : s.Orderly) (mfc : Mfc)
    (destroying : s.thread.Destroying) : ∃ act next, PoolAct.apply mfc s act = some next := by
  cases phase : s.thread with
  | running => simp [phase, LoopThread.Destroying] at destroying
  | creating i => simp [phase, LoopThread.Destroying] at destroying
  | returned => simp [phase, LoopThread.Destroying] at destroying
  | pushing i =>
      refine ⟨.loop, ?_⟩
      simp only [PoolAct.apply, loop, phase]
      split
      · exact ⟨_, rfl⟩
      · exact ⟨_, rfl⟩
  | joining iter =>
      have listed := orderly.listed (by simp [phase])
      by_cases inside : iter < s.workers.length
      · have member : s.vecWorker[iter]? = some iter := by
          rw [listed, List.getElem?_range inside]
        cases state : s.workers[iter] with
        | popping =>
            have waiting := List.getElem?_eq_some_iff.mpr ⟨inside, state⟩
            cases queued : s.requestQueue with
            | nil => exact absurd queued (orderly.queue_pending phase waiting)
            | cons reqWrap rest =>
                refine ⟨.work iter, ?_⟩
                simp only [PoolAct.apply, work, waiting, queued]
                exact ⟨_, rfl⟩
        | dispatching pRequest pConn =>
            refine ⟨.work iter, ?_⟩
            simp only [PoolAct.apply, work, List.getElem?_eq_some_iff.mpr ⟨inside, state⟩]
            exact ⟨_, rfl⟩
        | deleting pRequest =>
            refine ⟨.work iter, ?_⟩
            simp only [PoolAct.apply, work, List.getElem?_eq_some_iff.mpr ⟨inside, state⟩]
            exact ⟨_, rfl⟩
        | ended =>
            refine ⟨.loop, ?_⟩
            simp only [PoolAct.apply, loop, phase, member,
              List.getElem?_eq_some_iff.mpr ⟨inside, state⟩, if_true]
            exact ⟨_, rfl⟩
      · have past : s.vecWorker[iter]? = none := by
          rw [listed]
          exact List.getElem?_eq_none (by simpa using inside)
        refine ⟨.loop, ?_⟩
        simp only [PoolAct.apply, loop, phase, past]
        exact ⟨_, rfl⟩

theorem Orderly.nearer {s next : CAsyncDataHandler} (orderly : s.Orderly) {mfc : Mfc}
    {act : PoolAct} (destroying : s.thread.Destroying) (few : s.workers.length < 2 ^ 32)
    (stepped : Stepped mfc s act next) : next.remaining < s.remaining := by
  cases stepped with
  | setWorkerCount uCount running => simp [running, LoopThread.Destroying] at destroying
  | setWorking running => simp [running, LoopThread.Destroying] at destroying
  | makeRequest pPacket uPktLen running => simp [running, LoopThread.Destroying] at destroying
  | destroy running => simp [running, LoopThread.Destroying] at destroying
  | create i phase => simp [phase, LoopThread.Destroying] at destroying
  | created i phase => simp [phase, LoopThread.Destroying] at destroying
  | pushNull i phase more =>
      rw [orderly.listed (by simp [phase]), List.length_range] at more
      have counter : (i + 1).toNat = i.toNat + 1 := by
        rw [UInt32.toNat_add, UInt32.toNat_one, Nat.mod_eq_of_lt (by omega)]
      simp only [remaining, CAsyncDataHandler.push, phase, counter, List.length_append, List.length_singleton]
      omega
  | pushedAll i phase all =>
      simp only [remaining, phase]
      omega
  | join iter worker phase listed done =>
      rw [orderly.listed (by simp [phase]), List.getElem?_eq_some_iff] at listed
      obtain ⟨inside, -⟩ := listed
      rw [List.length_range] at inside
      simp only [remaining, phase]
      omega
  | joinedAll iter phase all =>
      have bounded : iter ≤ s.workers.length := by
        have joined := orderly.joined
        rw [phase] at joined
        by_contra beyond
        have ended := joined s.workers.length (by omega)
        rw [List.getElem?_eq_none (Nat.le_refl _)] at ended
        cases ended
      simp only [remaining, phase]
      omega
  | popNull worker pConn rest before queued =>
      have sum := remaining_set before .ended
      simp only [CThreadWorker.remaining] at sum
      simp only [remaining, queued, List.length_cons, List.length_set]
      omega
  | pop worker pRequest pConn rest before queued =>
      have sum := remaining_set before (.dispatching pRequest pConn)
      simp only [CThreadWorker.remaining] at sum
      simp only [remaining, queued, List.length_cons, List.length_set]
      omega
  | dispatch worker pRequest pConn before =>
      have sum := remaining_set before (.deleting pRequest)
      simp only [CThreadWorker.remaining] at sum
      simp only [remaining, List.length_set]
      omega
  | delete worker pRequest before =>
      have sum := remaining_set before .popping
      simp only [CThreadWorker.remaining] at sum
      simp only [remaining, List.length_set]
      omega

end CAsyncDataHandler

open CAsyncDataHandler in
/-- In every run of the pool, requests are taken in the order in which they were
pushed, at most once and by one worker, and a dispatch finds its request alive. When
`__destroyThreadWorker` has returned, the queue is empty, every request of a packet
was dispatched exactly once, and every worker has taken one NULL and ended. Until
then some thread can go on, and each step brings the return nearer. -/
theorem requests_dispatched_once (mfc : Mfc) (acts : List PoolAct) (s : CAsyncDataHandler)
    (run : (poolSystem mfc).Run acts s) :
    s.requests = acts.filterMap (PoolAct.made mfc) ∧
    s.pops.map Prod.snd ++ s.requestQueue = s.pushes ∧
    (∀ first second pRequest, (first, pRequest) ∈ s.dispatches →
      (second, pRequest) ∈ s.dispatches → first = second) ∧
    s.dispatches.Nodup ∧
    (∀ worker pRequest pConn found, .dispatch worker pRequest pConn found ∈ s.log →
      ∃ request, found = some request ∧ s.requests[pRequest]? = some request) ∧
    (s.thread = .returned → s.workers ≠ [] →
      (∀ pRequest < s.requests.length, ∃ worker, ∀ other,
        s.dispatches.count (other, pRequest) = if other = worker then 1 else 0) ∧
      (∀ worker < s.workers.length, s.workers[worker]? = some .ended ∧
        s.pops.count (worker, .null) = 1) ∧
      s.requestQueue = []) ∧
    (s.thread.Destroying → s.workers.length < 2 ^ 32 →
      (∃ act next, (poolSystem mfc).step s act next) ∧
      ∀ act next, (poolSystem mfc).step s act next → next.remaining < s.remaining) := by
  have orderly := orderly_of_run run
  have popped : ∀ worker pRequest, 0 < s.dispatches.count (worker, pRequest) →
      0 < s.pops.count (worker, .of pRequest) := by
    intro worker pRequest dispatched
    have taken := orderly.taken worker pRequest
    omega
  refine ⟨requests_of_run run, orderly.fifo, ?_, ?_, ?_, ?_, ?_⟩
  · intro first second pRequest one two
    exact orderly.popped_by_one (popped first pRequest (List.count_pos_iff.mpr one))
      (popped second pRequest (List.count_pos_iff.mpr two))
  · rw [List.nodup_iff_count_le_one]
    rintro ⟨worker, pRequest⟩
    have taken := orderly.taken worker pRequest
    have once := orderly.popped_le_one worker pRequest
    omega
  · intro worker pRequest pConn found recorded
    exact (orderly.found worker pRequest pConn found recorded).2
  · intro returned some
    refine ⟨fun pRequest made => orderly.dispatched_all returned some made, ?_,
      orderly.queue_empty returned some⟩
    intro worker below
    have joined := orderly.joined
    rw [returned] at joined
    have ended := joined worker below
    exact ⟨ended, by rw [orderly.ended worker, if_pos ended]⟩
  · intro destroying few
    exact ⟨orderly.goes_on mfc destroying, fun act next applied =>
      orderly.nearer destroying few (apply_stepped applied)⟩

/-- Two workers, of which the one that has taken the first packet dispatches it last. -/
theorem requests_dispatched_once_twoPackets :
    ∃ s : CAsyncDataHandler, s.thread = .returned ∧ s.requestQueue = [] ∧
      s.dispatches = [(0, 1), (1, 0)] ∧ ∀ pRequest < 2, ∃ worker, ∀ other,
        s.dispatches.count (other, pRequest) = if other = worker then 1 else 0 := by
  let acts : List PoolAct := [.setWorkerCount 2, .setWorking, .loop, .loop, .loop,
    .makeRequest [8, 0, 0, 0, 1, 0, 0, 0] 8, .makeRequest [9, 0, 0, 0, 2, 0, 0, 0, 7] 9,
    .work 1, .work 0, .work 0, .work 1, .destroy, .loop, .loop, .loop, .work 1, .work 0,
    .work 0, .work 1, .loop, .loop, .loop]
  have replayed : ∃ s, acts.foldlM (fun s act => PoolAct.apply .pb s act) {} = some s ∧
      s.thread = .returned ∧ s.workers ≠ [] ∧ s.requests.length = 2 ∧
      s.dispatches = [(0, 1), (1, 0)] := ⟨_, rfl, rfl, by decide, rfl, rfl⟩
  obtain ⟨s, replay, returned, some, two, dispatches⟩ := replayed
  have run : (poolSystem .pb).Run ([] ++ acts) s :=
    System.Run.replay (fun _ _ _ applied => applied) (.start rfl) replay
  obtain ⟨once, -, empty⟩ := (requests_dispatched_once .pb _ s run).2.2.2.2.2.1 returned some
  exact ⟨s, returned, empty, dispatches, fun pRequest below => once pRequest (two ▸ below)⟩

end CLibs.Libevwork
