import CLibs.Libev.Fds

/-!
# Capacities

The arrays of a loop never hold more than they have memory for: whatever makes one of them
longer asks `array_needsize` first.
-/

set_option autoImplicit false
set_option linter.unusedSectionVars false

open CLibs.General

namespace CLibs.Libev

theorem le_arrayNeedsize (elem cur cnt : Nat) (some : 0 < elem) :
    cnt ≤ arrayNeedsize elem cur cnt := by
  unfold arrayNeedsize
  split
  · exact le_arrayNextsize elem cur cnt some
  · exact not_lt.mp (by assumption)

namespace EvLoop

variable {T ι β : Type} [Tstamp T] [DecidableEq ι] {s t : EvLoop T ι β}

/-- What is in the arrays has memory there. The heap of the timers begins at `HEAP0`. -/
structure Roomy (s : EvLoop T ι β) : Prop where
  fdchanges : s.fdchanges.length ≤ s.fdchangemax
  pendings : ∀ pri, (s.pendings pri).length ≤ s.pendingmax pri
  rfeeds : s.rfeeds.length ≤ s.rfeedmax
  timers : s.timercnt = 0 ∨ s.timercnt + heap0 ≤ s.timermax
  arrays : ∀ ws, (s.arrays ws).length ≤ s.arraymax ws

/-- A list in a family of lists gets longer with its memory. -/
theorem room_of_update {κ α : Type} [DecidableEq κ] {xs : κ → List α} {max : κ → Nat}
    (room : ∀ k, (xs k).length ≤ max k) {k : κ} {ys : List α} {n : Nat} (enough : ys.length ≤ n)
    (k' : κ) : (Function.update xs k ys k').length ≤ Function.update max k n k' := by
  by_cases here : k' = k
  · rw [here, Function.update_self, Function.update_self]
    exact enough
  · rw [Function.update_of_ne here, Function.update_of_ne here]
    exact room k'

/-- A list in a family of lists that does not get longer needs no more memory. -/
theorem room_of_shorter {κ α : Type} [DecidableEq κ] {xs : κ → List α} {max : κ → Nat}
    (room : ∀ k, (xs k).length ≤ max k) {k : κ} {ys : List α} (shorter : ys.length ≤ (xs k).length)
    (k' : κ) : (Function.update xs k ys k').length ≤ max k' := by
  have grown := room_of_update (k := k) room (shorter.trans (room k)) k'
  rwa [Function.update_eq_self] at grown

theorem Roomy.foldl {α : Type} {f : EvLoop T ι β → α → EvLoop T ι β}
    (step : ∀ s x, s.Roomy → (f s x).Roomy) (xs : List α) (roomy : s.Roomy) :
    (xs.foldl f s).Roomy := by
  induction xs generalizing s with
  | nil => exact roomy
  | cons x xs ih => exact ih (step s x roomy)

/-! ## Pending events -/

theorem Roomy.feed (roomy : s.Roomy) (w : W ι) (revents : Events) :
    (s.evFeedEvent w revents).Roomy := by
  refine ⟨?_, ?_, ?_, ?_, ?_⟩
  · rw [(evFeedEvent_same s w revents).eq]
    exact roomy.fdchanges
  · by_cases fresh : s.pending w = 0
    · rw [feed_fresh fresh]
      refine room_of_update roomy.pendings ?_
      rw [List.length_append]
      exact le_arrayNeedsize 16 _ _ (by decide)
    · rw [feed_pending fresh]
      refine room_of_shorter roomy.pendings ?_
      rw [List.length_modify]
  · unfold evFeedEvent
    split <;> exact roomy.rfeeds
  · rw [(evFeedEvent_same s w revents).eq]
    exact roomy.timers
  · rw [(evFeedEvent_same s w revents).eq]
    exact roomy.arrays

theorem Roomy.clear (roomy : s.Roomy) (w : W ι) : (s.clearPending w).Roomy := by
  unfold clearPending
  split
  · refine ⟨roomy.fdchanges, room_of_shorter roomy.pendings ?_, roomy.rfeeds, roomy.timers,
      roomy.arrays⟩
    rw [List.length_modify]
  · exact roomy

theorem Roomy.next (roomy : s.Roomy) (pri : Nat) : (s.nextPending pri).1.Roomy := by
  rcases nextPending_cases s pri with ⟨eq, -⟩ | ⟨k, -, rest, p, split, -, eq⟩
  · rw [eq]
    exact ⟨roomy.fdchanges, roomy.pendings, roomy.rfeeds, roomy.timers, roomy.arrays⟩
  · rw [eq]
    refine ⟨roomy.fdchanges, room_of_shorter roomy.pendings ?_, roomy.rfeeds, roomy.timers,
      roomy.arrays⟩
    rw [split, List.length_append]
    exact Nat.le_add_right ..

theorem Roomy.queueEvents (roomy : s.Roomy) (ws : List (W ι)) (type : Events) :
    (s.queueEvents ws type).Roomy :=
  roomy.foldl (fun _ w roomy => roomy.feed w type) ws

theorem Roomy.feedReverse (roomy : s.Roomy) (w : W ι) : (s.feedReverse w).Roomy where
  fdchanges := roomy.fdchanges
  pendings := roomy.pendings
  rfeeds := by
    change (s.rfeeds ++ [w]).length ≤ arrayNeedsize 8 s.rfeedmax (s.rfeeds.length + 1)
    rw [List.length_append]
    exact le_arrayNeedsize 8 _ _ (by decide)
  timers := roomy.timers
  arrays := roomy.arrays

theorem Roomy.feedReverseDone (roomy : s.Roomy) (revents : Events) :
    (s.feedReverseDone revents).Roomy := by
  have fed := roomy.foldl (f := fun s w => s.evFeedEvent w revents)
    (fun _ w roomy => roomy.feed w revents) s.rfeeds.reverse
  exact ⟨fed.fdchanges, fed.pendings, Nat.zero_le _, fed.timers, fed.arrays⟩

/-! ## Descriptors -/

theorem Roomy.fdChange (roomy : s.Roomy) (fd : Nat) (flags : BitVec 8) :
    (s.fdChange fd flags).Roomy := by
  refine ⟨?_, roomy.pendings, roomy.rfeeds, roomy.timers, roomy.arrays⟩
  unfold EvLoop.fdChange
  dsimp only
  split
  · rw [List.length_append]
    exact le_arrayNeedsize 4 _ _ (by decide)
  · exact roomy.fdchanges

theorem Roomy.io_start (roomy : s.Roomy) (w : ι) : (s.evIoStart w).Roomy := by
  unfold evIoStart
  split
  · exact roomy
  · have grown : ((s.evStart (.io w) 1).needAnfds (s.fd w + 1)).Roomy := by
      unfold needAnfds
      split <;> exact ⟨roomy.fdchanges, roomy.pendings, roomy.rfeeds, roomy.timers, roomy.arrays⟩
    dsimp only
    generalize (s.evStart (.io w) 1).needAnfds (s.fd w + 1) = u at grown ⊢
    have listed : Roomy { u with
        anfds := Function.update u.anfds (s.fd w)
          { u.anfds (s.fd w) with head := w :: (u.anfds (s.fd w)).head } } :=
      ⟨grown.fdchanges, grown.pendings, grown.rfeeds, grown.timers, grown.arrays⟩
    have changed := listed.fdChange (s.fd w) ((u.events w &&& evIofdset).setWidth 8 ||| evAnfdReify)
    exact ⟨changed.fdchanges, changed.pendings, changed.rfeeds, changed.timers, changed.arrays⟩

theorem Roomy.io_stop (roomy : s.Roomy) (w : ι) : (s.evIoStop w).Roomy := by
  have cleared := roomy.clear (.io w)
  by_cases off : s.active (.io w) = 0
  · rw [evIoStop_rests off]
    exact cleared
  · rw [evIoStop_eq off]
    have delisted : ((s.clearPending (.io w)).delisted w).Roomy :=
      ⟨cleared.fdchanges, cleared.pendings, cleared.rfeeds, cleared.timers, cleared.arrays⟩
    exact delisted.fdChange _ _

theorem Roomy.fdEventNocheck (roomy : s.Roomy) (fd : Nat) (revents : Events) :
    (s.fdEventNocheck fd revents).Roomy := by
  refine roomy.foldl (fun s w roomy => ?_) _
  unfold feedIo
  dsimp only
  split
  · exact roomy.feed _ _
  · exact roomy

theorem Roomy.fdEvent (roomy : s.Roomy) (fd : Nat) (revents : Events) :
    (s.fdEvent fd revents).Roomy := by
  unfold EvLoop.fdEvent
  split
  · exact roomy.fdEventNocheck fd revents
  · exact roomy

theorem Roomy.fdKillLoop (roomy : s.Roomy) (fd fuel : Nat) :
    (EvLoop.fdKillLoop fd fuel s).Roomy := by
  induction fuel generalizing s with
  | zero => exact roomy
  | succ fuel ih =>
      unfold EvLoop.fdKillLoop
      split
      · exact roomy
      · exact ih ((roomy.io_stop _).feed _ _)

theorem Roomy.fdKill (roomy : s.Roomy) (fd : Nat) : (s.fdKill fd).Roomy := roomy.fdKillLoop fd _

theorem Roomy.fdRearmAll (roomy : s.Roomy) : s.fdRearmAll.Roomy := by
  refine roomy.foldl (fun s fd roomy => ?_) _
  dsimp only
  split
  · have forgotten : Roomy { s with
        anfds := Function.update s.anfds fd { s.anfds fd with events := 0, emask := 0 } } :=
      ⟨roomy.fdchanges, roomy.pendings, roomy.rfeeds, roomy.timers, roomy.arrays⟩
    exact forgotten.fdChange _ _
  · exact roomy

/-! ## Timers -/

theorem Roomy.timer_start (roomy : s.Roomy) (w : ι) : (s.evTimerStart w).Roomy := by
  by_cases off : s.active (.timer w) = 0
  · rw [evTimerStart_eq off]
    refine ⟨roomy.fdchanges, roomy.pendings, roomy.rfeeds, .inr ?_, roomy.arrays⟩
    have room := le_arrayNeedsize 16 s.timermax (s.timercnt + heap0 + 1) (by decide)
    dsimp only
    omega
  · rw [evTimerStart_active off]
    exact roomy

theorem Roomy.timer_stop (roomy : s.Roomy) (w : ι) : (s.evTimerStop w).Roomy := by
  have cleared := roomy.clear (.timer w)
  by_cases on : s.active (.timer w) ≠ 0
  · rw [evTimerStop_eq on]
    refine ⟨cleared.fdchanges, cleared.pendings, cleared.rfeeds, ?_, cleared.arrays⟩
    have timers := cleared.timers
    rw [(clearPending_same s (.timer w)).eq] at timers ⊢
    dsimp only at timers ⊢
    omega
  · rw [evTimerStop_rests (not_not.mp on)]
    exact cleared

theorem Roomy.timer_again (roomy : s.Roomy) (w : ι) : (s.evTimerAgain w).Roomy := by
  have cleared := roomy.clear (.timer w)
  unfold evTimerAgain
  generalize s.clearPending (.timer w) = c at cleared
  dsimp only
  split
  · split
    · exact ⟨cleared.fdchanges, cleared.pendings, cleared.rfeeds, cleared.timers, cleared.arrays⟩
    · exact cleared.timer_stop w
  · split
    · have set : Roomy { c with at_ := Function.update c.at_ (.timer w) (c.repeat_ w) } :=
        ⟨cleared.fdchanges, cleared.pendings, cleared.rfeeds, cleared.timers, cleared.arrays⟩
      exact set.timer_start w
    · exact cleared

theorem Roomy.expire (roomy : s.Roomy) (w : ι) : (s.expire w).Roomy := by
  unfold EvLoop.expire
  dsimp only
  refine Roomy.feedReverse ?_ _
  split
  · split <;> exact ⟨roomy.fdchanges, roomy.pendings, roomy.rfeeds, roomy.timers, roomy.arrays⟩
  · exact roomy.timer_stop w

theorem Roomy.timersReify (roomy : s.Roomy) : s.timersReify.Roomy := by
  have loop : ∀ fuel (s : EvLoop T ι β), s.Roomy → (expireLoop fuel s).Roomy := by
    intro fuel
    induction fuel with
    | zero => exact fun _ => id
    | succ fuel ih =>
        intro s roomy
        unfold expireLoop
        split
        · split
          · exact ih _ (roomy.expire _)
          · exact roomy
        · exact roomy
  unfold EvLoop.timersReify
  split
  · exact (loop _ s roomy).feedReverseDone evTimer
  · exact roomy

theorem Roomy.timersReschedule (roomy : s.Roomy) (adjust : T) :
    (s.timersReschedule adjust).Roomy := by
  refine roomy.foldl (fun s i roomy => ?_) _
  exact ⟨roomy.fdchanges, roomy.pendings, roomy.rfeeds, roomy.timers, roomy.arrays⟩

/-! ## Watchers in arrays -/

theorem Roomy.startIn (roomy : s.Roomy) (ws : Ws) (w : W ι) : (s.startIn ws w).Roomy where
  fdchanges := roomy.fdchanges
  pendings := roomy.pendings
  rfeeds := roomy.rfeeds
  timers := roomy.timers
  arrays := by
    refine room_of_update roomy.arrays ?_
    change (s.arrays ws ++ [w]).length ≤
      arrayNeedsize 8 (s.arraymax ws) (Function.update s.active w ((s.arrays ws).length + 1) w)
    rw [Function.update_self, List.length_append]
    exact le_arrayNeedsize 8 _ _ (by decide)

theorem Roomy.stopIn (roomy : s.Roomy) (ws : Ws) (w : W ι) : (s.stopIn ws w).Roomy := by
  have shorter : ∀ k, (Function.update s.arrays ws (swapOut (s.arrays ws) (s.active w)) k).length ≤
      s.arraymax k := by
    refine room_of_shorter roomy.arrays ?_
    rw [length_swapOut]
    exact Nat.sub_le ..
  unfold EvLoop.stopIn
  dsimp only
  split <;> exact ⟨roomy.fdchanges, roomy.pendings, roomy.rfeeds, roomy.timers, shorter⟩

theorem Roomy.array_start (roomy : s.Roomy) (ws : Ws) (w : W ι) :
    (if s.active w ≠ 0 then s else s.startIn ws w).Roomy := by
  split
  · exact roomy
  · exact roomy.startIn ws w

theorem Roomy.array_stop (roomy : s.Roomy) (ws : Ws) (w : W ι) :
    (if (s.clearPending w).active w = 0 then s.clearPending w
      else (s.clearPending w).stopIn ws w).Roomy := by
  split
  · exact roomy.clear w
  · exact (roomy.clear w).stopIn ws w

theorem Roomy.idle_start (roomy : s.Roomy) (w : ι) : (s.evIdleStart w).Roomy := by
  unfold evIdleStart
  split
  · exact roomy
  · refine Roomy.startIn ?_ _ _
    exact ⟨roomy.fdchanges, roomy.pendings, roomy.rfeeds, roomy.timers, roomy.arrays⟩

theorem Roomy.idle_stop (roomy : s.Roomy) (w : ι) : (s.evIdleStop w).Roomy := by
  have cleared := roomy.clear (.idle w)
  unfold evIdleStop
  dsimp only
  split
  · exact cleared
  · have stopped := cleared.stopIn (.idles ((s.clearPending (.idle w)).abspri (.idle w))) (.idle w)
    exact ⟨stopped.fdchanges, stopped.pendings, stopped.rfeeds, stopped.timers, stopped.arrays⟩

theorem Roomy.idleReify (roomy : s.Roomy) : s.idleReify.Roomy := by
  have loop : ∀ pri, (s.idleLoop pri).Roomy := by
    intro pri
    induction pri with
    | zero => exact roomy
    | succ pri ih =>
        unfold EvLoop.idleLoop
        split
        · exact roomy
        · split
          · exact roomy.queueEvents _ evIdle
          · exact ih
  unfold EvLoop.idleReify
  split
  · exact loop numpri
  · exact roomy

end EvLoop

end CLibs.Libev
