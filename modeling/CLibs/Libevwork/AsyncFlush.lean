import CLibs.Libevwork.AsyncWriter
import Mathlib.Tactic

/-!
# What the asynchronous writer delivers

Which packets reach `CWriter::send`, and when the event loop is woken for them.
-/

set_option autoImplicit false
set_option linter.style.nameCheck false

namespace CLibs.Libevwork

open General

/-- A thread that ends has no writer to delete. -/
def WriterAct.Lossless (s : CAsyncWriter) : WriterAct → Prop
  | .exit thread => (s.threads thread).writer = none
  | _ => True

namespace CAsyncWriter

variable {s next : CAsyncWriter}

@[simp] theorem setThread_same (s : CAsyncWriter) (thread : Nat) (state : SenderThread) :
    (s.setThread thread state).threads thread = state :=
  Function.update_self ..

theorem setThread_other {s : CAsyncWriter} {thread other : Nat} (state : SenderThread)
    (different : other ≠ thread) :
    (s.setThread thread state).threads other = s.threads other :=
  Function.update_of_ne different ..

/-- What a step of the system can do. -/
inductive Stepped (s : CAsyncWriter) : WriterAct → CAsyncWriter → Prop where
  | makeWriter (thread : Nat) (packet : SPacket) : (s.threads thread).phase = .idle →
      (s.threads thread).writer = none → (∀ iter, s.loop ≠ .flushing iter) →
      Stepped s (.send thread packet.strIp packet.uPort packet.strPacket)
        { s.setThread thread { s.threads thread with
            phase := .sending packet, writer := some [] } with
          vecpThreadWriter := s.vecpThreadWriter ++ [thread] }
  | useWriter (thread : Nat) (packet : SPacket) (vecPacket : List SPacket) :
      (s.threads thread).phase = .idle → (s.threads thread).writer = some vecPacket →
      Stepped s (.send thread packet.strIp packet.uPort packet.strPacket)
        (s.setThread thread { s.threads thread with phase := .sending packet })
  | enqueue (thread : Nat) (packet : SPacket) (vecPacket : List SPacket) :
      (s.threads thread).phase = .sending packet →
      (s.threads thread).writer = some vecPacket →
      Stepped s (.enqueue thread) (s.setThread thread { s.threads thread with
        phase := .idle
        writer := some (vecPacket ++ [packet])
        sent := (s.threads thread).sent ++ [packet] })
  | skip (thread : Nat) : (s.threads thread).phase = .idle → s.bFlushing = true →
      Stepped s (.flush thread) (s.setThread thread { s.threads thread with
        flushed := (s.threads thread).sent.length })
  | test (thread : Nat) : (s.threads thread).phase = .idle → s.bFlushing = false →
      Stepped s (.flush thread) (s.setThread thread { s.threads thread with phase := .writing })
  | write (thread : Nat) : (s.threads thread).phase = .writing →
      Stepped s (.write thread)
        { s.setThread thread { s.threads thread with phase := .setting } with
          fdFlush := eventfdWrite s.fdFlush 0x11111111 }
  | set (thread : Nat) : (s.threads thread).phase = .setting →
      Stepped s (.set thread)
        { s.setThread thread { s.threads thread with
            phase := .idle, flushed := (s.threads thread).sent.length } with
          bFlushing := true }
  | exit (thread : Nat) : (s.threads thread).phase = .idle →
      Stepped s (.exit thread)
        (s.setThread thread { s.threads thread with phase := .exited, writer := none })
  | onReadNothing : s.loop = .idle → s.fdFlush = 0 → Stepped s .onRead s
  | onRead : s.loop = .idle → s.fdFlush ≠ 0 →
      Stepped s .onRead { s with fdFlush := 0, loop := .locking }
  | onHandlerFlush : s.loop = .idle → Stepped s .onHandlerFlush { s with loop := .locking }
  | lock : s.loop = .locking → Stepped s .flushReal { s with loop := .flushing 0 }
  | flushWriter (iter thread : Nat) (vecPacket : List SPacket) : s.loop = .flushing iter →
      s.vecpThreadWriter[iter]? = some thread → (s.threads thread).writer = some vecPacket →
      Stepped s .flushReal
        { s.setThread thread { s.threads thread with writer := some [] } with
          loop := .flushing (iter + 1)
          delivered := s.delivered ++ vecPacket.map fun packet => (thread, packet) }
  | clear (iter : Nat) : s.loop = .flushing iter → s.vecpThreadWriter.length ≤ iter →
      Stepped s .flushReal { s with bFlushing := false, loop := .idle }
  | crash (iter thread : Nat) : s.loop = .flushing iter →
      s.vecpThreadWriter[iter]? = some thread → (s.threads thread).writer = none →
      Stepped s .flushReal { s with loop := .crashed }

theorem getThreadWriter_stepped {thread : Nat} {packet : SPacket}
    (idle : (s.threads thread).phase = .idle)
    (got : s.__getThreadWriter thread packet = some next) :
    Stepped s (.send thread packet.strIp packet.uPort packet.strPacket) next := by
  unfold __getThreadWriter at got
  cases owned : (s.threads thread).writer with
  | some vecPacket =>
      simp only [owned, Option.some.injEq] at got
      subst got
      rw [← owned]
      exact .useWriter thread packet vecPacket idle owned
  | none =>
      cases phase : s.loop with
      | flushing iter => simp [owned, phase] at got
      | crashed => simp [owned, phase] at got
      | idle =>
          simp only [owned, phase, Option.some.injEq] at got
          subst got
          exact .makeWriter thread packet idle owned (by simp [phase])
      | locking =>
          simp only [owned, phase, Option.some.injEq] at got
          subst got
          exact .makeWriter thread packet idle owned (by simp [phase])

theorem flushReal_stepped (flushed : s.__flushReal = some next) :
    Stepped s .flushReal next := by
  unfold __flushReal at flushed
  cases phase : s.loop with
  | idle => simp [phase] at flushed
  | crashed => simp [phase] at flushed
  | locking =>
      simp only [phase, Option.some.injEq] at flushed
      subst flushed
      exact .lock phase
  | flushing iter =>
      cases listed : s.vecpThreadWriter[iter]? with
      | none =>
          simp only [phase, listed, Option.some.injEq] at flushed
          subst flushed
          exact .clear iter phase (List.getElem?_eq_none_iff.mp listed)
      | some thread =>
          cases owned : (s.threads thread).writer with
          | none =>
              simp only [phase, listed, owned, Option.some.injEq] at flushed
              subst flushed
              exact .crash iter thread phase listed owned
          | some vecPacket =>
              simp only [phase, listed, owned, Option.some.injEq] at flushed
              subst flushed
              exact .flushWriter iter thread vecPacket phase listed owned

theorem apply_stepped {act : WriterAct} (applied : act.apply s = some next) :
    Stepped s act next := by
  cases act with
  | send thread strIp uPort pData =>
      simp only [WriterAct.apply, Option.ite_none_right_eq_some] at applied
      exact getThreadWriter_stepped applied.1 applied.2
  | enqueue thread =>
      simp only [WriterAct.apply] at applied
      split at applied
      · rename_i packet vecPacket phase owned
        cases applied
        exact .enqueue thread packet vecPacket phase owned
      · cases applied
  | flush thread =>
      simp only [WriterAct.apply, Option.ite_none_right_eq_some, Option.some.injEq] at applied
      obtain ⟨idle, rfl⟩ := applied
      unfold flush
      split
      · exact .skip thread idle ‹_›
      · exact .test thread idle (by simpa using ‹¬ s.bFlushing = true›)
  | write thread =>
      simp only [WriterAct.apply, Option.ite_none_right_eq_some, Option.some.injEq] at applied
      obtain ⟨writing, rfl⟩ := applied
      exact .write thread writing
  | set thread =>
      simp only [WriterAct.apply, Option.ite_none_right_eq_some, Option.some.injEq] at applied
      obtain ⟨setting, rfl⟩ := applied
      exact .set thread setting
  | exit thread =>
      simp only [WriterAct.apply, Option.ite_none_right_eq_some, Option.some.injEq] at applied
      obtain ⟨idle, rfl⟩ := applied
      exact .exit thread idle
  | onRead =>
      simp only [WriterAct.apply, Option.ite_none_right_eq_some, Option.some.injEq] at applied
      obtain ⟨idle, rfl⟩ := applied
      unfold __onRead
      split
      · exact .onReadNothing idle ‹_›
      · exact .onRead idle ‹_›
  | onHandlerFlush =>
      simp only [WriterAct.apply, Option.ite_none_right_eq_some, Option.some.injEq] at applied
      obtain ⟨idle, rfl⟩ := applied
      exact .onHandlerFlush idle
  | flushReal => exact flushReal_stepped applied

/-! ## No packet is lost -/

/-- What was passed to `CWriter::send` for a thread. -/
def deliveredBy (s : CAsyncWriter) (thread : Nat) : List SPacket :=
  s.delivered.filterMap fun call => if call.1 = thread then some call.2 else none

def queued (s : CAsyncWriter) (thread : Nat) : List SPacket :=
  if thread ∈ s.vecpThreadWriter then (s.threads thread).writer.getD [] else []

/-- What a thread has sent is delivered or queued, in the order of sending, and the
writers that `__flushReal` goes through exist. -/
structure Kept (s : CAsyncWriter) : Prop where
  whole : ∀ thread, (s.threads thread).sent = s.deliveredBy thread ++ s.queued thread
  exist : s.loop ≠ .idle → ∀ thread ∈ s.vecpThreadWriter, (s.threads thread).writer ≠ none

/-- `Kept`, with the vector the exact list of the writers there are. -/
structure Listed (s : CAsyncWriter) : Prop where
  listed : ∀ thread, thread ∈ s.vecpThreadWriter ↔ (s.threads thread).writer ≠ none
  whole : ∀ thread, (s.threads thread).sent =
    s.deliveredBy thread ++ (s.threads thread).writer.getD []

theorem Listed.kept (listed : s.Listed) : s.Kept where
  whole thread := by
    rw [queued, listed.whole thread]
    split
    · rfl
    · rename_i absent
      rw [listed.listed thread, not_not] at absent
      rw [absent]
      rfl
  exist _ thread := (listed.listed thread).mp

theorem Listed.of_thread (listed : s.Listed) (thread : Nat)
    (others : ∀ other, other ≠ thread → next.threads other = s.threads other ∧
      (other ∈ next.vecpThreadWriter ↔ other ∈ s.vecpThreadWriter) ∧
      next.deliveredBy other = s.deliveredBy other)
    (member : thread ∈ next.vecpThreadWriter ↔ (next.threads thread).writer ≠ none)
    (whole : (next.threads thread).sent =
      next.deliveredBy thread ++ (next.threads thread).writer.getD []) : next.Listed where
  listed other := by
    by_cases same : other = thread
    · rw [same]
      exact member
    · obtain ⟨threads, vec, -⟩ := others other same
      rw [threads, vec]
      exact listed.listed other
  whole other := by
    by_cases same : other = thread
    · rw [same]
      exact whole
    · obtain ⟨threads, -, delivered⟩ := others other same
      rw [threads, delivered]
      exact listed.whole other

theorem Listed.withThread (listed : s.Listed) (thread : Nat) {state : SenderThread}
    (threads : next.threads = (s.setThread thread state).threads)
    (vec : next.vecpThreadWriter = s.vecpThreadWriter) (delivered : next.delivered = s.delivered)
    (writer : state.writer = (s.threads thread).writer)
    (sent : state.sent = (s.threads thread).sent) : next.Listed := by
  have calls : ∀ other, next.deliveredBy other = s.deliveredBy other := by
    intro other
    rw [deliveredBy, delivered, deliveredBy]
  refine listed.of_thread thread ?_ ?_ ?_
  · intro other different
    rw [threads, vec]
    exact ⟨setThread_other state different, Iff.rfl, calls other⟩
  · rw [threads, vec, setThread_same, writer]
    exact listed.listed thread
  · rw [threads, setThread_same, writer, sent, calls]
    exact listed.whole thread

theorem deliveredBy_flush (s : CAsyncWriter) (thread other : Nat) (vecPacket : List SPacket) :
    (s.delivered ++ vecPacket.map fun packet => (thread, packet)).filterMap
        (fun call => if call.1 = other then some call.2 else none) =
      s.deliveredBy other ++ if other = thread then vecPacket else [] := by
  rw [List.filterMap_append, List.filterMap_map, deliveredBy]
  congr 1
  split
  · rename_i same
    subst same
    simp
  · rename_i different
    simp [Ne.symm different]

theorem Listed.step (listed : s.Listed) {act : WriterAct} (lossless : act.Lossless s)
    (stepped : Stepped s act next) : next.Listed := by
  cases stepped with
  | makeWriter thread packet idle owned free =>
      have whole := listed.whole thread
      rw [owned] at whole
      refine listed.of_thread thread ?_ ?_ ?_
      · intro other different
        refine ⟨setThread_other _ different, ?_, rfl⟩
        rw [List.mem_append, List.mem_singleton]
        exact or_iff_left different
      · simp
      · rw [setThread_same]
        exact whole
  | useWriter thread packet vecPacket idle owned => exact listed.withThread thread rfl rfl rfl rfl rfl
  | enqueue thread packet vecPacket phase owned =>
      have whole := listed.whole thread
      have member := listed.listed thread
      rw [owned] at whole member
      refine listed.of_thread thread ?_ ?_ ?_
      · exact fun other different => ⟨setThread_other _ different, Iff.rfl, rfl⟩
      · rw [setThread_same]
        exact member.trans (by simp)
      · rw [setThread_same, whole]
        exact List.append_assoc ..
  | skip thread idle flushing => exact listed.withThread thread rfl rfl rfl rfl rfl
  | test thread idle flushing => exact listed.withThread thread rfl rfl rfl rfl rfl
  | write thread writing =>
      generalize eventfdWrite s.fdFlush 0x11111111 = counter
      exact listed.withThread thread rfl rfl rfl rfl rfl
  | set thread setting =>
      exact listed.withThread thread rfl rfl rfl rfl rfl
  | exit thread idle => exact listed.withThread thread rfl rfl rfl (Eq.symm lossless) rfl
  | onReadNothing idle nothing => exact listed
  | onRead idle some => exact ⟨listed.listed, listed.whole⟩
  | onHandlerFlush idle => exact ⟨listed.listed, listed.whole⟩
  | lock locking => exact ⟨listed.listed, listed.whole⟩
  | flushWriter iter thread vecPacket flushing member owned =>
      have whole := listed.whole thread
      rw [owned] at whole
      have delivered := deliveredBy_flush s thread
      refine listed.of_thread thread ?_ ?_ ?_
      · intro other different
        refine ⟨setThread_other _ different, Iff.rfl, ?_⟩
        rw [deliveredBy, delivered other vecPacket, if_neg different, List.append_nil]
      · rw [setThread_same]
        exact iff_of_true (List.mem_of_getElem? member) (by simp)
      · rw [setThread_same, deliveredBy, delivered thread vecPacket, if_pos rfl]
        exact whole.trans (List.append_nil _).symm
  | clear iter flushing all => exact ⟨listed.listed, listed.whole⟩
  | crash iter thread flushing member owned =>
      exact absurd owned ((listed.listed thread).mp (List.mem_of_getElem? member))

/-! ## Wake-ups -/

/-- The event loop is going to flush the thread's writer: a wake-up is pending, or
its pass has not come to that writer. -/
def Coming (s : CAsyncWriter) (thread : Nat) : Prop :=
  0 < s.fdFlush ∨ s.loop = .locking ∨
    ∃ iter, s.loop = .flushing iter ∧ thread ∈ s.vecpThreadWriter.drop iter

end CAsyncWriter

/-- A `flush` that the flag lets return at once has nothing queued, or the event loop
is going to flush it. -/
def WriterAct.Timely (s : CAsyncWriter) : WriterAct → Prop
  | .flush thread => s.bFlushing = true → (s.threads thread).writer.getD [] ≠ [] →
      s.Coming thread
  | _ => True

namespace CAsyncWriter

variable {s next : CAsyncWriter}

/-- The thread's queue holds a packet that was sent before its last `flush` returned:
the queue is the last part of what the thread has sent. -/
def HoldsFlushed (s : CAsyncWriter) (thread : Nat) : Prop :=
  ∃ vecPacket, (s.threads thread).writer = some vecPacket ∧
    (s.threads thread).sent.length - vecPacket.length < (s.threads thread).flushed

/-- `HoldsFlushed`, or the thread is about to set the flag and return from a `flush`
that covers something. -/
def Due (state : SenderThread) : Prop :=
  ∃ vecPacket, state.writer = some vecPacket ∧
    (state.sent.length - vecPacket.length < state.flushed ∨
      state.phase = .setting ∧ vecPacket ≠ [])

/-- What every step keeps, whatever the flag says. -/
structure Woken (s : CAsyncWriter) : Prop where
  listed : ∀ thread, (s.threads thread).writer ≠ none → thread ∈ s.vecpThreadWriter
  bounded : ∀ thread, (s.threads thread).flushed ≤ (s.threads thread).sent.length
  due : s.loop ≠ .crashed → ∀ thread, Due (s.threads thread) → s.Coming thread

/-- A step of a thread, in which the event loop takes no part. -/
theorem Woken.withThread (woken : s.Woken) (thread : Nat) {state : SenderThread}
    (threads : next.threads = (s.setThread thread state).threads)
    (loop : next.loop = s.loop)
    (vec : ∃ added, next.vecpThreadWriter = s.vecpThreadWriter ++ added)
    (coming : 0 < s.fdFlush → 0 < next.fdFlush)
    (listed : state.writer ≠ none → thread ∈ next.vecpThreadWriter)
    (bounded : state.flushed ≤ state.sent.length)
    (due : s.loop ≠ .crashed → Due state → next.Coming thread) : next.Woken := by
  obtain ⟨added, vec⟩ := vec
  refine ⟨?_, ?_, ?_⟩
  · intro other
    by_cases same : other = thread
    · rw [same, threads, setThread_same]
      exact listed
    · rw [threads, setThread_other state same, vec]
      exact fun owned => List.mem_append_left _ (woken.listed other owned)
  · intro other
    by_cases same : other = thread
    · rw [same, threads, setThread_same]
      exact bounded
    · rw [threads, setThread_other state same]
      exact woken.bounded other
  · intro alive other
    rw [loop] at alive
    by_cases same : other = thread
    · rw [same, threads, setThread_same]
      exact due alive
    · rw [threads, setThread_other state same]
      intro isDue
      rcases woken.due alive other isDue with pending | locking | ⟨iter, flushing, member⟩
      · exact .inl (coming pending)
      · exact .inr (.inl (loop.trans locking))
      · refine .inr (.inr ⟨iter, loop.trans flushing, ?_⟩)
        rw [vec, List.drop_append]
        exact List.mem_append_left _ member

theorem eventfdWrite_pos (counter : Nat) : 0 < eventfdWrite counter 0x11111111 := by
  unfold eventfdWrite
  split
  · omega
  · omega

/-- The pass flushes a writer and goes on to the next one. -/
theorem Woken.flushWriter (woken : s.Woken) {iter thread : Nat} {vecPacket : List SPacket}
    (flushing : s.loop = .flushing iter) (member : s.vecpThreadWriter[iter]? = some thread) :
    Woken { s.setThread thread { s.threads thread with writer := some [] } with
      loop := .flushing (iter + 1)
      delivered := s.delivered ++ vecPacket.map fun packet => (thread, packet) } := by
  have bounded := woken.bounded thread
  refine ⟨?_, ?_, ?_⟩
  · intro other
    by_cases same : other = thread
    · intro _
      rw [same]
      exact List.mem_of_getElem? member
    · simp only [setThread_other _ same]
      exact woken.listed other
  · intro other
    by_cases same : other = thread
    · simp only [same, setThread_same]
      exact bounded
    · simp only [setThread_other _ same]
      exact woken.bounded other
  · intro _ other
    by_cases same : other = thread
    · simp only [same, setThread_same]
      rintro ⟨queue, empty, covered | ⟨-, nonempty⟩⟩
      · cases empty
        simp only [List.length_nil] at covered
        omega
      · cases empty
        exact absurd rfl nonempty
    · simp only [setThread_other _ same]
      intro isDue
      rcases woken.due (by simp [flushing]) other isDue with
        pending | locking | ⟨here, known, later⟩
      · exact .inl pending
      · rw [flushing] at locking
        cases locking
      · rw [flushing] at known
        cases known
        refine .inr (.inr ⟨iter + 1, rfl, ?_⟩)
        rw [List.getElem?_eq_some_iff] at member
        obtain ⟨inside, found⟩ := member
        rw [List.drop_eq_getElem_cons inside, found, List.mem_cons] at later
        exact later.resolve_left same

theorem Woken.step (woken : s.Woken) {act : WriterAct} (timely : act.Timely s)
    (stepped : Stepped s act next) : next.Woken := by
  cases stepped with
  | makeWriter thread packet idle owned free =>
      refine woken.withThread thread rfl rfl ⟨[thread], rfl⟩ id ?_ (woken.bounded thread) ?_
      · intro _
        exact List.mem_append_right _ (List.mem_singleton_self thread)
      · rintro _ ⟨vecPacket, same, covered | ⟨setting, -⟩⟩
        · cases same
          have bounded := woken.bounded thread
          simp only [List.length_nil] at covered
          omega
        · cases setting
  | useWriter thread packet vecPacket idle owned =>
      refine woken.withThread thread rfl rfl ⟨[], (List.append_nil _).symm⟩ id
        (woken.listed thread) (woken.bounded thread) ?_
      rintro alive ⟨queue, same, covered | ⟨setting, -⟩⟩
      · exact woken.due alive thread ⟨queue, same, .inl covered⟩
      · cases setting
  | enqueue thread packet vecPacket phase owned =>
      have bounded := woken.bounded thread
      refine woken.withThread thread rfl rfl ⟨[], (List.append_nil _).symm⟩ id ?_ ?_ ?_
      · intro _
        exact woken.listed thread (by simp [owned])
      · rw [List.length_append]
        exact Nat.le_trans bounded (Nat.le_add_right _ _)
      · rintro alive ⟨queue, same, covered | ⟨setting, -⟩⟩
        · cases same
          rw [List.length_append, List.length_append, Nat.add_sub_add_right] at covered
          exact woken.due alive thread ⟨vecPacket, owned, .inl covered⟩
        · cases setting
  | skip thread idle flushing =>
      refine woken.withThread thread rfl rfl ⟨[], (List.append_nil _).symm⟩ id
        (woken.listed thread) (Nat.le_refl _) ?_
      rintro alive ⟨queue, same, covered | ⟨setting, -⟩⟩
      · refine timely flushing ?_
        rw [show (s.threads thread).writer = some queue from same]
        rintro rfl
        simp at covered
      · rw [show (s.threads thread).phase = .setting from setting] at idle
        cases idle
  | test thread idle flushing =>
      refine woken.withThread thread rfl rfl ⟨[], (List.append_nil _).symm⟩ id
        (woken.listed thread) (woken.bounded thread) ?_
      rintro alive ⟨queue, same, covered | ⟨setting, -⟩⟩
      · exact woken.due alive thread ⟨queue, same, .inl covered⟩
      · cases setting
  | write thread writing =>
      have positive := eventfdWrite_pos s.fdFlush
      generalize eventfdWrite s.fdFlush 0x11111111 = counter at positive
      exact woken.withThread thread rfl rfl ⟨[], (List.append_nil _).symm⟩ (fun _ => positive)
        (woken.listed thread) (woken.bounded thread) (fun _ _ => .inl positive)
  | set thread setting =>
      refine woken.withThread thread rfl rfl ⟨[], (List.append_nil _).symm⟩ id
        (woken.listed thread) (Nat.le_refl _) ?_
      rintro alive ⟨queue, same, covered | ⟨wrong, -⟩⟩
      · refine woken.due alive thread ⟨queue, same, .inr ⟨setting, ?_⟩⟩
        rintro rfl
        simp at covered
      · cases wrong
  | exit thread idle =>
      refine woken.withThread thread rfl rfl ⟨[], (List.append_nil _).symm⟩ id
        (fun gone => absurd rfl gone) (woken.bounded thread) ?_
      rintro alive ⟨queue, same, -⟩
      cases same
  | onReadNothing idle nothing => exact woken
  | onRead idle some => exact ⟨woken.listed, woken.bounded, fun _ _ _ => .inr (.inl rfl)⟩
  | onHandlerFlush idle => exact ⟨woken.listed, woken.bounded, fun _ _ _ => .inr (.inl rfl)⟩
  | lock locking =>
      refine ⟨woken.listed, woken.bounded, ?_⟩
      rintro - thread ⟨queue, owned, -⟩
      have owned : (s.threads thread).writer = some queue := owned
      exact .inr (.inr ⟨0, rfl, woken.listed thread (by simp [owned])⟩)
  | flushWriter iter thread vecPacket flushing member owned => exact woken.flushWriter flushing member
  | clear iter flushing all =>
      refine ⟨woken.listed, woken.bounded, ?_⟩
      intro _ thread isDue
      rcases woken.due (by simp [flushing]) thread isDue with
        pending | locking | ⟨other, same, member⟩
      · exact .inl pending
      · rw [flushing] at locking
        cases locking
      · rw [flushing] at same
        cases same
        rw [List.drop_eq_nil_of_le all] at member
        cases member
  | crash iter thread flushing member owned =>
      exact ⟨woken.listed, woken.bounded, fun alive => absurd rfl alive⟩

end CAsyncWriter

/-- In every run in which no thread that has a writer ends, all that was sent is
delivered or queued, once and in order, and `__flushReal` finds every writer. -/
theorem packets_kept {acts : List WriterAct} {s : CAsyncWriter}
    (run : (writerSystem.restrict fun s act => act.Lossless s).Run acts s) : s.Kept := by
  refine CAsyncWriter.Listed.kept (run.invariant CAsyncWriter.Listed ?_ ?_)
  · rintro first rfl
    exact ⟨fun thread => by simp, fun thread => rfl⟩
  · rintro before act after listed ⟨lossless, applied⟩
    exact listed.step lossless (CAsyncWriter.apply_stepped applied)

/-- A packet of one thread is flushed, while a thread without a writer ends. -/
theorem packets_kept_onePacket :
    ∃ s : CAsyncWriter, s.Kept ∧ s.delivered = [(0, ⟨"10.0.0.1", 8000, [1]⟩)] := by
  have start : (writerSystem.restrict fun s act => act.Lossless s).Run [] {} := .start rfl
  have sending := start.restricted (.send 0 "10.0.0.1" 8000 [1]) trivial rfl
  have sent := sending.restricted (.enqueue 0) trivial rfl
  have exited := sent.restricted (.exit 1) rfl rfl
  have awake := exited.restricted .onHandlerFlush trivial rfl
  have locked := awake.restricted .flushReal trivial rfl
  exact ⟨_, packets_kept (locked.restricted .flushReal trivial rfl), rfl⟩

/-- A thread sends and ends before the event loop comes: its packet is gone. -/
theorem packets_lost :
    ¬ ∀ (acts : List WriterAct) (s : CAsyncWriter), writerSystem.Run acts s → s.Kept := by
  intro always
  have lost : ∃ s, writerSystem.Run ([] ++ [.send 0 "10.0.0.1" 8000 [1], .enqueue 0, .exit 0]) s ∧
      (s.threads 0).sent ≠ s.deliveredBy 0 ++ s.queued 0 := by
    refine ⟨_, System.Run.replay (fun _ _ _ applied => applied) (.start rfl) rfl, ?_⟩
    decide
  obtain ⟨s, run, differs⟩ := lost
  exact differs ((always _ s run).whole 0)

/-- In every run in which no `flush` is skipped while its thread has something queued
that the event loop is not going to flush: whenever the event loop is idle, packets
that were sent before a `flush` are delivered, or a wake-up is pending. -/
theorem wakeup_pending {acts : List WriterAct} {s : CAsyncWriter}
    (run : (writerSystem.restrict fun s act => act.Timely s).Run acts s)
    (loop : s.loop = .idle) (thread : Nat) (holds : s.HoldsFlushed thread) : 0 < s.fdFlush := by
  have woken : s.Woken := by
    refine run.invariant CAsyncWriter.Woken ?_ ?_
    · rintro first rfl
      refine ⟨fun thread owned => absurd rfl owned, fun thread => Nat.le_refl _, ?_⟩
      rintro - thread ⟨queue, owned, -⟩
      cases owned
    · rintro before act after woken ⟨timely, applied⟩
      exact woken.step timely (CAsyncWriter.apply_stepped applied)
  obtain ⟨queue, owned, covered⟩ := holds
  rcases woken.due (by simp [loop]) thread ⟨queue, owned, .inl covered⟩ with
    pending | locking | ⟨iter, flushing, -⟩
  · exact pending
  · rw [loop] at locking
    cases locking
  · rw [loop] at flushing
    cases flushing

/-- A packet is sent and flushed before the event loop comes. -/
theorem wakeup_pending_onePacket :
    ∃ s : CAsyncWriter, s.HoldsFlushed 0 ∧ 0 < s.fdFlush := by
  have start : (writerSystem.restrict fun s act => act.Timely s).Run [] {} := .start rfl
  have sending := start.restricted (.send 0 "10.0.0.1" 8000 [1]) trivial rfl
  have sent := sending.restricted (.enqueue 0) trivial rfl
  have tested := sent.restricted (.flush 0) (fun flushing => absurd flushing (by decide)) rfl
  have written := tested.restricted (.write 0) trivial rfl
  have run := written.restricted (.set 0) trivial rfl
  refine ⟨_, ?holds, wakeup_pending run rfl 0 ?holds⟩
  exact ⟨[⟨"10.0.0.1", 8000, [1]⟩], rfl, by decide⟩

/-- The event loop flushes and clears the flag between a thread's write to the event
descriptor and its setting of the flag. The thread's next `flush` is skipped, with no
call under way after it and no wake-up for the packet. -/
theorem wakeup_lost :
    ¬ ∀ (acts : List WriterAct) (s : CAsyncWriter), writerSystem.Run acts s →
      (∀ thread, (s.threads thread).phase = .idle ∨ (s.threads thread).phase = .exited) →
      s.loop = .idle → ∀ thread, s.HoldsFlushed thread → 0 < s.fdFlush := by
  intro always
  let acts : List WriterAct := [.send 0 "10.0.0.1" 8000 [1], .enqueue 0, .flush 0, .write 0,
    .onRead, .flushReal, .flushReal, .flushReal, .set 0,
    .send 0 "10.0.0.1" 8000 [2], .enqueue 0, .flush 0]
  have lost : ∃ s, acts.foldlM WriterAct.apply {} = some s ∧
      (∀ thread, (s.threads thread).phase = .idle) ∧ s.loop = .idle ∧
      s.HoldsFlushed 0 ∧ s.fdFlush = 0 := by
    refine ⟨_, rfl, ?_, rfl, ⟨[⟨"10.0.0.1", 8000, [2]⟩], rfl, by decide⟩, rfl⟩
    intro thread
    cases thread with
    | zero => rfl
    | succ other => rfl
  obtain ⟨s, replayed, threads, loop, holds, nothing⟩ := lost
  have run : writerSystem.Run ([] ++ acts) s :=
    System.Run.replay (fun _ _ _ applied => applied) (.start rfl) replayed
  have pending := always _ s run (fun thread => .inl (threads thread)) loop 0 holds
  omega

end CLibs.Libevwork
