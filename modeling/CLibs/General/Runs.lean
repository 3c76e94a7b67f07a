import Mathlib.Data.List.Basic

/-!
# Runs of a transition system

Labelled transition systems, their finite runs, and the rules that lift a fact
about one step to every state a run can reach.
-/

set_option autoImplicit false

namespace CLibs.General

universe u v

structure System (State : Type u) (Act : Type v) where
  start : State → Prop
  step : State → Act → State → Prop

namespace System

variable {State : Type u} {Act : Type v}

/-- `sys.Run acts state`: some run with the labels `acts` ends in `state`. -/
inductive Run (sys : System State Act) : List Act → State → Prop where
  | start {state : State} : sys.start state → Run sys [] state
  | step {acts : List Act} {act : Act} {state next : State} :
      Run sys acts state → sys.step state act next → Run sys (acts ++ [act]) next

/-- The system that only takes the steps that `allowed` admits. -/
def restrict (sys : System State Act) (allowed : State → Act → Prop) : System State Act where
  start := sys.start
  step state act next := allowed state act ∧ sys.step state act next

/-- The system that only takes the steps that turn out `good`. -/
def filter (sys : System State Act) (good : State → Act → State → Prop) : System State Act where
  start := sys.start
  step state act next := good state act next ∧ sys.step state act next

theorem Run.restricted {sys : System State Act} {allowed : State → Act → Prop} {acts : List Act}
    {state next : State} (run : (sys.restrict allowed).Run acts state) (act : Act)
    (admitted : allowed state act) (taken : sys.step state act next) :
    (sys.restrict allowed).Run (acts ++ [act]) next :=
  .step run ⟨admitted, taken⟩

/-- A run goes on with the steps that a step function computes. -/
theorem Run.replay {sys : System State Act} {next : State → Act → Option State}
    (computed : ∀ state act after, next state act = some after → sys.step state act after)
    {acts more : List Act} {state last : State} (run : sys.Run acts state)
    (replayed : more.foldlM next state = some last) : sys.Run (acts ++ more) last := by
  induction more generalizing acts state with
  | nil =>
      simp only [List.foldlM_nil, pure, Option.some.injEq] at replayed
      rw [List.append_nil, ← replayed]
      exact run
  | cons act rest ih =>
      rw [List.foldlM_cons, Option.bind_eq_bind, Option.bind_eq_some_iff] at replayed
      obtain ⟨after, taken, remaining⟩ := replayed
      have continued := ih (.step run (computed _ _ _ taken)) remaining
      rwa [List.append_assoc] at continued

theorem Run.invariant {sys : System State Act} (inv : State → Prop)
    (start : ∀ state, sys.start state → inv state)
    (step : ∀ state act next, inv state → sys.step state act next → inv next)
    {acts : List Act} {state : State} (run : sys.Run acts state) : inv state := by
  induction run with
  | start initial => exact start _ initial
  | step _ taken ih => exact step _ _ _ ih taken

/-- If an invariant makes `allowed` the exact condition for a step to be good, then the
runs of good steps are the runs of allowed steps. -/
theorem Run.filter_iff_restrict {sys : System State Act} (inv : State → Prop)
    {good : State → Act → State → Prop} {allowed : State → Act → Prop}
    (start : ∀ state, sys.start state → inv state)
    (keeps : ∀ state act next, inv state → allowed state act → sys.step state act next →
      inv next ∧ good state act next)
    (needs : ∀ state act next, inv state → good state act next → sys.step state act next →
      allowed state act)
    {acts : List Act} {state : State} :
    (sys.filter good).Run acts state ↔ (sys.restrict allowed).Run acts state := by
  have holds : ∀ {acts state}, (sys.restrict allowed).Run acts state → inv state := by
    intro acts state run
    induction run with
    | start first => exact start _ first
    | step _ taken ih => exact (keeps _ _ _ ih taken.1 taken.2).1
  constructor
  · intro run
    induction run with
    | start first => exact .start first
    | step run taken ih => exact .step ih ⟨needs _ _ _ (holds ih) taken.1 taken.2, taken.2⟩
  · intro run
    induction run with
    | start first => exact .start first
    | step run taken ih =>
        exact .step ih ⟨(keeps _ _ _ (holds run) taken.1 taken.2).2, taken.2⟩

/-- If the steps that count are good as long as there are few of them, and the one too many
is not, then the runs of good steps are the runs with few steps that count. -/
theorem Run.filter_iff_count {sys : System State Act} (inv : State → Nat → Prop)
    (counts : Act → Bool) {bound : Nat} (some : 0 < bound)
    {good : State → Act → State → Prop} (start : ∀ state, sys.start state → inv state 0)
    (keeps : ∀ state act next count, inv state count → count + (counts act).toNat < bound →
      sys.step state act next → inv next (count + (counts act).toNat) ∧ good state act next)
    (needs : ∀ state act next count, inv state count → count < bound → good state act next →
      sys.step state act next → count + (counts act).toNat < bound)
    {acts : List Act} {state : State} :
    (sys.filter good).Run acts state ↔ sys.Run acts state ∧ acts.countP counts < bound := by
  have snoc : ∀ (acts : List Act) (act : Act),
      (acts ++ [act]).countP counts = acts.countP counts + (counts act).toNat := by
    intro acts act
    rw [List.countP_append, List.countP_singleton]
    cases counts act <;> rfl
  constructor
  · intro run
    suffices counted : sys.Run acts state ∧ acts.countP counts < bound ∧
        inv state (acts.countP counts) from ⟨counted.1, counted.2.1⟩
    induction run with
    | start first => exact ⟨.start first, some, start _ first⟩
    | step _ taken ih =>
        obtain ⟨run, few, holds⟩ := ih
        have still := needs _ _ _ _ holds few taken.1 taken.2
        rw [snoc]
        exact ⟨.step run taken.2, still, (keeps _ _ _ _ holds still taken.2).1⟩
  · rintro ⟨run, few⟩
    suffices counted : (sys.filter good).Run acts state ∧ inv state (acts.countP counts) from
      counted.1
    induction run with
    | start first => exact ⟨.start first, start _ first⟩
    | step run taken ih =>
        rw [snoc] at few ⊢
        obtain ⟨filtered, holds⟩ := ih (by omega)
        obtain ⟨after, wasGood⟩ := keeps _ _ _ _ holds few taken
        exact ⟨.step filtered ⟨wasGood, taken⟩, after⟩

/-- A relation to a deterministic abstract machine that every step keeps holds at
the end of every run, for the abstract run with the same labels. -/
theorem Run.simulates {Abstract : Type*} {sys : System State Act} (rel : State → Abstract → Prop)
    (next : Abstract → Act → Abstract) {first : Abstract}
    (start : ∀ state, sys.start state → rel state first)
    (step : ∀ state abstract act after, rel state abstract → sys.step state act after →
      rel after (next abstract act))
    {acts : List Act} {state : State} (run : sys.Run acts state) :
    rel state (acts.foldl next first) := by
  induction run with
  | start initial => exact start _ initial
  | step _ taken ih =>
      rw [List.foldl_append, List.foldl_cons, List.foldl_nil]
      exact step _ _ _ _ ih taken

end System

end CLibs.General
