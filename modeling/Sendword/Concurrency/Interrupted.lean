import Sendword.Concurrency.Alone
import Sendword.Concurrency.Monitor

/-!
# Interrupted programs

A run of one program that may be stopped before any of its operations, and
also after its last one.  A stopped run has no result.
-/

namespace Concurrency

variable {State Choice Job Memory : Type} {Op : Type} {Answer : Op → Type}
  {α β : Type}

/-- The program runs from `state` to `final`, to its end or to where it is
stopped. -/
inductive Interrupted (perform : Effect State Choice Answer) :
    Program Answer α → State → List (Event Answer) → Option α → State →
      Prop where
  | stopped (program : Program Answer α) (state : State) :
      Interrupted perform program state [] none state
  | pure (value : α) (state : State) :
      Interrupted perform (.pure value) state [] (some value) state
  | perform {op : Op} {next : Answer op → Program Answer α}
      {state middle final : State} {choice : Choice} {answer : Answer op}
      {trace : List (Event Answer)} {result : Option α} :
      perform op choice state = some (answer, middle) →
      Interrupted perform (next answer) middle trace result final →
      Interrupted perform (.perform op next) state (⟨op, answer⟩ :: trace)
        result final

variable {perform : Effect State Choice Answer} {program : Program Answer α}
  {state final : State} {trace : List (Event Answer)} {result : Option α}

/-- A run to the end is one that is not stopped. -/
theorem Runs.interrupted {value : α}
    (runs : Runs perform program state trace value final) :
    Interrupted perform program state trace (some value) final := by
  induction runs with
  | pure value state => exact .pure value state
  | perform performed _ induction => exact .perform performed induction

/-- The rule of monitors for interrupted programs: what every allowed operation
keeps, of what is remembered and of the state, holds wherever the run stops,
and the result satisfies what the program passes with. -/
theorem Monitor.Passes.interrupted {monitor : Monitor Job Answer Memory}
    {post : Memory → α → Prop} {memory : Memory}
    {holds : Memory → State → Prop}
    (passes : monitor.Passes program post memory)
    (runs : Interrupted perform program state trace result final)
    (happens : ∀ event, monitor.happens event)
    (kept : ∀ memory op choice before answer after,
      monitor.allows memory op →
      perform op choice before = some (answer, after) →
      holds memory before →
      holds (monitor.next memory ⟨op, answer⟩) after)
    (initially : holds memory state) :
    holds (trace.foldl monitor.next memory) final ∧
      ∀ value, result = some value →
        post (trace.foldl monitor.next memory) value := by
  induction runs generalizing memory with
  | stopped program state => exact ⟨initially, fun _ ended => by cases ended⟩
  | pure value state =>
      refine ⟨initially, fun other ended => ?_⟩
      cases ended
      exact passes
  | perform performed _ induction =>
      obtain ⟨allowed, later⟩ := passes
      exact induction (later _ (happens _))
        (kept memory _ _ _ _ _ allowed performed initially)

end Concurrency
