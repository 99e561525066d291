import Sendword.Concurrency.Pool

/-!
# Records beside the state

A machine whose steps also keep a record of what happens, which no program
reads.  Forgetting the record gives back the runs of the machine.
-/

namespace Concurrency

variable {State Record Choice Job Output : Type} {Op : Type}
  {Answer : Op → Type}

/-- A state and what has been recorded of the run to it. -/
structure Recorded (State Record : Type) where
  state : State
  record : Record

/-- The machine that keeps a record; `follow` is given the states before and
after each operation. -/
def Machine.recording (machine : Machine State Choice Job Answer Output)
    (follow : Record → State → State → Record) :
    Machine (Recorded State Record) Choice Job Answer Output where
  body := machine.body
  perform op choice before :=
    (machine.perform op choice before.state).map fun (answer, state) =>
      (answer,
        { state, record := follow before.record before.state state })
  forks := machine.forks

/-- The pool without its record. -/
def Pool.forget (pool : Pool (Recorded State Record) Job Answer Output) :
    Pool State Job Answer Output :=
  { state := pool.state.state, tasks := pool.tasks }

variable {machine : Machine State Choice Job Answer Output}
  {follow : Record → State → State → Record}

theorem Machine.recording_perform {op : Op} {choice : Choice}
    {before after : Recorded State Record} {answer : Answer op}
    (performed : (machine.recording follow).perform op choice before =
      some (answer, after)) :
    machine.perform op choice before.state = some (answer, after.state) ∧
      after.record = follow before.record before.state after.state := by
  obtain ⟨⟨given, state⟩, acted, same⟩ := Option.map_eq_some_iff.mp performed
  cases same
  exact ⟨acted, rfl⟩

theorem Machine.step_forget
    {pool target : Pool (Recorded State Record) Job Answer Output}
    {label : Label Choice Job}
    (taken : (machine.recording follow).step pool label = some target) :
    machine.step pool.forget label = some target.forget := by
  cases label with
  | arrive job =>
      cases taken
      rfl
  | advance index choice =>
      obtain ⟨job, trace, op, next, answer, state, found, performed, rfl⟩ :=
        step_advance taken
      obtain ⟨acted, -⟩ := recording_perform performed
      simp only [step, Pool.forget, found, acted, Option.map_some]
      rfl

/-- A recorded run is a run. -/
theorem Machine.Reaches.forget
    {admits : Pool (Recorded State Record) Job Answer Output →
      Label Choice Job → Prop}
    {weaker : Pool State Job Answer Output → Label Choice Job → Prop}
    {start pool : Pool (Recorded State Record) Job Answer Output}
    (implies : ∀ pool label, admits pool label → weaker pool.forget label)
    (reached : (machine.recording follow).Reaches admits start pool) :
    machine.Reaches weaker start.forget pool.forget := by
  induction reached with
  | refl => exact .refl
  | step _ admitted taken induction =>
      exact .step induction (implies _ _ admitted) (step_forget taken)

end Concurrency
