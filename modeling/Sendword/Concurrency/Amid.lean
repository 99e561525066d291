import Sendword.Concurrency.Alone

/-!
# Programs run among others

A run of one program while other programs move the state between its
operations.  The others leave one part of the state as it is.
-/

namespace Concurrency

variable {State Choice Part : Type} {Op : Type} {Answer : Op → Type}
  {α : Type}

/-- A move of the others, which spares a part of the state. -/
structure Sparing (part : State → Part) where
  move : State → State
  spares : ∀ state, part (move state) = part state

/-- The others do not move. -/
def Sparing.still (part : State → Part) : Sparing part where
  move := id
  spares _ := rfl

/-- An operation that the others move before. -/
def amid (part : State → Part) (perform : Effect State Choice Answer) :
    Effect State (Choice × Sparing part) Answer :=
  fun op choice state => perform op choice.1 (choice.2.move state)

variable {part : State → Part} {perform : Effect State Choice Answer}
  {state final : State} {trace : List (Event Answer)}

/-- A program run alone is a program run among others that do not move. -/
theorem Runs.amid {program : Program Answer α} {value : α}
    (runs : Runs perform program state trace value final) :
    Runs (amid part perform) program state trace value final := by
  induction runs with
  | pure value state => exact .pure value state
  | @perform op next state middle final choice answer trace value performed
      rest induction =>
      have stepped : Concurrency.amid part perform op
          (choice, .still part) state = some (answer, middle) := performed
      exact .perform stepped induction

/-- Where every operation can be performed, a program can be run among
others. -/
theorem Runs.exists_amid (part : State → Part)
    (enabled : ∀ op state, ∃ choice answer final,
      perform op choice state = some (answer, final))
    (program : Program Answer α) (state : State) :
    ∃ trace value final,
      Runs (Concurrency.amid part perform) program state trace value final := by
  obtain ⟨trace, value, final, runs⟩ :=
    Runs.exists_of_enabled enabled program state
  exact ⟨trace, value, final, runs.amid⟩

/-- What an operation makes of the part, whatever the others have made of
the rest. -/
theorem amid_part {op : Op} {choice : Choice × Sparing part}
    {answer : Answer op} (follows : Part → Answer op → Part → Prop)
    (acts : ∀ choice before answer after,
      perform op choice before = some (answer, after) →
      follows (part before) answer (part after))
    (performed : Concurrency.amid part perform op choice state =
      some (answer, final)) :
    follows (part state) answer (part final) := by
  rw [← choice.2.spares state]
  exact acts choice.1 _ _ _ performed

end Concurrency
