import Sendword.Concurrency.Trace

/-!
# Programs run alone

A run of one program from a state to a state, while nothing else happens.
-/

namespace Concurrency

variable {State Choice : Type} {Op : Type} {Answer : Op → Type} {α β : Type}

/-- What operations do to the state. -/
abbrev Effect (State Choice : Type) {Op : Type} (Answer : Op → Type) :=
  (op : Op) → Choice → State → Option (Answer op × State)

/-- The program runs from `state` to `final` and ends with a value. -/
inductive Runs (perform : Effect State Choice Answer) :
    Program Answer α → State → List (Event Answer) → α → State → Prop where
  | pure (value : α) (state : State) : Runs perform (.pure value) state []
      value state
  | perform {op : Op} {next : Answer op → Program Answer α}
      {state middle final : State} {choice : Choice} {answer : Answer op}
      {trace : List (Event Answer)} {value : α} :
      perform op choice state = some (answer, middle) →
      Runs perform (next answer) middle trace value final →
      Runs perform (.perform op next) state (⟨op, answer⟩ :: trace) value
        final

/-- Operations that may answer anything. -/
def anyAnswer (op : Op) (choice : (op : Op) → Answer op) (_ : Unit) :
    Option (Answer op × Unit) :=
  some (choice op, ())

variable {perform : Effect State Choice Answer}
  {state final : State} {trace : List (Event Answer)}

theorem runs_pure {value result : α} :
    Runs perform (.pure value : Program Answer α) state trace result final ↔
      trace = [] ∧ result = value ∧ final = state := by
  constructor
  · intro runs
    cases runs
    exact ⟨rfl, rfl, rfl⟩
  · rintro ⟨rfl, rfl, rfl⟩
    exact .pure result final

theorem runs_perform {op : Op} {next : Answer op → Program Answer α}
    {result : α} :
    Runs perform (.perform op next) state trace result final ↔
      ∃ choice answer middle rest, trace = ⟨op, answer⟩ :: rest ∧
        perform op choice state = some (answer, middle) ∧
        Runs perform (next answer) middle rest result final := by
  constructor
  · intro runs
    cases runs with
    | perform performed rest => exact ⟨_, _, _, _, rfl, performed, rest⟩
  · rintro ⟨choice, answer, middle, rest, rfl, performed, later⟩
    exact .perform performed later

/-- A run of a single operation. -/
theorem runs_single {op : Op} {answer : Answer op} :
    Runs perform (.op op) state trace answer final ↔
      trace = [⟨op, answer⟩] ∧
        ∃ choice, perform op choice state = some (answer, final) := by
  unfold Program.op
  refine runs_perform.trans ?_
  constructor
  · rintro ⟨choice, other, middle, rest, rfl, performed, ended⟩
    obtain ⟨rfl, rfl, rfl⟩ := runs_pure.mp ended
    exact ⟨rfl, choice, performed⟩
  · rintro ⟨rfl, choice, performed⟩
    exact ⟨choice, answer, final, [], rfl, performed, .pure answer final⟩

/-- A run of two programs in sequence. -/
theorem runs_bind {program : Program Answer α}
    {rest : α → Program Answer β} {result : β} :
    Runs perform (program.bind rest) state trace result final ↔
      ∃ first value middle second, trace = first ++ second ∧
        Runs perform program state first value middle ∧
        Runs perform (rest value) middle second result final := by
  induction program generalizing state trace with
  | pure value =>
      constructor
      · intro runs
        exact ⟨[], value, state, trace, rfl, .pure value state, runs⟩
      · rintro ⟨first, other, middle, second, rfl, before, after⟩
        obtain ⟨rfl, rfl, rfl⟩ := runs_pure.mp before
        exact after
  | perform op next induction =>
      rw [Program.perform_bind, runs_perform]
      constructor
      · rintro ⟨choice, answer, middle, later, rfl, performed, runs⟩
        obtain ⟨first, value, last, second, rfl, before, after⟩ :=
          (induction answer).mp runs
        exact ⟨_, value, last, second, rfl, .perform performed before, after⟩
      · rintro ⟨first, value, middle, second, rfl, before, after⟩
        obtain ⟨choice, answer, between, later, rfl, performed, runs⟩ :=
          runs_perform.mp before
        exact ⟨choice, answer, between, later ++ second, rfl, performed,
          (induction answer).mpr
            ⟨later, value, middle, second, rfl, runs, after⟩⟩

/-- A program can be run with any answers. -/
theorem runs_anyAnswer (choice : (op : Op) → Answer op)
    (program : Program Answer α) :
    ∃ trace value, Runs anyAnswer program () trace value () ∧
      ∀ event ∈ trace, event.answer = choice event.op := by
  induction program with
  | pure value => exact ⟨[], value, .pure value (), by simp⟩
  | perform op next induction =>
      obtain ⟨trace, value, runs, answers⟩ := induction (choice op)
      have performed : anyAnswer op choice () = some (choice op, ()) := rfl
      exact ⟨_, value, .perform performed runs,
        List.forall_mem_cons.mpr ⟨rfl, answers⟩⟩

/-- Run a program whose operations all answer. -/
def Program.exec (act : (op : Op) → State → Answer op × State) :
    Program Answer α → State → α × State
  | .pure value, state => (value, state)
  | .perform op next, state =>
      (next (act op state).1).exec act (act op state).2

section Exec

variable {act : (op : Op) → State → Answer op × State}

@[simp] theorem Program.exec_pure (value : α) (state : State) :
    (Program.pure value : Program Answer α).exec act state =
      (value, state) := rfl

@[simp] theorem Program.exec_perform (op : Op)
    (next : Answer op → Program Answer α) (state : State) :
    (Program.perform op next).exec act state =
      (next (act op state).1).exec act (act op state).2 := rfl

@[simp] theorem Program.exec_op (op : Op) (state : State) :
    (Program.op op : Program Answer (Answer op)).exec act state =
      act op state := rfl

@[simp] theorem Program.exec_bind (program : Program Answer α)
    (rest : α → Program Answer β) (state : State) :
    (program.bind rest).exec act state =
      (rest (program.exec act state).1).exec act
        (program.exec act state).2 := by
  induction program generalizing state with
  | pure value => rfl
  | perform op next induction => exact induction (act op state).1 _

end Exec

/-- Run a program with given choices. -/
def play (perform : Effect State Choice Answer) :
    Program Answer α → List Choice → State →
      Option (List (Event Answer) × α × State)
  | .pure value, [], state => some ([], value, state)
  | .pure _, _ :: _, _ => none
  | .perform _ _, [], _ => none
  | .perform op next, choice :: choices, state =>
      (perform op choice state).bind fun (answer, middle) =>
        (play perform (next answer) choices middle).map
          fun (trace, value, final) => (⟨op, answer⟩ :: trace, value, final)

theorem Runs.of_play {program : Program Answer α} {choices : List Choice}
    {value : α}
    (played : play perform program choices state =
      some (trace, value, final)) :
    Runs perform program state trace value final := by
  induction program generalizing choices state trace with
  | pure result =>
      cases choices with
      | nil =>
          simp only [play, Option.some.injEq, Prod.mk.injEq] at played
          obtain ⟨rfl, rfl, rfl⟩ := played
          exact .pure result state
      | cons => cases played
  | perform op next induction =>
      cases choices with
      | nil => cases played
      | cons choice choices =>
          obtain ⟨⟨answer, middle⟩, performed, rest⟩ :=
            Option.bind_eq_some_iff.mp played
          obtain ⟨⟨later, result, last⟩, follows, equality⟩ :=
            Option.map_eq_some_iff.mp rest
          simp only [Prod.mk.injEq] at equality
          obtain ⟨rfl, rfl, rfl⟩ := equality
          exact .perform performed (induction answer follows)

/-- A program can be run to its end where every operation can be
performed. -/
theorem Runs.exists_of_enabled
    (enabled : ∀ op state, ∃ choice answer final,
      perform op choice state = some (answer, final))
    (program : Program Answer α) (state : State) :
    ∃ trace value final, Runs perform program state trace value final := by
  induction program generalizing state with
  | pure value => exact ⟨[], value, state, .pure value state⟩
  | perform op next induction =>
      obtain ⟨choice, answer, middle, performed⟩ := enabled op state
      obtain ⟨trace, value, final, rest⟩ := induction answer middle
      exact ⟨_, value, final, .perform performed rest⟩

/-- What the text of a program avoids does not occur in a run of it. -/
theorem Runs.avoids {program : Program Answer α} {value : α}
    {bad : Op → Prop}
    (runs : Runs perform program state trace value final)
    (avoids : program.Avoids bad) : ∀ event ∈ trace, ¬ bad event.op := by
  induction runs with
  | pure value state => simp
  | perform performed rest induction =>
      intro event member
      rcases List.mem_cons.mp member with rfl | later
      · exact avoids.1
      · exact induction (avoids.2 _) event later

/-- What all operations of the trace keep, the run keeps. -/
theorem Runs.kept {program : Program Answer α} {value : α} {Part : Type}
    (part : State → Part)
    (runs : Runs perform program state trace value final)
    (kept : ∀ event ∈ trace, ∀ choice before answer after,
      perform event.op choice before = some (answer, after) →
      part after = part before) : part final = part state := by
  induction runs with
  | pure value state => rfl
  | @perform op next state middle final choice answer trace value performed
      rest induction =>
      have first := kept ⟨op, answer⟩ (by simp) choice state answer middle
        performed
      exact (induction fun event member =>
        kept event (List.mem_cons_of_mem _ member)).trans first

end Concurrency
