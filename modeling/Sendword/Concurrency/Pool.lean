import Sendword.Concurrency.Program

/-!
# Pools of tasks

A pool is a shared state and a list of tasks, each with the operations it has
performed and the program it still has to run.  One step either admits a new
job or lets one task perform one operation.  Every interleaving of any number
of tasks is a sequence of such steps.
-/

namespace Concurrency

/-- One performed operation with the answer it got. -/
structure Event {Op : Type} (Answer : Op → Type) where
  op : Op
  answer : Answer op

structure Task (Job : Type) {Op : Type} (Answer : Op → Type)
    (Output : Type) where
  job : Job
  trace : List (Event Answer)
  program : Program Answer Output

structure Pool (State Job : Type) {Op : Type} (Answer : Op → Type)
    (Output : Type) where
  state : State
  tasks : List (Task Job Answer Output)

/-- The job and the past of the task at `index`, and the operation it
performs next. -/
def Pool.next? {State Job Output : Type} {Op : Type} {Answer : Op → Type}
    (pool : Pool State Job Answer Output) (index : Nat) :
    Option (Job × List (Event Answer) × Op) :=
  pool.tasks[index]?.bind fun task =>
    task.program.next?.map fun op => (task.job, task.trace, op)

theorem Pool.next?_eq {State Job Output : Type} {Op : Type}
    {Answer : Op → Type} {pool : Pool State Job Answer Output} {index : Nat}
    {job : Job} {trace : List (Event Answer)} {op : Op}
    {next : Answer op → Program Answer Output}
    (found : pool.tasks[index]? =
      some { job, trace, program := .perform op next }) :
    pool.next? index = some (job, trace, op) := by
  simp [next?, found]

/-- What operations do.  `Choice` carries what the environment decides;
`perform` is `none` where a choice is not possible in the state. -/
structure Machine (State Choice Job : Type) {Op : Type}
    (Answer : Op → Type) (Output : Type) where
  body : Job → Program Answer Output
  perform : (op : Op) → Choice → State → Option (Answer op × State)
  forks : Op → Option Job

inductive Label (Choice Job : Type) where
  | arrive (job : Job)
  | advance (index : Nat) (choice : Choice)

variable {State Choice Job Output : Type} {Op : Type} {Answer : Op → Type}

namespace Machine

variable (machine : Machine State Choice Job Answer Output)

def launch (job : Job) : Task Job Answer Output :=
  { job, trace := [], program := machine.body job }

/-- The tasks started by an operation. -/
def forked (op : Op) : List (Task Job Answer Output) :=
  ((machine.forks op).map machine.launch).toList

def step (pool : Pool State Job Answer Output) :
    Label Choice Job → Option (Pool State Job Answer Output)
  | .arrive job =>
      some { pool with tasks := pool.tasks ++ [machine.launch job] }
  | .advance index choice =>
      match pool.tasks[index]? with
      | some { job, trace, program := .perform op next } =>
          (machine.perform op choice pool.state).map fun (answer, state) =>
            { state
              tasks :=
                pool.tasks.set index
                  { job
                    trace := trace ++ [⟨op, answer⟩]
                    program := next answer }
                ++ machine.forked op }
      | _ => none

/-- Follow a schedule whose steps all pass a test. -/
def run (admits : Pool State Job Answer Output → Label Choice Job → Bool)
    (pool : Pool State Job Answer Output)
    (schedule : List (Label Choice Job)) :
    Option (Pool State Job Answer Output) :=
  schedule.foldlM (fun pool label =>
    if admits pool label then machine.step pool label else none) pool

/-- The pools reached from `start` by steps that all satisfy `admits`, a
condition on the pool before the step and its label. -/
inductive Reaches
    (admits : Pool State Job Answer Output → Label Choice Job → Prop)
    (start : Pool State Job Answer Output) :
    Pool State Job Answer Output → Prop where
  | refl : Reaches admits start start
  | step {pool target : Pool State Job Answer Output}
      {label : Label Choice Job} :
      Reaches admits start pool →
      admits pool label →
      machine.step pool label = some target →
      Reaches admits start target

variable {machine}

theorem Reaches.mono
    {admits weaker : Pool State Job Answer Output → Label Choice Job → Prop}
    {start pool : Pool State Job Answer Output}
    (reached : machine.Reaches admits start pool)
    (implies : ∀ pool label, admits pool label → weaker pool label) :
    machine.Reaches weaker start pool := by
  induction reached with
  | refl => exact .refl
  | step _ admitted taken induction =>
      exact .step induction (implies _ _ admitted) taken

theorem Reaches.append
    {admits : Pool State Job Answer Output → Label Choice Job → Prop}
    {start middle pool : Pool State Job Answer Output}
    (first : machine.Reaches admits start middle)
    (later : machine.Reaches admits middle pool) :
    machine.Reaches admits start pool := by
  induction later with
  | refl => exact first
  | step _ admitted taken induction => exact .step induction admitted taken

/-- What holds in every reached pool may be asked of every step. -/
theorem Reaches.strengthen
    {admits stronger :
      Pool State Job Answer Output → Label Choice Job → Prop}
    {start pool : Pool State Job Answer Output}
    (reached : machine.Reaches admits start pool)
    (implies : ∀ pool label, machine.Reaches admits start pool →
      admits pool label → stronger pool label) :
    machine.Reaches stronger start pool := by
  induction reached with
  | refl => exact .refl
  | step before admitted taken induction =>
      exact .step induction (implies _ _ before admitted) taken

/-- A schedule that can be followed reaches its last pool. -/
theorem Reaches.of_run
    {admits : Pool State Job Answer Output → Label Choice Job → Bool}
    {start pool target : Pool State Job Answer Output}
    {schedule : List (Label Choice Job)}
    (reached : machine.Reaches (fun pool label => admits pool label = true)
      start pool)
    (followed : machine.run admits pool schedule = some target) :
    machine.Reaches (fun pool label => admits pool label = true)
      start target := by
  induction schedule generalizing pool with
  | nil =>
      have same : pool = target := by simpa [run] using followed
      exact same ▸ reached
  | cons label schedule induction =>
      rw [run, List.foldlM_cons] at followed
      obtain ⟨middle, first, rest⟩ := Option.bind_eq_some_iff.mp followed
      split at first
      · rename_i admitted
        exact induction (.step reached admitted first) rest
      · cases first

/-- What an `advance` step does: one task performs the operation its program
is at, and the tasks this operation starts join the pool. -/
theorem step_advance
    {pool target : Pool State Job Answer Output}
    {index : Nat} {choice : Choice}
    (taken : machine.step pool (.advance index choice) = some target) :
    ∃ job trace op next answer state,
      pool.tasks[index]? =
          some { job, trace, program := .perform op next } ∧
        machine.perform op choice pool.state = some (answer, state) ∧
        target =
          { state
            tasks :=
              pool.tasks.set index
                { job
                  trace := trace ++ [⟨op, answer⟩]
                  program := next answer }
              ++ machine.forked op } := by
  simp only [step] at taken
  split at taken
  · rename_i job trace op next found
    obtain ⟨⟨answer, state⟩, performed, equality⟩ :=
      Option.map_eq_some_iff.mp taken
    exact ⟨job, trace, op, next, answer, state, found, performed,
      equality.symm⟩
  · cases taken

/-- A task performs the operation that its program is at. -/
theorem step_of_found
    {pool : Pool State Job Answer Output} {index : Nat} {choice : Choice}
    {job : Job} {trace : List (Event Answer)} {op : Op}
    {next : Answer op → Program Answer Output} {answer : Answer op}
    {state : State}
    (found : pool.tasks[index]? =
      some { job, trace, program := .perform op next })
    (performed : machine.perform op choice pool.state =
      some (answer, state)) :
    machine.step pool (.advance index choice) =
      some
        { state
          tasks :=
            pool.tasks.set index
              { job
                trace := trace ++ [⟨op, answer⟩]
                program := next answer }
            ++ machine.forked op } := by
  rw [step, found]
  exact congrArg (Option.map _) performed

/-- The task that has moved, in the pool after the step. -/
theorem moved_task {tasks : List (Task Job Answer Output)} {index : Nat}
    {task : Task Job Answer Output} (found : tasks[index]? = some task)
    (moved : Task Job Answer Output)
    (others : List (Task Job Answer Output)) :
    (tasks.set index moved ++ others)[index]? = some moved := by
  have inside := (List.getElem?_eq_some_iff.mp found).1
  rw [List.getElem?_append_left (by simpa using inside),
    List.getElem?_set_self inside]

/-- A task is the one that moves, or stays as it is. -/
theorem mem_or_moved {tasks : List (Task Job Answer Output)} {index : Nat}
    {old task : Task Job Answer Output} (found : tasks[index]? = some old)
    (member : task ∈ tasks) :
    task = old ∨ ∀ (moved : Task Job Answer Output)
      (others : List (Task Job Answer Output)),
      task ∈ tasks.set index moved ++ others := by
  obtain ⟨position, atPosition⟩ := List.getElem?_of_mem member
  by_cases same : position = index
  · subst same
    exact .inl (Option.some.inj (atPosition.symm.trans found))
  · refine .inr fun moved others => List.mem_append_left _ ?_
    refine List.mem_of_getElem? (i := position) ?_
    rw [List.getElem?_set_ne (Ne.symm same)]
    exact atPosition

end Machine

end Concurrency
