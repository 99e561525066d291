import Sendword.Concurrency.Trace

/-!
# Monitors

A monitor reads what a task has done and says what it may do next.  A program
that passes it, on its own, passes it in every pool.
-/

namespace Concurrency

variable {State Choice Job Output : Type} {Op : Type} {Answer : Op → Type}

structure Monitor (Job : Type) (Answer : Op → Type) (Memory : Type) where
  start : Job → Memory
  next : Memory → Event Answer → Memory
  allows : Memory → Op → Prop
  /-- The events that can happen. -/
  happens : Event Answer → Prop := fun _ => True

namespace Monitor

variable {Memory α β : Type} (monitor : Monitor Job Answer Memory)

/-- What the monitor remembers of a task's past. -/
def memory (job : Job) (trace : List (Event Answer)) : Memory :=
  trace.foldl monitor.next (monitor.start job)

@[simp] theorem memory_nil (job : Job) :
    monitor.memory job [] = monitor.start job := rfl

@[simp] theorem memory_snoc (job : Job) (trace : List (Event Answer))
    (event : Event Answer) :
    monitor.memory job (trace ++ [event]) =
      monitor.next (monitor.memory job trace) event := by
  simp [memory]

/-- The program performs only what the monitor allows, and ends with a memory
and a value that satisfy `post`. -/
def Passes (program : Program Answer α) (post : Memory → α → Prop)
    (memory : Memory) : Prop :=
  match program with
  | .pure value => post memory value
  | .perform op next =>
      monitor.allows memory op ∧
        ∀ answer, monitor.happens ⟨op, answer⟩ →
          Passes (next answer) post (monitor.next memory ⟨op, answer⟩)

variable {monitor}

@[simp] theorem passes_pure (value : α) (post : Memory → α → Prop)
    (memory : Memory) :
    monitor.Passes (.pure value) post memory ↔ post memory value :=
  Iff.rfl

@[simp] theorem passes_perform (op : Op)
    (next : Answer op → Program Answer α) (post : Memory → α → Prop)
    (memory : Memory) :
    monitor.Passes (.perform op next) post memory ↔
      monitor.allows memory op ∧
        ∀ answer, monitor.happens ⟨op, answer⟩ →
          monitor.Passes (next answer) post
            (monitor.next memory ⟨op, answer⟩) :=
  Iff.rfl

theorem Passes.mono {program : Program Answer α}
    {post weaker : Memory → α → Prop} {memory : Memory}
    (passes : monitor.Passes program post memory)
    (implies : ∀ memory value, post memory value → weaker memory value) :
    monitor.Passes program weaker memory := by
  induction program generalizing memory with
  | pure value => exact implies memory value passes
  | perform op next induction =>
      exact ⟨passes.1, fun answer happens =>
        induction answer (passes.2 answer happens)⟩

theorem Passes.returns {program : Program Answer α}
    {post : Memory → α → Prop} {good : α → Prop} {memory : Memory}
    (passes : monitor.Passes program post memory)
    (returns : program.Returns good) :
    monitor.Passes program (fun after value => post after value ∧ good value)
      memory := by
  induction program generalizing memory with
  | pure value => exact ⟨passes, returns⟩
  | perform op next induction =>
      exact ⟨passes.1, fun answer happens =>
        induction answer (passes.2 answer happens) (returns answer)⟩

theorem Passes.bind {program : Program Answer α}
    {rest : α → Program Answer β} {between : Memory → α → Prop}
    {post : Memory → β → Prop} {memory : Memory}
    (passes : monitor.Passes program between memory)
    (later : ∀ memory value, between memory value →
      monitor.Passes (rest value) post memory) :
    monitor.Passes (program.bind rest) post memory := by
  induction program generalizing memory with
  | pure value => exact later memory value passes
  | perform op next induction =>
      exact ⟨passes.1, fun answer happens =>
        induction answer (passes.2 answer happens)⟩

theorem Passes.forEach {items : List β} {body : β → Program Answer Unit}
    {invariant : Memory → Prop} {memory : Memory}
    (initially : invariant memory)
    (kept : ∀ item ∈ items, ∀ memory, invariant memory →
      monitor.Passes (body item) (fun after _ => invariant after) memory) :
    monitor.Passes (Program.forEach items body)
      (fun after _ => invariant after) memory := by
  induction items generalizing memory with
  | nil => exact initially
  | cons item items induction =>
      refine (kept item (by simp) memory initially).bind
        fun after _ invariantAfter => ?_
      exact induction invariantAfter fun other member =>
        kept other (List.mem_cons_of_mem item member)

/-- The monitor allows the operation and forgets it. -/
def Ignores (monitor : Monitor Job Answer Memory) (memory : Memory)
    (op : Op) : Prop :=
  monitor.allows memory op ∧
    ∀ answer, monitor.next memory ⟨op, answer⟩ = memory

/-- A program whose operations keep an invariant of the memory. -/
theorem Passes.of_kept {bad : Op → Prop} {program : Program Answer α}
    {invariant : Memory → Prop} {memory : Memory}
    (avoids : program.Avoids bad)
    (kept : ∀ op, ¬ bad op → ∀ memory, invariant memory →
      monitor.allows memory op ∧
        ∀ answer, invariant (monitor.next memory ⟨op, answer⟩))
    (initially : invariant memory) :
    monitor.Passes program (fun after _ => invariant after) memory := by
  induction program generalizing memory with
  | pure value => exact initially
  | perform op next induction =>
      have keeps := kept op avoids.1 memory initially
      exact ⟨keeps.1, fun answer _ =>
        induction answer (avoids.2 answer) (keeps.2 answer)⟩

theorem Passes.of_ignored {bad : Op → Prop} {program : Program Answer α}
    {memory : Memory} (avoids : program.Avoids bad)
    (ignores : ∀ op, ¬ bad op → monitor.Ignores memory op) :
    monitor.Passes program (fun after _ => after = memory) memory := by
  refine .of_kept avoids (fun op fine after same => ?_) rfl
  subst same
  exact ignores op fine

theorem Passes.follows {job : Job} {program rest : Program Answer α}
    {trace : List (Event Answer)} {post : Memory → α → Prop}
    (passes : monitor.Passes program post (monitor.start job))
    (follows : program.Follows trace rest)
    (happened : ∀ event ∈ trace, monitor.happens event) :
    monitor.Passes rest post (monitor.memory job trace) := by
  induction follows with
  | start => exact passes
  | @step trace op next answer _ induction =>
      rw [memory_snoc]
      refine (induction fun event member => ?_).2 answer ?_
      · exact happened event (List.mem_append_left _ member)
      · exact happened _ (List.mem_append_right _ (List.mem_singleton_self _))

section Runs

variable {machine : Machine State Choice Job Answer Output}
  {admits : Pool State Job Answer Output → Label Choice Job → Prop}
  {start pool : Pool State Job Answer Output}

/-- Every task of a reached pool passes from what is remembered of its
past. -/
theorem passes_of_reaches {post : Job → Memory → Output → Prop}
    (bodies : ∀ job,
      monitor.Passes (machine.body job) (post job) (monitor.start job))
    (empty : start.tasks = [])
    (reached : machine.Reaches admits start pool)
    (happened : ∀ task ∈ pool.tasks, ∀ event ∈ task.trace,
      monitor.happens event) :
    ∀ task ∈ pool.tasks,
      monitor.Passes task.program (post task.job)
        (monitor.memory task.job task.trace) := by
  intro task member
  exact (bodies task.job).follows (reached.follows empty task member)
    (happened task member)

end Runs

/-- The tasks of which the monitor remembers something. -/
def count (monitor : Monitor Job Answer Memory) (holds : Memory → Bool)
    (tasks : List (Task Job Answer Output)) : Nat :=
  tasks.countP fun task => holds (monitor.memory task.job task.trace)

section Counts

variable {machine : Machine State Choice Job Answer Output}
  {holds : Memory → Bool} {tasks : List (Task Job Answer Output)}

theorem count_launch (free : ∀ job, holds (monitor.start job) = false)
    (job : Job) :
    monitor.count holds (tasks ++ [machine.launch job]) =
      monitor.count holds tasks := by
  simp [count, Machine.launch, free]

theorem count_advance {index : Nat} {task : Task Job Answer Output}
    (free : ∀ job, holds (monitor.start job) = false)
    (found : tasks[index]? = some task) (event : Event Answer)
    (program : Program Answer Output) (op : Op) :
    monitor.count holds
        (tasks.set index
          { job := task.job, trace := task.trace ++ [event], program } ++
          machine.forked op) +
        (holds (monitor.memory task.job task.trace)).toNat =
      monitor.count holds tasks +
        (holds (monitor.next (monitor.memory task.job task.trace)
          event)).toNat := by
  obtain ⟨inside, isTask⟩ := List.getElem?_eq_some_iff.mp found
  have others : monitor.count holds (machine.forked op) = 0 := by
    refine List.countP_eq_zero.mpr fun other member => ?_
    simp only [Machine.forked, Option.mem_toList, Option.map_eq_some_iff]
      at member
    obtain ⟨job, -, rfl⟩ := member
    simp [Machine.launch, free]
  have counted (held : holds (monitor.memory task.job task.trace) = true) :
      0 < monitor.count holds tasks :=
    List.countP_pos_iff.mpr ⟨task, List.mem_of_getElem? found, held⟩
  unfold count at others counted ⊢
  rw [List.countP_append, others, List.countP_set inside, isTask,
    memory_snoc]
  cases held : holds (monitor.memory task.job task.trace) with
  | false =>
      cases holds (monitor.next (monitor.memory task.job task.trace) event) <;>
        simp
  | true =>
      have positive := counted held
      cases holds (monitor.next (monitor.memory task.job task.trace) event) <;>
        simp <;> omega

end Counts

end Monitor

end Concurrency
