import Sendword.Concurrency.Pool

/-!
# Traces of programs

What a program still has to do is fixed by its text and its trace.  Two
properties of the text carry over to every run of it: that some operations do
not occur, and that some operations end the program.
-/

namespace Concurrency

variable {State Choice Job Output : Type} {Op : Type} {Answer : Op → Type}

namespace Program

variable {α β : Type}

/-- `rest` is what is left of `program` after the trace. -/
inductive Follows (program : Program Answer α) :
    List (Event Answer) → Program Answer α → Prop where
  | start : Follows program [] program
  | step {trace : List (Event Answer)} {op : Op}
      {next : Answer op → Program Answer α} (answer : Answer op) :
      Follows program trace (.perform op next) →
      Follows program (trace ++ [⟨op, answer⟩]) (next answer)

/-- No operation of the program satisfies `bad`. -/
def Avoids (bad : Op → Prop) : Program Answer α → Prop
  | .pure _ => True
  | .perform op next => ¬ bad op ∧ ∀ answer, (next answer).Avoids bad

/-- At most one operation of the program satisfies `bad`. -/
def Once (bad : Op → Prop) : Program Answer α → Prop
  | .pure _ => True
  | .perform op next =>
      (bad op → ∀ answer, (next answer).Avoids bad) ∧
        ∀ answer, (next answer).Once bad

/-- After an operation that satisfies `last` the program has ended. -/
def EndsWith (last : Op → Prop) : Program Answer α → Prop
  | .pure _ => True
  | .perform op next =>
      (last op → ∀ answer, (next answer).next? = none) ∧
        ∀ answer, (next answer).EndsWith last

/-- Every value the program can end with satisfies `good`. -/
def Returns (good : α → Prop) : Program Answer α → Prop
  | .pure value => good value
  | .perform _ next => ∀ answer, (next answer).Returns good

variable {bad last : Op → Prop}

theorem Returns.bind {good : α → Prop} {better : β → Prop}
    {program : Program Answer α} {rest : α → Program Answer β}
    (returns : program.Returns good)
    (later : ∀ value, good value → (rest value).Returns better) :
    (program.bind rest).Returns better := by
  induction program with
  | pure value => exact later value returns
  | perform op next induction =>
      exact fun answer => induction answer (returns answer)

theorem Returns.of_all {good : α → Prop} (all : ∀ value, good value)
    (program : Program Answer α) : program.Returns good := by
  induction program with
  | pure value => exact all value
  | perform op next induction => exact induction

@[simp] theorem avoids_pure (value : α) :
    (Program.pure value : Program Answer α).Avoids bad ↔ True :=
  Iff.rfl

@[simp] theorem avoids_perform (op : Op)
    (next : Answer op → Program Answer α) :
    (Program.perform op next).Avoids bad ↔
      ¬ bad op ∧ ∀ answer, (next answer).Avoids bad :=
  Iff.rfl

theorem Avoids.mono {worse : Op → Prop} {program : Program Answer α}
    (avoids : program.Avoids bad) (implies : ∀ op, worse op → bad op) :
    program.Avoids worse := by
  induction program with
  | pure value => trivial
  | perform op next induction =>
      refine ⟨fun isWorse => avoids.1 (implies op isWorse), ?_⟩
      exact fun answer => induction answer (avoids.2 answer)

theorem Avoids.bind {program : Program Answer α}
    {rest : α → Program Answer β}
    (avoids : program.Avoids bad) (others : ∀ value, (rest value).Avoids bad) :
    (program.bind rest).Avoids bad := by
  induction program with
  | pure value => exact others value
  | perform op next induction =>
      exact ⟨avoids.1, fun answer => induction answer (avoids.2 answer)⟩

theorem Avoids.forEach {items : List β} {body : β → Program Answer Unit}
    (avoids : ∀ item ∈ items, (body item).Avoids bad) :
    (Program.forEach items body).Avoids bad := by
  induction items with
  | nil => trivial
  | cons item items induction =>
      refine (avoids item (by simp)).bind fun _ => induction ?_
      intro other member
      exact avoids other (List.mem_cons_of_mem item member)

theorem Avoids.once {program : Program Answer α}
    (avoids : program.Avoids bad) : program.Once bad := by
  induction program with
  | pure value => trivial
  | perform op next induction =>
      exact ⟨fun isBad => (avoids.1 isBad).elim,
        fun answer => induction answer (avoids.2 answer)⟩

/-- The one operation, and then the rest. -/
theorem Once.perform {op : Op} {next : Answer op → Program Answer α}
    (others : ∀ answer, (next answer).Avoids bad) :
    (Program.perform op next).Once bad :=
  ⟨fun _ => others, fun answer => (others answer).once⟩

theorem Avoids.bind_once {program : Program Answer α}
    {rest : α → Program Answer β} (avoids : program.Avoids bad)
    (later : ∀ value, (rest value).Once bad) :
    (program.bind rest).Once bad := by
  induction program with
  | pure value => exact later value
  | perform op next induction =>
      exact ⟨fun isBad => (avoids.1 isBad).elim,
        fun answer => induction answer (avoids.2 answer)⟩

theorem Once.bind_avoids {program : Program Answer α}
    {rest : α → Program Answer β} (once : program.Once bad)
    (others : ∀ value, (rest value).Avoids bad) :
    (program.bind rest).Once bad := by
  induction program with
  | pure value => exact (others value).once
  | perform op next induction =>
      exact ⟨fun isBad answer => (once.1 isBad answer).bind others,
        fun answer => induction answer (once.2 answer)⟩

@[simp] theorem endsWith_pure (value : α) :
    (Program.pure value : Program Answer α).EndsWith last ↔ True :=
  Iff.rfl

@[simp] theorem endsWith_perform (op : Op)
    (next : Answer op → Program Answer α) :
    (Program.perform op next).EndsWith last ↔
      (last op → ∀ answer, (next answer).next? = none) ∧
        ∀ answer, (next answer).EndsWith last :=
  Iff.rfl

/-- A part without such operations may stand before the end. -/
theorem EndsWith.after {program : Program Answer α}
    {rest : α → Program Answer β}
    (avoids : program.Avoids last)
    (ends : ∀ value, (rest value).EndsWith last) :
    (program.bind rest).EndsWith last := by
  induction program with
  | pure value => exact ends value
  | perform op next induction =>
      refine ⟨fun isLast => (avoids.1 isLast).elim, ?_⟩
      exact fun answer => induction answer (avoids.2 answer)

/-- Giving another result at the end adds no operation. -/
theorem EndsWith.map {program : Program Answer α} (result : α → β)
    (ends : program.EndsWith last) :
    (program.bind fun value => .pure (result value)).EndsWith last := by
  induction program with
  | pure value => trivial
  | perform op next induction =>
      refine ⟨fun isLast answer => ?_, fun answer =>
        induction answer (ends.2 answer)⟩
      have ended := ends.1 isLast answer
      cases rest : next answer with
      | pure value => simp [rest]
      | perform op next => simp [rest] at ended

namespace Follows

variable {program rest : Program Answer α} {trace : List (Event Answer)}

theorem avoids (follows : program.Follows trace rest)
    (whole : program.Avoids bad) :
    rest.Avoids bad ∧ ∀ event ∈ trace, ¬ bad event.op := by
  induction follows with
  | start => exact ⟨whole, by simp⟩
  | step answer _ induction =>
      obtain ⟨avoids, before⟩ := induction
      refine ⟨avoids.2 answer, ?_⟩
      intro event member
      rcases List.mem_append.mp member with old | new
      · exact before event old
      · rw [List.mem_singleton.mp new]
        exact avoids.1

/-- A program that has not ended has performed none of its last
operations. -/
theorem endsWith (follows : program.Follows trace rest)
    (whole : program.EndsWith last) :
    rest.EndsWith last ∧
      (rest.next? ≠ none → ∀ event ∈ trace, ¬ last event.op) := by
  induction follows with
  | start => exact ⟨whole, by simp⟩
  | step answer _ induction =>
      obtain ⟨ends, before⟩ := induction
      refine ⟨ends.2 answer, ?_⟩
      intro unfinished event member
      rcases List.mem_append.mp member with old | new
      · exact before (by simp) event old
      · rw [List.mem_singleton.mp new]
        exact fun isLast => unfinished (ends.1 isLast answer)

theorem of_pure {value : α}
    (follows : (Program.pure value).Follows trace rest) :
    trace = [] ∧ rest = .pure value := by
  induction follows with
  | start => exact ⟨rfl, rfl⟩
  | step answer _ induction => cases induction.2

/-- A trace of a program begins with the program's first operation. -/
theorem of_perform {op : Op} {next : Answer op → Program Answer α}
    (follows : (Program.perform op next).Follows trace rest) :
    (trace = [] ∧ rest = .perform op next) ∨
      ∃ answer later, trace = ⟨op, answer⟩ :: later ∧
        (next answer).Follows later rest := by
  induction follows with
  | start => exact .inl ⟨rfl, rfl⟩
  | @step trace other rest answer before induction =>
      rcases induction with ⟨rfl, same⟩ | ⟨first, later, rfl, after⟩
      · cases same
        exact .inr ⟨answer, [], rfl, .start⟩
      · exact .inr ⟨first, later ++ [⟨other, answer⟩], rfl,
          .step answer after⟩

end Follows

end Program

/-- In a reached pool the rest of every task is what its trace leaves of the
code of its job. -/
theorem Machine.Reaches.follows
    {machine : Machine State Choice Job Answer Output}
    {admits : Pool State Job Answer Output → Label Choice Job → Prop}
    {start pool : Pool State Job Answer Output}
    (empty : start.tasks = [])
    (reached : machine.Reaches admits start pool) :
    ∀ task ∈ pool.tasks,
      (machine.body task.job).Follows task.trace task.program := by
  induction reached with
  | refl => simp [empty]
  | @step pool target label _ _ taken induction =>
      cases label with
      | arrive job =>
          have equality : target =
              { pool with tasks := pool.tasks ++ [machine.launch job] } := by
            simpa [Machine.step] using taken.symm
          subst target
          intro task member
          rcases List.mem_append.mp member with old | new
          · exact induction task old
          · rw [List.mem_singleton.mp new]
            exact .start
      | advance index choice =>
          obtain ⟨job, trace, op, next, answer, state, found, -, rfl⟩ :=
            Machine.step_advance taken
          intro task member
          rcases List.mem_append.mp member with old | new
          · rcases List.mem_or_eq_of_mem_set old with other | changed
            · exact induction task other
            · subst changed
              have before := induction _ (List.mem_of_getElem? found)
              exact .step answer before
          · simp only [Machine.forked, Option.mem_toList, Option.map_eq_some_iff]
              at new
            obtain ⟨child, -, rfl⟩ := new
            exact .start

section Remembers

variable {machine : Machine State Choice Job Answer Output}
  {admits : Pool State Job Answer Output → Label Choice Job → Prop}
  {start pool target : Pool State Job Answer Output}

/-- What an operation makes true of its event, and every operation keeps,
holds of all events so far. -/
theorem Machine.Reaches.remembers
    (holds : Event Answer → State → Prop)
    (first : ∀ op choice before answer after,
      machine.perform op choice before = some (answer, after) →
      holds ⟨op, answer⟩ after)
    (kept : ∀ event op choice before answer after,
      machine.perform op choice before = some (answer, after) →
      holds event before → holds event after)
    (empty : start.tasks = [])
    (reached : machine.Reaches admits start pool) :
    ∀ task ∈ pool.tasks, ∀ event ∈ task.trace, holds event pool.state := by
  induction reached with
  | refl => simp [empty]
  | @step pool target label _ _ taken induction =>
      cases label with
      | arrive job =>
          obtain rfl : { pool with
              tasks := pool.tasks ++ [machine.launch job] } = target := by
            simpa [Machine.step] using taken
          intro task member event inTrace
          rcases List.mem_append.mp member with old | new
          · exact induction task old event inTrace
          · rw [List.mem_singleton.mp new] at inTrace
            cases inTrace
      | advance index choice =>
          obtain ⟨job, trace, op, next, answer, state, found, performed,
            rfl⟩ := Machine.step_advance taken
          have later {event : Event Answer} (held : holds event pool.state) :
              holds event state :=
            kept event op choice pool.state answer state performed held
          intro task member event inTrace
          rcases List.mem_append.mp member with old | new
          · rcases List.mem_or_eq_of_mem_set old with other | rfl
            · exact later (induction task other event inTrace)
            · rcases List.mem_append.mp inTrace with before | last
              · exact later (induction _ (List.mem_of_getElem? found) event
                  before)
              · rw [List.mem_singleton.mp last]
                exact first op choice pool.state answer state performed
          · simp only [Machine.forked, Option.mem_toList,
              Option.map_eq_some_iff] at new
            obtain ⟨child, -, rfl⟩ := new
            cases inTrace

/-- What a task has done it did at a pool on the way. -/
theorem Machine.Reaches.performed
    (empty : start.tasks = [])
    (reached : machine.Reaches admits start pool) :
    ∀ (index : Nat) task, pool.tasks[index]? = some task →
      ∀ event ∈ task.trace, ∃ middle past choice after,
        machine.Reaches admits start middle ∧
          machine.Reaches admits middle pool ∧
          admits middle (.advance index choice) ∧
          middle.next? index = some (task.job, past, event.op) ∧
          machine.perform event.op choice middle.state =
            some (event.answer, after) := by
  induction reached with
  | refl => simp [empty]
  | @step pool target label before admitted taken induction =>
      have extended {middle : Pool State Job Answer Output}
          (later : machine.Reaches admits middle pool) :
          machine.Reaches admits middle target :=
        .step later admitted taken
      cases label with
      | arrive job =>
          obtain rfl : { pool with
              tasks := pool.tasks ++ [machine.launch job] } = target := by
            simpa [Machine.step] using taken
          intro index task found event inTrace
          rw [List.getElem?_append] at found
          split at found
          · obtain ⟨middle, past, choice, after, first, later, rest⟩ :=
              induction index task found event inTrace
            exact ⟨middle, past, choice, after, first, extended later, rest⟩
          · rw [List.mem_singleton.mp (List.mem_of_getElem? found)] at inTrace
            cases inTrace
      | advance position choice =>
          obtain ⟨job, trace, op, next, answer, state, moved, performed,
            rfl⟩ := Machine.step_advance taken
          intro index task found event inTrace
          rw [List.getElem?_append] at found
          split at found
          · rw [List.getElem?_set] at found
            split at found
            · rename_i same
              subst same
              split at found
              · cases found
                rcases List.mem_append.mp inTrace with old | last
                · obtain ⟨middle, past, choice, after, first, later, rest⟩ :=
                    induction position _ moved event old
                  exact ⟨middle, past, choice, after, first, extended later,
                    rest⟩
                · rw [List.mem_singleton.mp last]
                  exact ⟨pool, trace, choice, state, before, extended .refl,
                    admitted, Pool.next?_eq moved, performed⟩
              · cases found
            · obtain ⟨middle, past, choice, after, first, later, rest⟩ :=
                induction index task found event inTrace
              exact ⟨middle, past, choice, after, first, extended later,
                rest⟩
          · have forked := List.mem_of_getElem? found
            simp only [Machine.forked, Option.mem_toList,
              Option.map_eq_some_iff] at forked
            obtain ⟨child, -, rfl⟩ := forked
            cases inTrace

/-- What holds whenever an operation is performed holds of all events. -/
theorem Machine.Reaches.happened {happens : Event Answer → Prop}
    (performs : ∀ middle, machine.Reaches admits start middle →
      ∀ index job past op choice answer after,
        admits middle (.advance index choice) →
        middle.next? index = some (job, past, op) →
        machine.perform op choice middle.state = some (answer, after) →
        happens ⟨op, answer⟩)
    (empty : start.tasks = [])
    (reached : machine.Reaches admits start pool) :
    ∀ task ∈ pool.tasks, ∀ event ∈ task.trace, happens event := by
  intro task member event inTrace
  obtain ⟨index, found⟩ := List.getElem?_of_mem member
  obtain ⟨middle, past, choice, after, before, -, admitted, isNext,
    performed⟩ := reached.performed empty index task found event inTrace
  exact performs middle before index task.job past event.op choice
    event.answer after admitted isNext performed

/-- Tasks stay in the pool, and their traces only grow. -/
theorem Machine.step_grows {label : Label Choice Job}
    (taken : machine.step pool label = some target) :
    ∀ task ∈ pool.tasks, ∃ later ∈ target.tasks,
      later.job = task.job ∧ task.trace <+: later.trace := by
  intro task member
  cases label with
  | arrive job =>
      obtain rfl : { pool with
          tasks := pool.tasks ++ [machine.launch job] } = target := by
        simpa [Machine.step] using taken
      exact ⟨task, List.mem_append_left _ member, rfl, List.prefix_rfl⟩
  | advance index choice =>
      obtain ⟨job, trace, op, next, answer, state, found, -, rfl⟩ :=
        Machine.step_advance taken
      obtain ⟨position, atPosition⟩ := List.getElem?_of_mem member
      by_cases same : position = index
      · subst same
        obtain rfl : { job, trace, program := .perform op next } = task := by
          simpa [found] using atPosition
        have inside := (List.getElem?_eq_some_iff.mp found).1
        have changed : (pool.tasks.set position
            { job
              trace := trace ++ [⟨op, answer⟩]
              program := next answer })[position]? = some
            { job
              trace := trace ++ [⟨op, answer⟩]
              program := next answer } := by
          simp [inside]
        exact ⟨_, List.mem_append_left _ (List.mem_of_getElem? changed), rfl,
          List.prefix_append _ _⟩
      · refine ⟨task, List.mem_append_left _ ?_, rfl, List.prefix_rfl⟩
        refine List.mem_of_getElem? (i := position) ?_
        rw [List.getElem?_set_ne (Ne.symm same)]
        exact atPosition

theorem Machine.Reaches.grows
    (reached : machine.Reaches admits start pool) :
    ∀ task ∈ start.tasks, ∃ later ∈ pool.tasks,
      later.job = task.job ∧ task.trace <+: later.trace := by
  induction reached with
  | refl => exact fun task member => ⟨task, member, rfl, List.prefix_rfl⟩
  | step _ _ taken induction =>
      intro task member
      obtain ⟨middle, inPool, sameJob, longer⟩ := induction task member
      obtain ⟨last, inTarget, sameAsMiddle, grown⟩ :=
        Machine.step_grows taken middle inPool
      exact ⟨last, inTarget, sameAsMiddle.trans sameJob,
        longer.trans grown⟩

end Remembers

end Concurrency
