import Mathlib.Data.Prod.Lex
import Mathlib.Logic.Hydra
import Mathlib.Order.OrderIsoNat
import Sendword.Concurrency.Trace

/-!
# Pools that come to rest

A task performs finitely many operations, but it may start other tasks, and
they may start others again.  Where every task has a stage and only starts
tasks of a lower one, the pool runs down: what is left of one task is replaced
by what is left of it after an operation and by programs of lower stages.
-/

namespace Concurrency

variable {State Choice Job Output : Type} {Op : Type} {Answer : Op → Type}

namespace Program

variable {α : Type}

/-- What is left of a program after the operation it performs next. -/
def IsAfter (rest program : Program Answer α) : Prop :=
  ∃ op next answer, program = .perform op next ∧ rest = next answer

theorem wellFounded_isAfter :
    WellFounded (IsAfter : Program Answer α → Program Answer α → Prop) := by
  refine ⟨fun program => ?_⟩
  induction program with
  | pure value =>
      refine ⟨_, fun rest => ?_⟩
      rintro ⟨op, next, answer, impossible, -⟩
      cases impossible
  | perform op next induction =>
      refine ⟨_, fun rest => ?_⟩
      rintro ⟨_, _, answer, same, rfl⟩
      cases same
      exact induction answer

theorem Follows.once {program rest : Program Answer α} {bad : Op → Prop}
    {trace : List (Event Answer)} (follows : program.Follows trace rest)
    (whole : program.Once bad) :
    rest.Once bad ∧
      ((∃ event ∈ trace, bad event.op) → rest.Avoids bad) := by
  induction follows with
  | start => exact ⟨whole, by simp⟩
  | @step trace op next answer _ induction =>
      obtain ⟨once, before⟩ := induction
      refine ⟨once.2 answer, ?_⟩
      rintro ⟨event, member, isBad⟩
      rcases List.mem_append.mp member with old | new
      · exact (before ⟨event, old, isBad⟩).2 answer
      · obtain rfl := List.mem_singleton.mp new
        exact once.1 isBad answer

end Program

namespace Machine

variable (machine : Machine State Choice Job Answer Output)

/-- One task performs one operation. -/
def Works (target pool : Pool State Job Answer Output) : Prop :=
  ∃ index choice, machine.step pool (.advance index choice) = some target

/-- What is left to do, with the stages of the tasks. -/
def work (stages : List Nat) (tasks : List (Task Job Answer Output)) :
    Multiset (Nat × Program Answer Output) :=
  (stages.zip (tasks.map (·.program)) : List _)

/-- A lower stage, or the same program further on. -/
def Less : Nat × Program Answer Output → Nat × Program Answer Output → Prop :=
  Prod.Lex (· < ·) Program.IsAfter

theorem wellFounded_less :
    WellFounded (Less : Nat × Program Answer Output →
      Nat × Program Answer Output → Prop) :=
  (Prod.lex ⟨_, Nat.lt_wfRel.wf⟩ ⟨_, Program.wellFounded_isAfter⟩).wf

variable {machine}

private theorem set_cons_perm {Item : Type} {items : List Item}
    {index : Nat} {old : Item} (changed : Item)
    (found : items[index]? = some old) :
    (old :: items.set index changed).Perm (changed :: items) := by
  induction items generalizing index with
  | nil => cases found
  | cons first items induction =>
      cases index with
      | zero =>
          obtain rfl : first = old := by simpa using found
          exact .swap ..
      | succ index =>
          have found : items[index]? = some old := by simpa using found
          exact ((List.Perm.swap ..).trans ((induction found).cons first)).trans
            (.swap ..)

/-- One operation replaces the work of its task by less. -/
theorem work_advance {stages news : List Nat}
    {tasks others : List (Task Job Answer Output)} {index stage : Nat}
    {task moved : Task Job Answer Output}
    (sameLength : stages.length = tasks.length)
    (stageFound : stages[index]? = some stage)
    (taskFound : tasks[index]? = some task)
    (after : moved.program.IsAfter task.program)
    (lower : ∀ other ∈ news, other < stage) :
    Relation.CutExpand Less
      (work (stages ++ news) (tasks.set index moved ++ others))
      (work stages tasks) := by
  have pair : (stages.zip (tasks.map (·.program)))[index]? =
      some (stage, task.program) := by
    rw [List.getElem?_zip_eq_some]
    exact ⟨stageFound, by simp [taskFound]⟩
  have changed : (stages ++ news).zip
      ((tasks.set index moved ++ others).map (·.program)) =
        (stages.zip (tasks.map (·.program))).set index
            (stage, moved.program) ++
          news.zip (others.map (·.program)) := by
    rw [List.map_append, List.zip_append (by simp [sameLength])]
    congr 1
    refine List.ext_getElem? fun position => ?_
    by_cases same : index = position
    · subst same
      have inside := (List.getElem?_eq_some_iff.mp pair).1
      rw [List.getElem?_set_self inside, List.getElem?_zip_eq_some]
      have insideTasks := (List.getElem?_eq_some_iff.mp taskFound).1
      exact ⟨stageFound, by simp [insideTasks]⟩
    · rw [List.getElem?_set_ne same, List.map_set]
      simp [List.zip, List.getElem?_zipWith, List.getElem?_set_ne same]
  refine ⟨((stage, moved.program) :: news.zip (others.map (·.program)) :
    List _), (stage, task.program), ?_, ?_⟩
  · intro left member
    rcases List.mem_cons.mp (Multiset.mem_coe.mp member) with rfl | new
    · exact .right _ after
    · exact .left _ _ (lower _ (List.of_mem_zip new).1)
  · unfold work
    rw [changed, ← Multiset.coe_singleton, Multiset.coe_add,
      Multiset.coe_add]
    refine Multiset.coe_eq_coe.mpr ?_
    have swapped := set_cons_perm (stage, moved.program) pair
    refine List.perm_append_comm.trans ?_
    exact (swapped.append_right _).trans List.perm_middle.symm

/-- The rule of stages: a property of pools and stages that every operation
keeps, where new tasks get lower stages than the task that starts them. -/
theorem acc_of_stages
    {holds : Pool State Job Answer Output → List Nat → Prop}
    (aligned : ∀ pool stages, holds pool stages →
      stages.length = pool.tasks.length)
    (kept : ∀ pool stages index choice target, holds pool stages →
      machine.step pool (.advance index choice) = some target →
      ∃ stage news, stages[index]? = some stage ∧
        (∀ other ∈ news, other < stage) ∧ holds target (stages ++ news))
    {pool : Pool State Job Answer Output} {stages : List Nat}
    (initially : holds pool stages) : Acc machine.Works pool := by
  have wellFounded : WellFounded (Relation.CutExpand
      (Less : Nat × Program Answer Output → Nat × Program Answer Output →
        Prop)) := wellFounded_less.cutExpand
  generalize isWork : work stages pool.tasks = left
  induction left using wellFounded.induction generalizing pool stages with
  | h left induction =>
      subst isWork
      refine ⟨_, fun target => ?_⟩
      rintro ⟨index, choice, taken⟩
      obtain ⟨stage, news, stageFound, lower, after⟩ :=
        kept pool stages index choice target initially taken
      obtain ⟨job, trace, op, next, answer, state, found, -, rfl⟩ :=
        step_advance taken
      refine induction _ ?_ after rfl
      exact work_advance (aligned pool stages initially) stageFound found
        ⟨op, next, answer, rfl, rfl⟩ lower

/-- Nothing arrives. -/
def Advances (_ : Pool State Job Answer Output) : Label Choice Job → Prop
  | .arrive _ => False
  | .advance .. => True

/-- Every task has ended. -/
def AtRest (pool : Pool State Job Answer Output) : Prop :=
  ∀ task ∈ pool.tasks, task.program.next? = none

instance [DecidableEq Op] (pool : Pool State Job Answer Output) :
    Decidable (AtRest pool) :=
  inferInstanceAs (Decidable (∀ task ∈ pool.tasks,
    task.program.next? = none))

/-- A pool from which no run goes on for ever comes to rest. -/
theorem exists_atRest
    (enabled : ∀ op state, ∃ choice answer after,
      machine.perform op choice state = some (answer, after))
    {pool : Pool State Job Answer Output} (acc : Acc machine.Works pool) :
    ∃ rested, machine.Reaches Advances pool rested ∧ AtRest rested := by
  induction acc with
  | intro pool _ induction =>
      by_cases rests : AtRest pool
      · exact ⟨pool, .refl, rests⟩
      · simp only [AtRest, not_forall] at rests
        obtain ⟨task, member, unfinished⟩ := rests
        obtain ⟨index, found⟩ := List.getElem?_of_mem member
        obtain ⟨job, trace, program⟩ := task
        cases program with
        | pure value => exact (unfinished rfl).elim
        | perform op next =>
            obtain ⟨choice, answer, state, performed⟩ :=
              enabled op pool.state
            have taken : ∃ target,
                machine.step pool (.advance index choice) = some target :=
              ⟨_, by simp [step, found, performed]; rfl⟩
            obtain ⟨target, taken⟩ := taken
            obtain ⟨rested, later, ended⟩ :=
              induction target ⟨index, choice, taken⟩
            exact ⟨rested, (Reaches.step .refl trivial taken).append later,
              ended⟩

/-- No run without arrivals goes on for ever. -/
theorem not_endless {pool : Pool State Job Answer Output}
    (acc : Acc machine.Works pool) :
    ¬ ∃ pools : Nat → Pool State Job Answer Output, pools 0 = pool ∧
      ∀ count, machine.Works (pools (count + 1)) (pools count) := by
  rintro ⟨pools, first, steps⟩
  exact (acc_iff_isEmpty_descending_chain.mp acc).elim ⟨pools, first, steps⟩

end Machine

end Concurrency
