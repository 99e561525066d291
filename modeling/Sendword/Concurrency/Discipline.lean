import Mathlib.Data.Multiset.AddSub
import Sendword.Concurrency.Pool

/-!
# Disciplines: invariants of pools by local reasoning

A discipline gives every task a ghost value that says what the task owns and
knows.  It fixes which operations a ghost value allows and how the ghost
moves with the answer.  A program is verified against the discipline once, on
its own; a pool invariant over the state and the ghosts of all tasks is then
kept by every interleaving as soon as every single operation keeps it.
-/

namespace Concurrency

variable {State Choice Job Output : Type} {Op : Type} {Answer : Op → Type}

structure Discipline (machine : Machine State Choice Job Answer Output)
    (Ghost : Type) where
  /-- The jobs the discipline covers. -/
  admits : Job → Prop
  start : Job → Ghost
  allows : Ghost → Op → Prop
  /-- The ghost values that can follow an operation and its answer. -/
  moves : Ghost → (op : Op) → Answer op → Ghost → Prop
  /-- The ghost values a task may end with. -/
  closes : Ghost → Prop
  /-- What the ghost value says about the job and the task's past. -/
  link : Job → List (Event Answer) → Ghost → Prop

namespace Discipline

variable {machine : Machine State Choice Job Answer Output} {Ghost α β : Type}
variable (discipline : Discipline machine Ghost)

/-- From `ghost` on, the program performs only allowed operations and ends
with a value and a ghost that satisfy `post`. -/
def Obeys (program : Program Answer α) (post : Ghost → α → Prop)
    (ghost : Ghost) : Prop :=
  match program with
  | .pure value => post ghost value
  | .perform op next =>
      discipline.allows ghost op ∧
        ∀ answer after, discipline.moves ghost op answer after →
          Obeys (next answer) post after

@[simp] theorem obeys_pure (value : α) (post : Ghost → α → Prop)
    (ghost : Ghost) :
    discipline.Obeys (.pure value) post ghost ↔ post ghost value :=
  Iff.rfl

theorem obeys_perform (op : Op)
    (next : Answer op → Program Answer α) (post : Ghost → α → Prop)
    (ghost : Ghost) :
    discipline.Obeys (.perform op next) post ghost ↔
      discipline.allows ghost op ∧
        ∀ answer after, discipline.moves ghost op answer after →
          discipline.Obeys (next answer) post after :=
  Iff.rfl

theorem Obeys.mono {discipline : Discipline machine Ghost}
    {program : Program Answer α} {post weaker : Ghost → α → Prop}
    {ghost : Ghost}
    (obeys : discipline.Obeys program post ghost)
    (implies : ∀ ghost value, post ghost value → weaker ghost value) :
    discipline.Obeys program weaker ghost := by
  induction program generalizing ghost with
  | pure value => exact implies ghost value obeys
  | perform op next induction =>
      refine ⟨obeys.1, ?_⟩
      intro answer after moved
      exact induction answer (obeys.2 answer after moved)

@[simp] theorem obeys_bind (program : Program Answer α)
    (rest : α → Program Answer β) (post : Ghost → β → Prop)
    (ghost : Ghost) :
    discipline.Obeys (program.bind rest) post ghost ↔
      discipline.Obeys program
        (fun after value => discipline.Obeys (rest value) post after)
        ghost := by
  induction program generalizing ghost with
  | pure value => rfl
  | perform op next induction =>
      simp only [Program.perform_bind, obeys_perform, induction]

/-- The rule for running a program for every item of a list: an invariant of
the ghost alone, kept by the body, holds at the end. -/
theorem obeys_forEach (items : List β) (body : β → Program Answer Unit)
    (invariant : Ghost → Prop) (ghost : Ghost)
    (initially : invariant ghost)
    (kept : ∀ item ghost, item ∈ items → invariant ghost →
      discipline.Obeys (body item) (fun after _ => invariant after) ghost) :
    discipline.Obeys (Program.forEach items body)
      (fun after _ => invariant after) ghost := by
  induction items generalizing ghost with
  | nil => exact initially
  | cons item items induction =>
      rw [Program.forEach, obeys_bind]
      refine (kept item ghost (by simp) initially).mono ?_
      intro after _ invariantAfter
      exact induction after invariantAfter
        (fun item ghost member =>
          kept item ghost (List.mem_cons_of_mem _ member))

/-- The ghosts of the tasks an operation starts. -/
def forkedGhosts (op : Op) : List Ghost :=
  ((machine.forks op).map discipline.start).toList

/-- One ghost for each task, linked to its past, from which the rest of its
program obeys the discipline. -/
structure Covers (pool : Pool State Job Answer Output)
    (ghosts : List Ghost) : Prop where
  length_eq : ghosts.length = pool.tasks.length
  linked : ∀ (index : Nat) task ghost, pool.tasks[index]? = some task →
    ghosts[index]? = some ghost →
    discipline.link task.job task.trace ghost
  obeys : ∀ (index : Nat) task ghost, pool.tasks[index]? = some task →
    ghosts[index]? = some ghost →
    discipline.Obeys task.program (fun after _ => discipline.closes after)
      ghost

/-- What has to be shown of programs and of links before the rule applies. -/
structure Lawful : Prop where
  bodies : ∀ job, discipline.admits job →
    discipline.Obeys (machine.body job)
      (fun after _ => discipline.closes after) (discipline.start job)
  link_start : ∀ job, discipline.admits job →
    discipline.link job [] (discipline.start job)
  link_moves : ∀ job trace ghost op answer after,
    discipline.link job trace ghost →
    discipline.allows ghost op →
    discipline.moves ghost op answer after →
    discipline.link job (trace ++ [⟨op, answer⟩]) after
  forks : ∀ ghost op job, discipline.allows ghost op →
    machine.forks op = some job → discipline.admits job

/-- One operation of one task keeps the invariant, for some next ghost.  The
ghosts of the other tasks stay in `rest`. -/
def Preserves
    (good : Pool State Job Answer Output → Label Choice Job → Prop)
    (invariant : State → Multiset Ghost → Prop) : Prop :=
  ∀ pool (index : Nat) job trace op next choice answer state ghost rest,
    good pool (.advance index choice) →
    pool.tasks[index]? = some { job, trace, program := .perform op next } →
    discipline.link job trace ghost →
    discipline.allows ghost op →
    machine.perform op choice pool.state = some (answer, state) →
    invariant pool.state (ghost ::ₘ rest) →
    ∃ after, discipline.moves ghost op answer after ∧
      invariant state (after ::ₘ (discipline.forkedGhosts op + rest))

/-- A job that may arrive is covered and keeps the invariant. -/
def Admits
    (good : Pool State Job Answer Output → Label Choice Job → Prop)
    (invariant : State → Multiset Ghost → Prop) : Prop :=
  ∀ pool job ghosts, good pool (.arrive job) →
    invariant pool.state ghosts →
    discipline.admits job ∧
      invariant pool.state (discipline.start job ::ₘ ghosts)

variable {discipline}

private theorem getElem?_snoc {Item : Type} {items : List Item}
    {index : Nat} {last item : Item}
    (found : (items ++ [last])[index]? = some item) :
    items[index]? = some item ∨ index = items.length ∧ item = last := by
  rw [List.getElem?_append] at found
  split at found
  · exact .inl found
  · rename_i outside
    right
    rw [List.getElem?_singleton] at found
    split at found
    · rename_i zero
      exact ⟨by omega, by simpa using found.symm⟩
    · cases found

theorem Covers.arrive (lawful : discipline.Lawful)
    {pool : Pool State Job Answer Output} {ghosts : List Ghost}
    (covers : discipline.Covers pool ghosts)
    (job : Job) (admitted : discipline.admits job) :
    discipline.Covers
      { pool with tasks := pool.tasks ++ [machine.launch job] }
      (ghosts ++ [discipline.start job]) := by
  have sameLength := covers.length_eq
  refine ⟨by simp [sameLength], ?_, ?_⟩
  · intro index task ghost taskFound ghostFound
    rcases getElem?_snoc taskFound with oldTask | ⟨atEnd, rfl⟩
    · rcases getElem?_snoc ghostFound with oldGhost | ⟨atEnd, -⟩
      · exact covers.linked index task ghost oldTask oldGhost
      · have := (List.getElem?_eq_some_iff.mp oldTask).1
        omega
    · rcases getElem?_snoc ghostFound with oldGhost | ⟨-, rfl⟩
      · have := (List.getElem?_eq_some_iff.mp oldGhost).1
        omega
      · exact lawful.link_start job admitted
  · intro index task ghost taskFound ghostFound
    rcases getElem?_snoc taskFound with oldTask | ⟨atEnd, rfl⟩
    · rcases getElem?_snoc ghostFound with oldGhost | ⟨atEnd, -⟩
      · exact covers.obeys index task ghost oldTask oldGhost
      · have := (List.getElem?_eq_some_iff.mp oldTask).1
        omega
    · rcases getElem?_snoc ghostFound with oldGhost | ⟨-, rfl⟩
      · have := (List.getElem?_eq_some_iff.mp oldGhost).1
        omega
      · exact lawful.bodies job admitted

private theorem getElem?_set_cases {Item : Type} {items : List Item}
    {position index : Nat} {changed item : Item}
    (found : (items.set position changed)[index]? = some item) :
    index = position ∧ item = changed ∨
      index ≠ position ∧ items[index]? = some item := by
  rw [List.getElem?_set] at found
  split at found
  · rename_i same
    split at found
    · exact .inl ⟨same.symm, by simpa using found.symm⟩
    · cases found
  · rename_i different
    exact .inr ⟨fun equality => different equality.symm, found⟩

theorem Covers.advance (lawful : discipline.Lawful)
    {pool : Pool State Job Answer Output} {ghosts : List Ghost}
    (covers : discipline.Covers pool ghosts)
    {index : Nat} {job : Job} {trace : List (Event Answer)} {op : Op}
    {next : Answer op → Program Answer Output} {answer : Answer op}
    {ghost after : Ghost} (state : State)
    (taskFound : pool.tasks[index]? =
      some { job, trace, program := .perform op next })
    (ghostFound : ghosts[index]? = some ghost)
    (moved : discipline.moves ghost op answer after) :
    discipline.Covers
      { state
        tasks :=
          pool.tasks.set index
            { job
              trace := trace ++ [⟨op, answer⟩]
              program := next answer } }
      (ghosts.set index after) := by
  have obeys := covers.obeys index _ ghost taskFound ghostFound
  refine ⟨by simp [covers.length_eq], ?_, ?_⟩
  · intro position task other otherTask otherGhost
    rcases getElem?_set_cases otherTask with ⟨rfl, rfl⟩ | ⟨away, oldTask⟩
    · rcases getElem?_set_cases otherGhost with ⟨-, rfl⟩ | ⟨away, -⟩
      · exact lawful.link_moves _ _ _ _ _ _
          (covers.linked _ _ _ taskFound ghostFound) obeys.1 moved
      · exact (away rfl).elim
    · rcases getElem?_set_cases otherGhost with ⟨rfl, -⟩ | ⟨-, oldGhost⟩
      · exact (away rfl).elim
      · exact covers.linked _ _ _ oldTask oldGhost
  · intro position task other otherTask otherGhost
    rcases getElem?_set_cases otherTask with ⟨rfl, rfl⟩ | ⟨away, oldTask⟩
    · rcases getElem?_set_cases otherGhost with ⟨-, rfl⟩ | ⟨away, -⟩
      · exact obeys.2 answer _ moved
      · exact (away rfl).elim
    · rcases getElem?_set_cases otherGhost with ⟨rfl, -⟩ | ⟨-, oldGhost⟩
      · exact (away rfl).elim
      · exact covers.obeys _ _ _ oldTask oldGhost

private theorem cons_eraseIdx_perm {Item : Type} {items : List Item}
    {index : Nat} {item : Item}
    (found : items[index]? = some item) :
    items.Perm (item :: items.eraseIdx index) := by
  induction items generalizing index with
  | nil => cases found
  | cons first items induction =>
      cases index with
      | zero =>
          have equality : first = item := by simpa using found
          simp [equality]
      | succ index =>
          have found : items[index]? = some item := by simpa using found
          rw [List.eraseIdx_cons_succ]
          exact ((induction found).cons first).trans (.swap ..)

private theorem set_perm {Item : Type} {items : List Item}
    {index : Nat} {item : Item} (changed : Item)
    (found : items[index]? = some item) :
    (items.set index changed).Perm (changed :: items.eraseIdx index) := by
  have inside := (List.getElem?_eq_some_iff.mp found).1
  have changedFound : (items.set index changed)[index]? = some changed := by
    simp [inside]
  simpa [List.eraseIdx_set_eq] using cons_eraseIdx_perm changedFound

/-- The ghost of one task, beside those of the others. -/
theorem Covers.pick {pool : Pool State Job Answer Output}
    {ghosts : List Ghost} (covers : discipline.Covers pool ghosts)
    {index : Nat} {task : Task Job Answer Output}
    (found : pool.tasks[index]? = some task) :
    ∃ ghost, ghosts[index]? = some ghost ∧
      (ghosts : Multiset Ghost) =
        ghost ::ₘ (ghosts.eraseIdx index : List Ghost) ∧
      discipline.link task.job task.trace ghost ∧
      discipline.Obeys task.program (fun after _ => discipline.closes after)
        ghost := by
  have inside : index < ghosts.length := by
    rw [covers.length_eq]
    exact (List.getElem?_eq_some_iff.mp found).1
  have ghostFound : ghosts[index]? = some ghosts[index] :=
    List.getElem?_eq_getElem inside
  refine ⟨ghosts[index], ghostFound, ?_, ?_, ?_⟩
  · exact Multiset.coe_eq_coe.mpr (cons_eraseIdx_perm ghostFound)
  · exact covers.linked index task _ found ghostFound
  · exact covers.obeys index task _ found ghostFound

/-- The task of a ghost. -/
theorem Covers.task_of_mem {pool : Pool State Job Answer Output}
    {ghosts : List Ghost} (covers : discipline.Covers pool ghosts)
    {ghost : Ghost} (member : ghost ∈ ghosts) :
    ∃ task ∈ pool.tasks, discipline.link task.job task.trace ghost ∧
      discipline.Obeys task.program (fun after _ => discipline.closes after)
        ghost := by
  obtain ⟨index, ghostFound⟩ := List.mem_iff_getElem?.mp member
  have inside : index < pool.tasks.length := by
    rw [← covers.length_eq]
    exact (List.getElem?_eq_some_iff.mp ghostFound).1
  have found : pool.tasks[index]? = some pool.tasks[index] :=
    List.getElem?_eq_getElem inside
  exact ⟨_, List.mem_of_getElem? found,
    covers.linked index _ ghost found ghostFound,
    covers.obeys index _ ghost found ghostFound⟩

/-- What every ghost says about its task, said of all tasks at once. -/
theorem Covers.map_eq {Item : Type}
    {pool : Pool State Job Answer Output} {ghosts : List Ghost}
    (covers : discipline.Covers pool ghosts)
    (ofTask : Task Job Answer Output → Item) (ofGhost : Ghost → Item)
    (agree : ∀ task ghost, discipline.link task.job task.trace ghost →
      discipline.Obeys task.program (fun after _ => discipline.closes after)
        ghost →
      ofTask task = ofGhost ghost) :
    pool.tasks.map ofTask = ghosts.map ofGhost := by
  refine List.ext_getElem? fun index => ?_
  rw [List.getElem?_map, List.getElem?_map]
  cases found : pool.tasks[index]? with
  | none =>
      have outsideGhosts : ghosts[index]? = none := by
        rw [List.getElem?_eq_none_iff] at found ⊢
        rw [covers.length_eq]
        exact found
      rw [outsideGhosts]
      rfl
  | some task =>
      obtain ⟨ghost, ghostFound, -, linked, obeys⟩ := covers.pick found
      rw [ghostFound, Option.map_some, Option.map_some,
        agree task ghost linked obeys]

/-- The rule of disciplines: an invariant that arrivals and single operations
keep holds, with matching ghosts, in every pool that is reached. -/
theorem reaches_invariant (lawful : discipline.Lawful)
    {good : Pool State Job Answer Output → Label Choice Job → Prop}
    {invariant : State → Multiset Ghost → Prop}
    (arrivals : discipline.Admits good invariant)
    (preserves : discipline.Preserves good invariant)
    {start pool : Pool State Job Answer Output}
    (empty : start.tasks = [])
    (initially : invariant start.state 0)
    (reached : machine.Reaches good start pool) :
    ∃ ghosts : List Ghost, discipline.Covers pool ghosts ∧
      invariant pool.state ghosts := by
  induction reached with
  | refl =>
      refine ⟨[], ⟨by simp [empty], ?_, ?_⟩, initially⟩
      · intro index task ghost taskFound
        simp [empty] at taskFound
      · intro index task ghost taskFound
        simp [empty] at taskFound
  | @step pool target label _ admitted taken induction =>
      obtain ⟨ghosts, covers, holds⟩ := induction
      cases label with
      | arrive job =>
          have equality : target =
              { pool with tasks := pool.tasks ++ [machine.launch job] } := by
            simpa [Machine.step] using taken.symm
          subst target
          obtain ⟨jobAdmitted, joined⟩ := arrivals pool job ghosts admitted
            holds
          refine ⟨ghosts ++ [discipline.start job],
            covers.arrive lawful job jobAdmitted, ?_⟩
          have perm : (ghosts ++ [discipline.start job]).Perm
              (discipline.start job :: ghosts) :=
            List.perm_append_singleton _ _
          rw [Multiset.coe_eq_coe.mpr perm]
          exact joined
      | advance index choice =>
          obtain ⟨job, trace, op, next, answer, state, taskFound, performed,
            rfl⟩ := Machine.step_advance taken
          obtain ⟨ghost, ghostFound, parts, linked, obeys⟩ :=
            covers.pick taskFound
          rw [parts] at holds
          obtain ⟨after, moved, holdsAfter⟩ :=
            preserves pool index job trace op next choice answer state
              ghost (ghosts.eraseIdx index) admitted taskFound linked obeys.1
              performed holds
          refine ⟨ghosts.set index after ++ discipline.forkedGhosts op, ?_,
            ?_⟩
          · have advanced :=
              covers.advance lawful state taskFound ghostFound moved
            unfold forkedGhosts Machine.forked
            cases forks : machine.forks op with
            | none => simpa [forks] using advanced
            | some child =>
                have childAdmitted := lawful.forks _ _ _ obeys.1 forks
                simpa [forks] using
                  advanced.arrive lawful child childAdmitted
          · have perm : (ghosts.set index after ++
                discipline.forkedGhosts op).Perm
                (after :: (discipline.forkedGhosts op ++
                  ghosts.eraseIdx index)) :=
              ((set_perm after ghostFound).append_right _).trans
                (List.perm_append_comm.cons after)
            rw [Multiset.coe_eq_coe.mpr perm]
            exact holdsAfter

end Discipline

end Concurrency
