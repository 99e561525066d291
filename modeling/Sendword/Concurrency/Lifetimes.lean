import Sendword.Concurrency.Discipline

/-!
# Crashes and restarts

A machine stops after any step.  Its tasks are gone, some recovery changes the
state, and another run starts without a task.  The ghosts of the tasks that
are gone stay behind: an invariant that arrivals and single operations keep,
and that the recovery keeps for some ghosts, holds in every lifetime beside
what the earlier ones have left.
-/

namespace Concurrency

variable {State Choice Job Output : Type} {Op : Type} {Answer : Op → Type}

namespace Machine

variable {machine : Machine State Choice Job Answer Output}
  {admits stronger : Pool State Job Answer Output → Label Choice Job → Prop}
  {restarts : State → State → Prop}
  {start pool : Pool State Job Answer Output}

/-- The pools of all lifetimes: a run is cut off in any pool, and the next one
starts from a state that the recovery makes of its state. -/
inductive Lifetimes (machine : Machine State Choice Job Answer Output)
    (admits : Pool State Job Answer Output → Label Choice Job → Prop)
    (restarts : State → State → Prop)
    (start : Pool State Job Answer Output) :
    Pool State Job Answer Output → Prop where
  | first {pool : Pool State Job Answer Output} :
      machine.Reaches admits start pool →
      Lifetimes machine admits restarts start pool
  | again {stopped pool : Pool State Job Answer Output} {state : State} :
      Lifetimes machine admits restarts start stopped →
      restarts stopped.state state →
      machine.Reaches admits { state, tasks := [] } pool →
      Lifetimes machine admits restarts start pool

/-- What holds in every pool of one run may be asked of every step of all. -/
theorem Lifetimes.strengthen (empty : start.tasks = [])
    (implies : ∀ fresh pool label, fresh.tasks = [] →
      machine.Reaches admits fresh pool → admits pool label →
      stronger pool label)
    (lives : machine.Lifetimes admits restarts start pool) :
    machine.Lifetimes stronger restarts start pool := by
  induction lives with
  | first reached =>
      exact .first (reached.strengthen fun pool label before admitted =>
        implies _ pool label empty before admitted)
  | again _ restarted reached induction =>
      exact .again induction restarted
        (reached.strengthen fun pool label before admitted =>
          implies _ pool label rfl before admitted)

end Machine

namespace Discipline

variable {machine : Machine State Choice Job Answer Output} {Ghost : Type}
  {discipline : Discipline machine Ghost}
  {good : Pool State Job Answer Output → Label Choice Job → Prop}
  {invariant : State → Multiset Ghost → Prop}

/-- The invariant, with the ghosts of tasks that are gone. -/
def Beside (invariant : State → Multiset Ghost → Prop)
    (gone : Multiset Ghost) (state : State) (ghosts : Multiset Ghost) :
    Prop :=
  invariant state (ghosts + gone)

theorem Admits.beside
    (arrivals : discipline.Admits good invariant)
    (gone : Multiset Ghost) :
    discipline.Admits good (Beside invariant gone) := by
  intro pool job ghosts admitted holds
  obtain ⟨given, joined⟩ := arrivals pool job (ghosts + gone) admitted holds
  refine ⟨given, ?_⟩
  rw [Beside, Multiset.cons_add]
  exact joined

theorem Preserves.beside
    (preserves : discipline.Preserves good invariant)
    (gone : Multiset Ghost) :
    discipline.Preserves good (Beside invariant gone) := by
  intro pool index job trace op next choice answer state ghost rest admitted
    found linked allowed performed holds
  rw [Beside, Multiset.cons_add] at holds
  obtain ⟨after, moved, kept⟩ := preserves pool index job trace op next
    choice answer state ghost (rest + gone) admitted found linked allowed
    performed holds
  refine ⟨after, moved, ?_⟩
  rw [Beside, Multiset.cons_add, Multiset.add_assoc]
  exact kept

/-- The rule of disciplines for one lifetime. -/
theorem reaches_beside
    (lawful : discipline.Lawful)
    (arrivals : discipline.Admits good invariant)
    (preserves : discipline.Preserves good invariant)
    {start pool : Pool State Job Answer Output}
    (empty : start.tasks = [])
    {gone : Multiset Ghost}
    (initially : invariant start.state gone)
    (reached : machine.Reaches good start pool) :
    ∃ ghosts : List Ghost, discipline.Covers pool ghosts ∧
      invariant pool.state (ghosts + gone) := by
  have beside : Beside invariant gone start.state 0 := by
    rw [Beside, Multiset.zero_add]
    exact initially
  exact reaches_invariant lawful (arrivals.beside gone)
    (preserves.beside gone) empty beside reached

/-- The rule of disciplines for all lifetimes. -/
theorem lifetimes_invariant
    (lawful : discipline.Lawful)
    (arrivals : discipline.Admits good invariant)
    (preserves : discipline.Preserves good invariant)
    {restarts : State → State → Prop}
    (recovers : ∀ state after ghosts, restarts state after →
      invariant state ghosts → ∃ gone, invariant after gone)
    {start pool : Pool State Job Answer Output}
    (empty : start.tasks = [])
    (initially : invariant start.state 0)
    (lives : machine.Lifetimes good restarts start pool) :
    ∃ (ghosts : List Ghost) (gone : Multiset Ghost),
      discipline.Covers pool ghosts ∧
        invariant pool.state (ghosts + gone) := by
  induction lives with
  | first reached =>
      obtain ⟨ghosts, covers, holds⟩ :=
        reaches_beside lawful arrivals preserves empty initially reached
      exact ⟨ghosts, 0, covers, holds⟩
  | @again stopped pool state _ restarted reached induction =>
      obtain ⟨ghosts, gone, -, holds⟩ := induction
      obtain ⟨left, recovered⟩ := recovers stopped.state state _ restarted
        holds
      obtain ⟨later, covers, holds⟩ :=
        reaches_beside lawful arrivals preserves rfl recovered reached
      exact ⟨later, left, covers, holds⟩

end Discipline

end Concurrency
