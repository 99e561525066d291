import Sendword.Concurrency.Trace
import Sendword.Hook.Protocol

/-!
# Runs with one configuration

Where nobody stores another configuration, every task reads the same one.
-/

namespace Sendword

open Concurrency

/-- The configuration stays. -/
def KeepsConfig (watched : Watched) (pool : ServerPool) :
    ServerLabel → Prop
  | .arrive _ => True
  | .advance index _ =>
      match pool.next? index with
      | some (_, _, .storeConfig config) => config = watched.config
      | _ => True

/-- A task that reads the configuration reads this one. -/
def ReadsConfig (watched : Watched) (event : Event Op.Answer) : Prop :=
  ∀ config, event = ⟨.loadConfig, config⟩ → config = watched.config

section Runs

variable {watched : Watched} {outside : Outside} {start pool : ServerPool}
  {admits : ServerPool → ServerLabel → Prop}

theorem config_kept (config : start.state.config = watched.config)
    (keeps : ∀ pool label, admits pool label → KeepsConfig watched pool label)
    (run : (server outside).Reaches admits start pool) :
    pool.state.config = watched.config := by
  induction run with
  | refl => exact config
  | @step pool target label _ admitted taken induction =>
      have stays := keeps pool label admitted
      cases label with
      | arrive job =>
          cases taken
          exact induction
      | advance index choice =>
          obtain ⟨job, trace, operation, next, answer, state, found,
            performed, rfl⟩ := Machine.step_advance taken
          simp only [KeepsConfig, Pool.next?_eq found] at stays
          by_cases stores : ∃ config, operation = .storeConfig config
          · obtain ⟨config, rfl⟩ := stores
            cases performed
            exact stays
          · exact (perform_config (fun config same => stores ⟨config, same⟩)
              performed).trans induction

theorem read_config (empty : start.tasks = [])
    (config : start.state.config = watched.config)
    (keeps : ∀ pool label, admits pool label → KeepsConfig watched pool label)
    (run : (server outside).Reaches admits start pool) :
    ∀ task ∈ pool.tasks, ∀ event ∈ task.trace,
      ReadsConfig watched event := by
  refine Machine.Reaches.happened ?_ empty run
  intro middle before _ _ _ operation choice answer after _ _ performed read
    same
  cases same
  cases performed
  exact config_kept config keeps before

end Runs

end Sendword
