import Sendword.Hook.Owners

/-!
# The barrier lock is a single token

For a hook with concurrency and without approval, in every interleaving of
triggers, runs and completions.
-/

namespace Sendword

open Concurrency

/-- A run of the hook is inside `run_with_retries`: what is left of its code
begins with what is left of a call. -/
def InsideRun (slug : String) (task : ServerTask) : Prop :=
  (task.job.runs? slug).isSome = true ∧
    ∃ context retries trace residual, ∃ rest : ExecutionResult → _,
      (runWithRetries context retries).Follows trace residual ∧
        residual.next? ≠ none ∧ task.program = residual.bind rest

/-- Nothing but triggers arrives. -/
def onlyTriggers : ServerLabel → Bool
  | .arrive (.trigger _) | .advance .. => true
  | .arrive _ => false

theorem InsideRun.unfinished {slug : String} {task : ServerTask}
    (inside : InsideRun slug task) : task.program.next? ≠ none := by
  obtain ⟨-, context, retries, trace, residual, rest, -, unfinished, left⟩ :=
    inside
  rw [left]
  cases residual with
  | pure value => exact (unfinished rfl).elim
  | perform op next => simp

/-- Where a filter keeps at most one item, it keeps it once. -/
private theorem filterMap_index {Item Key : Type} {key : Item → Option Key}
    {items : List Item} (few : (items.filterMap key).length ≤ 1)
    {left right : Nat} {first second : Item}
    (firstFound : items[left]? = some first)
    (secondFound : items[right]? = some second)
    (firstKept : (key first).isSome = true)
    (secondKept : (key second).isSome = true) : left = right := by
  induction items generalizing left right with
  | nil => cases firstFound
  | cons item items induction =>
      have alone : (key item).isSome = true →
          ∀ other ∈ items, ¬ (key other).isSome = true := by
        intro kept other member otherKept
        obtain ⟨value, found⟩ := Option.isSome_iff_exists.mp kept
        obtain ⟨more, moreFound⟩ := Option.isSome_iff_exists.mp otherKept
        have inRest : more ∈ items.filterMap key :=
          List.mem_filterMap.mpr ⟨other, member, moreFound⟩
        have positive := List.length_pos_of_mem inRest
        rw [List.filterMap_cons_some found, List.length_cons] at few
        omega
      have fewer : (items.filterMap key).length ≤ 1 := by
        refine le_trans ?_ few
        exact ((List.sublist_cons_self item items).filterMap key).length_le
      cases left with
      | zero =>
          obtain rfl : item = first := by simpa using firstFound
          cases right with
          | zero => rfl
          | succ right =>
              have member := List.mem_of_getElem? (l := items) secondFound
              exact (alone firstKept second member secondKept).elim
      | succ left =>
          cases right with
          | zero =>
              obtain rfl : item = second := by simpa using secondFound
              have member := List.mem_of_getElem? (l := items) firstFound
              exact (alone secondKept first member firstKept).elim
          | succ right =>
              exact congrArg (· + 1)
                (induction fewer firstFound secondFound)

namespace Watched

variable {watched : Watched} {outside : Outside} {start pool : ServerPool}

theorem onlyTriggers_conduct :
    watched.Conduct False (fun role => role ≠ .decider ∧ role ≠ .replay)
      (fun _ => onlyTriggers) where
  external := by
    intro pool job admitted
    cases job <;> trivial
  arrivals := by
    intro pool job admitted
    cases job with
    | trigger request =>
        simp only [Watched.start]
        split <;> simp
    | approve | reject | replay | expirePendingApprovals | reloadConfig
    | runExecution | runDequeued => cases admitted
  runners := by simp
  foreigners := by simp
  sweeps := fun excluded => (excluded.1 rfl).elim
  replays := fun excluded => (excluded.2 rfl).elim
  logs := False.elim

/-- In every state that triggers, runs and completions reach: the lock rows
of the hook are the live owners of the lock, of which there is at most one;
at most one task of the hook is inside `run_with_retries`; and no task of
another hook changes a row of this one. -/
theorem single_token (watched : Watched)
    (exclusive : watched.exclusive = true)
    (ungated : watched.gated = false) (empty : start.tasks = [])
    (idle : watched.Idle start.state)
    (reached : (server outside).Reaches
      (fun _ label => onlyTriggers label = true) start pool) :
    ((pool.state.db.rowsOf watched.slug).locks.map (·.executionId) =
        liveOwners watched.slug pool.tasks ∧
      (liveOwners watched.slug pool.tasks).length ≤ 1) ∧
    (∀ (left right : Nat) first second,
      pool.tasks[left]? = some first → pool.tasks[right]? = some second →
      InsideRun watched.slug first → InsideRun watched.slug second →
      left = right) ∧
    ∀ (index : Nat) choice task other target,
      pool.tasks[index]? = some task → task.job.slug? = some other →
      other ≠ watched.slug →
      (server outside).step pool (.advance index choice) = some target →
      target.state.db.rowsOf watched.slug =
        pool.state.db.rowsOf watched.slug := by
  obtain ⟨ghosts, covers, holds⟩ :=
    reaches_holds onlyTriggers_conduct empty idle reached
  have owners := locks_liveOwners covers holds exclusive ungated
  have few : (liveOwners watched.slug pool.tasks).length ≤ 1 := by
    rw [owners]
    cases pool.state.db.holder? watched.slug <;> simp
  refine ⟨⟨?_, few⟩, ?_, ?_⟩
  · rw [Db.locks_holder holds.1.keys, owners]
  · have owns : ∀ (index : Nat) task, pool.tasks[index]? = some task →
        InsideRun watched.slug task →
        (liveOwner? watched.slug task).isSome = true := by
      intro index task found inside
      obtain ⟨ghost, -, -, linked, -⟩ := covers.pick found
      obtain ⟨id, runs⟩ := Option.isSome_iff_exists.mp inside.1
      have follows := reached.follows empty task (List.mem_of_getElem? found)
      exact liveOwner_of_runs follows exclusive linked.admitted runs
        inside.unfinished
    intro left right first second firstFound secondFound firstIn secondIn
    exact filterMap_index few firstFound secondFound
      (owns left first firstFound firstIn)
      (owns right second secondFound secondIn)
  · intro index choice task other target found works different taken
    obtain ⟨job, trace, op, next, answer, state, stepFound, performed, rfl⟩ :=
      Machine.step_advance taken
    obtain rfl : task = ⟨job, trace, .perform op next⟩ :=
      Option.some.inj (found.symm.trans stepFound)
    obtain ⟨ghost, ghostFound, parts, linked, obeys⟩ := covers.pick found
    have foreign : ghost.role = .foreign :=
      linked.role.trans (watched.foreign_of_slug works different)
    have token := (holds.2 ghost (parts ▸ Multiset.mem_cons_self _ _)).2
      foreign
    exact foreign_frame foreign token obeys.1 performed (parts ▸ holds.1)

end Watched

def queuedDeploy : HookConfig :=
  { name := "deploy"
    slug := "deploy"
    executor := .shell "true"
    concurrency := some { mode := .queue } }

/-- Two triggers; the run of the first hands the lock to the second and
starts it. -/
def handOffSchedule : List ServerLabel :=
  .arrive (.trigger { slug := "deploy" }) ::
  .arrive (.trigger { slug := "deploy" }) ::
    steps 0 1 ++ stepWithId 0 "first" ++ steps 0 5 ++ stepWithId 0 "fired" ++
      steps 0 4 ++
    steps 1 1 ++ stepWithId 1 "second" ++ steps 1 6 ++
      stepWithId 1 "entry" ++ steps 1 3 ++
    steps 2 11

def handedOff : ServerPool :=
  ((server .accepting).run (fun _ => onlyTriggers)
    (Watched.only queuedDeploy).started handOffSchedule).get (by decide)

theorem single_token_handOff :
    ((handedOff.state.db.rowsOf "deploy").locks.map (·.executionId) =
        liveOwners "deploy" handedOff.tasks ∧
      (liveOwners "deploy" handedOff.tasks).length ≤ 1) ∧
    liveOwners "deploy" handedOff.tasks = ["second"] := by
  have reached : (server .accepting).Reaches
      (fun _ label => onlyTriggers label = true)
      (Watched.only queuedDeploy).started handedOff :=
    .of_run .refl (Option.some_get _).symm
  have holds := Watched.single_token (.only queuedDeploy) rfl rfl rfl
    (Watched.idle_started _) reached
  exact ⟨holds.1, by decide⟩

end Sendword
