import Sendword.Concurrency.Variants
import Sendword.Footprint
import Sendword.Hook.Duty
import Sendword.Hook.LockSafety

/-!
# Runs with changing configurations

The protocol of a hook only depends on its slug and its barriers.  While every
task that reads the configuration finds these as they are, it reads some
variant of the watched configuration, and the invariant of the hook is kept,
whatever is stored in between.
-/

namespace Sendword

open Concurrency

namespace Watched

variable (watched : Watched)

/-- A valid configuration in which the hook has the same barriers. -/
structure KeepsBarriers (config : AppConfig) : Prop where
  distinct : (config.hooks.map (·.slug)).Nodup
  hook : ∃ hook ∈ config.hooks, hook.slug = watched.slug ∧
    hook.concurrency = watched.hook.concurrency ∧
    hook.approval = watched.hook.approval

/-- The same hook, as far as the protocol goes, in another configuration. -/
structure Alike (other : Watched) : Prop where
  slug : other.slug = watched.slug
  concurrency : other.hook.concurrency = watched.hook.concurrency
  approval : other.hook.approval = watched.hook.approval

variable {watched} {other : Watched}

theorem Alike.refl : watched.Alike watched := ⟨rfl, rfl, rfl⟩

theorem KeepsBarriers.alike {config : AppConfig}
    (keeps : watched.KeepsBarriers config) :
    ∃ other : Watched, other.config = config ∧ watched.Alike other := by
  obtain ⟨hook, member, slug, concurrency, approval⟩ := keeps.hook
  exact ⟨⟨config, hook, member, keeps.distinct⟩, rfl,
    ⟨slug, concurrency, approval⟩⟩

theorem Alike.keeps (alike : watched.Alike other) :
    watched.KeepsBarriers other.config :=
  ⟨other.distinct, other.hook, other.member, alike.slug, alike.concurrency,
    alike.approval⟩

/-- What the protocol sees of a hook. -/
def core (watched : Watched) : Watched :=
  .only
    { name := ""
      slug := watched.slug
      executor := .shell ""
      concurrency := watched.hook.concurrency
      approval := watched.hook.approval }

theorem Alike.core (alike : watched.Alike other) :
    other.core = watched.core := by
  simp only [Watched.core, alike.slug, alike.concurrency, alike.approval]

/-! ## The protocol of alike hooks -/

section Core

variable {reliable : Prop} {ghost after : Ghost} {job : Job} {trace : Past}

theorem moves_core {op : Op} {answer : op.Answer}
    (unread : ¬ op.readsConfig) :
    watched.core.moves reliable ghost op answer after ↔
      watched.moves reliable ghost op answer after := by
  cases op with
  | loadConfig => exact (unread trivial).elim
  | sql statement => cases statement <;> exact Iff.rfl
  | now | newId | storeConfig | prepareLogFiles | runProcess | sendRequest
  | sleep | appendRetryMarker | sendNotification | spawn => exact Iff.rfl

variable (alike : watched.Alike other)

include alike

theorem Alike.allows : other.allows = watched.allows := by
  change other.core.allows = watched.core.allows
  rw [alike.core]

theorem Alike.admits : other.admits = watched.admits := by
  change other.core.admits = watched.core.admits
  rw [alike.core]

theorem Alike.start : other.start = watched.start := by
  change other.core.start = watched.core.start
  rw [alike.core]

theorem Alike.moves {op : Op} {answer : op.Answer}
    (unread : ¬ op.readsConfig) :
    other.moves reliable ghost op answer after ↔
      watched.moves reliable ghost op answer after := by
  have left := @moves_core other reliable ghost after op answer unread
  have right := @moves_core watched reliable ghost after op answer unread
  rw [← left, ← right, alike.core]

end Core

/-! ## The discipline while the configuration changes -/

section Discipline

variable (watched) (reliable : Prop) (outside : Outside)

/-- A reload is to the hook what a trigger of another one is. -/
def standIn : Job → Job
  | .reloadConfig _ => .trigger { slug := watched.slug ++ "/" }
  | job => job

/-- The discipline of the hook where any configuration may be stored, and all
that are read keep the barriers. -/
def openDiscipline : Discipline (server outside) Ghost where
  admits
    | .reloadConfig _ => True
    | job => watched.admits job
  start := watched.start
  allows ghost
    | .storeConfig _ => True
    | op => watched.allows ghost op
  moves ghost op answer after :=
    match op, answer with
    | .loadConfig, config => watched.KeepsBarriers config ∧ after = ghost
    | op, answer => watched.moves reliable ghost op answer after
  closes ghost := ghost.token.lock = none
  link job past ghost :=
    watched.Link reliable (watched.standIn job) past ghost ∧
      Trail watched.slug (watched.standIn job) past ghost.token

variable {watched reliable outside}

theorem openDiscipline_moves {ghost after : Ghost} {op : Op}
    {answer : op.Answer} (unread : ¬ op.readsConfig) :
    (watched.openDiscipline reliable outside).moves ghost op answer after ↔
      watched.moves reliable ghost op answer after := by
  cases op with
  | loadConfig => exact (unread trivial).elim
  | sql | now | newId | storeConfig | prepareLogFiles | runProcess
  | sendRequest | sleep | appendRetryMarker | sendNotification | spawn =>
      exact Iff.rfl

theorem openDiscipline_joins :
    (watched.openDiscipline reliable outside).Joins
      (fun other : { other // watched.Alike other } =>
        other.1.discipline reliable outside) Op.readsConfig where
  allows := by
    rintro ⟨other, alike⟩ ghost op allowed
    have same : watched.allows ghost op := alike.allows ▸ allowed
    cases op with
    | storeConfig config => exact same.elim
    | sql | now | newId | loadConfig | prepareLogFiles | runProcess
    | sendRequest | sleep | appendRetryMarker | sendNotification | spawn =>
        exact same
  movesSame := by
    rintro ⟨other, alike⟩ ghost op answer after unread moved
    exact (alike.moves unread).mpr ((openDiscipline_moves unread).mp moved)
  movesOpened := by
    intro ghost op answer after reads moved
    cases op with
    | loadConfig =>
        obtain ⟨keeps, rfl⟩ := moved
        obtain ⟨other, config, alike⟩ := keeps.alike
        exact ⟨⟨other, alike⟩, config.symm, rfl⟩
    | sql | now | newId | storeConfig | prepareLogFiles | runProcess
    | sendRequest | sleep | appendRetryMarker | sendNotification | spawn =>
        exact reads.elim

theorem start_standIn (job : Job) :
    watched.start (watched.standIn job) = watched.start job := by
  cases job with
  | reloadConfig config =>
      have other : ¬ watched.slug ++ "/" = watched.slug := by
        intro same
        have lengths := congrArg String.length same
        simp at lengths
      simp [standIn, start, other]
  | trigger | approve | reject | replay | expirePendingApprovals
  | runExecution | runDequeued => rfl

theorem dutyOf_standIn (job : Job) (past : Past) :
    dutyOf watched.slug (watched.standIn job) past =
      dutyOf watched.slug job past := by
  cases job <;> rfl

theorem admits_standIn {job : Job}
    (admitted : (watched.openDiscipline reliable outside).admits job) :
    watched.admits (watched.standIn job) := by
  cases job with
  | reloadConfig config => trivial
  | trigger | approve | reject | replay | expirePendingApprovals
  | runExecution | runDequeued => exact admitted

theorem openDiscipline_link {job : Job} {trace : Past}
    {ghost after : Ghost} {op : Op} {answer : op.Answer}
    (linked : (watched.openDiscipline reliable outside).link job trace ghost)
    (allowed : (watched.openDiscipline reliable outside).allows ghost op)
    (moved : (watched.openDiscipline reliable outside).moves ghost op answer
      after) :
    (watched.openDiscipline reliable outside).link job
      (trace ++ [⟨op, answer⟩]) after := by
  obtain ⟨link, trail⟩ := linked
  cases op with
  | storeConfig config =>
      obtain rfl : after = ghost := moved
      exact ⟨link.keep ⟨fun _ => rfl, fun _ => rfl⟩ rfl rfl rfl rfl,
        trail.keep rfl (fun _ => rfl) fun _ _ _ _ => rfl⟩
  | loadConfig =>
      obtain rfl : after = ghost := moved.2
      exact ⟨link.keep ⟨fun _ => rfl, fun _ => rfl⟩ rfl rfl rfl rfl,
        trail.keep rfl (fun _ => rfl) fun _ _ _ _ => rfl⟩
  | sql | now | newId | prepareLogFiles | runProcess | sendRequest | sleep
  | appendRetryMarker | sendNotification | spawn =>
      have inner := (openDiscipline_moves (by simp [Op.readsConfig])).mp moved
      exact ⟨link_moves link allowed inner, trail_moves trail allowed inner⟩

theorem openDiscipline_lawful :
    (watched.openDiscipline reliable outside).Lawful where
  bodies := by
    intro job admitted
    by_cases reloads : ∃ config, job = .reloadConfig config
    · obtain ⟨config, rfl⟩ := reloads
      exact ⟨trivial, fun _ after moved => by
        obtain rfl : after = watched.start (.reloadConfig config) := moved
        exact rfl⟩
    · have variants : Nonempty { other // watched.Alike other } :=
        ⟨⟨watched, .refl⟩⟩
      refine openDiscipline_joins.obeys_of_once (body_once outside job) ?_
      rintro ⟨other, alike⟩
      have given : watched.admits job := by
        cases job with
        | reloadConfig config => exact (reloads ⟨config, rfl⟩).elim
        | trigger | approve | reject | replay | expirePendingApprovals
        | runExecution | runDequeued => exact admitted
      have body := @lawful_bodies other reliable outside job
        (alike.admits ▸ given)
      rw [alike.start] at body
      exact body
  link_start := by
    intro job admitted
    have given := admits_standIn admitted
    have same := @start_standIn watched job
    change watched.Link reliable (watched.standIn job) [] (watched.start job) ∧
      Trail watched.slug (watched.standIn job) [] (watched.start job).token
    rw [← same]
    exact ⟨link_start given, trail_start given⟩
  link_moves := fun _ _ _ _ _ _ linked allowed moved =>
    openDiscipline_link linked allowed moved
  forks := by
    intro ghost op job allowed forked
    cases op with
    | spawn child =>
        obtain rfl : child = job := by
          simpa [server, forks] using forked
        cases child with
        | reloadConfig config => exact allowed.1.elim
        | trigger | approve | reject | replay | expirePendingApprovals
        | runExecution | runDequeued => exact allowed.1
    | sql | now | newId | loadConfig | storeConfig | prepareLogFiles
    | runProcess | sendRequest | sleep | appendRetryMarker
    | sendNotification => cases forked

end Discipline

/-! ## Runs -/

/-- The configuration that a task reads next. -/
def loads? (pool : ServerPool) (index : Nat) : Option AppConfig :=
  match pool.next? index with
  | some (_, _, .loadConfig) => some pool.state.config
  | _ => none

theorem eq_of_loads? {pool : ServerPool} {index : Nat} {config : AppConfig}
    (loads : loads? pool index = some config) : config = pool.state.config := by
  unfold loads? at loads
  split at loads
  · exact (Option.some.inj loads).symm
  · cases loads

/-- Requests, passes of the sweep and reloads. -/
def requestsAndReloads : Job → Prop
  | .reloadConfig _ => True
  | job => triggersAndDecisions (.arrive job) = true

/-- Requests, passes of the sweep and reloads arrive; a task that reads the
configuration finds the barriers of the hook as they are; and no pass goes on
to the lock of an execution that was decided before it. -/
def Orderly (watched : Watched) (pool : ServerPool) : ServerLabel → Prop
  | .arrive job => requestsAndReloads job
  | .advance index _ =>
      missesHolder watched.slug pool index = false ∧
        ∀ config, loads? pool index = some config →
          watched.KeepsBarriers config

section Runs

variable {outside : Outside} {start pool : ServerPool}

/-- What the protocol is given of an orderly step. -/
def orderly (slug : String) (pool : ServerPool) : ServerLabel → Bool
  | .arrive job => triggersAndDecisions (.arrive job)
  | .advance index _ => !missesHolder slug pool index

theorem orderly_conduct :
    watched.Conduct False (· ≠ .replay) (orderly watched.slug) where
  external := by
    intro pool job admitted
    cases job <;> trivial
  arrivals := by
    intro pool job admitted
    cases job with
    | trigger request =>
        simp only [Watched.start]
        split <;> simp
    | approve | reject | expirePendingApprovals => simp [Watched.start]
    | replay | reloadConfig | runExecution | runDequeued => cases admitted
  runners := by simp
  foreigners := by simp
  sweeps := by
    intro _ pool index choice admitted
    simpa [orderly] using admitted
  replays := fun excluded => (excluded rfl).elim
  logs := False.elim

/-- A task that reads the configuration finds the barriers of the hook as
they are. -/
def ReadsBarriers (watched : Watched) (event : Event Op.Answer) : Prop :=
  ∀ config, event = ⟨.loadConfig, config⟩ → watched.KeepsBarriers config

/-- The world, with the watched configuration. -/
def configured (watched : Watched) (world : World) : World :=
  { world with config := watched.config }

/-- The invariant, whatever configuration is stored. -/
def HoldsOpen (watched : Watched) (world : World)
    (ghosts : Multiset Ghost) : Prop :=
  watched.Holds (· ≠ .replay) (watched.configured world) ghosts

/-- An orderly step in which all tasks are where their code and their past
have brought them. -/
def OrderlyStep (watched : Watched) (outside : Outside) (pool : ServerPool)
    (label : ServerLabel) : Prop :=
  watched.Orderly pool label ∧ ∀ task ∈ pool.tasks,
    (taskBody outside task.job).Follows task.trace task.program

/-- The other operations do the same under any configuration. -/
theorem perform_configured {op : Op} {choice : Choice} {answer : op.Answer}
    {world state : World} (unread : ¬ op.readsConfig)
    (unstored : ∀ config, op ≠ .storeConfig config)
    (performed : perform op choice world = some (answer, state)) :
    perform op choice (watched.configured world) =
      some (answer, watched.configured state) := by
  cases op with
  | loadConfig => exact (unread trivial).elim
  | storeConfig config => exact (unstored config rfl).elim
  | sql statement =>
      simp only [perform, Option.some.injEq, Prod.mk.injEq] at performed
      obtain ⟨rfl, rfl⟩ := performed
      rfl
  | now =>
      simp only [perform] at performed
      split at performed
      · rename_i later
        simp only [Option.some.injEq, Prod.mk.injEq] at performed
        obtain ⟨rfl, rfl⟩ := performed
        exact if_pos later
      · cases performed
  | newId =>
      simp only [perform] at performed
      split at performed
      · cases performed
      · rename_i fresh
        simp only [Option.some.injEq, Prod.mk.injEq] at performed
        obtain ⟨rfl, rfl⟩ := performed
        exact if_neg fresh
  | prepareLogFiles | runProcess | sendRequest | sleep | appendRetryMarker
  | sendNotification | spawn =>
      cases performed
      rfl

/-- A reload only stores its configuration. -/
theorem stores_of_reload {config : AppConfig} {trace : Past} {op : Op}
    {next : op.Answer → Async Response}
    (follows : (taskBody outside (.reloadConfig config)).Follows trace
      (.perform op next)) : op = .storeConfig config := by
  rcases follows.of_perform with ⟨-, same⟩ | ⟨answer, later, -, after⟩
  · cases same
    rfl
  · have ended := after.of_pure.2
    cases ended

theorem open_preserves :
    (watched.openDiscipline False outside).Preserves
      (watched.OrderlyStep outside) watched.HoldsOpen := by
  intro pool index job trace op next choice answer state ghost rest admitted
    found linked allowed performed holds
  by_cases stores : ∃ config, op = .storeConfig config
  · obtain ⟨config, rfl⟩ := stores
    cases performed
    have alone : (((watched.openDiscipline False outside).forkedGhosts
        (.storeConfig config) : List Ghost) : Multiset Ghost) + rest =
          rest := zero_add rest
    rw [alone]
    exact ⟨ghost, rfl, holds⟩
  · by_cases reads : op.readsConfig
    · cases op with
      | loadConfig =>
          cases performed
          have keeps : watched.KeepsBarriers pool.state.config :=
            admitted.1.2 _ (by simp [loads?, Pool.next?_eq found])
          have alone : (((watched.openDiscipline False outside).forkedGhosts
              .loadConfig : List Ghost) : Multiset Ghost) + rest =
                rest := zero_add rest
          rw [alone]
          exact ⟨ghost, ⟨keeps, rfl⟩, holds⟩
      | sql | now | newId | storeConfig | prepareLogFiles | runProcess
      | sendRequest | sleep | appendRetryMarker | sendNotification
      | spawn => exact reads.elim
    · have unstored (config : AppConfig) (same : op = .storeConfig config) :
          False := stores ⟨config, same⟩
      have follows := admitted.2 _ (List.mem_of_getElem? found)
      have sameJob : watched.standIn job = job := by
        cases job with
        | reloadConfig config =>
            exact (unstored config (stores_of_reload follows)).elim
        | trigger | approve | reject | replay | expirePendingApprovals
        | runExecution | runDequeued => rfl
      have link : watched.Link False job trace ghost := sameJob ▸ linked.1
      have permitted : watched.allows ghost op := by
        cases op with
        | storeConfig config => exact (unstored config rfl).elim
        | sql | now | newId | loadConfig | prepareLogFiles | runProcess
        | sendRequest | sleep | appendRetryMarker | sendNotification
        | spawn => exact allowed
      have good : orderly watched.slug { pool with
          state := watched.configured pool.state }
            (.advance index choice) = true := by
        have unmissed : missesHolder watched.slug pool index = false :=
          admitted.1.1
        exact (congrArg (!·) unmissed).trans rfl
      obtain ⟨after, moved, kept⟩ := preserves orderly_conduct { pool with
          state := watched.configured pool.state } index job trace op next
        choice answer (watched.configured state) ghost rest good found link
        permitted (perform_configured reads unstored performed) holds
      exact ⟨after, (openDiscipline_moves reads).mpr moved, kept⟩

theorem open_admits :
    (watched.openDiscipline False outside).Admits
      (watched.OrderlyStep outside) watched.HoldsOpen := by
  intro pool job ghosts admitted holds
  have joins (given : orderly watched.slug { pool with
      state := watched.configured pool.state } (.arrive job) = true) :
      watched.HoldsOpen pool.state (watched.start job ::ₘ ghosts) :=
    (@arrives watched False _ _ outside orderly_conduct { pool with
      state := watched.configured pool.state } job ghosts given holds).2
  cases job with
  | reloadConfig config =>
      refine ⟨trivial, holds.1.join, ?_⟩
      intro ghost member
      rcases Multiset.mem_cons.mp member with rfl | old
      · exact ⟨fun same => (by cases same), fun _ => rfl⟩
      · exact holds.2 ghost old
  | trigger | approve | reject | expirePendingApprovals =>
      exact ⟨trivial, joins rfl⟩
  | replay | runExecution | runDequeued => cases admitted.1

theorem Idle.holdsOpen (idle : watched.Idle start.state) :
    watched.HoldsOpen start.state 0 := by
  have same : watched.configured start.state = start.state := by
    rw [configured, ← idle.invariant.config]
  rw [HoldsOpen, same]
  exact ⟨idle.invariant, by simp⟩

/-- Every run from an idle world in which the barriers stay where they are
read: the tasks have ghosts with which the invariant holds. -/
theorem reaches_open (empty : start.tasks = [])
    (idle : watched.Idle start.state)
    (reached : (server outside).Reaches watched.Orderly start pool) :
    ∃ ghosts : List Ghost,
      (watched.openDiscipline False outside).Covers pool ghosts ∧
        watched.HoldsOpen pool.state ghosts := by
  have strong : (server outside).Reaches (watched.OrderlyStep outside) start
      pool := reached.strengthen fun middle label before admitted =>
    ⟨admitted, before.follows empty⟩
  exact Discipline.reaches_invariant openDiscipline_lawful open_admits
    open_preserves empty idle.holdsOpen strong

theorem open_reads (empty : start.tasks = [])
    (reached : (server outside).Reaches watched.Orderly start pool) :
    ∀ task ∈ pool.tasks, ∀ event ∈ task.trace,
      ReadsBarriers watched event := by
  refine Machine.Reaches.happened ?_ empty reached
  intro middle _ index _ _ op choice answer after admitted isNext performed
    config same
  cases same
  cases performed
  exact admitted.2 _ (by simp [loads?, isNext])

end Runs

end Watched

end Sendword
