import Sendword.Backup

/-!
# What runs of backups keep

Any number of backups and retention passes interleaved one request at a time,
on a bucket with any content.
-/

namespace Sendword

open Concurrency Files

abbrev BackupPool :=
  Pool BackupSite BackupJob BackupOp.Answer
    (Except BackupError (Option String))

abbrev BackupLabel := Label BackupChoice BackupJob

/-! ## What a pass was told -/

/-- The listing that an event answers with. -/
def listing? : Event BackupOp.Answer → Option (List (String × StoredObject))
  | ⟨.listObjects _, answer⟩ => answer.toOption
  | _ => none

def clock? : Event BackupOp.Answer → Option Int
  | ⟨.now, answer⟩ => some answer
  | _ => none

/-- The listings that a task has got. -/
def toldIn (trace : List (Event BackupOp.Answer)) :
    List (List (String × StoredObject)) :=
  trace.filterMap listing?

/-- The times that a retention pass has read. -/
def readIn (trace : List (Event BackupOp.Answer)) : List Int :=
  trace.filterMap clock?

/-- The listed objects, oldest first. -/
def byAge (objects : List (String × StoredObject)) :
    List (String × StoredObject) :=
  objects.mergeSort fun first second =>
    decide (first.2.lastModified ≤ second.2.lastModified)

/-- The object is not among the newest `max_count`. -/
def Superfluous (retention : RetentionConfig)
    (objects : List (String × StoredObject))
    (listed : String × StoredObject) : Prop :=
  ∃ maxCount ∈ retention.maxCount,
    listed ∈ (byAge objects).take (objects.length - maxCount)

/-- The object is older than `max_age`. -/
def Aged (formats : TimeFormats) (retention : RetentionConfig) (now : Int)
    (listed : String × StoredObject) : Prop :=
  ∃ maxAge ∈ retention.maxAge, ∃ cutoff ∈ cutoffText formats now maxAge,
    listed.2.lastModified < cutoff

/-- A backup that is superfluous among the backups, or too old at a time that
the pass has read. -/
structure Expired (formats : TimeFormats) (retention : RetentionConfig)
    (trace : List (Event BackupOp.Answer))
    (objects : List (String × StoredObject))
    (listed : String × StoredObject) : Prop where
  told : objects ∈ toldIn trace
  member : listed ∈ objects
  created : listed.2.created = true
  outlived :
    Superfluous retention (objects.filter (·.2.created)) listed ∨
      ∃ now ∈ readIn trace, Aged formats retention now listed

section Statements

variable (formats : TimeFormats) (config : BackupConfig)

/-- The key of a backup named at this time. -/
def backupKey (time : Int) : String :=
  S3Client.key config (tarballName (formats.filename time))

/-- A key that no backup under way has, no object, and no object that a pass
under way was told of. -/
structure Unused (pool : BackupPool) (key : String) : Prop where
  apart : key ∉ pool.state.underway
  free : pool.state.bucket.get? key = none
  untold : ∀ task ∈ pool.tasks, task.program.next? ≠ none →
    ∀ objects ∈ toldIn task.trace, key ∉ objects.map (·.1)

/-- What a pass was told does not mix backups with other objects: those are
not there when the objects are counted, unless these are few enough, and are
not too old. -/
structure Unmixed (trace : List (Event BackupOp.Answer)) : Prop where
  counted : ∀ objects ∈ toldIn trace,
    ∀ maxCount ∈ config.retention.maxCount,
      (∀ listed ∈ objects, listed.2.created = true) ∨
        objects.length ≤ maxCount
  young : ∀ objects ∈ toldIn trace, ∀ now ∈ readIn trace,
    ∀ listed ∈ objects, Aged formats config.retention now listed →
      listed.2.created = true

/-- A backup is named by a second whose key is unused, and a pass that
deletes was told of no mixture. -/
def SparesObjects (pool : BackupPool) : BackupLabel → Prop
  | .arrive _ => True
  | .advance index choice =>
      match pool.next? index with
      | some (_, _, .nowUtcFilename) =>
          Unused pool (backupKey formats config choice.time)
      | some (_, trace, .deleteObject _) => Unmixed formats config trace
      | _ => True

/-- A step adds one new object, deletes a backup that has expired and is
still the listed one, or leaves the bucket alone. -/
def KeepsObjects (pool target : BackupPool) : BackupLabel → Prop
  | .arrive _ => target.state = pool.state
  | .advance index choice =>
      match pool.next? index with
      | some (_, _, .putObject key data) =>
          pool.state.bucket.get? key = none ∧
            ∀ other, target.state.bucket.get? other =
              if other = key ∧ choice.takesEffect then
                some { data, lastModified := choice.modified, created := true }
              else pool.state.bucket.get? other
      | some (_, trace, .deleteObject key) =>
          (∃ objects object,
            Expired formats config.retention trace objects (key, object) ∧
              ∀ found, pool.state.bucket.get? key = some found →
                found = object) ∧
            ∀ other, other ≠ key →
              target.state.bucket.get? other = pool.state.bucket.get? other
      | _ => target.state.bucket = pool.state.bucket

end Statements

/-! ## Keys -/

theorem prefix_display {config : BackupConfig} {key : String}
    (listed : (S3Client.listed config).toList <+: key.toList) :
    S3Client.key config (S3Client.display config key) = key := by
  unfold S3Client.key S3Client.display
  by_cases empty : config.keyPrefix.isEmpty
  · have start : S3Client.listed config = "" := if_pos empty
    rw [if_pos empty, start]
    rfl
  · have start : S3Client.listed config =
        S3Client.trimEnd config.keyPrefix ++ "/" := if_neg empty
    have inside : ¬ (S3Client.listed config).isEmpty := by
      rw [start]
      simp
    rw [if_neg empty]
    dsimp only
    rw [if_pos ⟨inside, List.isPrefixOf_iff_prefix.mpr listed⟩]
    obtain ⟨rest, split⟩ := listed
    apply String.toList_inj.mp
    rw [← split, ← String.length_toList, List.drop_left, start]
    simp

theorem key_entry {config : BackupConfig} {listed : String × StoredObject}
    (below : (S3Client.listed config).toList <+: listed.1.toList) :
    S3Client.key config (S3Client.entry config listed).key = listed.1 :=
  prefix_display below

/-! ## The discipline -/

/-- What a task owns and knows: the key of the backup it is making, the
objects it was told, and the time it read then. -/
inductive BackupGhost where
  | idle
  | reserved (key : String)
  | told (objects : List (String × StoredObject)) (now : Option Int)
  deriving DecidableEq

namespace BackupGhost

variable (formats : TimeFormats) (config : BackupConfig)

/-- The key of a listed object that the rules pick. -/
def Picks (objects : List (String × StoredObject)) (now : Option Int)
    (key : String) : Prop :=
  ∃ listed ∈ objects,
    S3Client.key config (S3Client.entry config listed).key = key ∧
      (Superfluous config.retention objects listed ∨
        ∃ time ∈ now, Aged formats config.retention time listed)

def allows : BackupGhost → BackupOp → Prop
  | .idle, .newClient => True
  | .idle, .snapshot => True
  | .idle, .nowUtcFilename => True
  | .idle, .listObjects start => start = S3Client.listed config
  | .reserved key, .bundle name => key = S3Client.key config name
  | .reserved key, .putObject other _ => other = key
  | .told _ now, .now => now = none
  | .told objects now, .deleteObject key =>
      Picks formats config objects now key
  | _, _ => False

/-- The ghost values that follow an answer. -/
def moves (ghost : BackupGhost) :
    (operation : BackupOp) → operation.Answer → BackupGhost → Prop
  | .newClient, _, after => after = ghost
  | .snapshot, _, after => after = ghost
  | .nowUtcFilename, stamp, after =>
      after = .reserved (S3Client.key config (tarballName stamp))
  | .bundle _, bundled, after =>
      after = if bundled.toOption.isSome then ghost else .idle
  | .putObject .., _, after => after = .idle
  | .listObjects _, listing, after =>
      match listing with
      | .error _ => after = .idle
      | .ok objects => after = .told objects none
  | .now, now, after =>
      ∃ objects, ghost = .told objects none ∧ after = .told objects (some now)
  | .deleteObject _, _, after => after = ghost

/-- The listing and the time are those of the trace. -/
def link (trace : List (Event BackupOp.Answer)) : BackupGhost → Prop
  | .told objects now =>
      objects ∈ toldIn trace ∧ ∀ time ∈ now, time ∈ readIn trace
  | _ => True

def discipline :
    Discipline (backups formats config) BackupGhost where
  admits _ := True
  start _ := .idle
  allows := allows formats config
  moves := moves config
  closes _ := True
  link _ := link

end BackupGhost

/-! ## The programs obey -/

section Programs

variable {formats : TimeFormats} {config : BackupConfig}
  {objects : List (String × StoredObject)}

theorem obeys_deleteAll {now : Option Int} {keys : List String}
    (picks : ∀ key ∈ keys, BackupGhost.Picks formats config objects now
      (S3Client.key config key)) :
    (BackupGhost.discipline formats config).Obeys (deleteAll config keys)
      (fun _ _ => True) (.told objects now) := by
  induction keys with
  | nil => trivial
  | cons key keys induction =>
      refine ⟨picks key List.mem_cons_self, ?_⟩
      intro answer after moved
      cases moved
      cases answer with
      | error error => trivial
      | ok done =>
          exact induction fun other member =>
            picks other (List.mem_cons_of_mem _ member)

theorem mem_byAge {listed : String × StoredObject} :
    listed ∈ byAge objects ↔ listed ∈ objects :=
  List.mem_mergeSort

theorem Superfluous.member {retention : RetentionConfig}
    {listed : String × StoredObject}
    (superfluous : Superfluous retention objects listed) :
    listed ∈ objects := by
  obtain ⟨maxCount, -, taken⟩ := superfluous
  exact mem_byAge.mp (List.mem_of_mem_take taken)

/-- The entries are sorted as the objects are. -/
theorem sorted_entries (config : BackupConfig)
    (objects : List (String × StoredObject)) :
    (objects.map (S3Client.entry config)).mergeSort (fun first second =>
        decide (first.lastModified ≤ second.lastModified)) =
      (byAge objects).map (S3Client.entry config) :=
  (@List.map_mergeSort _ _ _ _ (S3Client.entry config) objects
    fun _ _ _ _ => rfl).symm

theorem mem_surplus {name : String}
    (member : name ∈ surplus config.retention.maxCount
      ((byAge objects).map (S3Client.entry config))) :
    ∃ listed, (S3Client.entry config listed).key = name ∧
      Superfluous config.retention objects listed := by
  unfold surplus at member
  split at member
  · cases member
  · rename_i maxCount limited
    rw [List.length_map, ← List.map_take, List.map_map, byAge,
      List.length_mergeSort] at member
    obtain ⟨listed, taken, named⟩ := List.mem_map.mp member
    exact ⟨listed, named, maxCount, limited, taken⟩

theorem mem_withAged {cutoff name : String} {entries : List BackupEntry}
    {toDelete : List String}
    (member : name ∈ withAged cutoff entries toDelete) :
    name ∈ toDelete ∨
      ∃ entry ∈ entries, entry.lastModified < cutoff ∧ entry.key = name := by
  unfold withAged at member
  induction entries generalizing toDelete with
  | nil => exact .inl member
  | cons entry entries induction =>
      rw [List.foldl_cons] at member
      rcases induction member with early | ⟨later, inside, old⟩
      · split at early
        · rename_i aged
          rcases List.mem_append.mp early with before | new
          · exact .inl before
          · exact .inr ⟨entry, List.mem_cons_self, aged.1,
              (List.mem_singleton.mp new).symm⟩
        · exact .inl early
      · exact .inr ⟨later, List.mem_cons_of_mem _ inside, old⟩

theorem picks_of_surplus {now : Option Int} {name : String}
    (member : name ∈ surplus config.retention.maxCount
      ((byAge objects).map (S3Client.entry config))) :
    BackupGhost.Picks formats config objects now
      (S3Client.key config name) := by
  obtain ⟨listed, rfl, superfluous⟩ := mem_surplus member
  exact ⟨listed, superfluous.member, rfl, .inl superfluous⟩

theorem obeys_createBackup :
    (BackupGhost.discipline formats config).Obeys (createBackup config)
      (fun _ _ => True) .idle := by
  refine ⟨trivial, fun client after moved => ?_⟩
  cases moved
  cases client with
  | error error => trivial
  | ok connected =>
      refine ⟨trivial, fun snapshot after moved => ?_⟩
      cases moved
      cases snapshot with
      | error error => trivial
      | ok taken =>
          refine ⟨trivial, fun stamp after moved => ?_⟩
          cases moved
          refine ⟨rfl, fun bundled after moved => ?_⟩
          cases bundled with
          | error error => trivial
          | ok data =>
              cases moved
              exact ⟨rfl, fun stored after moved => trivial⟩

theorem obeys_retain (objects : List (String × StoredObject)) :
    (BackupGhost.discipline formats config).Obeys
      (retain formats config (objects.map (S3Client.entry config)))
      (fun _ _ => True) (.told objects none) := by
  unfold retain
  dsimp only
  rw [sorted_entries]
  cases rule : config.retention.maxAge with
  | none => exact obeys_deleteAll fun key => picks_of_surplus
  | some maxAge =>
      refine ⟨rfl, fun now after moved => ?_⟩
      obtain ⟨known, same, rfl⟩ := moved
      cases same
      simp only [Program.pure_eq, Program.pure_bind]
      split
      · trivial
      · rename_i cutoff printed
        refine obeys_deleteAll fun key member => ?_
        rcases mem_withAged member with counted | ⟨entry, inside, old, rfl⟩
        · exact picks_of_surplus counted
        · obtain ⟨listed, present, rfl⟩ := List.mem_map.mp inside
          exact ⟨listed, mem_byAge.mp present, rfl,
            .inr ⟨now, rfl, maxAge, rule, cutoff, printed, old⟩⟩

theorem obeys_applyRetention :
    (BackupGhost.discipline formats config).Obeys
      (applyRetention formats config) (fun _ _ => True) .idle := by
  unfold applyRetention
  split
  · trivial
  · refine ⟨trivial, fun client after moved => ?_⟩
    cases moved
    cases client with
    | error error => trivial
    | ok connected =>
        refine ⟨rfl, fun listing after moved => ?_⟩
        cases listing with
        | error error => trivial
        | ok objects =>
            cases moved
            exact obeys_retain objects

theorem mem_toldIn_append {trace : List (Event BackupOp.Answer)}
    {event : Event BackupOp.Answer} :
    objects ∈ toldIn (trace ++ [event]) ↔
      objects ∈ toldIn trace ∨ listing? event = some objects := by
  simp [toldIn]

theorem mem_readIn_append {trace : List (Event BackupOp.Answer)}
    {event : Event BackupOp.Answer} {now : Int} :
    now ∈ readIn (trace ++ [event]) ↔
      now ∈ readIn trace ∨ clock? event = some now := by
  simp [readIn]

/-- What a task knows stays in its trace. -/
theorem BackupGhost.link.append {trace : List (Event BackupOp.Answer)}
    {ghost : BackupGhost} (linked : BackupGhost.link trace ghost)
    (event : Event BackupOp.Answer) :
    BackupGhost.link (trace ++ [event]) ghost := by
  cases ghost with
  | idle | reserved => trivial
  | told objects now =>
      exact ⟨mem_toldIn_append.mpr (.inl linked.1), fun time read =>
        mem_readIn_append.mpr (.inl (linked.2 time read))⟩

theorem backups_lawful :
    (BackupGhost.discipline formats config).Lawful where
  bodies := by
    intro job _
    cases job with
    | createBackup =>
        refine (Discipline.obeys_bind ..).mpr ?_
        exact obeys_createBackup.mono fun _ _ _ => trivial
    | applyRetention =>
        refine (Discipline.obeys_bind ..).mpr ?_
        exact obeys_applyRetention.mono fun _ _ _ => trivial
  link_start _ _ := trivial
  link_moves := by
    intro job trace ghost operation answer after linked allowed moved
    have kept := BackupGhost.link.append linked ⟨operation, answer⟩
    cases operation with
    | newClient | snapshot | deleteObject =>
        cases moved
        exact kept
    | nowUtcFilename | putObject =>
        cases moved
        trivial
    | bundle name =>
        cases moved
        split
        · exact kept
        · trivial
    | listObjects start =>
        cases answer with
        | error error =>
            cases moved
            trivial
        | ok objects =>
            cases moved
            refine ⟨mem_toldIn_append.mpr (.inr rfl), ?_⟩
            intro time none
            cases none
    | now =>
        obtain ⟨objects, rfl, rfl⟩ := moved
        refine ⟨kept.1, ?_⟩
        intro time read
        cases read
        exact mem_readIn_append.mpr (.inr rfl)
  forks _ _ _ _ none := by cases none

end Programs

/-! ## Keys of the backups under way -/

/-- The keys of the backups under way are different, and no object has
one. -/
structure Guarded (site : BackupSite) (ghosts : Multiset BackupGhost) :
    Prop where
  counted : ∀ key, ghosts.count (.reserved key) = site.underway.count key
  apart : site.underway.Nodup
  free : ∀ key ∈ site.underway, site.bucket.get? key = none

section Invariant

variable {formats : TimeFormats} {config : BackupConfig}
  {site : BackupSite} {rest : Multiset BackupGhost}

theorem count_reserved_cons {ghost : BackupGhost} {key : String}
    (other : ∀ name, ghost ≠ .reserved name) :
    (ghost ::ₘ rest).count (.reserved key) = rest.count (.reserved key) :=
  Multiset.count_cons_of_ne (fun same => other key same.symm) rest

theorem toOption_outcome {α : Type} (choice : BackupChoice) (value : α) :
    (choice.outcome value).toOption.isSome = choice.fault.isNone := by
  unfold BackupChoice.outcome
  cases choice.fault <;> rfl

namespace Guarded

/-- The ghost of a task that makes no backup may change. -/
theorem replace {ghost after : BackupGhost}
    (guarded : Guarded site (ghost ::ₘ rest))
    (before : ∀ name, ghost ≠ .reserved name)
    (other : ∀ name, after ≠ .reserved name) :
    Guarded site (after ::ₘ rest) where
  counted key := by
    rw [count_reserved_cons other, ← count_reserved_cons before]
    exact guarded.counted key
  apart := guarded.apart
  free := guarded.free

/-- A task that gives its key up leaves the others' counted. -/
theorem count_erase {own : String}
    (guarded : Guarded site (.reserved own ::ₘ rest)) (key : String) :
    (BackupGhost.idle ::ₘ rest).count (.reserved key) =
      (site.underway.erase own).count key := by
  have before := guarded.counted key
  rw [Multiset.count_cons] at before
  rw [count_reserved_cons (by simp), List.count_erase]
  simp only [BackupGhost.reserved.injEq, beq_iff_eq] at before ⊢
  simp only [@eq_comm _ own key]
  omega

/-- A backup that is not made after all. -/
theorem release {own : String}
    (guarded : Guarded site (.reserved own ::ₘ rest)) :
    Guarded { site with underway := site.underway.erase own }
      (.idle ::ₘ rest) where
  counted := guarded.count_erase
  apart := guarded.apart.erase own
  free key member := guarded.free key (List.mem_of_mem_erase member)

/-- The key of a backup under way is one of its task. -/
theorem reserved_mem {own : String}
    (guarded : Guarded site (.reserved own ::ₘ rest)) :
    own ∈ site.underway := by
  rw [← List.count_pos_iff, ← guarded.counted own]
  exact Multiset.count_pos.mpr (Multiset.mem_cons_self _ _)

end Guarded

theorem backups_preserve :
    (BackupGhost.discipline formats config).Preserves
      (SparesObjects formats config) Guarded := by
  intro pool index job trace operation next choice answer state ghost rest
    admitted found _ allowed performed guarded
  have result : operation.perform formats config choice pool.state =
      (answer, state) := Option.some.inj performed
  obtain rfl : (operation.perform formats config choice pool.state).1 =
    answer := congrArg Prod.fst result
  obtain rfl : (operation.perform formats config choice pool.state).2 =
    state := congrArg Prod.snd result
  have spares := admitted
  simp only [SparesObjects, Pool.next?_eq found] at spares
  have forked : (BackupGhost.discipline formats config).forkedGhosts
      operation = [] := rfl
  rw [forked, Multiset.coe_nil, Multiset.zero_add]
  cases operation with
  | newClient | snapshot =>
      exact ⟨ghost, rfl, guarded⟩
  | nowUtcFilename =>
      cases ghost with
      | reserved | told => exact allowed.elim
      | idle =>
          refine ⟨_, rfl, ?_, ?_, ?_⟩
          · intro key
            have before := guarded.counted key
            rw [count_reserved_cons (by simp)] at before
            rw [Multiset.count_cons, before]
            simp only [BackupOp.perform, List.count_cons, beq_iff_eq,
              BackupGhost.reserved.injEq]
            simp only [eq_comm]
          · exact List.nodup_cons.mpr ⟨spares.apart, guarded.apart⟩
          · intro key member
            rcases List.mem_cons.mp member with rfl | older
            · exact spares.free
            · exact guarded.free key older
  | bundle name =>
      cases ghost with
      | idle | told => exact allowed.elim
      | reserved key =>
          have named : key = S3Client.key config name := allowed
          subst named
          refine ⟨_, rfl, ?_⟩
          simp only [BackupOp.perform, toOption_outcome]
          by_cases made : choice.fault.isNone
          · rw [if_pos made, if_pos made]
            exact guarded
          · rw [if_neg made, if_neg made]
            exact guarded.release
  | putObject key data =>
      cases ghost with
      | idle | told => exact allowed.elim
      | reserved own =>
          have same : key = own := allowed
          subst same
          refine ⟨_, rfl, guarded.count_erase, guarded.apart.erase key, ?_⟩
          intro other member
          have different : other ≠ key := by
            rintro rfl
            exact guarded.apart.not_mem_erase member
          have before := guarded.free other (List.mem_of_mem_erase member)
          simp only [BackupOp.perform]
          split
          · rw [ObjectStore.get?_put, if_neg different, before]
          · exact before
  | listObjects start =>
      cases ghost with
      | reserved | told => exact allowed.elim
      | idle =>
          simp only [BackupOp.perform, BackupChoice.outcome]
          cases choice.fault with
          | some error => exact ⟨.idle, rfl, guarded⟩
          | none =>
              exact ⟨_, rfl, guarded.replace (by simp) (by simp)⟩
  | now =>
      cases ghost with
      | idle | reserved => exact allowed.elim
      | told objects now =>
          have fresh : now = none := allowed
          subst fresh
          exact ⟨_, ⟨objects, rfl, rfl⟩,
            guarded.replace (by simp) (by simp)⟩
  | deleteObject key =>
      refine ⟨ghost, rfl, guarded.counted, guarded.apart, ?_⟩
      intro other member
      have before := guarded.free other member
      simp only [BackupOp.perform]
      split
      · rw [ObjectStore.get?_delete, before, ite_self]
      · exact before

theorem backups_admit :
    (BackupGhost.discipline formats config).Admits
      (SparesObjects formats config) Guarded := by
  intro pool job ghosts _ guarded
  refine ⟨trivial, ?_, guarded.apart, guarded.free⟩
  intro key
  exact (count_reserved_cons (by simp [BackupGhost.discipline])).trans
    (guarded.counted key)

/-! ## What the passes under way were told -/

/-- A listed object that no backup under way is to replace, and that is still
the one under its key if there is one. -/
structure Current (config : BackupConfig) (site : BackupSite)
    (listed : String × StoredObject) : Prop where
  below : (S3Client.listed config).toList <+: listed.1.toList
  apart : listed.1 ∉ site.underway
  same : ∀ found, site.bucket.get? listed.1 = some found → found = listed.2

theorem Current.perform {listed : String × StoredObject}
    {choice : BackupChoice} {operation : BackupOp}
    (current : Current config site listed)
    (naming : operation = .nowUtcFilename →
      backupKey formats config choice.time ≠ listed.1)
    (putting : ∀ key data, operation = .putObject key data →
      key ∈ site.underway) :
    Current config (operation.perform formats config choice site).2
      listed where
  below := current.below
  apart := by
    cases operation with
    | newClient | snapshot | listObjects | now | deleteObject =>
        exact current.apart
    | nowUtcFilename =>
        exact List.not_mem_cons_of_ne_of_not_mem (naming rfl).symm
          current.apart
    | bundle name =>
        simp only [BackupOp.perform]
        split
        · exact current.apart
        · exact fun member => current.apart (List.mem_of_mem_erase member)
    | putObject key data =>
        exact fun member => current.apart (List.mem_of_mem_erase member)
  same := by
    intro found stored
    cases operation with
    | newClient | snapshot | nowUtcFilename | listObjects | now =>
        exact current.same found stored
    | bundle name =>
        simp only [BackupOp.perform] at stored
        split at stored
        · exact current.same found stored
        · exact current.same found stored
    | putObject key data =>
        have different : listed.1 ≠ key := fun same =>
          current.apart (same ▸ putting key data rfl)
        simp only [BackupOp.perform] at stored
        split at stored
        · rw [ObjectStore.get?_put, if_neg different] at stored
          exact current.same found stored
        · exact current.same found stored
    | deleteObject key =>
        simp only [BackupOp.perform] at stored
        split at stored
        · rw [ObjectStore.get?_delete] at stored
          split at stored
          · cases stored
          · exact current.same found stored
        · exact current.same found stored

/-- What a pass is told when it lists. -/
theorem Guarded.current {ghosts : Multiset BackupGhost}
    (guarded : Guarded site ghosts) {listed : String × StoredObject}
    (member : listed ∈ site.bucket.under (S3Client.listed config)) :
    Current config site listed := by
  obtain ⟨key, object⟩ := listed
  obtain ⟨below, stored⟩ := ObjectStore.mem_under.mp member
  refine ⟨below, fun underway => ?_, fun found again => ?_⟩
  · rw [guarded.free key underway] at stored
    cases stored
  · exact Option.some.inj (again.symm.trans stored)

/-- Every pass under way was told of objects that are still those. -/
def Informed (config : BackupConfig) (pool : BackupPool) : Prop :=
  ∀ task ∈ pool.tasks, task.program.next? ≠ none →
    ∀ objects ∈ toldIn task.trace, ∀ listed ∈ objects,
      Current config pool.state listed

/-- The two invariants of a run. -/
structure Ordered (formats : TimeFormats) (config : BackupConfig)
    (pool : BackupPool) : Prop where
  informed : Informed config pool
  covered : ∃ ghosts : List BackupGhost,
    (BackupGhost.discipline formats config).Covers pool ghosts ∧
      Guarded pool.state ghosts

theorem Ordered.informed_step {pool target : BackupPool}
    {label : BackupLabel} (ordered : Ordered formats config pool)
    (spares : SparesObjects formats config pool label)
    (taken : (backups formats config).step pool label = some target) :
    Informed config target := by
  obtain ⟨informed, ghosts, covers, guarded⟩ := ordered
  cases label with
  | arrive job =>
      cases taken
      intro task member running objects told
      rcases List.mem_append.mp member with old | new
      · exact informed task old running objects told
      · rw [List.mem_singleton.mp new] at told
        cases told
  | advance index choice =>
      obtain ⟨job, trace, operation, next, answer, state, found, performed,
        rfl⟩ := Machine.step_advance taken
      obtain ⟨ghost, -, parts, -, obeys⟩ := covers.pick found
      have allowed := obeys.1
      rw [parts] at guarded
      simp only [SparesObjects, Pool.next?_eq found] at spares
      have result : operation.perform formats config choice pool.state =
          (answer, state) := Option.some.inj performed
      obtain rfl := congrArg Prod.snd result
      have putting (key : String) (data : List UInt8)
          (put : operation = .putObject key data) :
          key ∈ pool.state.underway := by
        subst put
        cases ghost with
        | idle | told => exact allowed.elim
        | reserved own =>
            have same : key = own := allowed
            exact same ▸ guarded.reserved_mem
      have kept : ∀ task ∈ pool.tasks, task.program.next? ≠ none →
          ∀ objects ∈ toldIn task.trace, ∀ listed ∈ objects,
            Current config
              (operation.perform formats config choice pool.state).2
              listed := by
        intro task member running objects told listed inside
        refine (informed task member running objects told listed
          inside).perform ?_ putting
        rintro rfl same
        exact spares.untold task member running objects told
          (same ▸ List.mem_map_of_mem inside)
      have forked : (backups formats config).forked operation = [] := rfl
      intro task member running objects told
      rw [forked, List.append_nil] at member
      rcases List.mem_or_eq_of_mem_set member with old | rfl
      · exact kept task old running objects told
      · rcases mem_toldIn_append.mp told with before | now
        · exact kept _ (List.mem_of_getElem? found) (by simp) objects before
        · cases operation with
          | listObjects start =>
              cases ghost with
              | reserved | told => exact allowed.elim
              | idle =>
                  have isListed : start = S3Client.listed config := allowed
                  subst isListed
                  intro listed inside
                  have answered := congrArg Prod.fst result
                  simp only [BackupOp.perform, BackupChoice.outcome]
                    at answered
                  split at answered
                  · subst answered
                    cases now
                    exact guarded.current inside
                  · subst answered
                    cases now
          | newClient | snapshot | nowUtcFilename | bundle | putObject | now
            | deleteObject => cases now

theorem Ordered.reached {start pool : BackupPool} (empty : start.tasks = [])
    (idle : start.state.underway = [])
    (reached : (backups formats config).Reaches
      (SparesObjects formats config) start pool) :
    Ordered formats config pool := by
  have initially : Guarded start.state 0 :=
    ⟨fun key => by simp [idle], by simp [idle], by simp [idle]⟩
  induction reached with
  | refl =>
      refine ⟨by simp [Informed, empty], ?_⟩
      exact Discipline.reaches_invariant backups_lawful backups_admit
        backups_preserve empty initially .refl
  | step before admitted taken induction =>
      exact ⟨induction.informed_step admitted taken,
        Discipline.reaches_invariant backups_lawful backups_admit
          backups_preserve empty initially (.step before admitted taken)⟩

/-- An object that the rules pick is a backup that has expired. -/
theorem Unmixed.expired {trace : List (Event BackupOp.Answer)}
    {objects : List (String × StoredObject)} {now : Option Int}
    {listed : String × StoredObject}
    (unmixed : Unmixed formats config trace)
    (told : objects ∈ toldIn trace)
    (read : ∀ time ∈ now, time ∈ readIn trace) (member : listed ∈ objects)
    (picked : Superfluous config.retention objects listed ∨
      ∃ time ∈ now, Aged formats config.retention time listed) :
    Expired formats config.retention trace objects listed := by
  rcases picked with superfluous | ⟨time, known, aged⟩
  · obtain ⟨maxCount, limited, taken⟩ := superfluous
    rcases unmixed.counted objects told maxCount limited with own | few
    · have all : objects.filter (·.2.created) = objects :=
        List.filter_eq_self.mpr own
      exact ⟨told, member, own listed member,
        .inl ⟨maxCount, limited, by rw [all]; exact taken⟩⟩
    · rw [Nat.sub_eq_zero_of_le few, List.take_zero] at taken
      cases taken
  · exact ⟨told, member,
      unmixed.young objects told time (read time known) listed member aged,
      .inr ⟨time, read time known, aged⟩⟩

end Invariant

/-! ## Successful backups -/

/-- A backup succeeds right after its object was put. -/
def Delivers (config : BackupConfig) :
    Backups (Except BackupError (Option String)) → Prop
  | .pure _ => True
  | .perform operation next => ∀ answer, Delivers config (next answer) ∧
      ∀ name, next answer = .pure (.ok (some name)) →
        ∃ data, (⟨operation, answer⟩ : Event BackupOp.Answer) =
          ⟨.putObject (S3Client.key config name) data, .ok ()⟩

section Delivery

variable {formats : TimeFormats} {config : BackupConfig}

theorem delivers_createBackup :
    Delivers config ((createBackup config).bind fun result =>
      .pure (result.map some)) := by
  intro client
  cases client with
  | error error => exact ⟨trivial, nofun⟩
  | ok connected =>
      refine ⟨fun snapshot => ?_, nofun⟩
      cases snapshot with
      | error error => exact ⟨trivial, nofun⟩
      | ok taken =>
          refine ⟨fun stamp => ⟨fun bundled => ?_, nofun⟩, nofun⟩
          cases bundled with
          | error error => exact ⟨trivial, nofun⟩
          | ok data =>
              refine ⟨fun stored => ⟨trivial, fun name ended => ?_⟩, nofun⟩
              cases stored with
              | error error => cases ended
              | ok put =>
                  cases ended
                  exact ⟨data, rfl⟩

/-- A retention pass names no backup. -/
theorem unnamed (program : Backups (Except BackupError Unit))
    (name : String) :
    (program.bind fun result => .pure (result.map fun _ => none)) ≠
      (.pure (.ok (some name)) :
        Backups (Except BackupError (Option String))) := by
  intro same
  cases program with
  | perform operation next => cases same
  | pure value =>
      cases value with
      | error error => cases same
      | ok done => cases same

theorem delivers_unnamed (program : Backups (Except BackupError Unit)) :
    Delivers config (program.bind fun result =>
      .pure (result.map fun _ => none)) := by
  induction program with
  | pure value => trivial
  | perform operation next induction =>
      intro answer
      exact ⟨induction answer, fun name ended =>
        (unnamed (next answer) name ended).elim⟩

theorem Delivers.follows
    {program rest : Backups (Except BackupError (Option String))}
    {trace : List (Event BackupOp.Answer)}
    (delivers : Delivers config program)
    (running : ∀ name, program ≠ .pure (.ok (some name)))
    (follows : program.Follows trace rest) :
    Delivers config rest ∧ ∀ name, rest = .pure (.ok (some name)) →
      ∃ before data, trace = before ++
        [⟨.putObject (S3Client.key config name) data, .ok ()⟩] := by
  induction follows with
  | start => exact ⟨delivers, fun name ended => (running name ended).elim⟩
  | @step trace operation next answer _ induction =>
      obtain ⟨later, put⟩ := induction.1 answer
      refine ⟨later, fun name ended => ?_⟩
      obtain ⟨data, same⟩ := put name ended
      exact ⟨trace, data, by rw [same]⟩

end Delivery

section Runs

variable {formats : TimeFormats} {config : BackupConfig}
  {start pool : BackupPool}

/-- Where the steps of a run spare the bucket's other objects, every step
keeps them and deletes expired backups only, and every backup that succeeds
has put a new object. -/
theorem backups_kept (empty : start.tasks = [])
    (idle : start.state.underway = [])
    (reached : (backups formats config).Reaches
      (SparesObjects formats config) start pool) :
    (∀ label target, SparesObjects formats config pool label →
      (backups formats config).step pool label = some target →
      KeepsObjects formats config pool target label) ∧
    ∀ task ∈ pool.tasks, ∀ name, task.program = .pure (.ok (some name)) →
      ∃ before data, task.trace = before ++
        [⟨.putObject (S3Client.key config name) data, .ok ()⟩] := by
  constructor
  · intro label target spares taken
    obtain ⟨informed, ghosts, covers, guarded⟩ :=
      Ordered.reached empty idle reached
    cases label with
    | arrive job =>
        cases taken
        rfl
    | advance index choice =>
        obtain ⟨job, trace, operation, next, answer, state, found, performed,
          rfl⟩ := Machine.step_advance taken
        obtain ⟨ghost, -, parts, linked, obeys⟩ := covers.pick found
        have allowed := obeys.1
        rw [parts] at guarded
        have result : operation.perform formats config choice pool.state =
            (answer, state) := Option.some.inj performed
        obtain rfl := congrArg Prod.snd result
        simp only [KeepsObjects, SparesObjects, Pool.next?_eq found]
          at spares ⊢
        cases operation with
        | newClient | snapshot | nowUtcFilename | listObjects | now => rfl
        | bundle name =>
            simp only [BackupOp.perform]
            split <;> rfl
        | putObject key data =>
            cases ghost with
            | idle | told => exact allowed.elim
            | reserved own =>
                have same : key = own := allowed
                subst same
                refine ⟨guarded.free key guarded.reserved_mem,
                  fun other => ?_⟩
                simp only [BackupOp.perform]
                by_cases effect : choice.takesEffect = true
                · rw [if_pos effect, ObjectStore.get?_put]
                  simp [effect]
                · rw [if_neg effect]
                  simp [effect]
        | deleteObject key =>
            cases ghost with
            | idle | reserved => exact allowed.elim
            | told objects now =>
                obtain ⟨listed, inside, named, picked⟩ := allowed
                have current := informed _ (List.mem_of_getElem? found)
                  (by simp) objects linked.1 listed inside
                rw [key_entry current.below] at named
                subst named
                refine ⟨⟨objects, listed.2, ?_, current.same⟩, ?_⟩
                · exact spares.expired linked.1 linked.2 inside picked
                · intro other different
                  simp only [BackupOp.perform]
                  split
                  · rw [ObjectStore.get?_delete, if_neg different]
                  · rfl
  · intro task member name ended
    have follows := Machine.Reaches.follows empty reached task member
    cases isJob : task.job with
    | createBackup =>
        rw [isJob] at follows
        exact (delivers_createBackup.follows nofun follows).2 name ended
    | applyRetention =>
        rw [isJob] at follows
        exact ((delivers_unnamed _).follows (unnamed _) follows).2 name ended

end Runs

/-- The texts of the first two seconds of the epoch. -/
def epochFormats : TimeFormats where
  filename time :=
    if time < 1000000000 then "19700101-000000" else "19700101-000001"
  rfc3339 time :=
    if time < 1000000000 then "1970-01-01T00:00:00+00:00"
    else "1970-01-01T00:00:01+00:00"

/-- A place for backups, of which one is kept. -/
def keepOne (keyPrefix : String) : BackupConfig where
  endpoint := "http://localhost:9000"
  bucket := "backups"
  keyPrefix := keyPrefix
  accessKey := "access"
  secretKey := "secret"
  retention := { maxCount := some 1 }

def albumPage : StoredObject where
  data := []
  lastModified := "1969-12-31T23:59:59.000Z"
  created := false

/-- A bucket with an object of another program. -/
def sharedBucket : BackupPool where
  state := {
    bucket := ObjectStore.put ⟨[], .nil⟩ "album/first.jpg" albumPage
    underway := [] }
  tasks := []

/-- Entries that are listed from the oldest to the newest. -/
theorem retain_of_sorted {formats : TimeFormats} {config : BackupConfig}
    {entries : List BackupEntry} {names : List String}
    (sorted : entries.Pairwise fun first second =>
      decide (first.lastModified ≤ second.lastModified) = true)
    (ageless : config.retention.maxAge = none)
    (picked : surplus config.retention.maxCount entries = names) :
    retain formats config entries = deleteAll config names := by
  unfold retain
  rw [List.mergeSort_of_pairwise sorted, ageless]
  exact congrArg (deleteAll config) picked

/-- All steps of a backup at this time that does not fail. -/
def backupSteps (index : Nat) (time : Int) (modified : String) :
    List BackupLabel :=
  List.replicate 5 (.advance index { time, modified })

/-- Two backups and a retention pass that lists them. -/
def twoBackupsListed : List BackupLabel :=
  .arrive .createBackup ::
    (backupSteps 0 0 "1970-01-01T00:00:00.000Z" ++
      .arrive .createBackup ::
        (backupSteps 1 1000000000 "1970-01-01T00:00:01.000Z" ++
          [.arrive .applyRetention, .advance 2 {}, .advance 2 {}]))

/-- A test that spares the other objects of the bucket. -/
def sparing (pool : BackupPool) : BackupLabel → Bool
  | .arrive _ => true
  | .advance index choice =>
      match pool.next? index with
      | some (_, _, .nowUtcFilename) =>
          let key := backupKey epochFormats (keepOne "sendword") choice.time
          !pool.state.underway.contains key &&
            (pool.state.bucket.get? key).isNone &&
            pool.tasks.all fun task => (toldIn task.trace).isEmpty
      | some (_, trace, .deleteObject _) =>
          ((toldIn trace).all fun objects => objects.all (·.2.created)) &&
            (readIn trace).isEmpty
      | _ => true

theorem spares_of_sparing {pool : BackupPool} {label : BackupLabel}
    (passes : sparing pool label = true) :
    SparesObjects epochFormats (keepOne "sendword") pool label := by
  cases label with
  | arrive job => trivial
  | advance index choice =>
      simp only [sparing] at passes
      simp only [SparesObjects]
      split at passes
      · simp only [Bool.and_eq_true, List.all_eq_true, List.isEmpty_iff]
          at passes
        obtain ⟨⟨apart, free⟩, untold⟩ := passes
        refine ⟨by simpa using apart, by simpa using free, ?_⟩
        intro task member _ objects told
        rw [untold task member] at told
        cases told
      · simp only [Bool.and_eq_true, List.all_eq_true, List.isEmpty_iff]
          at passes
        obtain ⟨own, unread⟩ := passes
        refine ⟨fun objects told _ _ => .inl (own objects told), ?_⟩
        intro objects _ now read
        rw [unread] at read
        cases read
      · trivial

def listedTwo : BackupPool :=
  ((backups epochFormats (keepOne "sendword")).run sparing sharedBucket
    twoBackupsListed).get (by decide)

def firstKey : String := "sendword/backup-19700101-000000.tar.gz"

theorem listedTwo_deletes : ∃ trace next,
    listedTwo.tasks[2]? = some
      { job := .applyRetention, trace
        program := .perform (.deleteObject firstKey) next } ∧
    ((toldIn trace).all fun objects => objects.all (·.2.created)) = true ∧
      readIn trace = [] := by
  obtain ⟨entries, trace, found, sorted, picked, own, unread⟩ :
      ∃ entries trace, listedTwo.tasks[2]? = some
        { job := BackupJob.applyRetention, trace
          program := (retain epochFormats (keepOne "sendword") entries).bind
            fun result => .pure (result.map fun _ => none) } ∧
        entries.Pairwise (fun first second =>
          decide (first.lastModified ≤ second.lastModified) = true) ∧
        surplus (some 1) entries = ["backup-19700101-000000.tar.gz"] ∧
        ((toldIn trace).all fun objects => objects.all (·.2.created)) = true ∧
        readIn trace = [] :=
    ⟨_, _, rfl, by decide, by decide, by decide, by decide⟩
  rw [retain_of_sorted sorted rfl picked] at found
  exact ⟨trace, _, found, own, unread⟩

/-- The pass deletes the older of the two backups. -/
theorem backups_kept_older :
    ∃ target,
      (backups epochFormats (keepOne "sendword")).step listedTwo
        (.advance 2 {}) = some target ∧
      KeepsObjects epochFormats (keepOne "sendword") listedTwo target
        (.advance 2 {}) ∧
      (listedTwo.state.bucket.get? firstKey).isSome ∧
      target.state.bucket.get? firstKey = none := by
  have run : (backups epochFormats (keepOne "sendword")).Reaches
      (fun pool label => sparing pool label = true) sharedBucket listedTwo :=
    .of_run .refl (Option.some_get _).symm
  have reached := run.mono fun _ _ => spares_of_sparing
  obtain ⟨trace, next, found, own, unread⟩ := listedTwo_deletes
  have taken := @Machine.step_of_found _ _ _ _ _ _
    (backups epochFormats (keepOne "sendword")) listedTwo 2 {} _ _ _ _ _ _
    found rfl
  have spared : sparing listedTwo (.advance 2 {}) = true := by
    rw [sparing, Pool.next?_eq found]
    exact Bool.and_eq_true_iff.mpr ⟨own, by rw [unread]; rfl⟩
  refine ⟨_, taken, ?_, by decide, ?_⟩
  · exact (backups_kept rfl rfl reached).1 _ _ (spares_of_sparing spared)
      taken
  · exact ObjectStore.get?_delete.trans (if_pos rfl)

/-- Two backups of one second, the second one before its upload. -/
def sameSecond : BackupPool :=
  ((backups epochFormats (keepOne "sendword")).run (fun _ _ => true)
    sharedBucket
    (.arrive .createBackup :: .arrive .createBackup ::
      (backupSteps 0 0 "" ++ List.replicate 4 (.advance 1 {})))).get
    (by decide)

/-- A backup at the root of the bucket, and a pass that lists the whole
bucket. -/
def listedAll : BackupPool :=
  ((backups epochFormats (keepOne "")).run (fun _ _ => true) sharedBucket
    (.arrive .createBackup ::
      (backupSteps 0 0 "1970-01-01T00:00:00.000Z" ++
        [.arrive .applyRetention, .advance 1 {}, .advance 1 {}]))).get
    (by decide)

theorem listedAll_deletes : ∃ trace next,
    listedAll.tasks[1]? = some
      { job := .applyRetention, trace
        program := .perform (.deleteObject "album/first.jpg") next } := by
  obtain ⟨entries, trace, found, sorted, picked⟩ :
      ∃ entries trace, listedAll.tasks[1]? = some
        { job := BackupJob.applyRetention, trace
          program := (retain epochFormats (keepOne "") entries).bind
            fun result => .pure (result.map fun _ => none) } ∧
        entries.Pairwise (fun first second =>
          decide (first.lastModified ≤ second.lastModified) = true) ∧
        surplus (some 1) entries = ["album/first.jpg"] :=
    ⟨_, _, rfl, by decide, by decide⟩
  rw [retain_of_sorted sorted rfl picked] at found
  exact ⟨trace, _, found⟩

/-- The upload replaces the object of the first backup, and the pass deletes
the object of the other program. -/
theorem not_backups_kept :
    (∃ target,
      (backups epochFormats (keepOne "sendword")).Reaches
        (fun _ _ => true = true) sharedBucket sameSecond ∧
      (backups epochFormats (keepOne "sendword")).step sameSecond
        (.advance 1 {}) = some target ∧
      ¬ KeepsObjects epochFormats (keepOne "sendword") sameSecond target
        (.advance 1 {})) ∧
    ∃ target,
      (backups epochFormats (keepOne "")).Reaches
        (fun _ _ => true = true) sharedBucket listedAll ∧
      (backups epochFormats (keepOne "")).step listedAll (.advance 1 {}) =
        some target ∧
      ¬ KeepsObjects epochFormats (keepOne "") listedAll target
        (.advance 1 {}) := by
  constructor
  · refine ⟨_, .of_run .refl (Option.some_get _).symm, rfl, ?_⟩
    intro keeps
    have taken : (sameSecond.state.bucket.get? firstKey).isSome = true := by
      decide
    have free : sameSecond.state.bucket.get? firstKey = none := keeps.1
    rw [free] at taken
    cases taken
  · obtain ⟨trace, next, found⟩ := listedAll_deletes
    have taken := @Machine.step_of_found _ _ _ _ _ _
      (backups epochFormats (keepOne "")) listedAll 1 {} _ _ _ _ _ _ found rfl
    refine ⟨_, .of_run .refl (Option.some_get _).symm, taken, ?_⟩
    intro keeps
    simp only [KeepsObjects, Pool.next?_eq found] at keeps
    obtain ⟨⟨objects, object, expired, same⟩, -⟩ := keeps
    have created : object.created = true := expired.created
    have stored : listedAll.state.bucket.get? "album/first.jpg" =
        some albumPage := by decide
    rw [← same _ stored] at created
    cases created

end Sendword
