import Sendword.LoadedEdits

/-!
# The frame of the configuration writer

After a successful call the loaded configuration differs from the one before
in the designated hook only, and a failed call leaves the file as it was.
-/

namespace Sendword

open Concurrency Files Figment
open Toml hiding Value

/-- What saving its form leaves of a hook. -/
structure KeepsSettings (old new : HookConfig) : Prop where
  slug : new.slug = old.slug
  rateLimit : new.rateLimit = old.rateLimit
  concurrency : new.concurrency = old.concurrency
  approval : new.approval = old.approval
  notification : new.notification = old.notification

/-- The hooks after the call: one is added at the end, replaced where it
stands or taken out, or all are as before. -/
def FramesHooks (old new : List HookConfig) : ConfigRequest → Prop
  | .addHook data =>
      new = old ∨ ∃ hook, hook.slug = data.slug ∧ new = old ++ [hook]
  | .updateHook slug _ =>
      new = old ∨ ∃ index before after, old[index]? = some before ∧
        before.slug = slug ∧ KeepsSettings before after ∧
        new = old.set index after
  | .removeHook slug =>
      new = old ∨ ∃ index before, old[index]? = some before ∧
        before.slug = slug ∧ new = old.eraseIdx index
  | .importConfig _ => True

structure Frame (request : ConfigRequest) (config changed : AppConfig) :
    Prop where
  sections : changed = { config with hooks := changed.hooks }
  hooks : FramesHooks config.hooks changed.hooks request

variable {crates : Crates} {writer : ConfigWriter} {faults : SiteOp → Fault}
  {request : ConfigRequest} {old new : Document} {site : Site}
  {config changed : AppConfig} {data : HookFormData} {slug : String}

/-! ## The designated hook -/

theorem slug_of_decodes {serde : Serde}
    {table : Table} {hook : HookConfig}
    (decodes : HookDecodes serde (toValues table) hook) :
    hasSlug slug table = (hook.slug == slug) := by
  have named := decodes.slug
  unfold hasSlug
  rw [Decode.required, lookup_toValues] at named
  cases found : table.lookup "slug" with
  | none =>
      rw [found] at named
      cases named
  | some item =>
      rw [found] at named
      cases item with
      | value value =>
          cases value with
          | string text =>
              cases named
              rfl
          | integer | float | boolean | datetime | array | inlineTable =>
              cases named
      | table entries => cases named
      | arrayOfTables tables => cases named

theorem slug_buildHookTable {serde : Serde}
    {hook : HookConfig}
    (decodes : HookDecodes serde (toValues (buildHookTable data))
      hook) : hook.slug = data.slug := by
  have named := decodes.slug
  rw [Decode.required, lookup_toValues, buildHookTable, lookup_insert_self]
    at named
  exact (Option.some.inj named).symm

/-- The form does not touch these keys. -/
theorem keepsSettings_applyHookFields
    {serde : Serde} {table : Table}
    {before after : HookConfig}
    (decodes : HookDecodes serde (toValues table) before)
    (applied : HookDecodes serde
      (toValues (applyHookFields table data)) after) :
    KeepsSettings before after := by
  have kept (key : String) (other : key ∉ formKeys) :
      (toValues (applyHookFields table data)).lookup key =
        (toValues table).lookup key := by
    rw [lookup_toValues, lookup_toValues, lookup_applyHookFields other]
  have optional {α : Type} (key : String) (decode : Value → Option α)
      (other : key ∉ formKeys) :
      Decode.optional (toValues (applyHookFields table data)) key decode =
        Decode.optional (toValues table) key decode := by
    simp only [Decode.optional, kept key other]
  have slug : Decode.required (toValues (applyHookFields table data)) "slug"
      Decode.string = Decode.required (toValues table) "slug"
        Decode.string := by
    simp only [Decode.required, kept "slug" (by decide)]
  exact
    { slug := Option.some.inj
        (applied.slug.symm.trans (slug.trans decodes.slug))
      rateLimit := Option.some.inj (applied.rateLimit.symm.trans
        ((optional _ _ (by decide)).trans decodes.rateLimit))
      concurrency := Option.some.inj (applied.concurrency.symm.trans
        ((optional _ _ (by decide)).trans decodes.concurrency))
      approval := Option.some.inj (applied.approval.symm.trans
        ((optional _ _ (by decide)).trans decodes.approval))
      notification := Option.some.inj (applied.notification.symm.trans
        ((optional _ _ (by decide)).trans decodes.notification)) }

/-! ## The loaded hooks after an edit -/

section Edited

variable (keeps : ∀ values,
    (mergeDict values crates.overlay.entries).lookup "hooks" =
      values.lookup "hooks")
  (loaded : loadDocument crates old = .ok config)
  (reloaded : loadDocument crates new = .ok changed)

include keeps loaded reloaded

theorem hooks_added (added : addHookTable data old = .ok new) :
    FramesHooks config.hooks changed.hooks (.addHook data) := by
  rcases addHookTable_ok added with
    ⟨absent, rfl⟩ | ⟨tables, found, rfl⟩ | ⟨-, -, rfl⟩
  · have after := hooks_of_tables keeps reloaded (hookTables?_withHooks ..)
    cases isHooks : changed.hooks with
    | nil =>
        rw [isHooks] at after
        cases after
    | cons hook rest =>
        rw [isHooks] at after
        cases after with
        | cons decodes none =>
            cases none
            refine .inr ⟨hook, slug_buildHookTable decodes, ?_⟩
            rw [hooks_of_none keeps loaded absent]
            rfl
  · have before := hooks_of_tables keeps loaded found
    have after := hooks_of_tables keeps reloaded (hookTables?_withHooks ..)
    obtain ⟨hook, decodes, whole⟩ := forall₂_snoc
      (fun _ _ _ first second => first.unique second) before after
    exact .inr ⟨hook, slug_buildHookTable decodes, whole⟩
  · exact .inl (by rw [Except.ok.inj (reloaded.symm.trans loaded)])

theorem hooks_updated (updated : updateHookTable slug data old = .ok new) :
    FramesHooks config.hooks changed.hooks (.updateHook slug data) := by
  obtain ⟨tables, index, found, isIndex, rfl⟩ := updateHookTable_ok updated
  have before := hooks_of_tables keeps loaded found
  have after := hooks_of_tables keeps reloaded (hookTables?_withHooks ..)
  have inside : index < tables.length :=
    (List.findIdx?_eq_some_iff_getElem.mp isIndex).1
  obtain ⟨table, hook, saved, atTable, atHook, decodes, applied, whole⟩ :=
    forall₂_modify (fun _ _ _ first second => first.unique second) before
      inside after
  have designated := slug_of_index isIndex atTable
  rw [slug_of_decodes decodes] at designated
  exact .inr ⟨index, hook, saved, atHook, by simpa using designated,
    keepsSettings_applyHookFields decodes applied, whole⟩

theorem hooks_removed (removed : removeHookTable slug old = .ok new) :
    FramesHooks config.hooks changed.hooks (.removeHook slug) := by
  obtain ⟨tables, index, found, isIndex, rfl⟩ := removeHookTable_ok removed
  have before := hooks_of_tables keeps loaded found
  have erased := forall₂_eraseIdx before index
  have inside : index < tables.length :=
    (List.findIdx?_eq_some_iff_getElem.mp isIndex).1
  have bound : index < config.hooks.length := by
    rw [← before.length_eq]
    exact inside
  have decodes : HookDecodes crates.toSerde (toValues tables[index])
      config.hooks[index] :=
    (List.forall₂_iff_get.mp before).2 index inside bound
  have designated := slug_of_index isIndex (List.getElem?_eq_getElem inside)
  rw [slug_of_decodes decodes] at designated
  refine .inr ⟨index, config.hooks[index], List.getElem?_eq_getElem bound,
    by simpa using designated, ?_⟩
  split at reloaded
  · rename_i empty
    rw [hooks_of_none keeps reloaded (lookup_remove_self "hooks" old)]
    rw [List.isEmpty_iff.mp empty] at erased
    cases isEmpty : config.hooks.eraseIdx index with
    | nil => rfl
    | cons hook rest =>
        rw [isEmpty] at erased
        cases erased
  · exact List.right_unique_forall₂' (fun _ _ _ one two => one.unique two)
      (hooks_of_tables keeps reloaded (hookTables?_withHooks ..)) erased

end Edited

theorem frame_of_edit {edit : Document → Except WriteError Document}
    (edits : request.edit? = some edit) (edited : edit old = .ok new)
    (loaded : loadDocument crates old = .ok config)
    (reloaded : loadDocument crates new = .ok changed) :
    Frame request config changed where
  sections := by
    have same : ∀ key, key ≠ "hooks" →
        (mergeDict (toValues new) crates.overlay.entries).lookup key =
          (mergeDict (toValues old) crates.overlay.entries).lookup key := by
      intro key other
      refine lookup_mergeDict_congr ?_ _
      have kept : SameSections old new := by
        cases request with
        | addHook data =>
            cases edits
            exact addHookTable_sections edited
        | updateHook slug data =>
            cases edits
            exact updateHookTable_sections edited
        | removeHook slug =>
            cases edits
            exact removeHookTable_sections edited
        | importConfig body => cases edits
      rw [lookup_toValues, lookup_toValues, kept key other]
    exact loaded_sections loaded reloaded same
  hooks := by
    rcases overlay_hooks loaded reloaded with keeps | same
    · cases request with
      | addHook data =>
          cases edits
          exact hooks_added keeps loaded reloaded edited
      | updateHook slug data =>
          cases edits
          exact hooks_updated keeps loaded reloaded edited
      | removeHook slug =>
          cases edits
          exact hooks_removed keeps loaded reloaded edited
      | importConfig body => cases edits
    · cases request with
      | addHook data | updateHook slug data | removeHook slug =>
          exact .inl same
      | importConfig body => cases edits

/-! ## Runs -/

/-- A file that loads is read as the same text by the writer. -/
theorem loaded_text {file : Except IoError ByteArray}
    (loaded : loadFrom crates file = .ok config) :
    ∃ old, crates.parse ((readToString file).getD "") = some old ∧
      loadDocument crates old = .ok config := by
  unfold loadFrom at loaded
  split at loaded
  · rename_i old parsed
    obtain ⟨text, isText, isDocument⟩ := Option.bind_eq_some_iff.mp parsed
    refine ⟨old, ?_, loaded⟩
    rw [← isDocument]
    unfold fileText at isText
    split at isText
    · simp [readToString, isText]
    · cases isText
      rfl
    · cases isText
  · cases loaded

/-- A call on a file that loads: another file that loads is installed, and
differs by the edit, or nothing is changed. -/
theorem edit_alone (apart : writer.path ≠ writer.tempPath)
    (lawful : crates.Lawful (Prints crates request
      ((readToString (configFile writer faults site)).getD "")))
    (fits : request.Fits) (edits : request.edit?.isSome)
    (loaded : loadFrom crates (configFile writer faults site) =
      .ok config) :
    let run := runAlone faults (request.body crates writer) site
    (run.1 = .ok () ∧ ∃ text changed, Installed writer site run.2 text ∧
        loadFrom crates (.ok text.toUTF8) = .ok changed ∧
        Frame request config changed) ∨
      ((∃ error, run.1 = .error error) ∧ Unchanged writer site run.2) := by
  intro run
  obtain ⟨edit, isEdit⟩ := Option.isSome_iff_exists.mp edits
  obtain ⟨before, parsed, loads⟩ := loaded_text loaded
  have isRun : run = _ := body_of_edit isEdit
  rw [isRun]
  rcases @editHooks_alone crates writer faults site apart edit with
    ⟨old, new, isOld, edited, saves, ok, installed⟩ |
    ⟨-, ⟨error, failed⟩, unchanged⟩
  · rw [ok]
    cases parsed.symm.trans isOld
    have reparsed := lawful.parse_print new ⟨edit, before, isEdit, parsed,
      edited⟩ (wellFormed_of_edit fits isEdit
        (lawful.parse_wellFormed _ before parsed) edited)
    obtain ⟨changed, reloaded⟩ := saves.2.accepted
    refine .inl ⟨rfl, _, changed, installed, reloaded, ?_⟩
    rw [loadFrom_printed reparsed] at reloaded
    exact frame_of_edit isEdit edited loads reloaded
  · rw [failed]
    exact .inr ⟨⟨_, rfl⟩, unchanged⟩

/-- A call of the writer on a file that loads. -/
theorem writer_frame (apart : writer.path ≠ writer.tempPath)
    (lawful : crates.Lawful (Prints crates request
      ((readToString (configFile writer faults site)).getD "")))
    (fits : request.Fits) (edits : request.edit?.isSome)
    (loaded : loadFrom crates (configFile writer faults site) =
      .ok config) :
    let run := runAlone faults (request.body crates writer) site
    (run.1 = .ok () → ∃ bytes changed,
        run.2.disk.content? writer.path = some bytes ∧
          loadFrom crates (.ok bytes) = .ok changed ∧
          Frame request config changed) ∧
      (∀ error, run.1 = .error error →
        run.2.disk.content? writer.path =
          site.disk.content? writer.path) := by
  intro run
  rcases edit_alone apart lawful fits edits loaded with
    ⟨ok, text, changed, installed, reloaded, frame⟩ |
    ⟨⟨error, failed⟩, unchanged⟩
  · refine ⟨fun _ => ⟨_, changed, installed.1, reloaded, frame⟩, ?_⟩
    intro error failed
    cases ok.symm.trans failed
  · refine ⟨fun ok => ?_, fun _ _ => unchanged.1⟩
    cases failed.symm.trans ok

/-- The second hook is changed. -/
theorem writer_frame_greeted :
    let run := runAlone unfailing
      ((ConfigRequest.updateHook "greeting" welcome).body siteCrates
        sendwordToml) greetedSite
    (run.1 = .ok () → ∃ bytes changed,
        run.2.disk.content? sendwordToml.path = some bytes ∧
          loadFrom siteCrates (.ok bytes) = .ok changed ∧
          Frame (.updateHook "greeting" welcome) greetedConfig changed) ∧
      (∀ error, run.1 = .error error →
        run.2.disk.content? sendwordToml.path =
          greetedSite.disk.content? sendwordToml.path) := by
  have file : configFile sendwordToml unfailing greetedSite =
      .ok (serverText ++ deployText ++ greetingText).toUTF8 :=
    configFile_diskWith rfl _ _
  have loads : loadFrom siteCrates
      (configFile sendwordToml unfailing greetedSite) =
        .ok greetedConfig := by
    rw [file]
    exact (loadFrom_printed greeted_parse).trans (by decide)
  refine writer_frame (by decide) ?_ ?_ rfl loads
  · rw [file]
    refine site_lawful fun document prints => ?_
    obtain ⟨edit, old, isEdit, parsed, edited⟩ := prints
    have read : (readToString (.ok (serverText ++ deployText ++
        greetingText).toUTF8)).getD "" =
          serverText ++ deployText ++ greetingText :=
      congrArg (Option.getD · "") (fromUTF8?_toUTF8 _)
    rw [read] at parsed
    cases isEdit
    cases greeted_parse.symm.trans parsed
    cases edited
    exact List.mem_of_getElem? (i := 6) rfl
  · intro retries given
    cases given

end Sendword
