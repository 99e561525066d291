import Sendword.Settings
import Sendword.WriterFrame

/-!
# Reloading the configuration

`AppConfig::load` layers `sendword.json` between the file and the environment
at startup; `reload_config` leaves it out.
-/

namespace Sendword

open Concurrency Files Figment
open Toml hiding Value

variable (crates : Crates) (writer : ConfigWriter)

/-- A reload gives the configuration of the start, and one after a successful
edit differs from it by the edit. -/
structure ReloadAgrees (request : ConfigRequest) (site : Site)
    (config : AppConfig) : Prop where
  same :
    let run := runAlone unfailing (reloadConfig crates writer) site
    run.1 = .ok () ∧ run.2.live = config
  edited :
    let edit := runAlone unfailing (request.body crates writer) site
    let run := runAlone unfailing (reloadConfig crates writer) edit.2
    edit.1 = .ok () →
      run.1 = .ok () ∧ Frame request config run.2.live

/-- `sendword.json` adds nothing: setting by setting, what it says is
overridden by the environment, or is what the file or the default says. -/
def JsonAddsNothing (json : Layer) (document : Document) : Prop :=
  (appFields crates.toSerde).Idle (toValues document) json.entries
    crates.overlay.entries

variable {crates writer} {request : ConfigRequest} {site : Site}
  {config : AppConfig} {values other : Dict} {json : Layer}
  {document : Document}

/-- Two lists of layers that say the same configuration. -/
theorem jsonAddsNothing_iff {raw : AppConfig}
    (decoded : Decode.appConfig crates.toSerde
      (mergeDict (mergeDict (toValues document) json.entries)
        crates.overlay.entries) = some raw) :
    JsonAddsNothing crates json document ↔
      Decode.appConfig crates.toSerde
        (mergeDict (toValues document) crates.overlay.entries) =
          some raw := by
  have layered : Layered (toValues document) json.entries
      crates.overlay.entries
      (mergeDict (toValues document) crates.overlay.entries)
      (mergeDict (mergeDict (toValues document) json.entries)
        crates.overlay.entries) :=
    { distinctMiddle := json.isDistinct
      distinctLast := crates.overlay.isDistinct
      base := lookup_mergeDict_eq _ crates.overlay.isDistinct
      top := fun key => by
        rw [lookup_mergeDict_eq _ crates.overlay.isDistinct,
          lookup_mergeDict_eq _ json.isDistinct] }
  exact (Fields.idle_iff _ app_lawful layered (app_decodes.mp decoded)).trans
    app_decodes.symm

/-! ## Loading twice -/

theorem compiledPatterns_of_decodes {serde : Serde}
    (fields : AppDecodes serde values config) :
    config.masking.compiledPatterns = [] := by
  have decoded := fields.masking
  unfold Decode.withDefault at decoded
  split at decoded
  · simp only [Decode.maskingConfig, Option.bind_eq_bind,
      Option.bind_eq_some_iff, Option.pure_def, Option.some.injEq] at decoded
    obtain ⟨entries, -, names, -, patterns, -, same⟩ := decoded
    rw [← same]
  · rw [← Option.some.inj decoded]

/-- The loaded configuration tells the decoded one. -/
theorem decodes_of_loaded (loaded : loadValues crates values = .ok config) :
    Decode.appConfig crates.toSerde values =
      some { config with
        masking := { config.masking with compiledPatterns := [] } } := by
  obtain ⟨raw, fields, rfl, -⟩ := loadValues_ok loaded
  have empty := compiledPatterns_of_decodes fields
  have whole : raw = { raw with
      masking := { raw.masking with compiledPatterns := [] } } := by
    rw [← empty]
  rw [whole] at fields
  exact (appConfig_iff ..).mpr fields

theorem loadValues_congr
    (same : Decode.appConfig crates.toSerde values =
      Decode.appConfig crates.toSerde other) :
    loadValues crates values = loadValues crates other := by
  unfold loadValues
  rw [same]

/-- Reload agrees with the start exactly where `sendword.json` adds nothing
to what the file and the environment say. -/
theorem reload_agrees_iff (apart : writer.path ≠ writer.tempPath)
    (lawful : crates.Lawful (Prints crates request
      ((readToString (configFile writer unfailing site)).getD "")))
    (fits : request.Fits) (edits : request.edit?.isSome)
    (started : loadAtStartup crates json (configFile writer unfailing site) =
      .ok config) :
    ReloadAgrees crates writer request site config ↔
      ∀ document, (fileText (configFile writer unfailing site)).bind
          crates.parse = some document →
        JsonAddsNothing crates json document := by
  obtain ⟨document, parsed, loaded⟩ : ∃ document,
      (fileText (configFile writer unfailing site)).bind crates.parse =
        some document ∧
      loadValues crates
        (mergeDict (mergeDict (toValues document) json.entries)
          crates.overlay.entries) = .ok config := by
    unfold loadAtStartup at started
    split at started
    · rename_i document parsed
      exact ⟨document, parsed, started⟩
    · cases started
  have loads : loadFrom crates (configFile writer unfailing site) =
      loadDocument crates document := by
    simp only [loadFrom, parsed]
  have decoded := decodes_of_loaded loaded
  constructor
  · intro agrees found isFound
    cases parsed.symm.trans isFound
    obtain ⟨ok, live⟩ := agrees.same
    rw [reload_alone, loads] at ok live
    cases reloaded : loadDocument crates document with
    | error error =>
        rw [reloaded] at ok
        cases ok
    | ok again =>
        rw [reloaded] at live
        change again = config at live
        subst live
        exact (jsonAddsNothing_iff decoded).mpr (decodes_of_loaded reloaded)
  · intro nothing
    have again := (jsonAddsNothing_iff decoded).mp (nothing document parsed)
    have reloads : loadFrom crates (configFile writer unfailing site) =
        .ok config := by
      rw [loads, loadDocument, loadValues_congr (again.trans decoded.symm)]
      exact loaded
    refine ⟨?_, ?_⟩
    · rw [reload_alone, reloads]
      exact ⟨rfl, rfl⟩
    · intro edit run ok
      rcases edit_alone apart lawful fits edits reloads with
        ⟨-, text, changed, installed, loadsChanged, frame⟩ |
        ⟨⟨error, failed⟩, -⟩
      · have read : configFile writer unfailing edit.2 =
            .ok text.toUTF8 := by
          unfold configFile
          exact congrArg Prod.fst (perform_read installed.1)
        have ended : run = (.ok (), { edit.2 with live := changed }) := by
          have start : run = _ := reload_alone
          rw [start, read, loadsChanged]
        rw [ended]
        exact ⟨rfl, frame⟩
      · cases failed.symm.trans ok

theorem loadAtStartup_printed {text : String} {document : Document}
    (parsed : crates.parse text = some document) :
    loadAtStartup crates json (.ok text.toUTF8) =
      loadValues crates
        (mergeDict (mergeDict (toValues document) json.entries)
          crates.overlay.entries) := by
  unfold loadAtStartup
  rw [fileText_toUTF8, Option.bind_some, parsed]

/-- A `sendword.json` that repeats the port, sets a directory that the
environment overrides, and has no backup. -/
def repeatingJson : Layer where
  entries :=
    [("backup", .empty), ("logs", .dict [("dir", .string "logs")]),
      ("server", .dict [("port", .integer 9000)])]

theorem reload_agrees_deployed :
    ReloadAgrees siteCrates sendwordToml (.addHook greeting) deployedSite
      deployedConfig := by
  have file : configFile sendwordToml unfailing deployedSite =
      .ok (serverText ++ deployText).toUTF8 := configFile_diskWith rfl _ _
  have started : loadAtStartup siteCrates repeatingJson
      (configFile sendwordToml unfailing deployedSite) =
        .ok deployedConfig := by
    rw [file]
    exact (loadAtStartup_printed deployed_parse).trans (by decide)
  refine (reload_agrees_iff (by decide) ?_ greeting_fits rfl started).mpr ?_
  · rw [file]
    refine site_lawful fun document prints => ?_
    obtain ⟨edit, old, isEdit, parsed, edited⟩ := prints
    have read : (readToString (.ok (serverText ++ deployText).toUTF8)).getD
        "" = serverText ++ deployText :=
      congrArg (Option.getD · "") (fromUTF8?_toUTF8 _)
    rw [read] at parsed
    cases isEdit
    cases deployed_parse.symm.trans parsed
    cases edited
    exact List.mem_of_getElem? (i := 5) rfl
  · intro document parsed
    rw [file, fileText_toUTF8, Option.bind_some, deployed_parse] at parsed
    cases parsed
    -- The port is the one of the file, and the environment sets `logs.dir`.
    exact ⟨⟨trivial, rfl, trivial⟩, Setting.idle_none _ _ _,
      ⟨trivial, trivial⟩, Setting.idle_none _ _ _, Setting.idle_none _ _ _,
      Setting.idle_none _ _ _, Setting.idle_none _ _ _, trivial, rfl,
      trivial⟩

/-- A `sendword.json` that sets the port. -/
def portJson : Layer where
  entries := [("server", .dict [("port", .integer 9000)])]

/-- The server starts on port 9000 and is on port 8080 after a reload. -/
theorem not_reload_agrees :
    ∃ config,
      loadAtStartup greetingCrates portJson
          (configFile sendwordToml unfailing emptySite) = .ok config ∧
        ¬ ReloadAgrees greetingCrates sendwordToml (.addHook greeting)
            emptySite config := by
  refine ⟨{ server := { port := 9000 } }, ?_, ?_⟩
  · rw [emptySite_file]
    exact (loadAtStartup_printed rfl).trans (by decide)
  · intro agrees
    obtain ⟨-, live⟩ := agrees.same
    have loads : loadFrom greetingCrates
        (configFile sendwordToml unfailing emptySite) = .ok {} := by
      rw [emptySite_file]
      exact (loadFrom_printed rfl).trans (by decide)
    rw [reload_alone, loads] at live
    exact absurd live (by decide)

end Sendword
