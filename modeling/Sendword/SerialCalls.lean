import Sendword.SharedTemp

/-!
# Calls in a row

What calls make of the text of the configuration file when they are applied
one after another, and the hooks that they spare.
-/

namespace Sendword

open Toml

/-! ## Calls in a row -/

section Serial

variable (crates : Crates)

/-- What a call makes of the text of the configuration file, if it returns
`Ok`. -/
def WriterCall.edited? (call : WriterCall) (text : String) : Option String :=
  match call.text crates (.ok text.toUTF8) with
  | .error _ => none
  | .ok new =>
      match loadFrom crates (.ok new.toUTF8) with
      | .error _ => none
      | .ok _ => some new

/-- Apply calls one after another. -/
def editedAll? (calls : List WriterCall) (text : String) : Option String :=
  calls.foldlM (fun text call => call.edited? crates text) text

end Serial

/-! ## Hooks that are spared -/

/-- The slug of the hook that a call changes or removes. -/
def WriterCall.target? : WriterCall → Option String
  | .addHook _ => none
  | .updateHook slug _ | .removeHook slug => some slug

/-- The `hooks` item is absent or an array of tables. -/
def HooksAreTables (document : Document) : Prop :=
  document.lookup "hooks" = none ∨ ∃ tables, hookTables? document = some tables

/-- The document has this hook. -/
def HasHook (hook : Table) (document : Document) : Prop :=
  ∃ tables, hookTables? document = some tables ∧ hook ∈ tables

section Spared

variable {hook : Table} {slug : String} {data : HookFormData}
  {old new : Document} {call : WriterCall}

theorem hasSlug_buildHookTable (data : HookFormData) (slug : String) :
    hasSlug slug (buildHookTable data) = (data.slug == slug) := by
  simp [hasSlug, buildHookTable, tomlString]

theorem mem_modify_of_ne {Item : Type} {items : List Item} {index : Nat}
    {item : Item} (change : Item → Item) (member : item ∈ items)
    (other : items[index]? ≠ some item) :
    item ∈ items.modify index change := by
  obtain ⟨position, found⟩ := List.getElem?_of_mem member
  refine List.mem_of_getElem? (i := position) ?_
  rw [List.getElem?_modify, found]
  have different : index ≠ position := fun same => other (same ▸ found)
  simp [different]

theorem mem_eraseIdx_of_ne {Item : Type} {items : List Item} {index : Nat}
    {item : Item} (member : item ∈ items)
    (other : items[index]? ≠ some item) : item ∈ items.eraseIdx index := by
  obtain ⟨position, found⟩ := List.getElem?_of_mem member
  have different : position ≠ index := fun same => other (same ▸ found)
  exact List.mem_eraseIdx_iff_getElem?.mpr ⟨position, different, found⟩

/-- The first hook with a slug is not one with another slug. -/
theorem findIdx?_hasSlug_ne {tables : List Table} {index : Nat}
    (isIndex : tables.findIdx? (hasSlug slug) = some index)
    (other : hasSlug slug hook = false) : tables[index]? ≠ some hook := by
  intro found
  obtain ⟨inside, holds, -⟩ := List.findIdx?_eq_some_iff_getElem.mp isIndex
  rw [List.getElem?_eq_getElem inside] at found
  cases found
  rw [holds] at other
  cases other

theorem hooksAreTables_of_edit (edited : call.edit old = .ok new)
    (areTables : HooksAreTables old) : HooksAreTables new := by
  cases call with
  | addHook data =>
      rcases addHookTable_ok edited with
        ⟨-, rfl⟩ | ⟨tables, -, rfl⟩ | ⟨-, -, rfl⟩
      · exact .inr ⟨_, hookTables?_withHooks ..⟩
      · exact .inr ⟨_, hookTables?_withHooks ..⟩
      · exact areTables
  | updateHook slug data =>
      obtain ⟨tables, index, -, -, rfl⟩ := updateHookTable_ok edited
      exact .inr ⟨_, hookTables?_withHooks ..⟩
  | removeHook slug =>
      obtain ⟨tables, index, -, -, rfl⟩ := removeHookTable_ok edited
      split
      · exact .inl (by simp)
      · exact .inr ⟨_, hookTables?_withHooks ..⟩

theorem hasHook_of_add (added : addHookTable data old = .ok new)
    (areTables : HooksAreTables old) : HasHook (buildHookTable data) new := by
  rcases addHookTable_ok added with
    ⟨-, rfl⟩ | ⟨tables, -, rfl⟩ | ⟨notTables, present, rfl⟩
  · exact ⟨_, hookTables?_withHooks .., by simp⟩
  · exact ⟨_, hookTables?_withHooks .., by simp⟩
  · rcases areTables with absent | ⟨tables, found⟩
    · exact absurd absent present
    · cases notTables.symm.trans found

/-- A call spares the hooks that it does not name. -/
theorem hasHook_of_edit (edited : call.edit old = .ok new)
    (other : ∀ slug, call.target? = some slug → hasSlug slug hook = false)
    (has : HasHook hook old) : HasHook hook new := by
  obtain ⟨tables, found, member⟩ := has
  cases call with
  | addHook data =>
      rcases addHookTable_ok edited with
        ⟨absent, -⟩ | ⟨same, alsoFound, rfl⟩ | ⟨-, -, rfl⟩
      · cases absent.symm.trans (lookup_of_hookTables found)
      · cases found.symm.trans alsoFound
        exact ⟨_, hookTables?_withHooks .., List.mem_append_left _ member⟩
      · exact ⟨tables, found, member⟩
  | updateHook slug data =>
      obtain ⟨same, index, alsoFound, isIndex, rfl⟩ :=
        updateHookTable_ok edited
      cases found.symm.trans alsoFound
      have away := findIdx?_hasSlug_ne isIndex (other slug rfl)
      exact ⟨_, hookTables?_withHooks .., mem_modify_of_ne _ member away⟩
  | removeHook slug =>
      obtain ⟨same, index, alsoFound, isIndex, rfl⟩ :=
        removeHookTable_ok edited
      cases found.symm.trans alsoFound
      have away := findIdx?_hasSlug_ne isIndex (other slug rfl)
      have stays := mem_eraseIdx_of_ne member away
      rw [if_neg (by
        rw [List.isEmpty_iff]
        exact List.ne_nil_of_mem stays)]
      exact ⟨_, hookTables?_withHooks .., stays⟩

end Spared

/-! ## What calls in a row keep -/

/-- The call as a request. -/
def WriterCall.request : WriterCall → ConfigRequest
  | .addHook data => .addHook data
  | .updateHook slug data => .updateHook slug data
  | .removeHook slug => .removeHook slug

/-- The documents that these calls print. -/
def PrintsAny (crates : Crates) (calls : List WriterCall)
    (new : Document) : Prop :=
  ∃ call ∈ calls, ∃ text old, crates.parse text = some old ∧
    call.edit old = .ok new

section Texts

variable {crates : Crates} {calls : List WriterCall} {call : WriterCall}
  {text new : String}

theorem edited?_eq_some (applied : call.edited? crates text = some new) :
    ∃ old document, crates.parse text = some old ∧
      call.edit old = .ok document ∧ new = crates.print document := by
  have read : readToString (.ok text.toUTF8) = some text :=
    fromUTF8?_toUTF8 text
  unfold WriterCall.edited? WriterCall.text at applied
  rw [read, Option.getD_some] at applied
  cases parsed : crates.parse text with
  | none =>
      rw [parsed] at applied
      cases applied
  | some old =>
      cases edited : call.edit old with
      | error error =>
          simp [parsed, edited, Except.map] at applied
      | ok document =>
          refine ⟨old, document, rfl, edited, ?_⟩
          simp only [parsed, edited, Except.map] at applied
          split at applied
          · cases applied
          · exact (Option.some.inj applied).symm

theorem edited?_of_text {config : AppConfig}
    (edited : call.text crates (.ok text.toUTF8) = .ok new)
    (accepted : loadFrom crates (.ok new.toUTF8) = .ok config) :
    call.edited? crates text = some new := by
  unfold WriterCall.edited?
  rw [edited]
  simp only [accepted]

theorem edited?_of_error {old : Document} {error : WriteError}
    (parsed : crates.parse text = some old)
    (refused : call.edit old = .error error) :
    call.edited? crates text = none := by
  cases edited : call.edited? crates text with
  | none => rfl
  | some new =>
      obtain ⟨same, document, alsoParsed, edits, -⟩ :=
        edited?_eq_some edited
      cases parsed.symm.trans alsoParsed
      cases refused.symm.trans edits

/-- The document that a call has printed is read again. -/
theorem parse_of_edited? (lawful : crates.Lawful (PrintsAny crates calls))
    (member : call ∈ calls) (fits : call.request.Fits)
    (applied : call.edited? crates text = some new) :
    ∃ old document, crates.parse text = some old ∧
      call.edit old = .ok document ∧ crates.parse new = some document := by
  obtain ⟨old, document, parsed, edited, rfl⟩ := edited?_eq_some applied
  have edits : call.request.edit? = some call.edit := by cases call <;> rfl
  have wellFormed := wellFormed_of_edit fits edits
    (lawful.parse_wellFormed text old parsed) edited
  exact ⟨old, document, parsed, edited, lawful.parse_print document
    ⟨call, member, text, old, parsed, edited⟩ wellFormed⟩

/-- What each of the calls keeps, all of them keep. -/
theorem editedAll?_keeps {holds : Document → Prop}
    (lawful : crates.Lawful (PrintsAny crates calls))
    (fits : ∀ call ∈ calls, call.request.Fits)
    {part : List WriterCall} (among : ∀ call ∈ part, call ∈ calls)
    (kept : ∀ call ∈ part, ∀ old new, call.edit old = .ok new →
      holds old → holds new)
    (initially : ∃ document, crates.parse text = some document ∧
      holds document)
    (applied : editedAll? crates part text = some new) :
    ∃ document, crates.parse new = some document ∧ holds document := by
  induction part generalizing text with
  | nil =>
      cases applied
      exact initially
  | cons call rest induction =>
      rw [editedAll?, List.foldlM_cons] at applied
      obtain ⟨middle, first, later⟩ := Option.bind_eq_some_iff.mp applied
      obtain ⟨document, parsed, held⟩ := initially
      have member := among call (List.mem_cons_self ..)
      obtain ⟨old, edited, alsoParsed, edits, readAgain⟩ :=
        parse_of_edited? lawful member (fits call member) first
      cases parsed.symm.trans alsoParsed
      refine induction (fun other inRest => ?_) (fun other inRest => ?_) ?_
        later
      · exact among other (List.mem_cons_of_mem _ inRest)
      · exact kept other (List.mem_cons_of_mem _ inRest)
      · exact ⟨edited, readAgain,
          kept call (List.mem_cons_self ..) _ _ edits held⟩

/-- A hook that is added stays until a call names it. -/
theorem hasHook_of_editedAll {initial final : String}
    {before later : List WriterCall} {data : HookFormData}
    (lawful : crates.Lawful
      (PrintsAny crates (before ++ .addHook data :: later)))
    (fits : ∀ call ∈ before ++ .addHook data :: later, call.request.Fits)
    (areTables : ∃ document, crates.parse initial = some document ∧
      HooksAreTables document)
    (spared : ∀ call ∈ later, call.target? ≠ some data.slug)
    (applied : editedAll? crates (before ++ .addHook data :: later) initial =
      some final) :
    ∃ document, crates.parse final = some document ∧
      HasHook (buildHookTable data) document := by
  rw [editedAll?, List.foldlM_append] at applied
  obtain ⟨middle, first, rest⟩ := Option.bind_eq_some_iff.mp applied
  rw [List.foldlM_cons] at rest
  obtain ⟨after, added, last⟩ := Option.bind_eq_some_iff.mp rest
  obtain ⟨old, parsed, oldTables⟩ := editedAll?_keeps lawful fits
    (fun call inBefore => List.mem_append_left _ inBefore)
    (fun call _ old new edited tables => hooksAreTables_of_edit edited tables)
    areTables first
  have member : .addHook data ∈ before ++ .addHook data :: later :=
    List.mem_append_right _ (List.mem_cons_self ..)
  obtain ⟨same, new, alsoParsed, edited, readAgain⟩ :=
    parse_of_edited? lawful member (fits _ member) added
  cases parsed.symm.trans alsoParsed
  refine editedAll?_keeps lawful fits (fun call inLater => ?_)
    (fun call inLater old new edits has => ?_)
    ⟨new, readAgain, hasHook_of_add edited oldTables⟩ last
  · exact List.mem_append_right _ (List.mem_cons_of_mem _ inLater)
  · refine hasHook_of_edit edits (fun slug named => ?_) has
    have other := spared call inLater
    rw [hasSlug_buildHookTable]
    simp only [beq_eq_false_iff_ne]
    exact fun same => other (by rw [named, same])

end Texts

end Sendword
