import Sendword.ConfigWriter

/-!
# What an edit keeps

An edit of the `hooks` array leaves the other keys of the document and the
other hooks as they are, and a well-formed document well formed.
-/

namespace Sendword

open Files Toml

/-! ## Hooks of a document -/

theorem lookup_of_hookTables {document : Document} {tables : List Table}
    (found : hookTables? document = some tables) :
    document.lookup "hooks" = some (.arrayOfTables tables) := by
  unfold hookTables? at found
  split at found
  · rename_i item
    cases found
    exact item
  · cases found

@[simp] theorem hookTables?_withHooks (tables : List Table)
    (document : Document) :
    hookTables? (withHooks tables document) = some tables := by
  simp [hookTables?, withHooks]

theorem lookup_withHooks {key : String} (other : key ≠ "hooks")
    (tables : List Table) (document : Document) :
    (withHooks tables document).lookup key = document.lookup key :=
  lookup_insert_of_ne other _ document

theorem findHookIndex_ok {document : Document} {slug : String}
    {tables : List Table} {index : Nat}
    (found : findHookIndex document slug = .ok (tables, index)) :
    hookTables? document = some tables ∧
      tables.findIdx? (hasSlug slug) = some index := by
  unfold findHookIndex at found
  split at found
  · cases found
  · rename_i given isTables
    split at found
    · rename_i position isIndex
      cases found
      exact ⟨isTables, isIndex⟩
    · cases found

/-- The hooks a document has, in whatever form they are written. -/
def hookValues (document : Document) : List Figment.Value :=
  match (toValues document).lookup "hooks" with
  | some (.array hooks) => hooks
  | _ => []

theorem hookValues_of_tables {document : Document} {tables : List Table}
    (found : hookTables? document = some tables) :
    hookValues document =
      tables.map fun table => .dict (toValues table) := by
  simp [hookValues, lookup_of_hookTables found, Item.toValue, toTables_eq]

theorem hookValues_of_none {document : Document}
    (absent : document.lookup "hooks" = none) : hookValues document = [] := by
  simp [hookValues, absent]

/-- The hook with this slug. -/
def namesSlug (slug : String) : Figment.Value → Bool
  | .dict entries =>
      match entries.lookup "slug" with
      | some (.string text) => text == slug
      | _ => false
  | _ => false

theorem namesSlug_toValues (slug : String) (table : Table) :
    namesSlug slug (.dict (toValues table)) = hasSlug slug table := by
  unfold namesSlug hasSlug
  simp only [lookup_toValues]
  cases table.lookup "slug" with
  | none => rfl
  | some item =>
      cases item with
      | value value => cases value <;> rfl
      | table entries => rfl
      | arrayOfTables tables => rfl

/-! ## The other sections and hooks -/

/-- Two documents agree outside their hooks. -/
def SameSections (old new : Document) : Prop :=
  ∀ key, key ≠ "hooks" → new.lookup key = old.lookup key

/-- The hooks with another slug, in order. -/
def otherHooks (slug : String) (document : Document) : List Figment.Value :=
  (hookValues document).filter fun hook => !namesSlug slug hook

section Edits

variable {data : HookFormData} {slug : String} {old new : Document}

/-- What a successful `add_hook` makes of the document. -/
theorem addHookTable_ok (added : addHookTable data old = .ok new) :
    (old.lookup "hooks" = none ∧
        new = withHooks [buildHookTable data] old) ∨
      (∃ tables, hookTables? old = some tables ∧
        new = withHooks (tables ++ [buildHookTable data]) old) ∨
      (hookTables? old = none ∧ old.lookup "hooks" ≠ none ∧ new = old) := by
  unfold addHookTable at added
  split at added
  · cases added
  · split at added
    · rename_i absent
      cases added
      exact .inl ⟨absent, rfl⟩
    · rename_i tables found
      cases added
      exact .inr (.inl ⟨tables, by simp [hookTables?, found], rfl⟩)
    · rename_i item notTables found
      cases added
      refine .inr (.inr ⟨?_, by simp [found], rfl⟩)
      unfold hookTables?
      split
      · rename_i tables isTables
        rw [found] at isTables
        cases isTables
        exact absurd rfl (notTables tables)
      · rfl

theorem updateHookTable_ok (updated : updateHookTable slug data old = .ok new) :
    ∃ tables index, hookTables? old = some tables ∧
      tables.findIdx? (hasSlug slug) = some index ∧
      new = withHooks (tables.modify index fun table =>
        applyHookFields table data) old := by
  unfold updateHookTable at updated
  split at updated
  · cases updated
  · rename_i tables index found
    obtain ⟨isTables, isIndex⟩ := findHookIndex_ok found
    cases updated
    exact ⟨tables, index, isTables, isIndex, rfl⟩

theorem removeHookTable_ok (removed : removeHookTable slug old = .ok new) :
    ∃ tables index, hookTables? old = some tables ∧
      tables.findIdx? (hasSlug slug) = some index ∧
      new = if (tables.eraseIdx index).isEmpty then remove "hooks" old
        else withHooks (tables.eraseIdx index) old := by
  unfold removeHookTable at removed
  split at removed
  · cases removed
  · rename_i tables index found
    obtain ⟨isTables, isIndex⟩ := findHookIndex_ok found
    refine ⟨tables, index, isTables, isIndex, ?_⟩
    dsimp only at removed
    split at removed
    · rename_i empty
      cases removed
      rw [if_pos empty]
    · rename_i remain
      cases removed
      rw [if_neg remain]

theorem sameSections_withHooks (tables : List Table) :
    SameSections old (withHooks tables old) :=
  fun _ other => lookup_withHooks other tables old

theorem addHookTable_sections (added : addHookTable data old = .ok new) :
    SameSections old new := by
  rcases addHookTable_ok added with
    ⟨-, rfl⟩ | ⟨tables, -, rfl⟩ | ⟨-, -, rfl⟩
  · exact sameSections_withHooks _
  · exact sameSections_withHooks _
  · exact fun _ _ => rfl

theorem updateHookTable_sections
    (updated : updateHookTable slug data old = .ok new) :
    SameSections old new := by
  obtain ⟨tables, index, -, -, rfl⟩ := updateHookTable_ok updated
  exact sameSections_withHooks _

theorem removeHookTable_sections
    (removed : removeHookTable slug old = .ok new) : SameSections old new := by
  obtain ⟨tables, index, -, -, rfl⟩ := removeHookTable_ok removed
  split
  · exact fun key other => lookup_remove_of_ne other old
  · exact sameSections_withHooks _

/-- Every hook is kept, and stands where it stood. -/
theorem addHookTable_hooks (added : addHookTable data old = .ok new) :
    hookValues old <+: hookValues new := by
  rcases addHookTable_ok added with
    ⟨absent, rfl⟩ | ⟨tables, found, rfl⟩ | ⟨-, -, rfl⟩
  · rw [hookValues_of_none absent]
    exact List.nil_prefix
  · rw [hookValues_of_tables found,
      hookValues_of_tables (hookTables?_withHooks ..), List.map_append]
    exact List.prefix_append _ _
  · exact List.prefix_rfl

theorem hasSlug_applyHookFields (table : Table) :
    hasSlug slug (applyHookFields table data) = hasSlug slug table := by
  unfold hasSlug
  rw [lookup_applyHookFields (by decide)]

theorem otherHooks_of_tables {tables : List Table}
    (found : hookTables? old = some tables) :
    otherHooks slug old = (tables.filter fun table => !hasSlug slug table).map
      fun table => .dict (toValues table) := by
  rw [otherHooks, hookValues_of_tables found, List.filter_map]
  congr 2
  funext table
  exact congrArg _ (namesSlug_toValues slug table)

end Edits

/-- Changing an element that a selection leaves out, and that it still leaves
out, does not change the selection. -/
theorem filter_modify {α : Type} {selects : α → Bool} {items : List α}
    {index : Nat} {change : α → α}
    (left : ∀ item, items[index]? = some item → selects item = false)
    (stays : ∀ item, selects (change item) = selects item) :
    (items.modify index change).filter selects = items.filter selects := by
  induction items generalizing index with
  | nil => simp
  | cons item items induction =>
      cases index with
      | zero =>
          have leftOut := left item (by simp)
          simp [List.modify, stays, leftOut]
      | succ index =>
          have rest := @induction index fun found inside =>
            left found (by simpa using inside)
          simp [List.filter_cons, rest]

theorem filter_eraseIdx {α : Type} {selects : α → Bool} {items : List α}
    {index : Nat}
    (left : ∀ item, items[index]? = some item → selects item = false) :
    (items.eraseIdx index).filter selects = items.filter selects := by
  induction items generalizing index with
  | nil => simp
  | cons item items induction =>
      cases index with
      | zero =>
          have leftOut := left item (by simp)
          simp [leftOut]
      | succ index =>
          have rest := @induction index fun found inside =>
            left found (by simpa using inside)
          simp [List.filter_cons, rest]

section Edits

variable {data : HookFormData} {slug : String} {old new : Document}

theorem slug_of_index {tables : List Table} {index : Nat} {table : Table}
    (found : tables.findIdx? (hasSlug slug) = some index)
    (inside : tables[index]? = some table) : hasSlug slug table = true := by
  obtain ⟨bound, holds, -⟩ := List.findIdx?_eq_some_iff_getElem.mp found
  rw [List.getElem?_eq_getElem bound] at inside
  cases inside
  exact holds

theorem updateHookTable_hooks
    (updated : updateHookTable slug data old = .ok new) :
    otherHooks slug new = otherHooks slug old := by
  obtain ⟨tables, index, isTables, isIndex, rfl⟩ := updateHookTable_ok updated
  rw [otherHooks_of_tables isTables,
    otherHooks_of_tables (hookTables?_withHooks ..), filter_modify]
  · intro table inside
    simp [slug_of_index isIndex inside]
  · intro table
    rw [hasSlug_applyHookFields]

theorem removeHookTable_hooks
    (removed : removeHookTable slug old = .ok new) :
    otherHooks slug new = otherHooks slug old := by
  obtain ⟨tables, index, isTables, isIndex, rfl⟩ := removeHookTable_ok removed
  have kept : (tables.eraseIdx index).filter (fun table =>
      !hasSlug slug table) = tables.filter fun table => !hasSlug slug table :=
    filter_eraseIdx fun table inside => by
      simp [slug_of_index isIndex inside]
  rw [otherHooks_of_tables isTables, ← kept]
  split
  · rename_i empty
    rw [List.isEmpty_iff.mp empty, otherHooks,
      hookValues_of_none (lookup_remove_self "hooks" old)]
    rfl
  · exact otherHooks_of_tables (hookTables?_withHooks ..)

/-! ## Well-formed documents stay well formed -/

variable {literals : Literals}

theorem wellFormed_hookTables (wellFormed : Table.WellFormed literals old)
    {tables : List Table} (found : hookTables? old = some tables) :
    ∀ table ∈ tables, Table.WellFormed literals table :=
  (wellFormed.lookup (lookup_of_hookTables found)).tables

theorem wellFormed_withHooks (wellFormed : Table.WellFormed literals old)
    {tables : List Table} (nonempty : tables ≠ [])
    (each : ∀ table ∈ tables, Table.WellFormed literals table) :
    Table.WellFormed literals (withHooks tables old) :=
  wellFormed.insert "hooks" (.of_tables nonempty each)

theorem wellFormed_addHookTable (wellFormed : Table.WellFormed literals old)
    (small : ∀ retries ∈ data.retries, retries.count < 2 ^ 32)
    (added : addHookTable data old = .ok new) :
    Table.WellFormed literals new := by
  have hook : Table.WellFormed literals (buildHookTable data) :=
    wellFormed_buildHookTable small
  rcases addHookTable_ok added with
    ⟨-, rfl⟩ | ⟨tables, found, rfl⟩ | ⟨-, -, rfl⟩
  · refine wellFormed_withHooks wellFormed (by simp) fun table member => ?_
    rw [List.mem_singleton.mp member]
    exact hook
  · refine wellFormed_withHooks wellFormed (by simp) fun table member => ?_
    rcases List.mem_append.mp member with before | last
    · exact wellFormed_hookTables wellFormed found table before
    · rw [List.mem_singleton.mp last]
      exact hook
  · exact wellFormed

theorem wellFormed_updateHookTable
    (wellFormed : Table.WellFormed literals old)
    (small : ∀ retries ∈ data.retries, retries.count < 2 ^ 32)
    (updated : updateHookTable slug data old = .ok new) :
    Table.WellFormed literals new := by
  obtain ⟨tables, index, isTables, isIndex, rfl⟩ := updateHookTable_ok updated
  have before := wellFormed_hookTables wellFormed isTables
  refine wellFormed_withHooks wellFormed ?_ fun table member => ?_
  · intro empty
    have none : tables = [] := by simpa using congrArg List.length empty
    simp [none] at isIndex
  · obtain ⟨position, inside⟩ := List.getElem?_of_mem member
    rw [List.getElem?_modify] at inside
    obtain ⟨original, found, rfl⟩ := Option.map_eq_some_iff.mp inside
    have fits := before original (List.mem_of_getElem? found)
    split
    · exact wellFormed_applyHookFields fits small
    · exact fits

theorem wellFormed_removeHookTable
    (wellFormed : Table.WellFormed literals old)
    (removed : removeHookTable slug old = .ok new) :
    Table.WellFormed literals new := by
  obtain ⟨tables, index, isTables, -, rfl⟩ := removeHookTable_ok removed
  split
  · exact wellFormed.remove "hooks"
  · rename_i remain
    refine wellFormed_withHooks wellFormed (by simpa using remain) ?_
    exact fun table member => wellFormed_hookTables wellFormed isTables table
      (List.mem_of_mem_eraseIdx member)

end Edits

end Sendword
