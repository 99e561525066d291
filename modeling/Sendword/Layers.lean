import Sendword.Figment

/-!
# A layer that says nothing new

The settings of a configuration, and when one of three layers makes no
difference to them.  A setting is looked at in each layer for itself; only
where a layer puts a table in its place does it matter how tables are merged.
-/

namespace Figment

/-- A field that has to be there, from what the layers say under its key. -/
def requiredField {α : Type} (decode : Value → Option α) :
    Option Value → Option α :=
  (Option.bind · decode)

/-- A field with a default. -/
def defaultField {α : Type} (decode : Value → Option α) (default : α) :
    Option Value → Option α
  | some value => decode value
  | none => some default

/-- An optional field. -/
def optionalField {α : Type} (decode : Value → Option α) :
    Option Value → Option (Option α)
  | some .empty | none => some none
  | some value => (decode value).map some

mutual

/-- What a configuration can set: one value, or a group of settings that is
written as a table, with a default or optional. -/
inductive Setting : Type → Type 1 where
  | single {α : Type} (read : Option Value → Option α) : Setting α
  | group {α : Type} (decode : Value → Option α) (default : α)
      (fields : Fields α) : Setting α
  | optional {α : Type} (decode : Value → Option α) (fields : Fields α) :
      Setting (Option α)

/-- The settings of a group, with their keys and their place in it. -/
inductive Fields : Type → Type 1 where
  | nil {α : Type} : Fields α
  | cons {α β : Type} (key : String) (setting : Setting β) (field : α → β)
      (others : Fields α) : Fields α
  /-- A field that is never read. -/
  | skip {α β : Type} (value : β) (field : α → β) (others : Fields α) :
      Fields α

end

/-- What a group says, setting by setting, where it is a table or is not
there. -/
def entries? : Option Value → Option Dict
  | none => some []
  | some (.dict entries) => some entries
  | some _ => none

/-- The middle layer does not name a setting, the last one overrides it, or
what it says over the first one reads as the first one does. -/
def SaysNothing {α : Type} (read : Option Value → Option α)
    (first middle last : Option Value) : Prop :=
  match middle, last with
  | none, _ => True
  | some value, none => read (some (mergeOver value first)) = read first
  | some value, some (.dict entries) =>
      read (some (mergeOver (.dict entries) (some (mergeOver value first)))) =
        read (some (mergeOver (.dict entries) first))
  | some _, some _ => True

mutual

/-- The middle layer makes no difference to a setting, or to all settings of
a group. -/
def Setting.Idle {α : Type} (setting : Setting α)
    (first middle last : Option Value) : Prop :=
  match setting with
  | .single read => SaysNothing read first middle last
  | .group decode default fields =>
      match entries? first, entries? middle, entries? last with
      | some first, some middle, some last => fields.Idle first middle last
      | _, _, _ => SaysNothing (defaultField decode default) first middle last
  | .optional decode fields =>
      match entries? first, entries? middle, entries? last with
      | some first, some middle, some last => fields.Idle first middle last
      | _, _, _ => SaysNothing (optionalField decode) first middle last

def Fields.Idle {α : Type} (fields : Fields α) (first middle last : Dict) :
    Prop :=
  match fields with
  | .nil => True
  | .cons key setting _ others =>
      setting.Idle (first.lookup key) (middle.lookup key)
          (last.lookup key) ∧
        others.Idle first middle last
  | .skip _ _ others => others.Idle first middle last

end

@[simp] def Setting.read {α : Type} : Setting α → Option Value → Option α
  | .single read => read
  | .group decode default _ => defaultField decode default
  | .optional decode _ => optionalField decode

/-- A table reads as this, field by field. -/
@[simp] def Fields.Read {α : Type} (fields : Fields α) (entries : Dict)
    (config : α) : Prop :=
  match fields with
  | .nil => True
  | .cons key setting field others =>
      setting.read (entries.lookup key) = some (field config) ∧
        others.Read entries config
  | .skip value field others =>
      value = field config ∧ others.Read entries config

mutual

/-- Groups are decoded field by field, the default is that of the fields, and
an optional group needs one of them. -/
@[simp] def Setting.Lawful {α : Type} : Setting α → Prop
  | .single _ => True
  | .group decode default fields =>
      (∀ entries config,
        decode (.dict entries) = some config ↔ fields.Read entries config) ∧
      decode (.dict []) = some default ∧ fields.Lawful
  | .optional decode fields =>
      (∀ entries config,
        decode (.dict entries) = some config ↔ fields.Read entries config) ∧
      decode (.dict []) = none ∧ fields.Lawful

@[simp] def Fields.Lawful {α : Type} : Fields α → Prop
  | .nil => True
  | .cons _ setting _ others => setting.Lawful ∧ others.Lawful
  | .skip _ _ others => others.Lawful

end

section Idle

variable {first middle last old new : Option Value}

/-- A value that is no table replaces what was there. -/
theorem mergeOver_of_not_dict {value : Value}
    (single : ∀ entries, value ≠ .dict entries) (old : Option Value) :
    mergeOver value old = value := by
  cases old with
  | none => rfl
  | some old =>
      cases value with
      | dict entries => exact (single entries rfl).elim
      | string | integer | float | boolean | empty | array =>
          cases old <;> rfl

theorem saysNothing_iff {α : Type} {read : Option Value → Option α} :
    SaysNothing read first middle last ↔
      read (stack first last) = read (stack (stack first middle) last) := by
  cases middle with
  | none => exact iff_of_true trivial rfl
  | some value =>
      cases last with
      | none => exact eq_comm
      | some value =>
          cases value with
          | dict entries => exact eq_comm
          | string | integer | float | boolean | empty | array =>
              rw [stack_some, stack_some, mergeOver_of_not_dict (by simp),
                mergeOver_of_not_dict (by simp)]
              exact iff_of_true trivial rfl

mutual

theorem Setting.idle_none : ∀ {α : Type} (setting : Setting α)
    (first last : Option Value), setting.Idle first none last
  | _, .single _, _, _ => trivial
  | _, .group _ _ fields, _, _ | _, .optional _ fields, _, _ => by
      unfold Setting.Idle
      split
      · rename_i first middle last isFirst isMiddle isLast
        cases isMiddle
        exact fields.idle_nil first last
      · trivial

theorem Fields.idle_nil : ∀ {α : Type} (fields : Fields α)
    (first last : Dict), fields.Idle first [] last
  | _, .nil, _, _ => trivial
  | _, .cons _ setting _ others, first, last =>
      ⟨setting.idle_none _ _, others.idle_nil first last⟩
  | _, .skip _ _ others, first, last => others.idle_nil first last

end

/-! ## Tables over tables -/

theorem value_of_entries {value : Option Value} {entries : Dict}
    (isEntries : entries? value = some entries) :
    value = none ∧ entries = [] ∨ value = some (.dict entries) := by
  unfold entries? at isEntries
  split at isEntries
  · cases isEntries
    exact .inl ⟨rfl, rfl⟩
  · cases isEntries
    exact .inr rfl
  · cases isEntries

/-- Tables are merged setting by setting. -/
theorem entries_stack {entries others : Dict}
    (isOld : entries? old = some entries)
    (isNew : entries? new = some others) (isDistinct : distinct others = true) :
    ∃ merged, entries? (stack old new) = some merged ∧
      ∀ key, merged.lookup key =
        stack (entries.lookup key) (others.lookup key) := by
  rcases value_of_entries isNew with ⟨rfl, rfl⟩ | rfl
  · exact ⟨entries, isOld, fun key => rfl⟩
  · rcases value_of_entries isOld with ⟨rfl, rfl⟩ | rfl
    · refine ⟨others, rfl, fun key => ?_⟩
      cases found : others.lookup key with
      | none => rfl
      | some value => rfl
    · exact ⟨_, rfl, lookup_mergeDict_eq entries isDistinct⟩

/-- A value whose tables have distinct keys. -/
def Tidy (value : Option Value) : Prop :=
  ∀ entries, value = some (.dict entries) → distinct entries = true

theorem tidy_lookup {layer : Dict} (isDistinct : distinct layer = true)
    (key : String) : Tidy (layer.lookup key) :=
  fun _ found => distinct_lookup isDistinct found

theorem distinct_of_tidy {value : Option Value} {entries : Dict}
    (tidy : Tidy value) (isEntries : entries? value = some entries) :
    distinct entries = true := by
  rcases value_of_entries isEntries with ⟨-, rfl⟩ | isTable
  · rfl
  · exact tidy entries isTable

/-- The base is the outer two layers of a table, the top all three. -/
structure Layered (first middle last base top : Dict) : Prop where
  distinctMiddle : distinct middle = true
  distinctLast : distinct last = true
  base : ∀ key, base.lookup key = stack (first.lookup key) (last.lookup key)
  top : ∀ key, top.lookup key =
    stack (stack (first.lookup key) (middle.lookup key)) (last.lookup key)

theorem layered_stack {entries others overs : Dict}
    (isFirst : entries? first = some entries)
    (isMiddle : entries? middle = some others)
    (isLast : entries? last = some overs)
    (tidyMiddle : Tidy middle) (tidyLast : Tidy last) :
    ∃ base top, Layered entries others overs base top ∧
      entries? (stack first last) = some base ∧
      entries? (stack (stack first middle) last) = some top := by
  have distinctMiddle := distinct_of_tidy tidyMiddle isMiddle
  have distinctLast := distinct_of_tidy tidyLast isLast
  obtain ⟨base, isBase, baseLookup⟩ :=
    entries_stack isFirst isLast distinctLast
  obtain ⟨both, isBoth, bothLookup⟩ :=
    entries_stack isFirst isMiddle distinctMiddle
  obtain ⟨top, isTop, topLookup⟩ := entries_stack isBoth isLast distinctLast
  refine ⟨base, top, ⟨distinctMiddle, distinctLast, baseLookup, ?_⟩, isBase,
    isTop⟩
  intro key
  rw [topLookup, bothLookup]

/-! ## Setting by setting -/

theorem unset_of_none {α : Type} {decode : Value → Option α}
    {value : Option Value} {entries : Dict}
    (isEntries : entries? value = some entries)
    (unset : optionalField decode value = some none) : value = none := by
  rcases value_of_entries isEntries with ⟨rfl, -⟩ | rfl
  · rfl
  · simp [optionalField] at unset

theorem middle_of_unset (unset : stack (stack first middle) last = none) :
    middle = none := by
  cases last with
  | none =>
      cases middle with
      | none => rfl
      | some value => cases unset
  | some value => cases unset

section Group

variable {α : Type} {decode : Value → Option α} {fields : Fields α}
  {value : Option Value} {entries : Dict} {config : α}
  (decodes : ∀ entries config,
    decode (.dict entries) = some config ↔ fields.Read entries config)
  (isEntries : entries? value = some entries)

include decodes isEntries

/-- A group that is not there has its default. -/
theorem group_iff {default : α} (empty : decode (.dict []) = some default) :
    fields.Read entries config ↔
      defaultField decode default value = some config := by
  rw [← decodes]
  rcases value_of_entries isEntries with ⟨rfl, rfl⟩ | rfl
  · rw [empty]
    rfl
  · rfl

/-- An optional group that is not there is no empty one. -/
theorem optional_iff (empty : decode (.dict []) = none) :
    fields.Read entries config ↔
      optionalField decode value = some (some config) := by
  rw [← decodes]
  rcases value_of_entries isEntries with ⟨rfl, rfl⟩ | rfl
  · rw [empty]
    simp [optionalField]
  · simp [optionalField]

end Group

mutual

/-- The middle layer makes no difference to a setting if and only if it reads
the same without it. -/
theorem Setting.idle_iff : ∀ {α : Type} (setting : Setting α),
    setting.Lawful → ∀ {first middle last : Option Value}, Tidy middle →
    Tidy last → ∀ {config : α},
    setting.read (stack (stack first middle) last) = some config →
    (setting.Idle first middle last ↔
      setting.read (stack first last) = some config)
  | _, .single read, _, _, _, _, _, _, _, reads => by
      rw [← reads]
      exact saysNothing_iff
  | _, .group decode default fields, lawful, _, _, _, tidyMiddle, tidyLast,
      _, reads => by
      obtain ⟨decodes, empty, lawful⟩ := lawful
      unfold Setting.Idle
      split
      · rename_i isFirst isMiddle isLast
        obtain ⟨base, top, layered, isBase, isTop⟩ :=
          layered_stack isFirst isMiddle isLast tidyMiddle tidyLast
        have isRead := (group_iff decodes isTop empty).mpr reads
        rw [fields.idle_iff lawful layered isRead]
        exact group_iff decodes isBase empty
      · rw [← reads]
        exact saysNothing_iff
  | _, .optional decode fields, lawful, _, _, _, tidyMiddle, tidyLast,
      config, reads => by
      obtain ⟨decodes, empty, lawful⟩ := lawful
      unfold Setting.Idle
      split
      · rename_i isFirst isMiddle isLast
        obtain ⟨base, top, layered, isBase, isTop⟩ :=
          layered_stack isFirst isMiddle isLast tidyMiddle tidyLast
        cases config with
        | none =>
            obtain rfl := middle_of_unset (unset_of_none isTop reads)
            cases isMiddle
            exact iff_of_true (fields.idle_nil _ _) reads
        | some config =>
            have isRead := (optional_iff decodes isTop empty).mpr reads
            rw [fields.idle_iff lawful layered isRead]
            exact optional_iff decodes isBase empty
      · rw [← reads]
        exact saysNothing_iff

theorem Fields.idle_iff : ∀ {α : Type} (fields : Fields α),
    fields.Lawful → ∀ {first middle last base top : Dict},
    Layered first middle last base top → ∀ {config : α},
    fields.Read top config →
    (fields.Idle first middle last ↔ fields.Read base config)
  | _, .nil, _, _, _, _, _, _, _, _, _ => Iff.rfl
  | _, .cons key setting field others, lawful, _, _, _, _, _, layered, _,
      reads => by
      obtain ⟨isSetting, areOthers⟩ := reads
      rw [layered.top] at isSetting
      refine and_congr ?_ (others.idle_iff lawful.2 layered areOthers)
      rw [layered.base]
      exact setting.idle_iff lawful.1 (tidy_lookup layered.distinctMiddle key)
        (tidy_lookup layered.distinctLast key) isSetting
  | _, .skip value field others, lawful, _, _, _, _, _, layered, _,
      reads => by
      obtain ⟨isValue, areOthers⟩ := reads
      rw [Fields.Read, and_iff_right isValue]
      exact others.idle_iff lawful layered areOthers

end

end Idle

end Figment
