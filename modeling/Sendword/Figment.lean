import Sendword.Toml.Document

/-!
# Layers of a configuration

The values that `figment` reads from its providers, what a TOML document says
among them, and how a later provider is merged into the earlier ones.
-/

namespace Figment

inductive Value where
  | string (text : String)
  | integer (number : Int)
  | float (digits : String)
  | boolean (bool : Bool)
  /-- The `null` of JSON. -/
  | empty
  | array (items : List Value)
  | dict (entries : List (String × Value))
  deriving Repr

abbrev Dict := List (String × Value)

/-! ## Merging providers -/

mutual

/-- A later provider wins; tables are merged key by key. -/
def mergeValue : Value → Value → Value
  | .dict old, .dict new => .dict (mergeDict old new)
  | _, new => new

def mergeDict (old : Dict) : List (String × Value) → Dict
  | [] => old
  | (key, value) :: entries =>
      mergeDict
        (Toml.insert key (match old.lookup key with
          | some previous => mergeValue previous value
          | none => value) old)
        entries

end

/-- A value over what was there before. -/
def mergeOver (value : Value) : Option Value → Value
  | some previous => mergeValue previous value
  | none => value

/-- What a provider makes of a key. -/
def overlaid (key : String) : Option Value → Dict → Option Value
  | old, [] => old
  | old, (name, value) :: entries =>
      overlaid key (if name = key then some (mergeOver value old) else old)
        entries

/-- Providers are merged key by key. -/
theorem lookup_mergeDict (values overlay : Dict) (key : String) :
    (mergeDict values overlay).lookup key =
      overlaid key (values.lookup key) overlay := by
  induction overlay generalizing values with
  | nil => rfl
  | cons entry overlay induction =>
      obtain ⟨name, value⟩ := entry
      rw [mergeDict, overlaid, induction, Toml.lookup_insert]
      by_cases same : name = key
      · subst same
        rw [if_pos rfl, if_pos rfl]
        cases values.lookup name <;> rfl
      · rw [if_neg (Ne.symm same), if_neg same]

theorem lookup_mergeDict_congr {old new : Dict} {key : String}
    (same : new.lookup key = old.lookup key) (overlay : Dict) :
    (mergeDict new overlay).lookup key =
      (mergeDict old overlay).lookup key := by
  rw [lookup_mergeDict, lookup_mergeDict, same]

/-- A provider leaves the keys alone that it does not name. -/
theorem lookup_mergeDict_of_absent {overlay : Dict} {key : String}
    (absent : overlay.lookup key = none) (values : Dict) :
    (mergeDict values overlay).lookup key = values.lookup key := by
  induction overlay generalizing values with
  | nil => rfl
  | cons entry overlay induction =>
      obtain ⟨name, value⟩ := entry
      rw [Toml.lookup_cons] at absent
      split at absent
      · cases absent
      · rename_i different
        rw [mergeDict, induction absent,
          Toml.lookup_insert_of_ne different]

/-! ## Layers with distinct keys -/

mutual

/-- The dictionaries of `figment` are maps: no key is there twice. -/
def Value.distinct : Value → Bool
  | .dict entries =>
      decide (entries.map Prod.fst).Nodup && distinctEntries entries
  | _ => true

def distinctEntries : List (String × Value) → Bool
  | [] => true
  | (_, value) :: entries => value.distinct && distinctEntries entries

end

abbrev distinct (layer : Dict) : Bool := (Value.dict layer).distinct

/-- What a provider says. -/
structure Layer where
  entries : Dict
  isDistinct : distinct entries = true := by decide

/-- What one layer says over what others have said. -/
def stack (old new : Option Value) : Option Value :=
  new.elim old fun value => some (mergeOver value old)

@[simp] theorem stack_none (old : Option Value) : stack old none = old := rfl

@[simp] theorem stack_some (old : Option Value) (value : Value) :
    stack old (some value) = some (mergeOver value old) := rfl

theorem overlaid_eq {layer : Dict}
    (nodup : (layer.map Prod.fst).Nodup) (key : String)
    (old : Option Value) :
    overlaid key old layer = stack old (layer.lookup key) := by
  induction layer generalizing old with
  | nil => rfl
  | cons entry layer induction =>
      obtain ⟨name, value⟩ := entry
      obtain ⟨fresh, nodup⟩ := List.nodup_cons.mp nodup
      rw [overlaid, induction nodup, Toml.lookup_cons]
      by_cases same : name = key
      · subst same
        have absent : layer.lookup name = none := by
          rw [List.lookup_eq_none_iff]
          intro entry member
          rw [bne_iff_ne]
          rintro rfl
          exact fresh (List.mem_map.mpr ⟨entry, member, rfl⟩)
        rw [if_pos rfl, if_pos rfl, absent, stack_none, stack_some]
      · rw [if_neg same, if_neg (Ne.symm same)]

theorem distinct_lookup {layer inner : Dict} {key : String}
    (isDistinct : distinct layer = true)
    (found : layer.lookup key = some (.dict inner)) :
    distinct inner = true := by
  have deep : distinctEntries layer = true := by
    rw [distinct, Value.distinct, Bool.and_eq_true] at isDistinct
    exact isDistinct.2
  clear isDistinct
  induction layer with
  | nil => cases found
  | cons entry layer induction =>
      obtain ⟨name, value⟩ := entry
      rw [distinctEntries, Bool.and_eq_true] at deep
      rw [Toml.lookup_cons] at found
      split at found
      · cases found
        exact deep.1
      · exact induction found deep.2

theorem lookup_mergeDict_eq {layer : Dict} (values : Dict)
    (isDistinct : distinct layer = true) (key : String) :
    (mergeDict values layer).lookup key =
      stack (values.lookup key) (layer.lookup key) := by
  rw [distinct, Value.distinct, Bool.and_eq_true,
    decide_eq_true_eq] at isDistinct
  rw [lookup_mergeDict, overlaid_eq isDistinct.1]

end Figment

namespace Toml

/-! ## What a document says

Standard and inline tables, and arrays of tables and arrays of inline tables,
say the same.
-/

mutual

/-- A date or a time is a map of one key. -/
def Value.said : Value → Figment.Value
  | .string text => .string text
  | .integer number => .integer number
  | .float digits => .float digits
  | .boolean bool => .boolean bool
  | .datetime text => .dict [("$__toml_private_datetime", .string text)]
  | .array items => .array (saidItems items)
  | .inlineTable entries => .dict (saidEntries entries)

def saidItems : List Value → List Figment.Value
  | [] => []
  | item :: items => item.said :: saidItems items

def saidEntries : List (String × Value) → List (String × Figment.Value)
  | [] => []
  | (key, value) :: entries => (key, value.said) :: saidEntries entries

end

mutual

def Item.toValue : Item → Figment.Value
  | .value value => value.said
  | .table entries => .dict (toValues entries)
  | .arrayOfTables tables => .array (toTables tables)

def toValues : List (String × Item) → List (String × Figment.Value)
  | [] => []
  | (key, item) :: entries => (key, item.toValue) :: toValues entries

def toTables : List (List (String × Item)) → List Figment.Value
  | [] => []
  | table :: tables => .dict (toValues table) :: toTables tables

end

@[simp] theorem said_string (text : String) :
    (Value.string text).said = .string text := rfl

@[simp] theorem said_integer (number : Int) :
    (Value.integer number).said = .integer number := rfl

@[simp] theorem said_boolean (bool : Bool) :
    (Value.boolean bool).said = .boolean bool := rfl

@[simp] theorem said_inlineTable (entries : List (String × Value)) :
    (Value.inlineTable entries).said = .dict (saidEntries entries) := rfl

/-- A document cannot say `null`. -/
theorem Item.toValue_ne_empty (item : Item) : item.toValue ≠ .empty := by
  cases item with
  | value value => cases value <;> exact Figment.Value.noConfusion
  | table entries => exact Figment.Value.noConfusion
  | arrayOfTables tables => exact Figment.Value.noConfusion

theorem saidItems_eq (items : List Value) :
    saidItems items = items.map Value.said := by
  induction items with
  | nil => rfl
  | cons item items induction => simp [saidItems, induction]

theorem saidEntries_eq (entries : List (String × Value)) :
    saidEntries entries =
      entries.map fun (key, value) => (key, value.said) := by
  induction entries with
  | nil => rfl
  | cons entry entries induction =>
      obtain ⟨key, value⟩ := entry
      simp [saidEntries, induction]

theorem toValues_eq (entries : Table) :
    toValues entries = entries.map fun (key, item) => (key, item.toValue) := by
  induction entries with
  | nil => rfl
  | cons entry entries induction =>
      obtain ⟨key, item⟩ := entry
      simp [toValues, induction]

theorem toTables_eq (tables : List Table) :
    toTables tables = tables.map fun table => .dict (toValues table) := by
  induction tables with
  | nil => rfl
  | cons table tables induction => simp [toTables, induction]

theorem lookup_map {Entry Other : Type} (change : Entry → Other)
    (entries : List (String × Entry)) (key : String) :
    (entries.map fun entry => (entry.1, change entry.2)).lookup key =
      (entries.lookup key).map change := by
  induction entries with
  | nil => rfl
  | cons entry entries induction =>
      rw [List.map_cons, lookup_cons, induction, lookup_cons]
      split <;> rfl

@[simp] theorem lookup_toValues (entries : Table) (key : String) :
    (toValues entries).lookup key = (entries.lookup key).map Item.toValue := by
  rw [toValues_eq]
  exact lookup_map Item.toValue entries key

@[simp] theorem lookup_saidEntries (entries : List (String × Value))
    (key : String) :
    (saidEntries entries).lookup key =
      (entries.lookup key).map Value.said := by
  rw [saidEntries_eq]
  exact lookup_map Value.said entries key

end Toml
