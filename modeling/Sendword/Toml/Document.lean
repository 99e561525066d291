import Mathlib.Algebra.Group.Int.Defs
import Mathlib.Algebra.Group.Nat.Defs
import Mathlib.Data.String.Basic
import Mathlib.Order.Basic

/-!
# TOML documents

A document is a table of items.  A table is a map: its entries are kept in the
order of their keys, since a text may give them in any order.  Comments and
layout are left out.
-/

namespace Toml

inductive Value where
  | string (text : String)
  | integer (number : Int)
  | float (digits : String)
  | boolean (bool : Bool)
  | datetime (text : String)
  | array (items : List Value)
  | inlineTable (entries : List (String × Value))
  deriving Repr

inductive Item where
  | value (value : Value)
  | table (entries : List (String × Item))
  | arrayOfTables (tables : List (List (String × Item)))
  deriving Repr

abbrev Table := List (String × Item)

/-- The root table. -/
abbrev Document := Table

/-! ## Changing a table -/

section Entries

variable {Key Entry : Type} [LinearOrder Key]

/-- `Table::insert`: an existing entry is replaced. -/
def insert (key : Key) (item : Entry) :
    List (Key × Entry) → List (Key × Entry)
  | [] => [(key, item)]
  | (name, old) :: entries =>
      if key < name then (key, item) :: (name, old) :: entries
      else if key = name then (key, item) :: entries
      else (name, old) :: insert key item entries

/-- `Table::remove`. -/
def remove (key : Key) (entries : List (Key × Entry)) :
    List (Key × Entry) :=
  entries.filter fun entry => entry.1 ≠ key

/-- The entries stand in the order of their keys, each key once. -/
def Sorted (entries : List (Key × Entry)) : Prop :=
  entries.Pairwise fun first second => first.1 < second.1

theorem lookup_cons (other name : Key) (item : Entry)
    (entries : List (Key × Entry)) :
    ((name, item) :: entries).lookup other =
      if other = name then some item else entries.lookup other := by
  by_cases same : other = name
  · simp [same]
  · have differs : (other == name) = false := by simpa using same
    simp [List.lookup_cons, same, differs]

theorem lookup_insert (key other : Key) (item : Entry)
    (entries : List (Key × Entry)) :
    (insert key item entries).lookup other =
      if other = key then some item else entries.lookup other := by
  induction entries with
  | nil => simp [insert, lookup_cons]
  | cons entry entries induction =>
      obtain ⟨name, old⟩ := entry
      unfold insert
      split
      · simp [lookup_cons]
      · split
        · rename_i same
          subst same
          by_cases found : other = key <;> simp [lookup_cons, found]
        · rename_i differs
          rw [lookup_cons, induction, lookup_cons]
          by_cases found : other = name
          · subst found
            simp [Ne.symm differs]
          · simp [found]

@[simp] theorem lookup_insert_self (key : Key) (item : Entry)
    (entries : List (Key × Entry)) :
    (insert key item entries).lookup key = some item := by
  simp [lookup_insert]

theorem lookup_insert_of_ne {key other : Key} (different : other ≠ key)
    (item : Entry) (entries : List (Key × Entry)) :
    (insert key item entries).lookup other = entries.lookup other := by
  simp [lookup_insert, different]

/-- Changing the items of a table commutes with adding one. -/
theorem map_insert {Other : Type} (change : Entry → Other) (key : Key)
    (item : Entry) (entries : List (Key × Entry)) :
    (insert key item entries).map (fun entry => (entry.1, change entry.2)) =
      insert key (change item)
        (entries.map fun entry => (entry.1, change entry.2)) := by
  induction entries with
  | nil => rfl
  | cons entry entries induction =>
      simp only [insert, List.map_cons]
      split
      · rfl
      · split
        · rfl
        · rw [List.map_cons, induction]

theorem lookup_remove (key other : Key) (entries : List (Key × Entry)) :
    (remove key entries).lookup other =
      if other = key then none else entries.lookup other := by
  induction entries with
  | nil => simp [remove]
  | cons entry entries induction =>
      obtain ⟨name, old⟩ := entry
      unfold remove at induction ⊢
      by_cases dropped : name = key
      · rw [List.filter_cons_of_neg (by simpa using dropped), induction]
        subst dropped
        by_cases same : other = name <;> simp [lookup_cons, same]
      · rw [List.filter_cons_of_pos (by simpa using dropped), lookup_cons,
          induction, lookup_cons]
        by_cases found : other = name
        · subst found
          simp [dropped]
        · simp [found]

@[simp] theorem lookup_remove_self (key : Key)
    (entries : List (Key × Entry)) :
    (remove key entries).lookup key = none := by
  simp [lookup_remove]

theorem lookup_remove_of_ne {key other : Key} (different : other ≠ key)
    (entries : List (Key × Entry)) :
    (remove key entries).lookup other = entries.lookup other := by
  simp [lookup_remove, different]

theorem mem_insert {key : Key} {item : Entry}
    {entries : List (Key × Entry)} {entry : Key × Entry}
    (member : entry ∈ insert key item entries) :
    entry = (key, item) ∨ entry ∈ entries := by
  induction entries with
  | nil => exact .inl (by simpa [insert] using member)
  | cons first entries induction =>
      obtain ⟨name, old⟩ := first
      unfold insert at member
      split at member
      · exact List.mem_cons.mp member
      · split at member
        · exact (List.mem_cons.mp member).imp id (List.mem_cons_of_mem _)
        · rcases List.mem_cons.mp member with rfl | later
          · exact .inr List.mem_cons_self
          · exact (induction later).imp id (List.mem_cons_of_mem _)

theorem sorted_insert (key : Key) (item : Entry)
    {entries : List (Key × Entry)} (sorted : Sorted entries) :
    Sorted (insert key item entries) := by
  induction entries with
  | nil => exact List.pairwise_singleton _ _
  | cons first entries induction =>
      obtain ⟨name, old⟩ := first
      obtain ⟨above, rest⟩ := List.pairwise_cons.mp sorted
      unfold insert
      split
      · rename_i below
        refine List.pairwise_cons.mpr ⟨fun entry member => ?_, sorted⟩
        rcases List.mem_cons.mp member with rfl | later
        · exact below
        · exact below.trans (above entry later)
      · split
        · rename_i same
          subst same
          exact List.pairwise_cons.mpr ⟨above, rest⟩
        · rename_i notBelow differs
          have less : name < key :=
            lt_of_le_of_ne (not_lt.mp notBelow) (Ne.symm differs)
          refine List.pairwise_cons.mpr ⟨fun entry member => ?_,
            induction rest⟩
          rcases mem_insert member with rfl | older
          · exact less
          · exact above entry older

theorem sorted_remove (key : Key) {entries : List (Key × Entry)}
    (sorted : Sorted entries) : Sorted (remove key entries) :=
  sorted.sublist List.filter_sublist

/-- In a sorted list the entry of a key is the one that is found. -/
theorem mem_iff_lookup {entries : List (Key × Entry)}
    (sorted : Sorted entries) {key : Key} {item : Entry} :
    (key, item) ∈ entries ↔ entries.lookup key = some item := by
  induction entries with
  | nil => simp
  | cons entry entries induction =>
      obtain ⟨name, old⟩ := entry
      obtain ⟨above, rest⟩ := List.pairwise_cons.mp sorted
      rw [lookup_cons, List.mem_cons, induction rest]
      by_cases same : key = name
      · subst same
        rw [if_pos rfl]
        constructor
        · intro found
          rcases found with isFirst | later
          · cases isFirst
            rfl
          · have below := above _ ((induction rest).mpr later)
            exact (lt_irrefl key below).elim
        · intro found
          exact .inl (by rw [Option.some.inj found])
      · rw [if_neg same]
        exact ⟨fun found => found.resolve_left fun isFirst =>
          same (congrArg Prod.fst isFirst), .inr⟩

end Entries

/-! ## Well-formed documents

What a text can say: keys are sorted, integers have 64 bits, and an array of
tables is not empty, as it would leave no trace in the text.
-/

/-- The texts that are a float, and those that are a date or a time. -/
structure Literals where
  float : String → Prop
  datetime : String → Prop

inductive Value.WellFormed (literals : Literals) : Value → Prop where
  | string (text : String) : WellFormed literals (.string text)
  | integer {number : Int} : -2 ^ 63 ≤ number → number < 2 ^ 63 →
      WellFormed literals (.integer number)
  | float {digits : String} : literals.float digits →
      WellFormed literals (.float digits)
  | boolean (bool : Bool) : WellFormed literals (.boolean bool)
  | datetime {text : String} : literals.datetime text →
      WellFormed literals (.datetime text)
  | array {items : List Value} :
      (∀ item ∈ items, WellFormed literals item) →
      WellFormed literals (.array items)
  | inlineTable {entries : List (String × Value)} :
      Sorted entries →
      (∀ entry ∈ entries, WellFormed literals entry.2) →
      WellFormed literals (.inlineTable entries)

inductive Item.WellFormed (literals : Literals) : Item → Prop where
  | value {value : Value} : value.WellFormed literals →
      WellFormed literals (.value value)
  | table {entries : Table} :
      Sorted entries →
      (∀ entry ∈ entries, WellFormed literals entry.2) →
      WellFormed literals (.table entries)
  | arrayOfTables {tables : List Table} :
      tables ≠ [] →
      (∀ table ∈ tables, Sorted table) →
      (∀ table ∈ tables, ∀ entry ∈ table, WellFormed literals entry.2) →
      WellFormed literals (.arrayOfTables tables)

/-- Entries in the order of their keys, with items that satisfy `inner`. -/
structure WellKeyed {Key Entry : Type} [LinearOrder Key]
    (inner : Entry → Prop) (entries : List (Key × Entry)) : Prop where
  sorted : Sorted entries
  items : ∀ entry ∈ entries, inner entry.2

namespace WellKeyed

variable {Key Entry : Type} [LinearOrder Key] {inner : Entry → Prop}
  {entries : List (Key × Entry)}

theorem nil : WellKeyed inner ([] : List (Key × Entry)) :=
  ⟨List.Pairwise.nil, by simp⟩

theorem insert (wellKeyed : WellKeyed inner entries) (key : Key)
    {item : Entry} (fits : inner item) :
    WellKeyed inner (Toml.insert key item entries) where
  sorted := sorted_insert key item wellKeyed.sorted
  items := by
    intro entry member
    rcases mem_insert member with rfl | old
    · exact fits
    · exact wellKeyed.items entry old

theorem remove (wellKeyed : WellKeyed inner entries) (key : Key) :
    WellKeyed inner (Toml.remove key entries) where
  sorted := sorted_remove key wellKeyed.sorted
  items := fun entry member =>
    wellKeyed.items entry (List.mem_of_mem_filter member)

theorem lookup (wellKeyed : WellKeyed inner entries) {key : Key}
    {item : Entry} (found : entries.lookup key = some item) :
    inner item := by
  obtain ⟨before, after, rfl, -⟩ := List.lookup_eq_some_iff.mp found
  exact wellKeyed.items (key, item) (by simp)

end WellKeyed

abbrev Table.WellFormed (literals : Literals) (entries : Table) : Prop :=
  WellKeyed (Item.WellFormed literals) entries

section Parts

variable {literals : Literals}

theorem WellKeyed.item {entries : Table}
    (wellFormed : Table.WellFormed literals entries) :
    (Item.table entries).WellFormed literals :=
  .table wellFormed.sorted wellFormed.items

theorem WellKeyed.inline {entries : List (String × Value)}
    (wellFormed : WellKeyed (Value.WellFormed literals) entries) :
    (Value.inlineTable entries).WellFormed literals :=
  .inlineTable wellFormed.sorted wellFormed.items

theorem Item.WellFormed.tables {tables : List Table}
    (wellFormed : (Item.arrayOfTables tables).WellFormed literals) :
    ∀ table ∈ tables, Table.WellFormed literals table := by
  cases wellFormed with
  | arrayOfTables _ sorted items =>
      intro table member
      exact ⟨sorted table member, items table member⟩

theorem Item.WellFormed.of_tables {tables : List Table}
    (nonempty : tables ≠ [])
    (each : ∀ table ∈ tables, Table.WellFormed literals table) :
    (Item.arrayOfTables tables).WellFormed literals :=
  .arrayOfTables nonempty (fun table member => (each table member).sorted)
    (fun table member => (each table member).items)

end Parts

end Toml
