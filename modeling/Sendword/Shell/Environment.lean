import Mathlib.Data.List.Induction
import Mathlib.Data.List.TakeWhile

/-!
# The environment of a process

A command keeps one value for each name it was given; the process gets the
texts `name=value` and reads a name up to the first equals sign.
-/

namespace Environment

/-- Set a variable (`Command::env`). -/
def set (entries : List (String × String)) (setting : String × String) :
    List (String × String) :=
  setting :: entries.filter fun entry => entry.1 ≠ setting.1

/-- The environment after some settings, made one after the other. -/
def setAll (settings : List (String × String)) : List (String × String) :=
  settings.foldl set []

/-- The setting is made, and no later one has its name. -/
def Lasts (settings : List (String × String)) (name value : String) : Prop :=
  settings.reverse.lookup name = some value

/-- The name and the value that a program reads from an entry. -/
def readEntry (entry : List Char) : List Char × List Char :=
  (entry.takeWhile (· ≠ '='), (entry.dropWhile (· ≠ '=')).tail)

/-- What an entry for a name and a value is read as. -/
def reading (name value : String) : List Char × List Char :=
  readEntry (name.toList ++ '=' :: value.toList)

/-- A process reads this value for the name, and no other one. -/
def Reads (entries : List (String × String)) (name value : List Char) :
    Prop :=
  (name, value) ∈ entries.map (fun entry => reading entry.1 entry.2) ∧
    ∀ other,
      (name, other) ∈ entries.map (fun entry => reading entry.1 entry.2) →
        other = value

variable {settings : List (String × String)} {name value : String}

theorem mem_set {entries : List (String × String)}
    {setting entry : String × String} :
    entry ∈ set entries setting ↔
      entry = setting ∨ (entry ∈ entries ∧ entry.1 ≠ setting.1) := by
  simp [set]

/-- The last setting of each name is kept. -/
theorem mem_setAll :
    (name, value) ∈ setAll settings ↔ Lasts settings name value := by
  unfold setAll Lasts
  induction settings using List.reverseRecOn with
  | nil => simp
  | append_singleton settings setting induction =>
      obtain ⟨last, text⟩ := setting
      rw [List.foldl_append, List.foldl_cons, List.foldl_nil, mem_set,
        List.reverse_concat]
      by_cases same : name = last
      · subst same
        simp [eq_comm]
      · have differs : (name == last) = false := by simpa using same
        rw [List.lookup_cons, differs, ← induction]
        simp [same]

theorem exists_lasts (set : ∃ value, (name, value) ∈ settings) :
    ∃ value, Lasts settings name value := by
  unfold Lasts
  obtain ⟨value, member⟩ := set
  cases found : settings.reverse.lookup name with
  | some last => exact ⟨last, rfl⟩
  | none =>
      have apart := List.lookup_eq_none_iff.mp found (name, value)
        (List.mem_reverse.mpr member)
      simp at apart

/-- A text is read up to its first equals sign. -/
theorem readEntry_append {name rest : List Char} (plain : '=' ∉ name) :
    readEntry (name ++ '=' :: rest) = (name, rest) := by
  have keeps : ∀ char ∈ name, decide (char ≠ '=') = true := by
    intro char member
    simpa using fun same : char = '=' => plain (same ▸ member)
  unfold readEntry
  rw [List.takeWhile_append_of_pos keeps, List.dropWhile_append_of_pos keeps]
  simp

/-- The name that is read has no equals sign. -/
theorem not_mem_reading : '=' ∉ (reading name value).1 := by
  intro member
  have kept := List.mem_takeWhile_imp member
  simp at kept

/-- A name is read for itself, or for a longer name that goes on after an
equals sign. -/
theorem reading_eq_iff {other text : String} (plain : '=' ∉ name.toList) :
    reading other value = (name.toList, text.toList) ↔
      (other = name ∧ value = text) ∨
      ∃ rest, other = name ++ "=" ++ rest ∧ text = rest ++ "=" ++ value := by
  unfold reading
  constructor
  · intro same
    by_cases equals : '=' ∈ other.toList
    · obtain ⟨before, after, split, plainBefore⟩ :=
        List.eq_append_cons_of_mem equals
      rw [split, List.append_assoc, List.cons_append,
        readEntry_append plainBefore] at same
      obtain ⟨sameName, sameText⟩ := Prod.mk.inj same
      refine .inr ⟨String.ofList after, ?_, ?_⟩
      · apply String.toList_inj.mp
        rw [split, sameName]
        simp
      · apply String.toList_inj.mp
        rw [← sameText]
        simp
    · rw [readEntry_append equals] at same
      obtain ⟨sameName, sameText⟩ := Prod.mk.inj same
      exact .inl ⟨String.toList_inj.mp sameName, String.toList_inj.mp sameText⟩
  · intro cases
    rcases cases with ⟨rfl, rfl⟩ | ⟨rest, rfl, rfl⟩
    · exact readEntry_append plain
    · have joined : (name ++ "=" ++ rest).toList ++ '=' :: value.toList =
          name.toList ++ '=' :: (rest ++ "=" ++ value).toList := by simp
      rw [joined, readEntry_append plain]

/-- What is read for a name without an equals sign: the last setting of the
name and those of the names that go on after an equals sign. -/
theorem reads_setAll {name value : String} (plain : '=' ∉ name.toList) :
    Reads (setAll settings) name.toList value.toList ↔
      ((∃ last, Lasts settings name last) ∨
        ∃ rest last, Lasts settings (name ++ "=" ++ rest) last) ∧
      (∀ last, Lasts settings name last → last = value) ∧
      ∀ rest last, Lasts settings (name ++ "=" ++ rest) last →
        rest ++ "=" ++ last = value := by
  unfold Reads
  simp only [List.mem_map, Prod.exists, mem_setAll]
  constructor
  · intro reads
    obtain ⟨⟨other, last, lasts, same⟩, only⟩ := reads
    refine ⟨?_, fun last lasts => ?_, fun rest last lasts => ?_⟩
    · rcases (reading_eq_iff plain).mp same with ⟨rfl, -⟩ | ⟨rest, rfl, -⟩
      · exact .inl ⟨last, lasts⟩
      · exact .inr ⟨rest, last, lasts⟩
    · have same : reading name last = (name.toList, last.toList) :=
        (reading_eq_iff plain).mpr (.inl ⟨rfl, rfl⟩)
      exact String.toList_inj.mp (only _ ⟨name, last, lasts, same⟩)
    · have same : reading (name ++ "=" ++ rest) last =
          (name.toList, (rest ++ "=" ++ last).toList) :=
        (reading_eq_iff plain).mpr (.inr ⟨rest, rfl, rfl⟩)
      exact String.toList_inj.mp (only _ ⟨_, last, lasts, same⟩)
  · intro settled
    obtain ⟨isSet, alone, continued⟩ := settled
    constructor
    · rcases isSet with ⟨last, lasts⟩ | ⟨rest, last, lasts⟩
      · have same := alone last lasts
        subst same
        exact ⟨name, last, lasts,
          (reading_eq_iff plain).mpr (.inl ⟨rfl, rfl⟩)⟩
      · have same := continued rest last lasts
        subst same
        exact ⟨_, last, lasts,
          (reading_eq_iff plain).mpr (.inr ⟨rest, rfl, rfl⟩)⟩
    · intro read found
      obtain ⟨other, last, lasts, same⟩ := found
      rw [← @String.toList_ofList read] at same ⊢
      rcases (reading_eq_iff plain).mp same with
        ⟨rfl, rfl⟩ | ⟨rest, rfl, isText⟩
      · rw [alone _ lasts]
      · rw [isText, continued rest last lasts]

/-- Where each name has one entry, it is the one that is looked up. -/
theorem lookup_eq_some_iff_mem {entries : List (String × String)}
    (once : (entries.map Prod.fst).Nodup) :
    entries.lookup name = some value ↔ (name, value) ∈ entries := by
  induction entries with
  | nil => simp
  | cons entry entries induction =>
      obtain ⟨own, text⟩ := entry
      rw [List.map_cons, List.nodup_cons] at once
      rw [List.lookup_cons, List.mem_cons]
      by_cases same : name = own
      · subst same
        have elsewhere : (name, value) ∉ entries := fun member =>
          once.1 (List.mem_map.mpr ⟨_, member, rfl⟩)
        simp [elsewhere, eq_comm]
      · have differs : (name == own) = false := by simpa using same
        rw [differs, induction once.2]
        simp [same]

/-- The order of such entries does not matter. -/
theorem lookup_reverse {entries : List (String × String)}
    (once : (entries.map Prod.fst).Nodup) :
    entries.reverse.lookup name = entries.lookup name := by
  have reversed : (entries.reverse.map Prod.fst).Nodup := by
    rw [List.map_reverse]
    exact (List.reverse_perm _).nodup_iff.mpr once
  refine Option.ext fun value => ?_
  rw [lookup_eq_some_iff_mem reversed, lookup_eq_some_iff_mem once,
    List.mem_reverse]

/-! ## What a process finds under a name -/

/-- A process finds this value under the name, or nothing. -/
def Finds (entries : List (String × String)) (name : String) :
    Option String → Prop
  | some value => Reads entries name.toList value.toList
  | none => ∀ value, (name.toList, value) ∉
      entries.map fun entry => reading entry.1 entry.2

/-- A process finds one thing. -/
theorem Finds.unique {entries : List (String × String)}
    {found other : Option String} (finds : Finds entries name found)
    (too : Finds entries name other) : found = other := by
  cases found with
  | none =>
      cases other with
      | none => rfl
      | some value => exact absurd too.1 (finds value.toList)
  | some value =>
      cases other with
      | none => exact absurd finds.1 (too value.toList)
      | some last =>
          exact congrArg some (String.toList_inj.mp (too.2 _ finds.1))

/-- A name with an equals sign is never read. -/
theorem finds_equals {entries : List (String × String)}
    (equals : '=' ∈ name.toList) : Finds entries name none := by
  intro value member
  obtain ⟨entry, -, same⟩ := List.mem_map.mp member
  have plain := @not_mem_reading entry.1 entry.2
  rw [same] at plain
  exact plain equals

/-- A name that no other setting goes on after with an equals sign has its
last setting. -/
theorem finds_setAll (plain : '=' ∉ name.toList)
    (alone : ∀ rest value, (name ++ "=" ++ rest, value) ∉ settings) :
    Finds (setAll settings) name (settings.reverse.lookup name) := by
  have member_of_lasts {other last : String}
      (lasts : Lasts settings other last) : (other, last) ∈ settings := by
    obtain ⟨before, after, split, -⟩ := List.lookup_eq_some_iff.mp lasts
    apply List.mem_reverse.mp
    rw [split]
    exact List.mem_append_right _ List.mem_cons_self
  cases last : settings.reverse.lookup name with
  | some value =>
      refine (reads_setAll plain).mpr
        ⟨.inl ⟨value, last⟩, fun other lasts => ?_, fun rest other lasts => ?_⟩
      · exact Option.some.inj (lasts.symm.trans last)
      · exact absurd (member_of_lasts lasts) (alone rest other)
  | none =>
      intro value member
      obtain ⟨⟨other, own⟩, entry, same⟩ := List.mem_map.mp member
      have lasts := mem_setAll.mp entry
      rw [← @String.toList_ofList value] at same
      rcases (reading_eq_iff plain).mp same with ⟨rfl, -⟩ | ⟨rest, rfl, -⟩
      · unfold Lasts at lasts
        rw [last] at lasts
        cases lasts
      · exact alone rest own (member_of_lasts lasts)

end Environment
