import Mathlib.Logic.Function.Basic

/-!
# Files

A disk gives names to files and bytes to files.  Creating a file under a name
in use empties the file of that name; renaming moves a name and leaves the
bytes of every file alone.  Two names never share a file.
-/

namespace Files

inductive IoError where
  | notFound
  | failed
  deriving DecidableEq, Repr

structure Disk (Name : Type) where
  file? : Name → Option Nat
  bytes : Nat → ByteArray
  fresh : Nat
  below : ∀ {name file}, file? name = some file → file < fresh
  alone : ∀ {name other file},
    file? name = some file → file? other = some file → name = other

namespace Disk

variable {Name : Type}

/-- The bytes under a name. -/
def content? (disk : Disk Name) (name : Name) : Option ByteArray :=
  (disk.file? name).map disk.bytes

/-- Replace the bytes of a file. -/
def set (disk : Disk Name) (file : Nat) (content : ByteArray) : Disk Name :=
  { disk with bytes := Function.update disk.bytes file content }

/-- One more file, without a name. -/
def grow (disk : Disk Name) : Disk Name :=
  { disk with
    bytes := Function.update disk.bytes disk.fresh .empty
    fresh := disk.fresh + 1
    below := fun named => Nat.lt_succ_of_lt (disk.below named) }

/-- Bytes written over the start of a file. -/
def overwrite (old new : ByteArray) : ByteArray :=
  new ++ old.extract new.size old.size

/-- A handle that was just opened writes at the start of its file. -/
def write (disk : Disk Name) (file : Nat) (content : ByteArray) :
    Disk Name :=
  disk.set file (overwrite (disk.bytes file) content)

/-- Writing to an empty file leaves exactly what was written. -/
@[simp] theorem overwrite_empty (new : ByteArray) :
    overwrite .empty new = new := by
  have nothing : ByteArray.extract .empty new.size 0 = .empty :=
    ByteArray.extract_eq_empty_iff.mpr (by simp)
  change new ++ ByteArray.extract .empty new.size 0 = new
  rw [nothing, ByteArray.append_empty]

theorem file?_ne_fresh (disk : Disk Name) (name : Name) :
    disk.file? name ≠ some disk.fresh :=
  fun named => Nat.lt_irrefl _ (disk.below named)

@[simp] theorem set_file? (disk : Disk Name) (file : Nat)
    (content : ByteArray) : (disk.set file content).file? = disk.file? := rfl

@[simp] theorem set_bytes (disk : Disk Name) (file : Nat)
    (content : ByteArray) : (disk.set file content).bytes file = content :=
  Function.update_self ..

theorem set_bytes_of_ne (disk : Disk Name) {file other : Nat}
    (different : other ≠ file) (content : ByteArray) :
    (disk.set file content).bytes other = disk.bytes other :=
  Function.update_of_ne different ..

/-- The bytes under a name change only with its own file. -/
theorem set_content? (disk : Disk Name) {file : Nat} {name : Name}
    (different : disk.file? name ≠ some file) (content : ByteArray) :
    (disk.set file content).content? name = disk.content? name := by
  unfold content?
  rw [set_file?]
  cases named : disk.file? name with
  | none => rfl
  | some other =>
      have apart : other ≠ file := fun same => different (by rw [named, same])
      simp [set_bytes_of_ne disk apart]

variable [DecidableEq Name]

/-- Let a name stand for another file, or for none. -/
def bind (disk : Disk Name) (name : Name) (entry : Option Nat)
    (below : ∀ file, entry = some file → file < disk.fresh)
    (alone : ∀ file other, entry = some file → other ≠ name →
      disk.file? other ≠ some file) : Disk Name where
  file? := Function.update disk.file? name entry
  bytes := disk.bytes
  fresh := disk.fresh
  below := by
    intro other file named
    by_cases same : other = name
    · subst same
      rw [Function.update_self] at named
      exact below file named
    · rw [Function.update_of_ne same] at named
      exact disk.below named
  alone := by
    intro first second file one two
    by_cases same : first = name
    · subst same
      rw [Function.update_self] at one
      by_cases also : second = first
      · exact also.symm
      · rw [Function.update_of_ne also] at two
        exact absurd two (alone file second one also)
    · rw [Function.update_of_ne same] at one
      by_cases also : second = name
      · subst also
        rw [Function.update_self] at two
        exact absurd one (alone file first two same)
      · rw [Function.update_of_ne also] at two
        exact disk.alone one two

theorem bind_file? (disk : Disk Name) (name : Name) {entry : Option Nat}
    (below : ∀ file, entry = some file → file < disk.fresh)
    (alone : ∀ file other, entry = some file → other ≠ name →
      disk.file? other ≠ some file) (other : Name) :
    (disk.bind name entry below alone).file? other =
      if other = name then entry else disk.file? other := by
  by_cases same : other = name
  · subst same
    rw [if_pos rfl]
    exact Function.update_self ..
  · rw [if_neg same]
    exact Function.update_of_ne same ..

/-- `File::create`. -/
def create (disk : Disk Name) (name : Name) : Nat × Disk Name :=
  match disk.file? name with
  | some file => (file, disk.set file .empty)
  | none =>
      (disk.fresh, disk.grow.bind name (some disk.fresh)
        (fun _ same => by cases same; exact Nat.lt_succ_self _)
        (fun _ other same _ => by
          cases same
          exact disk.file?_ne_fresh other))

/-- `std::fs::remove_file`. -/
def remove (disk : Disk Name) (name : Name) : Disk Name :=
  disk.bind name none (fun _ => nofun) (fun _ _ => nofun)

theorem remove_file? (disk : Disk Name) (name other : Name) :
    (disk.remove name).file? other =
      if other = name then none else disk.file? other :=
  bind_file? ..

/-- `std::fs::rename` of a name that stands for `file`. -/
def rename (disk : Disk Name) (source target : Name) (file : Nat)
    (named : disk.file? source = some file) : Disk Name :=
  (disk.remove source).bind target (some file)
    (fun _ same => by cases same; exact disk.below named)
    (fun found other same _ kept => by
      cases same
      rw [remove_file?] at kept
      split at kept
      · cases kept
      · rename_i notSource
        exact notSource (disk.alone kept named))

theorem rename_file? (disk : Disk Name) {source target : Name} {file : Nat}
    (named : disk.file? source = some file) (other : Name) :
    (disk.rename source target file named).file? other =
      if other = target then some file
      else if other = source then none else disk.file? other := by
  rw [← remove_file?]
  exact bind_file? ..

/-! ## What the operations change -/

/-- Creating a name opens the file of that name. -/
theorem create_file? (disk : Disk Name) (name : Name) :
    (disk.create name).2.file? name = some (disk.create name).1 := by
  unfold create
  split
  · rename_i named
    exact named
  · rw [bind_file?, if_pos rfl]

theorem create_bytes (disk : Disk Name) (name : Name) :
    (disk.create name).2.bytes (disk.create name).1 = .empty := by
  unfold create
  split
  · exact set_bytes ..
  · exact Function.update_self ..

theorem create_content? (disk : Disk Name) {name other : Name}
    (different : other ≠ name) :
    (disk.create name).2.content? other = disk.content? other := by
  unfold create
  split
  · rename_i file named
    exact set_content? disk
      (fun found => different (disk.alone found named)) .empty
  · unfold content?
    rw [bind_file?, if_neg different]
    cases found : disk.file? other with
    | none => simp [grow, found]
    | some file =>
        have apart : file ≠ disk.fresh :=
          fun same => disk.file?_ne_fresh other (by rw [found, same])
        simp [grow, bind, found, Function.update_of_ne apart]

theorem remove_content? (disk : Disk Name) {name other : Name}
    (different : other ≠ name) :
    (disk.remove name).content? other = disk.content? other := by
  unfold content?
  rw [remove_file?, if_neg different]
  rfl

/-- After a rename the target has the bytes the source had. -/
theorem rename_content? (disk : Disk Name) {source target : Name}
    {file : Nat} (named : disk.file? source = some file) :
    (disk.rename source target file named).content? target =
      disk.content? source := by
  unfold content?
  rw [rename_file?, if_pos rfl, named]
  rfl

end Disk

end Files
