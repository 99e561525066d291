import Sendword.Files.Disk

/-!
# File operations

The operations of a program on a disk, each of which may fail.
-/

namespace Files

variable {Name : Type}

inductive Operation (Name : Type) where
  | read (name : Name)
  | create (name : Name)
  | write (file : Nat) (content : ByteArray)
  | sync (file : Nat)
  | remove (name : Name)
  | rename (source target : Name)

abbrev Operation.Answer : Operation Name → Type
  | .read _ => Except IoError ByteArray
  | .create _ => Except IoError Nat
  | .write .. | .sync _ | .remove _ | .rename .. => Except IoError Unit

/-- A failure of an operation; a write fails after some bytes. -/
abbrev Fault := Option Nat

variable [DecidableEq Name]

def Operation.perform (operation : Operation Name) (fault : Fault)
    (disk : Disk Name) : operation.Answer × Disk Name :=
  match operation, fault with
  | .write file content, some written =>
      (.error .failed, disk.write file (content.extract 0 written))
  | .read _, some _ | .create _, some _ | .sync _, some _
  | .remove _, some _ | .rename .., some _ => (.error .failed, disk)
  | .read name, none =>
      match disk.content? name with
      | some bytes => (.ok bytes, disk)
      | none => (.error .notFound, disk)
  | .create name, none =>
      let (file, disk) := disk.create name
      (.ok file, disk)
  | .write file content, none => (.ok (), disk.write file content)
  | .sync _, none => (.ok (), disk)
  | .remove name, none =>
      match disk.file? name with
      | some _ => (.ok (), disk.remove name)
      | none => (.error .notFound, disk)
  | .rename source target, none =>
      match named : disk.file? source with
      | some file => (.ok (), disk.rename source target file named)
      | none => (.error .notFound, disk)

/-- What reading a name answers, unless it fails. -/
def Disk.read {Name : Type} (disk : Disk Name) (name : Name) :
    Except IoError ByteArray :=
  match disk.content? name with
  | some bytes => .ok bytes
  | none => .error .notFound

section Performed

variable {disk : Disk Name}

theorem perform_rename {source target : Name} {file : Nat}
    (named : disk.file? source = some file) :
    (Operation.rename source target).perform none disk =
      (.ok (), disk.rename source target file named) := by
  simp only [Operation.perform]
  split
  · rename_i found same
    cases named.symm.trans same
    rfl
  · rename_i missing
    cases named.symm.trans missing

theorem perform_read {name : Name} {bytes : ByteArray}
    (found : disk.content? name = some bytes) :
    (Operation.read name).perform none disk = (.ok bytes, disk) := by
  simp only [Operation.perform, found]

theorem perform_read_none (name : Name) :
    (Operation.read name).perform none disk = (disk.read name, disk) := by
  unfold Disk.read
  cases found : disk.content? name with
  | none => simp only [Operation.perform, found]
  | some bytes => exact perform_read found

/-- Removing a name leaves the other names alone, also where it fails. -/
theorem perform_remove {name other : Name} (different : other ≠ name)
    (fault : Fault) :
    ∃ answer after,
      (Operation.remove name).perform fault disk = (answer, after) ∧
        after.content? other = disk.content? other := by
  cases fault with
  | some bytes => exact ⟨_, _, rfl, rfl⟩
  | none =>
      cases named : disk.file? name with
      | none =>
          refine ⟨.error .notFound, disk, ?_, rfl⟩
          simp only [Operation.perform, named]
      | some file =>
          refine ⟨.ok (), disk.remove name, ?_,
            disk.remove_content? different⟩
          simp only [Operation.perform, named]

end Performed

end Files
