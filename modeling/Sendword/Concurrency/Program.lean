/-!
# Programs of atomic operations

A program is a tree of operations on a shared state: after each operation it
continues according to the answer.  The operations are left abstract, so the
same program text can be run alone, run with faults, or interleaved with
other programs one operation at a time.
-/

namespace Concurrency

/-- A program that performs operations of type `Op` and ends with a value. -/
inductive Program {Op : Type} (Answer : Op → Type) (α : Type) : Type where
  | pure (value : α)
  | perform (op : Op) (next : Answer op → Program Answer α)

namespace Program

variable {Op : Type} {Answer : Op → Type} {α β γ : Type}

def bind (program : Program Answer α) (rest : α → Program Answer β) :
    Program Answer β :=
  match program with
  | .pure value => rest value
  | .perform op next => .perform op fun answer => (next answer).bind rest

instance : Monad (Program Answer) where
  pure := .pure
  bind := .bind

@[simp] theorem pure_eq (value : α) :
    (Pure.pure value : Program Answer α) = .pure value := rfl

@[simp] theorem bind_eq (program : Program Answer α)
    (rest : α → Program Answer β) :
    program >>= rest = program.bind rest := rfl

@[simp] theorem pure_bind (value : α) (rest : α → Program Answer β) :
    (Program.pure value).bind rest = rest value := rfl

@[simp] theorem perform_bind (op : Op)
    (next : Answer op → Program Answer α) (rest : α → Program Answer β) :
    (Program.perform op next).bind rest =
      .perform op fun answer => (next answer).bind rest := rfl

/-- The program of a single operation. -/
def op (operation : Op) : Program Answer (Answer operation) :=
  .perform operation .pure

@[simp] theorem op_bind (operation : Op)
    (rest : Answer operation → Program Answer α) :
    (Program.op operation).bind rest = .perform operation rest := rfl

/-- Run a program for every item of a list, in order. -/
def forEach (items : List β) (body : β → Program Answer Unit) :
    Program Answer Unit :=
  match items with
  | [] => .pure ()
  | item :: items => (body item).bind fun _ => forEach items body

/-- The operation a program performs next, if it has not ended. -/
def next? : Program Answer α → Option Op
  | .pure _ => none
  | .perform op _ => some op

@[simp] theorem next?_pure (value : α) :
    (Program.pure value : Program Answer α).next? = none := rfl

@[simp] theorem next?_perform (op : Op)
    (next : Answer op → Program Answer α) :
    (Program.perform op next).next? = some op := rfl

/-- The value of a program that has ended. -/
def result? : Program Answer α → Option α
  | .pure value => some value
  | .perform .. => none

@[simp] theorem result?_pure (value : α) :
    (Program.pure value : Program Answer α).result? = some value := rfl

@[simp] theorem result?_perform (op : Op)
    (next : Answer op → Program Answer α) :
    (Program.perform op next).result? = none := rfl

end Program

end Concurrency
