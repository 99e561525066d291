import Sendword.Concurrency.Discipline
import Sendword.Concurrency.Trace

/-!
# Disciplines with an open answer

The environment may answer an operation in several ways, and a discipline
knows the answer in each variant of the environment.  A program that performs
the operation at most once obeys the discipline that leaves the answer open
as soon as it obeys every variant.
-/

namespace Concurrency

variable {State Choice Job Output : Type} {Op : Type} {Answer : Op → Type}

namespace Discipline

variable {machine : Machine State Choice Job Answer Output}
  {Ghost Variant α : Type}

/-- The discipline is each of its variants but for the operations in
`opened`, which it answers as some variant does. -/
structure Joins (discipline : Discipline machine Ghost)
    (variants : Variant → Discipline machine Ghost) (opened : Op → Prop) :
    Prop where
  allows : ∀ variant ghost op, (variants variant).allows ghost op →
    discipline.allows ghost op
  movesSame : ∀ variant ghost op answer after, ¬ opened op →
    discipline.moves ghost op answer after →
    (variants variant).moves ghost op answer after
  movesOpened : ∀ ghost op answer after, opened op →
    discipline.moves ghost op answer after →
    ∃ variant, (variants variant).moves ghost op answer after

variable {discipline : Discipline machine Ghost}
  {variants : Variant → Discipline machine Ghost} {opened : Op → Prop}
  {program : Program Answer α} {post : Ghost → α → Prop} {ghost : Ghost}

theorem Joins.obeys_of_avoids (joins : discipline.Joins variants opened)
    {variant : Variant} (avoids : program.Avoids opened)
    (obeys : (variants variant).Obeys program post ghost) :
    discipline.Obeys program post ghost := by
  induction program generalizing ghost with
  | pure value => exact obeys
  | perform op next induction =>
      refine ⟨joins.allows variant ghost op obeys.1, ?_⟩
      intro answer after moved
      have same := joins.movesSame variant ghost op answer after avoids.1 moved
      exact induction answer (avoids.2 answer) (obeys.2 answer after same)

theorem Joins.obeys_of_once [Nonempty Variant]
    (joins : discipline.Joins variants opened) (once : program.Once opened)
    (obeys : ∀ variant, (variants variant).Obeys program post ghost) :
    discipline.Obeys program post ghost := by
  induction program generalizing ghost with
  | pure value => exact obeys (Classical.arbitrary Variant)
  | perform op next induction =>
      refine ⟨?_, ?_⟩
      · exact joins.allows _ ghost op (obeys (Classical.arbitrary Variant)).1
      · intro answer after moved
        by_cases isOpen : opened op
        · obtain ⟨variant, given⟩ :=
            joins.movesOpened ghost op answer after isOpen moved
          exact joins.obeys_of_avoids (once.1 isOpen answer)
            ((obeys variant).2 answer after given)
        · refine induction answer (once.2 answer) fun variant => ?_
          exact (obeys variant).2 answer after
            (joins.movesSame variant ghost op answer after isOpen moved)

end Discipline

end Concurrency
