/-!
# Scanners

A scanner reads an input one item at a time and emits marks on the way.
-/

namespace Scanner

variable {State Item Mark : Type}

/-- Read the items from a state on: the marks, and the state at the end. -/
def run (step : State → Item → List Mark × State) (state : State) :
    List Item → List Mark × State
  | [] => ([], state)
  | item :: items =>
      let (marks, after) := step state item
      let (more, last) := run step after items
      (marks ++ more, last)

variable {step : State → Item → List Mark × State} {state : State}

@[simp] theorem run_nil : run step state [] = ([], state) := rfl

theorem run_cons (item : Item) (items : List Item) :
    run step state (item :: items) =
      ((step state item).1 ++ (run step (step state item).2 items).1,
        (run step (step state item).2 items).2) := rfl

theorem run_append (first second : List Item) :
    run step state (first ++ second) =
      ((run step state first).1 ++
          (run step (run step state first).2 second).1,
        (run step (run step state first).2 second).2) := by
  induction first generalizing state with
  | nil => rfl
  | cons item first induction =>
      rw [List.cons_append, run_cons, run_cons, induction, List.append_assoc]

/-- After a common part two items that leave different marks give different
marks in the end, whatever follows. -/
theorem run_ne_of_marks {common first second : List Item} {left right : Item}
    {front : List Mark} {leftMark rightMark : Mark}
    (leftMarks : (step (run step state common).2 left).1 =
      front ++ [leftMark])
    (rightMarks : (step (run step state common).2 right).1 =
      front ++ [rightMark])
    (different : leftMark ≠ rightMark) :
    (run step state (common ++ left :: first)).1 ≠
      (run step state (common ++ right :: second)).1 := by
  intro same
  rw [run_append, run_append, run_cons, run_cons] at same
  dsimp only at same
  rw [List.append_cancel_left_eq, leftMarks, rightMarks, List.append_assoc,
    List.append_assoc, List.append_cancel_left_eq] at same
  exact different (List.cons.inj same).1

end Scanner
