import Mathlib.Data.List.TakeWhile

/-!
# References to the environment in a header

The HTTP executor replaces `${NAME}` in a header's value by the variable of
the server's environment.  The scan takes the characters behind `${` up to
the next brace as the name; it does not ask whether there is a brace.
-/

namespace Sendword

/-- The scan of `resolve_env_refs`; the fuel counts the characters left. -/
def resolveWithin
    (serverEnv : String → Option String) :
    Nat → List Char → List Char
  | 0, _ => []
  | _ + 1, [] => []
  | fuel + 1, char :: chars =>
      if char = '$' ∧ chars.head? = some '{' then
        let varName := chars.tail.takeWhile (· ≠ '}')
        -- `take_while` also takes the brace that ends the name
        let rest := (chars.tail.dropWhile (· ≠ '}')).tail
        let val := (serverEnv (String.ofList varName)).getD ""
        val.toList ++ resolveWithin serverEnv fuel rest
      else
        char :: resolveWithin serverEnv fuel chars

/-- `serverEnv` is `std::env::var`: a variable that is not set, or whose
bytes are no text, has no value. -/
def resolveEnvRefs
    (serverEnv : String → Option String)
    (value : String) : String :=
  String.ofList (resolveWithin serverEnv value.toList.length value.toList)

/-! ## What a reference is -/

/-- A `${` that a brace closes begins here. -/
def BeginsReference (text : List Char) : Prop :=
  ∃ inside, text = '$' :: '{' :: inside ∧ '}' ∈ inside

/-- Every reference, from the left, is replaced by the variable's value, and
every other character stays. -/
inductive Expands (serverEnv : String → Option String) :
    List Char → List Char → Prop where
  | nil : Expands serverEnv [] []
  | reference {name rest expanded : List Char} :
      '}' ∉ name →
      Expands serverEnv rest expanded →
      Expands serverEnv ('$' :: '{' :: (name ++ '}' :: rest))
        (((serverEnv (String.ofList name)).getD "").toList ++ expanded)
  | other {char : Char} {rest expanded : List Char} :
      ¬BeginsReference (char :: rest) →
      Expands serverEnv rest expanded →
      Expands serverEnv (char :: rest) (char :: expanded)

/-- The first `${` that no brace closes has `name` behind it. -/
def OpenReference (text name : List Char) : Prop :=
  ∃ before, text = before ++ '$' :: '{' :: name ∧ '}' ∉ name ∧
    ∀ earlier inside, before = earlier ++ '$' :: '{' :: inside → '}' ∈ inside

variable
  {serverEnv : String → Option String}
  {text name rest expanded : List Char}
  {char : Char}

theorem beginsReference_of_closed :
    BeginsReference ('$' :: '{' :: (name ++ '}' :: rest)) :=
  ⟨name ++ '}' :: rest, rfl, by simp⟩

theorem takeWhile_closed
    (closed : '}' ∉ name) :
    (name ++ '}' :: rest).takeWhile (· ≠ '}') = name := by
  rw [List.takeWhile_append_of_pos]
  · simp
  · intro char member
    simp only [ne_eq, decide_eq_true_eq]
    exact ne_of_mem_of_not_mem member closed

theorem dropWhile_closed
    (closed : '}' ∉ name) :
    (name ++ '}' :: rest).dropWhile (· ≠ '}') = '}' :: rest := by
  rw [List.dropWhile_append_of_pos]
  · simp
  · intro char member
    simp only [ne_eq, decide_eq_true_eq]
    exact ne_of_mem_of_not_mem member closed

/-- The name of a reference and the text behind it are determined. -/
theorem closed_inj
    {otherName otherRest : List Char}
    (closed : '}' ∉ name)
    (otherClosed : '}' ∉ otherName)
    (same : name ++ '}' :: rest = otherName ++ '}' :: otherRest) :
    name = otherName ∧ rest = otherRest := by
  have sameNames := congrArg (List.takeWhile (· ≠ '}')) same
  have sameRests := congrArg (List.dropWhile (· ≠ '}')) same
  rw [takeWhile_closed closed, takeWhile_closed otherClosed] at sameNames
  rw [dropWhile_closed closed, dropWhile_closed otherClosed] at sameRests
  exact ⟨sameNames, List.tail_eq_of_cons_eq sameRests⟩

/-- A text behind `${` either has the brace that closes it or none at all. -/
theorem closed_or_open (inside : List Char) :
    '}' ∉ inside ∨
      ∃ name rest, '}' ∉ name ∧ inside = name ++ '}' :: rest := by
  by_cases member : '}' ∈ inside
  · obtain ⟨name, rest, split, first⟩ := List.eq_append_cons_of_mem member
    exact .inr ⟨name, rest, first, split⟩
  · exact .inl member

/-- A text is empty, begins with a reference, is an open reference, or begins
with another character. -/
theorem references_induction
    {motive : List Char → Prop}
    (nil : motive [])
    (reference : ∀ name rest, '}' ∉ name → motive rest →
      motive ('$' :: '{' :: (name ++ '}' :: rest)))
    (opened : ∀ name, '}' ∉ name → motive ('$' :: '{' :: name))
    (other : ∀ char rest, ¬(char = '$' ∧ rest.head? = some '{') →
      motive rest → motive (char :: rest)) :
    ∀ text, motive text := by
  intro text
  generalize isLength : text.length = length
  induction length using Nat.strong_induction_on generalizing text with
  | _ length ih =>
      cases text with
      | nil => exact nil
      | cons char rest =>
          by_cases begins : char = '$' ∧ rest.head? = some '{'
          · obtain ⟨rfl, isBrace⟩ := begins
            obtain ⟨inside, rfl⟩ := List.head?_eq_some_iff.mp isBrace
            rcases closed_or_open inside with isOpen | ⟨name, rest, closed, rfl⟩
            · exact opened inside isOpen
            · apply reference name rest closed
              apply ih rest.length _ rest rfl
              simp only [List.length_cons, List.length_append] at isLength
              omega
          · apply other char rest begins
            apply ih rest.length _ rest rfl
            simp only [List.length_cons] at isLength
            omega

/-! ## The meaning of a value -/

/-- A value has one expansion. -/
theorem Expands.functional
    {otherExpanded : List Char}
    (expands : Expands serverEnv text expanded)
    (otherExpands : Expands serverEnv text otherExpanded) :
    expanded = otherExpanded := by
  induction expands generalizing otherExpanded with
  | nil =>
      cases otherExpands
      rfl
  | @reference name rest expanded closed _ ih =>
      generalize isText : '$' :: '{' :: (name ++ '}' :: rest) = text
        at otherExpands
      cases otherExpands with
      | nil => cases isText
      | @reference otherName otherRest otherExpanded otherClosed after =>
          simp only [List.cons.injEq, true_and] at isText
          obtain ⟨rfl, rfl⟩ := closed_inj closed otherClosed isText
          rw [ih after]
      | other notReference =>
          exact (notReference (isText ▸ beginsReference_of_closed)).elim
  | @other char rest expanded notReference _ ih =>
      generalize isText : char :: rest = text at otherExpands notReference
      cases otherExpands with
      | nil => cases isText
      | reference => exact (notReference beginsReference_of_closed).elim
      | other _ after =>
          cases isText
          rw [ih after]

/-- A text without a closing brace stands as it is. -/
theorem expands_of_unclosed
    (unclosed : '}' ∉ text) :
    Expands serverEnv text text := by
  induction text with
  | nil => exact .nil
  | cons char rest ih =>
      apply Expands.other
      · rintro ⟨inside, isInside, member⟩
        cases isInside
        exact unclosed (List.mem_cons_of_mem _ (List.mem_cons_of_mem _ member))
      · exact ih (fun member => unclosed (List.mem_cons_of_mem _ member))

theorem expands_reference_iff
    {value : List Char}
    (closed : '}' ∉ name)
    (isValue : value = ((serverEnv (String.ofList name)).getD "").toList) :
    Expands serverEnv ('$' :: '{' :: (name ++ '}' :: rest))
        (value ++ expanded) ↔
      Expands serverEnv rest expanded := by
  subst isValue
  constructor
  · intro expands
    generalize isText : '$' :: '{' :: (name ++ '}' :: rest) = text at expands
    generalize isWhole : ((serverEnv (String.ofList name)).getD "").toList ++
      expanded = whole at expands
    cases expands with
    | nil => cases isText
    | @reference otherName otherRest otherExpanded otherClosed after =>
        simp only [List.cons.injEq, true_and] at isText
        obtain ⟨rfl, rfl⟩ := closed_inj closed otherClosed isText
        rw [List.append_cancel_left isWhole]
        exact after
    | other notReference =>
        exact (notReference (isText ▸ beginsReference_of_closed)).elim
  · exact Expands.reference closed

theorem expands_other_iff
    (notReference : ¬(char = '$' ∧ rest.head? = some '{')) :
    Expands serverEnv (char :: rest) (char :: expanded) ↔
      Expands serverEnv rest expanded := by
  constructor
  · intro expands
    generalize isText : char :: rest = text at expands
    generalize isWhole : char :: expanded = whole at expands
    cases expands with
    | nil => cases isText
    | reference =>
        cases isText
        exact (notReference ⟨rfl, rfl⟩).elim
    | other _ after =>
        cases isText
        cases isWhole
        exact after
  · intro expands
    apply Expands.other _ expands
    rintro ⟨inside, isInside, -⟩
    cases isInside
    exact notReference ⟨rfl, rfl⟩

/-! ## The scan -/

theorem resolveWithin_nil (fuel : Nat) :
    resolveWithin serverEnv fuel [] = [] := by
  cases fuel <;> rfl

/-- What is left behind a reference is shorter than the value. -/
theorem length_behind_le :
    ((rest.tail.dropWhile (· ≠ '}')).tail).length ≤ rest.length := by
  have dropped := (List.dropWhile_sublist (· ≠ '}') (l := rest.tail)).length_le
  simp only [List.length_tail] at dropped ⊢
  omega

/-- Enough fuel scans the whole value. -/
theorem resolveWithin_enough
    {fuel : Nat}
    (enough : text.length ≤ fuel) :
    resolveWithin serverEnv fuel text =
      resolveWithin serverEnv text.length text := by
  induction fuel using Nat.strong_induction_on generalizing text with
  | _ fuel ih =>
      cases text with
      | nil => rw [resolveWithin_nil, resolveWithin_nil]
      | cons char rest =>
          obtain ⟨fuel, rfl⟩ := Nat.exists_eq_succ_of_ne_zero
            (Nat.ne_of_gt (Nat.lt_of_lt_of_le (Nat.succ_pos _) enough))
          have short := Nat.le_of_succ_le_succ enough
          have behind := @length_behind_le rest
          rw [List.length_cons, resolveWithin, resolveWithin]
          simp only []
          rw [ih fuel (Nat.lt_succ_self _) short,
            ih fuel (Nat.lt_succ_self _) (behind.trans short),
            ih rest.length (Nat.lt_succ_of_le short) behind]

/-- The scan of a whole value. -/
def resolveText
    (serverEnv : String → Option String)
    (text : List Char) : List Char :=
  resolveWithin serverEnv text.length text

theorem resolveText_reference
    (closed : '}' ∉ name) :
    resolveText serverEnv ('$' :: '{' :: (name ++ '}' :: rest)) =
      ((serverEnv (String.ofList name)).getD "").toList ++
        resolveText serverEnv rest := by
  unfold resolveText
  rw [List.length_cons, resolveWithin, if_pos ⟨rfl, rfl⟩]
  simp only [List.tail_cons, takeWhile_closed closed, dropWhile_closed closed]
  rw [resolveWithin_enough]
  simp only [List.length_cons, List.length_append]
  omega

/-- Without a brace the name runs to the end of the value. -/
theorem resolveText_open
    (isOpen : '}' ∉ name) :
    resolveText serverEnv ('$' :: '{' :: name) =
      ((serverEnv (String.ofList name)).getD "").toList := by
  have all : ∀ char ∈ name, decide (char ≠ '}') = true := by
    intro char member
    simp only [ne_eq, decide_eq_true_eq]
    exact ne_of_mem_of_not_mem member isOpen
  unfold resolveText
  rw [List.length_cons, resolveWithin, if_pos ⟨rfl, rfl⟩]
  simp only [List.tail_cons, List.takeWhile_eq_self_iff.mpr all,
    List.dropWhile_eq_nil_iff.mpr all, List.tail_nil, resolveWithin_nil,
    List.append_nil]

theorem resolveText_other
    (notReference : ¬(char = '$' ∧ rest.head? = some '{')) :
    resolveText serverEnv (char :: rest) =
      char :: resolveText serverEnv rest := by
  unfold resolveText
  rw [List.length_cons, resolveWithin, if_neg notReference]

/-! ## Open references -/

theorem not_openReference_nil :
    ¬OpenReference [] name := by
  rintro ⟨before, isText, -⟩
  cases before <;> cases isText

theorem openReference_open_iff
    {inside : List Char}
    (isOpen : '}' ∉ inside) :
    OpenReference ('$' :: '{' :: inside) name ↔ name = inside := by
  constructor
  · rintro ⟨before, isText, -, first⟩
    cases before with
    | nil =>
        cases isText
        rfl
    | cons char before =>
        -- a later one would have the first before it
        cases before with
        | nil => cases isText
        | cons next before =>
            cases isText
            have member := first [] before rfl
            exact (isOpen (List.mem_append_left _ member)).elim
  · rintro rfl
    refine ⟨[], rfl, isOpen, ?_⟩
    intro earlier inside isBefore
    cases earlier <;> cases isBefore

theorem openReference_other_iff
    (notReference : ¬(char = '$' ∧ rest.head? = some '{')) :
    OpenReference (char :: rest) name ↔ OpenReference rest name := by
  constructor
  · rintro ⟨before, isText, isOpen, first⟩
    cases before with
    | nil =>
        cases isText
        exact (notReference ⟨rfl, rfl⟩).elim
    | cons other before =>
        cases isText
        refine ⟨before, rfl, isOpen, ?_⟩
        intro earlier inside isBefore
        exact first (char :: earlier) inside (congrArg (char :: ·) isBefore)
  · rintro ⟨before, rfl, isOpen, first⟩
    refine ⟨char :: before, rfl, isOpen, ?_⟩
    intro earlier inside isBefore
    cases earlier with
    | nil =>
        cases isBefore
        exact (notReference ⟨rfl, rfl⟩).elim
    | cons other earlier =>
        cases isBefore
        exact first earlier inside rfl

theorem openReference_reference_iff
    {inside : List Char}
    (closed : '}' ∉ inside) :
    OpenReference ('$' :: '{' :: (inside ++ '}' :: rest)) name ↔
      OpenReference rest name := by
  constructor
  · rintro ⟨before, isText, isOpen, first⟩
    cases before with
    | nil =>
        cases isText
        exact (isOpen (by simp)).elim
    | cons char before =>
        cases before with
        | nil => cases isText
        | cons next before =>
            simp only [List.cons_append, List.cons.injEq] at isText
            obtain ⟨rfl, rfl, isText⟩ := isText
            -- the brace that closes it is before the open one
            have member := first [] before rfl
            obtain ⟨otherInside, before, rfl, otherClosed⟩ :=
              List.eq_append_cons_of_mem member
            rw [List.append_assoc] at isText
            obtain ⟨rfl, rfl⟩ := closed_inj closed otherClosed isText
            refine ⟨before, rfl, isOpen, ?_⟩
            intro earlier inner isBefore
            exact first ('$' :: '{' :: (inside ++ '}' :: earlier)) inner
              (by simp [isBefore])
  · rintro ⟨before, rfl, isOpen, first⟩
    refine ⟨'$' :: '{' :: (inside ++ '}' :: before), by simp, isOpen, ?_⟩
    intro earlier inner isBefore
    have joined : ('$' :: '{' :: inside) ++ '}' :: before =
        earlier ++ '$' :: '{' :: inner := isBefore
    rcases List.append_eq_append_iff.mp joined with
      ⟨between, -, isEnd⟩ | ⟨between, -, isEnd⟩
    · cases between with
      | nil => cases isEnd
      | cons brace between =>
          cases isEnd
          exact first between inner rfl
    · cases between with
      | nil => cases isEnd
      | cons dollar between =>
          cases between with
          | nil => cases isEnd
          | cons brace between =>
              cases isEnd
              simp

/-! ## Values without an open reference -/

theorem expands_open_iff
    (isOpen : '}' ∉ name) :
    Expands serverEnv ('$' :: '{' :: name)
        ((serverEnv (String.ofList name)).getD "").toList ↔
      serverEnv (String.ofList name) =
        some (String.ofList ('$' :: '{' :: name)) := by
  have unclosed : '}' ∉ '$' :: '{' :: name := by
    simp only [List.mem_cons, not_or]
    exact ⟨by decide, by decide, isOpen⟩
  have verbatim := @expands_of_unclosed serverEnv _ unclosed
  constructor
  · intro expands
    have same := expands.functional verbatim
    cases isSet : serverEnv (String.ofList name) with
    | none =>
        rw [isSet] at same
        cases same
    | some val =>
        rw [isSet, Option.getD_some] at same
        rw [← same, String.ofList_toList]
  · intro isSet
    rw [isSet, Option.getD_some, String.toList_ofList]
    exact verbatim

/-- The scan expands a text up to its first open reference. -/
theorem expands_resolveText_iff
    (serverEnv : String → Option String)
    (text : List Char) :
    Expands serverEnv text (resolveText serverEnv text) ↔
      ∀ name, OpenReference text name →
        serverEnv (String.ofList name) =
          some (String.ofList ('$' :: '{' :: name)) := by
  induction text using references_induction with
  | nil =>
      apply iff_of_true
      · exact .nil
      · intro name isOpen
        exact (not_openReference_nil isOpen).elim
  | reference inside rest closed ih =>
      rw [resolveText_reference closed, expands_reference_iff closed rfl, ih]
      simp only [openReference_reference_iff closed]
  | opened inside isOpen =>
      rw [resolveText_open isOpen, expands_open_iff isOpen]
      simp only [openReference_open_iff isOpen, forall_eq]
  | other char rest notReference ih =>
      rw [resolveText_other notReference, expands_other_iff notReference, ih]
      simp only [openReference_other_iff notReference]

/-- A header's value is rewritten at its references alone exactly when every
`${` in it is closed, or the variable that the rest of the value names holds
this very rest. -/
theorem resolveEnvRefs_expands_iff
    (serverEnv : String → Option String)
    (value : String) :
    Expands serverEnv value.toList (resolveEnvRefs serverEnv value).toList ↔
      ∀ name, OpenReference value.toList name →
        serverEnv (String.ofList name) =
          some (String.ofList ('$' :: '{' :: name)) := by
  rw [resolveEnvRefs, String.toList_ofList]
  exact expands_resolveText_iff serverEnv value.toList

/-- The brace behind the token is missing, and the token's place is empty. -/
theorem not_resolveEnvRefs_expands :
    ¬∀ (serverEnv : String → Option String) (value : String),
      Expands serverEnv value.toList
        (resolveEnvRefs serverEnv value).toList := by
  intro always
  have expands := always (fun _ => none) "Bearer $\x7bTOKEN"
  have verbatim : Expands (fun _ => none) "Bearer $\x7bTOKEN".toList
      "Bearer $\x7bTOKEN".toList := expands_of_unclosed (by decide)
  have same := expands.functional verbatim
  revert same
  decide

end Sendword
