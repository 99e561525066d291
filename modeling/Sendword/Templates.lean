import Mathlib.Data.List.DropRight
import Sendword.Isolation
import Sendword.Schema

/-!
# Templates as they are written

A template has texts and, between double braces, names.  The pattern takes
what stands between the braces as a field path only if it is made of word
characters and points.
-/

namespace Sendword

namespace WordClass

variable {words : WordClass} {text raw path after : List Char}

theorem not_space_of_isPath {char : Char} (isPath : words.isPath char = true) :
    isWhiteSpace char = false := by
  unfold WordClass.isPath at isPath
  rcases Bool.or_eq_true_iff.mp isPath with word | point
  · exact words.not_space char word
  · rw [beq_iff_eq.mp point]
    decide

theorem not_isPath_brace : words.isPath '}' = false := by
  unfold WordClass.isPath
  rw [words.ascii '}' (by decide)]
  decide

theorem not_isPath_opening : words.isPath '{' = false := by
  unfold WordClass.isPath
  rw [words.ascii '{' (by decide)]
  decide

/-- A run of characters of a class ends where another character comes. -/
theorem takeWhile_run {isClass : Char → Bool} {run rest : List Char}
    (all : ∀ char ∈ run, isClass char = true)
    (ends : ∀ char ∈ rest.head?, isClass char = false) :
    (run ++ rest).takeWhile isClass = run ∧
      (run ++ rest).dropWhile isClass = rest := by
  rw [List.takeWhile_append_of_pos all, List.dropWhile_append_of_pos all]
  cases rest with
  | nil => simp
  | cons char rest =>
      have ended := ends char rfl
      simp [ended]

/-- What the placeholder pattern matches. -/
theorem placeholder?_eq_some_iff :
    words.placeholder? text = some (raw, path, after) ↔
      ∃ leading trailing,
        (∀ char ∈ leading, isWhiteSpace char = true) ∧
        (∀ char ∈ trailing, isWhiteSpace char = true) ∧
        path ≠ [] ∧ (∀ char ∈ path, words.isPath char = true) ∧
        raw = '{' :: '{' :: (leading ++ path ++ trailing ++ ['}', '}']) ∧
        text = raw ++ after := by
  constructor
  · intro found
    unfold placeholder? at found
    split at found
    · rename_i text
      dsimp only at found
      split at found
      · rename_i first path' rest isPath isRest
        simp only [Option.some.injEq, Prod.mk.injEq] at found
        obtain ⟨rfl, rfl, rfl⟩ := found
        refine ⟨_, _, fun char member => List.mem_takeWhile_imp member,
          fun char member => List.mem_takeWhile_imp member, ?_,
          fun char member => List.mem_takeWhile_imp member, rfl, ?_⟩
        · rw [isPath]
          exact List.cons_ne_nil _ _
        · -- each run and the rest behind it make up the text before
          have whole := List.takeWhile_append_dropWhile (p := isWhiteSpace)
            (l := text)
          have named := List.takeWhile_append_dropWhile (p := words.isPath)
            (l := text.dropWhile isWhiteSpace)
          have last := List.takeWhile_append_dropWhile (p := isWhiteSpace)
            (l := (text.dropWhile isWhiteSpace).dropWhile words.isPath)
          rw [isRest] at last
          have joined : text = text.takeWhile isWhiteSpace ++
              ((text.dropWhile isWhiteSpace).takeWhile words.isPath ++
                (((text.dropWhile isWhiteSpace).dropWhile
                  words.isPath).takeWhile isWhiteSpace ++
                  '}' :: '}' :: rest)) := by
            rw [last, named, whole]
          simpa using joined
      · cases found
    · cases found
  · rintro ⟨leading, trailing, blank, blanks, filled, isPath, rfl, rfl⟩
    obtain ⟨first, last, isFirst⟩ := List.exists_cons_of_ne_nil filled
    have afterLeading := @takeWhile_run isWhiteSpace leading
      (path ++ (trailing ++ '}' :: '}' :: after)) blank (by
        intro char isHead
        rw [isFirst] at isHead
        cases isHead
        exact not_space_of_isPath (isPath first (isFirst ▸ List.mem_cons_self)))
    have afterPath := @takeWhile_run words.isPath path
      (trailing ++ '}' :: '}' :: after) isPath (by
        intro char isHead
        cases trailing with
        | nil =>
            cases isHead
            exact not_isPath_brace
        | cons first trailing =>
            cases isHead
            cases isClass : words.isPath char with
            | false => rfl
            | true =>
                have space := blanks char List.mem_cons_self
                rw [not_space_of_isPath isClass] at space
                cases space)
    have afterTrailing := @takeWhile_run isWhiteSpace trailing
      ('}' :: '}' :: after) blanks (by
        intro char isHead
        cases isHead
        decide)
    have arranged : '{' :: '{' :: (leading ++ path ++ trailing ++ ['}', '}']) ++
        after = '{' :: '{' :: (leading ++
          (path ++ (trailing ++ '}' :: '}' :: after))) := by simp
    rw [arranged]
    simp only [placeholder?, afterLeading, afterPath, afterTrailing]
    rw [isFirst]
    simp

/-! ## Cutting a template -/

theorem length_after
    (found : words.placeholder? text = some (raw, path, after)) :
    after.length < text.length := by
  obtain ⟨leading, trailing, -, -, -, -, rfl, rfl⟩ :=
    placeholder?_eq_some_iff.mp found
  simp only [List.length_append, List.length_cons]
  omega

/-- Enough fuel cuts the whole template. -/
theorem segmentsWithin_enough {fuel : Nat} (enough : text.length ≤ fuel) :
    words.segmentsWithin fuel text = words.segments text := by
  unfold segments
  induction fuel using Nat.strong_induction_on generalizing text with
  | _ fuel induction =>
      cases text with
      | nil => cases fuel <;> rfl
      | cons char rest =>
          obtain ⟨fuel, rfl⟩ := Nat.exists_eq_succ_of_ne_zero
            (Nat.ne_of_gt (Nat.lt_of_lt_of_le (Nat.succ_pos _) enough))
          have short := Nat.le_of_succ_le_succ enough
          rw [List.length_cons, segmentsWithin, segmentsWithin]
          cases found : words.placeholder? (char :: rest) with
          | none =>
              simp only []
              rw [induction fuel (Nat.lt_succ_self _) short]
          | some placeholder =>
              obtain ⟨raw, path, after⟩ := placeholder
              have less := length_after found
              rw [List.length_cons] at less
              have room := Nat.le_of_lt_succ less
              simp only []
              rw [induction fuel (Nat.lt_succ_self _) (room.trans short),
                induction rest.length (Nat.lt_succ_of_le short) room]

theorem segments_text {char : Char} {rest : List Char}
    (none : words.placeholder? (char :: rest) = none) :
    words.segments (char :: rest) = .text char :: words.segments rest := by
  unfold segments
  rw [List.length_cons, segmentsWithin, none]

theorem segments_placeholder
    (found : words.placeholder? text = some (raw, path, after)) :
    words.segments text = .placeholder raw path :: words.segments after := by
  have less := length_after found
  cases text with
  | nil => cases less
  | cons char rest =>
      rw [List.length_cons] at less
      rw [segments, List.length_cons, segmentsWithin, found]
      simp only []
      rw [segmentsWithin_enough (Nat.le_of_lt_succ less)]

end WordClass

/-! ## Templates -/

/-- A text and what stands between the double braces behind it. -/
structure Hole where
  before : List Char
  content : List Char
  deriving DecidableEq, Repr

/-- A template as it is written. -/
def written : List Hole → List Char → List Char
  | [], rest => rest
  | hole :: holes, rest =>
      hole.before ++ '{' :: '{' ::
        (hole.content ++ '}' :: '}' :: written holes rest)

/-- `str::trim`. -/
def trim (text : List Char) : List Char :=
  (text.dropWhile isWhiteSpace).rdropWhile isWhiteSpace

/-- The name between the braces. -/
def Hole.name (hole : Hole) : List Char := trim hole.content

/-- Two closing braces. -/
def containsClosing : List Char → Bool
  | '}' :: '}' :: _ => true
  | _ :: rest => containsClosing rest
  | [] => false

/-- The braces of a hole are the first after its text, and are closed by the
first closing ones. -/
structure Hole.Closed (hole : Hole) : Prop where
  before : containsBraces hole.before = false
  content : containsClosing (hole.content ++ ['}']) = false

/-- No braces are opened and closed again. -/
def Unheld (rest : List Char) : Prop :=
  ∀ before content after,
    rest ≠ before ++ '{' :: '{' :: (content ++ '}' :: '}' :: after)

/-- A hole names a required field as the schema spells it. -/
def Hole.NamesRequired (schema : PayloadSchema) (hole : Hole) : Prop :=
  ∃ field ∈ schema.fields, field.required = true ∧
    field.name.toList = hole.name

/-- The shell-quoted rendering of the field that a hole names. -/
def Hole.rendering (payload : Json) (hole : Hole) : List Char :=
  match resolveField payload hole.name with
  | some value => shellEscape (valueToString value)
  | none => []

/-- The template with its holes replaced, and all other text unchanged. -/
def filled (payload : Json) : List Hole → List Char → List Char
  | [], rest => rest
  | hole :: holes, rest =>
      hole.before ++ (hole.rendering payload ++ filled payload holes rest)

/-- A name that the placeholder pattern takes. -/
def WordClass.TakesName (words : WordClass) (name : List Char) : Prop :=
  name ≠ [] ∧ ∀ char ∈ name, words.isPath char = true

section Names

variable {words : WordClass}

/-- A text is what it is trimmed to, between blanks. -/
theorem trim_split (text : List Char) :
    ∃ leading trailing,
      (∀ char ∈ leading, isWhiteSpace char = true) ∧
      (∀ char ∈ trailing, isWhiteSpace char = true) ∧
      text = leading ++ trim text ++ trailing := by
  refine ⟨text.takeWhile isWhiteSpace,
    (text.dropWhile isWhiteSpace).rtakeWhile isWhiteSpace,
    fun char member => List.mem_takeWhile_imp member,
    fun char member => List.mem_rtakeWhile_imp member, ?_⟩
  unfold trim
  rw [List.append_assoc, List.rdropWhile_append_rtakeWhile,
    List.takeWhile_append_dropWhile]

/-- A name without blanks is what is left of it. -/
theorem trim_of_isPath {leading name trailing : List Char}
    (blank : ∀ char ∈ leading, isWhiteSpace char = true)
    (blanks : ∀ char ∈ trailing, isWhiteSpace char = true)
    (takes : words.TakesName name) :
    trim (leading ++ name ++ trailing) = name := by
  obtain ⟨filled, isPath⟩ := takes
  have starts := @WordClass.takeWhile_run isWhiteSpace leading
    (name ++ trailing) blank (by
      intro char isHead
      obtain ⟨first, last, rfl⟩ := List.exists_cons_of_ne_nil filled
      cases isHead
      exact WordClass.not_space_of_isPath (isPath char List.mem_cons_self))
  have ends := @WordClass.takeWhile_run isWhiteSpace trailing.reverse
    name.reverse (fun char member => blanks char (List.mem_reverse.mp member))
    (by
      intro char isHead
      have member : char ∈ name :=
        List.mem_reverse.mp (List.mem_of_mem_head? isHead)
      exact WordClass.not_space_of_isPath (isPath char member))
  unfold trim List.rdropWhile
  rw [List.append_assoc, starts.2, List.reverse_append, ends.2,
    List.reverse_reverse]

variable {hole : Hole} {rest : List Char}

/-- A name that the pattern takes is a placeholder. -/
theorem placeholder?_of_takes (takes : words.TakesName hole.name) :
    ∃ raw, words.placeholder?
      ('{' :: '{' :: (hole.content ++ '}' :: '}' :: rest)) =
        some (raw, hole.name, rest) := by
  obtain ⟨leading, trailing, blank, blanks, split⟩ := trim_split hole.content
  refine ⟨_, WordClass.placeholder?_eq_some_iff.mpr
    ⟨leading, trailing, blank, blanks, takes.1, takes.2, rfl, ?_⟩⟩
  rw [split]
  simp [Hole.name]

theorem containsClosing_tail {char : Char} {text : List Char}
    (none : containsClosing (char :: text) = false) :
    containsClosing text = false := by
  unfold containsClosing at none
  split at none
  · cases none
  · rename_i same
    cases same
    exact none
  · rename_i empty
    cases empty

theorem containsClosing_cons {char : Char} {text : List Char}
    (differs : char ≠ '}') :
    containsClosing (char :: text) = containsClosing text := by
  rw [containsClosing]
  intro rest same
  exact absurd same differs

theorem containsBraces_tail {char : Char} {text : List Char}
    (none : containsBraces (char :: text) = false) :
    containsBraces text = false := by
  unfold containsBraces at none
  split at none
  · cases none
  · rename_i same
    cases same
    exact none
  · rename_i empty
    cases empty

/-- The first closing braces are at one place. -/
theorem closing_unique {content other after behind : List Char}
    (closed : containsClosing (content ++ ['}']) = false)
    (closes : containsClosing (other ++ ['}']) = false)
    (same : content ++ '}' :: '}' :: after = other ++ '}' :: '}' :: behind) :
    content = other := by
  induction content generalizing other with
  | nil =>
      rcases other with _ | ⟨first, _ | ⟨second, other⟩⟩
      · rfl
      · cases same
        cases closes
      · cases same
        cases closes
  | cons char content induction =>
      cases other with
      | nil =>
          rcases content with _ | ⟨second, content⟩
          · cases same
            cases closed
          · cases same
            cases closed
      | cons first other =>
          obtain ⟨isFirst, behindIt⟩ := List.cons.inj same
          rw [isFirst, induction (containsClosing_tail closed)
            (containsClosing_tail closes) behindIt]

/-- Blanks and names have no closing braces. -/
theorem containsClosing_of_plain {text : List Char} (plain : '}' ∉ text) :
    containsClosing (text ++ ['}']) = false := by
  induction text with
  | nil => rfl
  | cons char text induction =>
      obtain ⟨differs, plain⟩ := List.ne_and_not_mem_of_not_mem_cons plain
      rw [List.cons_append, containsClosing_cons differs.symm]
      exact induction plain

/-- A name that the pattern does not take is no placeholder. -/
theorem placeholder?_of_not_takes (closed : hole.Closed)
    (refuses : ¬ words.TakesName hole.name) :
    words.placeholder?
      ('{' :: '{' :: (hole.content ++ '}' :: '}' :: rest)) = none := by
  cases found : words.placeholder?
      ('{' :: '{' :: (hole.content ++ '}' :: '}' :: rest)) with
  | none => rfl
  | some placeholder =>
      obtain ⟨raw, path, after⟩ := placeholder
      obtain ⟨leading, trailing, blank, blanks, isFilled, isPath, rfl, same⟩ :=
        WordClass.placeholder?_eq_some_iff.mp found
      have takes : words.TakesName path := ⟨isFilled, isPath⟩
      have plain : '}' ∉ leading ++ path ++ trailing := by
        simp only [List.mem_append, not_or]
        refine ⟨⟨fun member => ?_, fun member => ?_⟩, fun member => ?_⟩
        · exact absurd (blank _ member) (by decide)
        · exact absurd (isPath _ member)
            (by rw [WordClass.not_isPath_brace]; decide)
        · exact absurd (blanks _ member) (by decide)
      have isContent : hole.content = leading ++ path ++ trailing :=
        closing_unique closed.content (containsClosing_of_plain plain)
          (by simpa using same)
      refine absurd ?_ refuses
      unfold Hole.name
      rw [isContent, trim_of_isPath blank blanks takes]
      exact takes

/-- The text before a hole has no placeholder. -/
theorem segments_before {before tail : List Char}
    (plain : containsBraces before = false) :
    words.segments (before ++ '{' :: '{' :: tail) =
      before.map .text ++ words.segments ('{' :: '{' :: tail) := by
  induction before with
  | nil => rfl
  | cons char before induction =>
      have none : words.placeholder?
          (char :: (before ++ '{' :: '{' :: tail)) = none := by
        cases found : words.placeholder?
            (char :: (before ++ '{' :: '{' :: tail)) with
        | none => rfl
        | some placeholder =>
            obtain ⟨raw, path, after⟩ := placeholder
            obtain ⟨leading, trailing, blank, -, isFilled, isPath, rfl,
              same⟩ := WordClass.placeholder?_eq_some_iff.mp found
            rw [List.cons_append, List.cons_append] at same
            obtain ⟨rfl, behind⟩ := List.cons.inj same
            cases before with
            | cons second before =>
                have isBrace : second = '{' := (List.cons.inj behind).1
                subst isBrace
                cases plain
            | nil =>
                -- the brace behind the text is neither a blank nor a name
                have inner := (List.cons.inj behind).2
                cases leading with
                | cons first leading =>
                    cases inner
                    exact absurd (blank _ List.mem_cons_self) (by decide)
                | nil =>
                    obtain ⟨first, path, rfl⟩ :=
                      List.exists_cons_of_ne_nil isFilled
                    cases inner
                    exact absurd (isPath _ List.mem_cons_self)
                      (by rw [WordClass.not_isPath_opening]; decide)
      rw [List.cons_append, WordClass.segments_text none,
        induction (containsBraces_tail plain)]
      rfl

/-- A text without holes has no placeholder. -/
theorem segments_rest (unheld : Unheld rest) :
    words.segments rest = rest.map .text := by
  induction rest with
  | nil => rfl
  | cons char rest induction =>
      have none : words.placeholder? (char :: rest) = none := by
        cases found : words.placeholder? (char :: rest) with
        | none => rfl
        | some placeholder =>
            obtain ⟨raw, path, after⟩ := placeholder
            obtain ⟨leading, trailing, -, -, -, -, rfl, same⟩ :=
              WordClass.placeholder?_eq_some_iff.mp found
            exact absurd (by simpa using same)
              (unheld [] (leading ++ path ++ trailing) after)
      have later : Unheld rest := by
        intro before content after same
        exact unheld (char :: before) content after
          (congrArg (List.cons char) same)
      rw [WordClass.segments_text none, induction later, List.map_cons]

end Names

/-! ## The holes of a template -/

section Holes

variable {words : WordClass} {schema : PayloadSchema} {payload : Json}
  {hole : Hole} {holes : List Hole} {rest : List Char}

/-- A named hole renders the value that its field was checked with. -/
theorem Hole.NamesRequired.value
    (accepted : schema.validate payload = .ok ())
    (named : hole.NamesRequired schema) :
    ∃ field ∈ schema.fields, field.name.toList = hole.name ∧
      ∃ value, resolveField payload hole.name = some value ∧
        field.fieldType.matchesValue value = true ∧
        hole.rendering payload = shellEscape (valueToString value) := by
  obtain ⟨field, listed, required, isName⟩ := named
  obtain ⟨value, resolved, isType⟩ :=
    exists_value_of_required accepted listed required
  rw [isName] at resolved
  refine ⟨field, listed, isName, value, resolved, isType, ?_⟩
  unfold Hole.rendering
  rw [resolved]

theorem flatMap_text (text : List Char) (payload : Json) :
    (text.map Segment.text).flatMap (Segment.replace payload) = text := by
  rw [List.flatMap_map]
  exact List.flatMap_singleton' text

/-- A hole that the pattern takes is replaced, and the scan goes on behind
it. -/
theorem replace_taken (closed : hole.Closed)
    (accepted : schema.validate payload = .ok ())
    (named : hole.NamesRequired schema)
    (takes : words.TakesName hole.name) :
    (words.segments (written (hole :: holes) rest)).flatMap
        (Segment.replace payload) =
      hole.before ++ (hole.rendering payload ++
        (words.segments (written holes rest)).flatMap
          (Segment.replace payload)) := by
  obtain ⟨field, -, -, value, resolved, -, rendered⟩ := named.value accepted
  obtain ⟨raw, found⟩ := @placeholder?_of_takes words hole
    (written holes rest) takes
  rw [written, segments_before closed.before,
    WordClass.segments_placeholder found, List.flatMap_append, flatMap_text,
    List.flatMap_cons, Segment.replace, resolved, rendered]

/-- A hole that the pattern does not take stays, with its braces. -/
theorem replace_refused (closed : hole.Closed)
    (refuses : ¬ words.TakesName hole.name) :
    ∃ tail, (words.segments (written (hole :: holes) rest)).flatMap
      (Segment.replace payload) = hole.before ++ '{' :: tail := by
  have none := @placeholder?_of_not_takes words hole (written holes rest)
    closed refuses
  rw [written, segments_before closed.before, WordClass.segments_text none,
    List.flatMap_append, flatMap_text, List.flatMap_cons]
  exact ⟨_, rfl⟩

theorem shellEscape_head (value : List Char) :
    ∃ tail, shellEscape value = '\'' :: tail := by
  rw [shellEscape_eq]
  exact ⟨_, rfl⟩

end Holes

/-- Each hole is replaced by the rendering of the value that its field was
checked with, and the other text stays. -/
structure PlaceholdersResolve (words : WordClass) (schema : PayloadSchema)
    (payload : Json) (holes : List Hole) (rest : List Char) : Prop where
  checked : ∀ hole ∈ holes, ∃ field ∈ schema.fields,
    field.name.toList = hole.name ∧
      ∃ value, resolveField payload hole.name = some value ∧
        field.fieldType.matchesValue value = true ∧
        hole.rendering payload = shellEscape (valueToString value)
  replaced : interpolateCommand words (written holes rest) payload =
    filled payload holes rest

theorem replaced_iff {words : WordClass} {schema : PayloadSchema}
    {payload : Json} {holes : List Hole} {rest : List Char}
    (accepted : schema.validate payload = .ok ())
    (closed : ∀ hole ∈ holes, hole.Closed) (unheld : Unheld rest)
    (named : ∀ hole ∈ holes, hole.NamesRequired schema) :
    interpolateCommand words (written holes rest) payload =
        filled payload holes rest ↔
      ∀ hole ∈ holes, words.TakesName hole.name := by
  rw [interpolateCommand_eq]
  induction holes with
  | nil =>
      rw [written, filled, segments_rest unheld, flatMap_text]
      simp
  | cons hole holes induction =>
      obtain ⟨isClosed, areClosed⟩ := List.forall_mem_cons.mp closed
      obtain ⟨isNamed, areNamed⟩ := List.forall_mem_cons.mp named
      rw [List.forall_mem_cons, ← induction areClosed areNamed, filled]
      by_cases takes : words.TakesName hole.name
      · rw [replace_taken isClosed accepted isNamed takes,
          List.append_cancel_left_eq, List.append_cancel_left_eq,
          and_iff_right takes]
      · -- the braces of the hole stand where the quote should
        obtain ⟨tail, stays⟩ :=
          @replace_refused words payload hole holes rest isClosed takes
        obtain ⟨_, -, -, value, -, -, rendered⟩ := isNamed.value accepted
        obtain ⟨quoted, isQuoted⟩ := shellEscape_head (valueToString value)
        rw [stays, rendered, isQuoted, List.append_cancel_left_eq,
          List.cons_append]
        constructor
        · intro same
          cases same
        · intro both
          exact absurd both.1 takes

/-- Placeholders for validated fields resolve exactly where all names are
made of word characters and points. -/
theorem placeholdersResolve_iff (words : WordClass) (schema : PayloadSchema)
    (payload : Json) (holes : List Hole) (rest : List Char)
    (accepted : schema.validate payload = .ok ())
    (closed : ∀ hole ∈ holes, hole.Closed) (unheld : Unheld rest)
    (named : ∀ hole ∈ holes, hole.NamesRequired schema) :
    PlaceholdersResolve words schema payload holes rest ↔
      ∀ hole ∈ holes, words.TakesName hole.name := by
  constructor
  · intro resolves
    exact (replaced_iff accepted closed unheld named).mp resolves.replaced
  · intro takes
    exact ⟨fun hole member => (named hole member).value accepted,
      (replaced_iff accepted closed unheld named).mpr takes⟩

/-- A schema with one required string. -/
def requiring (name : String) : PayloadSchema where
  fields := [{ name, fieldType := .string, required := true }]

/-- A placeholder for a name, behind a command. -/
def echoHole (name : String) : Hole where
  before := "echo ".toList
  content := ' ' :: name.toList ++ [' ']

theorem placeholdersResolve_iff_word :
    PlaceholdersResolve .asciiOnly (requiring "user_id")
        (.object [("user_id", .string "7")]) [echoHole "user_id"] [] ↔
      ∀ hole ∈ [echoHole "user_id"],
        WordClass.asciiOnly.TakesName hole.name := by
  refine placeholdersResolve_iff .asciiOnly (requiring "user_id")
    (.object [("user_id", .string "7")]) [echoHole "user_id"] [] ?_ ?_ ?_ ?_
  · rfl
  · intro hole member
    rw [List.mem_singleton.mp member]
    exact ⟨by decide, by decide⟩
  · simp [Unheld]
  · intro hole member
    rw [List.mem_singleton.mp member]
    exact ⟨_, List.mem_cons_self, rfl, by decide⟩

/-- A required field with a hyphen: the placeholder reaches the shell. -/
theorem not_placeholdersResolve :
    (requiring "user-id").validate (.object [("user-id", .string "7")]) =
        .ok () ∧
      (echoHole "user-id").NamesRequired (requiring "user-id") ∧
      ¬ PlaceholdersResolve .asciiOnly (requiring "user-id")
        (.object [("user-id", .string "7")]) [echoHole "user-id"] [] := by
  refine ⟨rfl, ⟨_, List.mem_cons_self, rfl, by decide⟩, ?_⟩
  intro resolves
  have stays : interpolateCommand .asciiOnly
      (written [echoHole "user-id"] []) (.object [("user-id", .string "7")]) =
        "echo \x7b\x7b user-id \x7d\x7d".toList := by decide
  rw [resolves.replaced] at stays
  revert stays
  decide

end Sendword
