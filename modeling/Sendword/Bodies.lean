import Mathlib.Data.List.Forall2
import Sendword.Executor
import Sendword.JsonText
import Sendword.Templates

/-!
# Payload values inside JSON bodies

The bodies of HTTP requests and of notifications are interpolated like shell
commands.  A value keeps a JSON body as it is laid out only where it could
stand in a string literal by itself.
-/

namespace Sendword

open JsonText

/-! ## The segments of a template -/

namespace WordClass

variable (words : WordClass)

/-- Cutting a template goes on behind each character and placeholder. -/
theorem segments_induction {motive : List Char → Prop} (nil : motive [])
    (text : ∀ char rest, words.placeholder? (char :: rest) = none →
      motive rest → motive (char :: rest))
    (placeholder : ∀ template raw path after,
      words.placeholder? template = some (raw, path, after) →
      motive after → motive template)
    (template : List Char) : motive template := by
  induction length : template.length using Nat.strong_induction_on
    generalizing template with
  | _ size induction =>
      subst length
      cases template with
      | nil => exact nil
      | cons char rest =>
          cases found : words.placeholder? (char :: rest) with
          | none =>
              refine text char rest found ?_
              exact induction _ (Nat.lt_succ_self _) rest rfl
          | some taken =>
              obtain ⟨raw, path, after⟩ := taken
              refine placeholder _ raw path after found ?_
              exact induction _ (length_after found) after rfl

end WordClass

/-- The text of a segment in the template. -/
def Segment.raw : Segment → List Char
  | .text char => [char]
  | .placeholder raw _ => raw

/-- A placeholder that the pattern matches as a whole. -/
def Segment.Genuine (words : WordClass) : Segment → Prop
  | .text _ => True
  | .placeholder raw path => words.placeholder? raw = some (raw, path, [])

section Segments

variable {words : WordClass}

theorem segments_raw (template : List Char) :
    (words.segments template).flatMap Segment.raw = template := by
  induction template using words.segments_induction with
  | nil => rfl
  | text char rest none induction =>
      rw [WordClass.segments_text none, List.flatMap_cons, induction]
      rfl
  | placeholder template raw path after found induction =>
      obtain ⟨_, _, -, -, -, -, -, whole⟩ :=
        WordClass.placeholder?_eq_some_iff.mp found
      rw [WordClass.segments_placeholder found, List.flatMap_cons, induction,
        whole]
      rfl

/-- A match does not depend on what keepsUp it. -/
theorem placeholder?_before {text raw path after : List Char}
    (found : words.placeholder? text = some (raw, path, after))
    (rest : List Char) :
    words.placeholder? (raw ++ rest) = some (raw, path, rest) := by
  obtain ⟨leading, trailing, blank, blanks, filled, isPath, isRaw, -⟩ :=
    WordClass.placeholder?_eq_some_iff.mp found
  exact WordClass.placeholder?_eq_some_iff.mpr
    ⟨leading, trailing, blank, blanks, filled, isPath, isRaw, rfl⟩

theorem genuine_of_mem {template : List Char} {segment : Segment}
    (member : segment ∈ words.segments template) :
    segment.Genuine words := by
  induction template using words.segments_induction with
  | nil => cases member
  | text char rest none induction =>
      rw [WordClass.segments_text none] at member
      rcases List.mem_cons.mp member with rfl | later
      · trivial
      · exact induction later
  | placeholder template raw path after found induction =>
      rw [WordClass.segments_placeholder found] at member
      rcases List.mem_cons.mp member with rfl | later
      · have alone := placeholder?_before found []
        rw [List.append_nil] at alone
        exact alone
      · exact induction later

/-- A text with a match in it has a placeholder. -/
theorem placeholders_of_match {before raw path after : List Char}
    (genuine : words.placeholder? raw = some (raw, path, [])) :
    placeholders words (before ++ (raw ++ after)) ≠ [] := by
  unfold placeholders
  induction before with
  | nil =>
      rw [List.nil_append, WordClass.segments_placeholder
        (placeholder?_before genuine after)]
      nofun
  | cons char before induction =>
      rw [List.cons_append]
      cases found : words.placeholder?
          (char :: (before ++ (raw ++ after))) with
      | none =>
          rw [WordClass.segments_text found]
          exact induction
      | some other =>
          obtain ⟨own, name, behind⟩ := other
          rw [WordClass.segments_placeholder found]
          nofun

/-- A text without placeholders is kept. -/
theorem replace_of_placeholders {segments : List Segment} {payload : Json}
    (genuine : ∀ segment ∈ segments, segment.Genuine words)
    (none : placeholders words (segments.flatMap Segment.raw) = []) :
    segments.flatMap (Segment.replace payload) =
      segments.flatMap Segment.raw := by
  refine List.flatMap_congr fun segment member => ?_
  cases segment with
  | text char => rfl
  | placeholder raw path =>
      obtain ⟨before, after, rfl⟩ := List.append_of_mem member
      rw [List.flatMap_append, List.flatMap_cons] at none
      exact absurd none (placeholders_of_match (genuine _ member))

/-- No quote and no backslash is part of a placeholder. -/
theorem plain_of_genuine {raw path : List Char}
    (genuine : (Segment.placeholder raw path).Genuine words) :
    ∀ char ∈ raw, char ≠ '"' ∧ char ≠ '\\' := by
  have notPath (char : Char) (small : char.toNat < 128)
      (other : (char.isAlphanum || char == '_') = false ∧ char ≠ '.') :
      words.isPath char = false := by
    unfold WordClass.isPath
    rw [words.ascii char small, other.1, Bool.false_or]
    exact beq_false_of_ne other.2
  obtain ⟨leading, trailing, blank, blanks, -, isPath, whole, -⟩ :=
    WordClass.placeholder?_eq_some_iff.mp genuine
  intro char member
  have absent (other : Char) (space : isWhiteSpace other = false)
      (outside : words.isPath other = false) (brace : other ∉ ['{', '}']) :
      char ≠ other := by
    rintro rfl
    rw [whole] at member
    simp only [List.mem_cons, List.mem_append, List.not_mem_nil,
      or_false] at member brace
    rcases member with isOpen | isOpen | ((inBlank | inPath) | inBlanks) |
      isClose
    · exact brace (Or.inl isOpen)
    · exact brace (Or.inl isOpen)
    · exact absurd (blank _ inBlank) (by rw [space]; decide)
    · exact absurd (isPath _ inPath) (by rw [outside]; decide)
    · exact absurd (blanks _ inBlanks) (by rw [space]; decide)
    · exact brace (Or.inr (isClose.elim id id))
  exact ⟨absent '"' (by decide) (notPath _ (by decide) (by decide))
      (by decide),
    absent '\\' (by decide) (notPath _ (by decide) (by decide))
      (by decide)⟩

end Segments

/-! ## Harmless values -/

/-- A text that can stand in a literal and has no apostrophe. -/
def Harmless (text : List Char) : Prop :=
  '\'' ∉ text ∧ IsContent text

instance (text : List Char) : Decidable (Harmless text) :=
  inferInstanceAs (Decidable (_ ∧ _))

/-- An apostrophe stands inside a literal or outside. -/
theorem next_apostrophe {position next : Position}
    (isNext : position.next '\'' = some next) :
    next = position ∧ (position = .inside ∨ position = .outside) := by
  cases position with
  | outside => exact ⟨(Option.some.inj isNext).symm, Or.inr rfl⟩
  | inside => exact ⟨(Option.some.inj isNext).symm, Or.inl rfl⟩
  | escaped => cases isNext
  | unicode left => cases isNext

/-- The quoting of an apostrophe is no escape of JSON. -/
theorem contentFrom_quoteChar {position : Position} {rest : List Char} :
    contentFrom position (Shell.quoteChar '\'' ++ rest) = none := by
  cases position with
  | outside | inside | escaped => rfl
  | unicode left => rfl

theorem flatMap_quoteChar {text : List Char} (absent : '\'' ∉ text) :
    text.flatMap Shell.quoteChar = text := by
  have same : ∀ char ∈ text, Shell.quoteChar char = [char] := by
    intro char member
    refine if_neg ?_
    rintro rfl
    exact absent member
  rw [List.flatMap_congr same, List.flatMap_singleton']

/-- Exactly the harmless values stay in a literal when they are quoted. -/
theorem isContent_shellEscape_iff (text : List Char) :
    IsContent (shellEscape text) ↔ Harmless text := by
  have opening (rest : List Char) :
      IsContent ('\'' :: rest) ↔ contentFrom .inside rest = some .inside :=
    Iff.rfl
  rw [shellEscape_eq, Shell.quote, opening, Harmless]
  by_cases member : '\'' ∈ text
  · obtain ⟨before, after, rfl⟩ := List.append_of_mem member
    rw [List.flatMap_append, List.flatMap_cons, List.append_assoc,
      List.append_assoc, contentFrom_append]
    refine iff_of_false ?_ fun both => both.1 member
    cases contentFrom .inside (before.flatMap Shell.quoteChar) with
    | none => simp
    | some position =>
        rw [Option.bind_some, contentFrom_quoteChar]
        simp
  · rw [flatMap_quoteChar member, contentFrom_append, and_iff_right member]
    unfold IsContent
    cases contentFrom .inside text with
    | none => simp
    | some position =>
        cases position with
        | inside => exact iff_of_true rfl rfl
        | outside | escaped => exact iff_of_false (by decide) (by decide)
        | unicode left =>
            refine iff_of_false ?_ (by simp)
            rw [Option.bind_some]
            simp [contentFrom, Position.next, isHex]

/-! ## Bodies that keep their layout -/

/-- Only a literal with a placeholder may change, and only its content. -/
inductive Kept (words : WordClass) : Mark → Mark → Prop where
  | char {char : Char} : Kept words (.char char) (.char char)
  | string {content content' : List Char}
      (plain : placeholders words content = [] → content' = content) :
      Kept words (.string content) (.string content')

/-- The body is JSON that is laid out like the template. -/
structure BodyKept (words : WordClass) (template body : List Char) :
    Prop where
  alike : ∃ marks bodyMarks, marks? template = some marks ∧
    Outline body bodyMarks ∧ List.Forall₂ (Kept words) marks bodyMarks

/-- From a position on, each placeholder stands inside a literal. -/
def insideFrom : Position → List Segment → Bool
  | _, [] => true
  | position, segment :: segments =>
      (segment.path?.isNone || position == .inside) &&
        (position.run segment.raw).elim false fun next =>
          insideFrom next segments

def InsideFrom (position : Position) (segments : List Segment) : Prop :=
  insideFrom position segments = true

instance (position : Position) (segments : List Segment) :
    Decidable (InsideFrom position segments) :=
  inferInstanceAs (Decidable (_ = true))

/-- The values of the placeholders are harmless. -/
def AllHarmless (payload : Json) (segments : List Segment) : Prop :=
  ∀ path ∈ segments.filterMap Segment.path?, ∀ value,
    resolveField payload path = some value → Harmless (valueToString value)

section Bodies

variable {words : WordClass} {payload : Json} {segment : Segment}
  {segments : List Segment} {scan after body : Scan}

theorem InsideFrom.tail {position next : Position}
    (inside : InsideFrom position (segment :: segments))
    (run : position.run segment.raw = some next) :
    InsideFrom next segments := by
  rw [InsideFrom, insideFrom, Bool.and_eq_true, run] at inside
  exact inside.2

theorem InsideFrom.head {position : Position} {raw path : List Char}
    (inside : InsideFrom position (.placeholder raw path :: segments)) :
    position = .inside := by
  rw [InsideFrom, insideFrom, Bool.and_eq_true] at inside
  exact beq_iff_eq.mp inside.1

theorem AllHarmless.head
    (harmless : AllHarmless payload (segment :: segments)) :
    AllHarmless payload [segment] := by
  intro path named
  refine harmless path ?_
  rw [← List.singleton_append, List.filterMap_append]
  exact List.mem_append_left _ named

theorem AllHarmless.tail
    (harmless : AllHarmless payload (segment :: segments)) :
    AllHarmless payload segments := by
  intro path named
  refine harmless path ?_
  rw [← List.singleton_append, List.filterMap_append]
  exact List.mem_append_right _ named

/-! ## Harmless values keep the layout -/

variable (words payload) in
/-- The scan of the body keeps up with the scan of the template. -/
structure KeepsUp (scan body : Scan) : Prop where
  position : body.position = scan.position
  marks : List.Forall₂ (Kept words) scan.marks body.marks
  content : ∃ segments : List Segment,
    (∀ segment ∈ segments, segment.Genuine words) ∧
      scan.content = segments.flatMap Segment.raw ∧
      body.content = segments.flatMap (Segment.replace payload)

theorem KeepsUp.extend (keepsUp : KeepsUp words payload scan body)
    (genuine : segment.Genuine words) {position : Position} :
    KeepsUp words payload
      { scan with position, content := scan.content ++ segment.raw }
      { body with
        position, content := body.content ++ segment.replace payload } := by
  obtain ⟨-, marks, segments, areGenuine, content, bodyContent⟩ := keepsUp
  refine ⟨rfl, marks, segments ++ [segment], ?_, ?_, ?_⟩
  · intro other member
    rcases List.mem_append.mp member with before | last
    · exact areGenuine other before
    · rw [List.mem_singleton.mp last]
      exact genuine
  · rw [List.flatMap_append, List.flatMap_singleton, content]
  · rw [List.flatMap_append, List.flatMap_singleton, bodyContent]

theorem KeepsUp.add (keepsUp : KeepsUp words payload scan body)
    {mark bodyMark : Mark} (kept : Kept words mark bodyMark)
    (position : Position) :
    KeepsUp words payload { position, marks := scan.marks ++ [mark] }
      { position, marks := body.marks ++ [bodyMark] } :=
  ⟨rfl, List.rel_append keepsUp.marks (.cons kept .nil), [], by simp⟩

/-- A character leads both scans to the same place. -/
theorem KeepsUp.move (keepsUp : KeepsUp words payload scan body)
    (char : Char) (position : Position) :
    KeepsUp words payload (scan.move char position)
      (body.move char position) := by
  by_cases isOutside : scan.position = .outside
  · have bodyOutside := keepsUp.position.trans isOutside
    by_cases stays : position = .outside
    · rw [stays, Scan.move_outside isOutside, Scan.move_outside bodyOutside]
      have added := keepsUp.add (@Kept.char words char) .outside
      exact ⟨keepsUp.position, added.marks, keepsUp.content⟩
    · rw [Scan.move_opening isOutside stays,
        Scan.move_opening bodyOutside stays]
      exact ⟨rfl, keepsUp.marks, [], by simp⟩
  · have bodyOpened : body.position ≠ .outside :=
      fun same => isOutside (keepsUp.position.symm.trans same)
    by_cases closes : position = .outside
    · rw [closes, Scan.move_closing isOutside, Scan.move_closing bodyOpened]
      refine keepsUp.add (.string fun none => ?_) .outside
      obtain ⟨segments, genuine, content, bodyContent⟩ := keepsUp.content
      rw [content] at none ⊢
      rw [bodyContent]
      exact replace_of_placeholders genuine none
    · rw [Scan.move_content isOutside closes,
        Scan.move_content bodyOpened closes]
      have genuine : (Segment.text char).Genuine words := trivial
      exact keepsUp.extend genuine

/-- One segment leads both scans to the same place. -/
theorem KeepsUp.step (keepsUp : KeepsUp words payload scan body)
    (genuine : segment.Genuine words)
    (inside : InsideFrom scan.position (segment :: segments))
    (harmless : AllHarmless payload [segment])
    (ran : scan.run segment.raw = some after) :
    ∃ bodyAfter, body.run (segment.replace payload) = some bodyAfter ∧
      KeepsUp words payload after bodyAfter := by
  cases segment with
  | text char =>
      obtain ⟨following, isRead, done⟩ := Option.bind_eq_some_iff.mp ran
      cases done
      obtain ⟨position, isNext, rfl⟩ := Option.map_eq_some_iff.mp isRead
      refine ⟨body.move char position, ?_, keepsUp.move char position⟩
      have read : body.read char = some (body.move char position) := by
        unfold Scan.read
        rw [keepsUp.position, isNext]
        rfl
      exact Option.bind_eq_some_iff.mpr ⟨_, read, rfl⟩
  | placeholder raw path =>
      have isInside := inside.head
      have bodyInside := keepsUp.position.trans isInside
      have isContent := isContent_of_plain isInside
        (plain_of_genuine genuine) ran
      have replaced : IsContent
          ((Segment.placeholder raw path).replace payload) := by
        rw [Segment.replace]
        cases resolved : resolveField payload path with
        | none => exact isContent
        | some value =>
            refine (isContent_shellEscape_iff _).mpr ?_
            exact harmless path List.mem_cons_self value resolved
      have opened : scan.position ≠ .outside := by
        rw [isInside]
        decide
      have bodyOpened : body.position ≠ .outside := by
        rw [bodyInside]
        decide
      have content : contentFrom scan.position raw = some .inside := by
        rw [isInside]
        exact isContent
      have bodyContent : contentFrom body.position
          ((Segment.placeholder raw path).replace payload) =
            some .inside := by
        rw [bodyInside]
        exact replaced
      rw [Segment.raw, Scan.run_content opened content] at ran
      obtain rfl := Option.some.inj ran
      exact ⟨_, Scan.run_content bodyOpened bodyContent,
        keepsUp.extend genuine⟩

theorem KeepsUp.template (keepsUp : KeepsUp words payload scan body)
    (genuine : ∀ segment ∈ segments, segment.Genuine words)
    (inside : InsideFrom scan.position segments)
    (harmless : AllHarmless payload segments)
    (ran : scan.run (segments.flatMap Segment.raw) = some after) :
    ∃ bodyAfter,
      body.run (segments.flatMap (Segment.replace payload)) =
        some bodyAfter ∧
      KeepsUp words payload after bodyAfter := by
  induction segments generalizing scan body with
  | nil =>
      cases ran
      exact ⟨body, rfl, keepsUp⟩
  | cons segment segments induction =>
      obtain ⟨isGenuine, areGenuine⟩ := List.forall_mem_cons.mp genuine
      rw [List.flatMap_cons, Scan.run_append,
        Option.bind_eq_some_iff] at ran
      obtain ⟨following, first, rest⟩ := ran
      obtain ⟨bodyFollowing, bodyFirst, keepsUp⟩ :=
        keepsUp.step isGenuine inside harmless.head first
      obtain ⟨bodyAfter, bodyRest, keepsUp⟩ :=
        induction keepsUp areGenuine
          (inside.tail (Scan.run_position first)) harmless.tail rest
      refine ⟨bodyAfter, ?_, keepsUp⟩
      rw [List.flatMap_cons, Scan.run_append, bodyFirst]
      exact bodyRest

/-! ## Other values add a mark -/

variable (payload) in
/-- How far two scans have come since `scan` and `body`: the body has as many
new marks as the template only if its values are harmless. -/
structure Outruns (scan body after bodyAfter : Scan)
    (segments : List Segment) : Prop where
  position : bodyAfter.position = after.position
  more : after.marks.length + body.marks.length ≤
    scan.marks.length + bodyAfter.marks.length
  harmless : after.marks.length + body.marks.length =
    scan.marks.length + bodyAfter.marks.length →
      AllHarmless payload segments

variable {bodyAfter : Scan}

/-- Behind an apostrophe that is part of no mark the literal is open. -/
theorem position_shellEscape {text : List Char}
    (ran : body.run (shellEscape text) = some after)
    (quiet : .char '\'' ∉ after.marks) : after.position = .inside := by
  rw [shellEscape_eq, Shell.quote, ← List.cons_append, Scan.run_append,
    Option.bind_eq_some_iff] at ran
  obtain ⟨before, -, last⟩ := ran
  obtain ⟨following, isRead, done⟩ := Option.bind_eq_some_iff.mp last
  cases done
  obtain ⟨position, isNext, rfl⟩ := Option.map_eq_some_iff.mp isRead
  rw [Scan.move_position]
  obtain ⟨rfl, isInside | isOutside⟩ := next_apostrophe isNext
  · exact isInside
  · rw [isOutside, Scan.move_outside isOutside] at quiet
    exact absurd (List.mem_append_right _ List.mem_cons_self) quiet

theorem outruns_step
    (genuine : segment.Genuine words)
    (inside : InsideFrom scan.position (segment :: segments))
    (same : body.position = scan.position)
    (ran : scan.run segment.raw = some after)
    (bodyRan : body.run (segment.replace payload) = some bodyAfter)
    (quiet : .char '\'' ∉ bodyAfter.marks) :
    Outruns payload scan body after bodyAfter [segment] := by
  cases segment with
  | text char =>
      obtain ⟨following, isRead, done⟩ := Option.bind_eq_some_iff.mp ran
      cases done
      obtain ⟨bodyFollowing, isBodyRead, done⟩ :=
        Option.bind_eq_some_iff.mp bodyRan
      cases done
      obtain ⟨position, isNext, rfl⟩ := Option.map_eq_some_iff.mp isRead
      obtain ⟨other, isOther, rfl⟩ := Option.map_eq_some_iff.mp isBodyRead
      rw [same, isNext] at isOther
      obtain rfl := Option.some.inj isOther
      exact ⟨by rw [Scan.move_position, Scan.move_position],
        (Scan.length_move same).le, fun _ => nofun⟩
  | placeholder raw path =>
      have isInside := inside.head
      have opened : scan.position ≠ .outside := by
        rw [isInside]
        decide
      have bodyInside := same.trans isInside
      have content : contentFrom scan.position raw = some .inside := by
        rw [isInside]
        exact isContent_of_plain isInside (plain_of_genuine genuine) ran
      rw [Segment.raw, Scan.run_content opened content] at ran
      obtain rfl := Option.some.inj ran
      have grown := (Scan.run_marks bodyRan).length_le
      rw [Segment.replace] at bodyRan
      cases resolved : resolveField payload path with
      | none =>
          rw [resolved] at bodyRan
          have bodyOpened : body.position ≠ .outside := by
            rw [same]
            exact opened
          rw [Scan.run_content bodyOpened (same ▸ content)] at bodyRan
          obtain rfl := Option.some.inj bodyRan
          refine ⟨rfl, by simp, fun _ name named value known => ?_⟩
          rw [List.mem_singleton.mp named, resolved] at known
          cases known
      | some value =>
          rw [resolved] at bodyRan
          have position := position_shellEscape bodyRan quiet
          refine ⟨position, by simpa using grown, fun even => ?_⟩
          have isContent : IsContent (shellEscape (valueToString value)) := by
            have bodyOpened : body.position ≠ .outside := by
              rw [same]
              exact opened
            unfold IsContent
            rw [← bodyInside]
            cases leads : contentFrom body.position
                (shellEscape (valueToString value)) with
            | none =>
                have added := Scan.run_not_content bodyOpened leads bodyRan
                simp only [Nat.add_left_cancel_iff] at even
                exact absurd even (Nat.ne_of_lt added)
            | some next =>
                rw [Scan.run_content bodyOpened leads] at bodyRan
                obtain rfl := Option.some.inj bodyRan
                rw [bodyInside]
                exact congrArg some position
          intro name named other known
          rw [List.mem_singleton.mp named, resolved] at known
          cases known
          exact (isContent_shellEscape_iff _).mp isContent

theorem outruns_template
    (genuine : ∀ segment ∈ segments, segment.Genuine words)
    (inside : InsideFrom scan.position segments)
    (same : body.position = scan.position)
    (ran : scan.run (segments.flatMap Segment.raw) = some after)
    (bodyRan : body.run (segments.flatMap (Segment.replace payload)) =
      some bodyAfter)
    (quiet : .char '\'' ∉ bodyAfter.marks) :
    Outruns payload scan body after bodyAfter segments := by
  induction segments generalizing scan body with
  | nil =>
      cases ran
      cases bodyRan
      exact ⟨same, Nat.le_refl _, fun _ => nofun⟩
  | cons segment segments induction =>
      obtain ⟨isGenuine, areGenuine⟩ := List.forall_mem_cons.mp genuine
      rw [List.flatMap_cons, Scan.run_append,
        Option.bind_eq_some_iff] at ran bodyRan
      obtain ⟨following, first, rest⟩ := ran
      obtain ⟨bodyFollowing, bodyFirst, bodyRest⟩ := bodyRan
      have step := outruns_step isGenuine inside same first bodyFirst
        fun member => quiet ((Scan.run_marks bodyRest).subset member)
      have steps := induction areGenuine
        (inside.tail (Scan.run_position first)) step.position rest bodyRest
      have more := step.more
      have furtherMore := steps.more
      refine ⟨steps.position, by omega, fun even => ?_⟩
      have head := step.harmless (by omega)
      have tail := steps.harmless (by omega)
      intro path named
      rw [← List.singleton_append, List.filterMap_append] at named
      exact (List.mem_append.mp named).elim (head path) (tail path)

end Bodies

/-! ## The bodies of requests -/

theorem Kept.symbols {words : WordClass} {marks bodyMarks : List Mark}
    (kept : List.Forall₂ (Kept words) marks bodyMarks) :
    bodyMarks.map Mark.symbol = marks.map Mark.symbol := by
  induction kept with
  | nil => rfl
  | cons first rest induction =>
      rw [List.map_cons, List.map_cons, induction]
      cases first with
      | char => rfl
      | string plain => rfl

/-- A template that is JSON keeps its layout exactly for harmless values. -/
theorem bodyKept_interpolate_iff {words : WordClass}
    {template : List Char} {payload : Json} (valid : IsValid template)
    (inside : InsideFrom .outside (words.segments template)) :
    BodyKept words template (interpolateCommand words template payload) ↔
      AllHarmless payload (words.segments template) := by
  obtain ⟨marks, outline⟩ := valid
  obtain ⟨scan, ran, isOutside, rfl⟩ := marks?_eq_some_iff.mp outline.cut
  rw [← @segments_raw words template] at ran
  have genuine (segment : Segment)
      (member : segment ∈ words.segments template) :
      segment.Genuine words :=
    genuine_of_mem member
  rw [interpolateCommand_eq]
  constructor
  · rintro ⟨marks, bodyMarks, cut, bodyOutline, kept⟩
    obtain rfl := Option.some.inj (outline.cut.symm.trans cut)
    obtain ⟨body, bodyRan, -, rfl⟩ := marks?_eq_some_iff.mp bodyOutline.cut
    have quiet := bodyOutline.not_mem_char (show isOuter '\'' = false by decide)
    refine (outruns_template genuine inside rfl ran bodyRan quiet).harmless ?_
    simpa using kept.length_eq
  · intro harmless
    have start : KeepsUp words payload ({} : Scan) {} :=
      ⟨rfl, .nil, [], by simp⟩
    obtain ⟨body, bodyRan, keepsUp⟩ :=
      start.template genuine inside harmless ran
    refine ⟨scan.marks, body.marks, outline.cut, ⟨?_, ?_⟩, keepsUp.marks⟩
    · exact marks?_eq_some_iff.mpr
        ⟨body, bodyRan, keepsUp.position.trans isOutside, rfl⟩
    · rw [Kept.symbols keepsUp.marks]
      exact outline.grammar

/-- A request that an HTTP hook sends, or a notification. -/
inductive Outgoing where
  | http (method : HttpMethod) (url : String)
      (headers : List (String × String)) (template : String)
      (followRedirects : Bool) (payloadJson : String)
  | notification (config : NotificationConfig) (hook : HookConfig)
      (result : ExecutionResult) (execution : Execution)

namespace Outgoing

variable (outside : Outside)

def template : Outgoing → String
  | .http _ _ _ template _ _ => template
  | .notification config .. => config.body

/-- The values that the placeholders stand for. -/
def payload : Outgoing → Json
  | .http _ _ _ _ _ payloadJson =>
      (outside.parseJson payloadJson).getD (.object [])
  | .notification _ hook result execution =>
      notificationContext hook result execution

/-- The body that the request is sent with, if it is sent. -/
def body : Outgoing → Option String
  | .http method url headers template followRedirects payloadJson =>
      match resolveExecutor outside
          (.http method url headers (some template) followRedirects)
          payloadJson with
      | .http _ _ _ body _ => body
      | _ => none
  | .notification config hook result execution =>
      match sendNotification outside config hook result execution with
      | .perform (.sendNotification _ body) _ => some body
      | _ => none

theorem body_eq {request : Outgoing} {body : String}
    (sent : request.body outside = some body) :
    body = interpolate outside.words request.template
      (request.payload outside) := by
  cases request with
  | http => exact (Option.some.inj sent).symm
  | notification config hook result execution =>
      rw [Outgoing.body, sendNotification] at sent
      cases isOutcome : statusToOutcome result.status with
      | none =>
          rw [isOutcome] at sent
          cases sent
      | some outcome =>
          rw [isOutcome] at sent
          by_cases listed : outcome ∈ config.on
          · simp only [if_pos listed] at sent
            exact (Option.some.inj sent).symm
          · simp only [if_neg listed] at sent
            cases sent

end Outgoing

/-- Of a template that is JSON with its placeholders inside literals, the
body is JSON of the same layout exactly if no value has an apostrophe, and
each could stand in a literal by itself. -/
theorem bodyKept_iff
    (outside : Outside)
    (request : Outgoing)
    (body : String)
    (sent : request.body outside = some body)
    (valid : IsValid request.template.toList)
    (inside : InsideFrom .outside
      (outside.words.segments request.template.toList)) :
    BodyKept outside.words request.template.toList body.toList ↔
      ∀ path ∈ placeholders outside.words request.template.toList,
        ∀ value, resolveField (request.payload outside) path = some value →
          Harmless (valueToString value) := by
  rw [Outgoing.body_eq outside sent, interpolate, String.toList_ofList]
  exact bodyKept_interpolate_iff valid inside

/-- A body with one field. -/
def nameTemplate : String :=
  "\x7b\"repo\":\"\x7b\x7bname\x7d\x7d\"\x7d"

/-- What the body is for a value without apostrophes. -/
def nameBody (value : String) : String :=
  "\x7b\"repo\":\"'" ++ value ++ "'\"\x7d"

/-- An outside on which the payload has one field `name`. -/
def nameOutside (value : String) : Outside :=
  { Outside.accepting with
    words := .asciiOnly
    parseJson := fun _ => some (.object [("name", .string value)]) }

def nameRequest (payloadJson : String) : Outgoing :=
  .http .post "http://localhost/" [] nameTemplate false payloadJson

theorem isValid_nameTemplate : IsValid nameTemplate.toList := by
  have blank : IsBlank [] := ⟨[], rfl, by simp⟩
  have value : Grammar .element [.string] :=
    @Grammar.element [] [.string] [] blank .string blank
  have members : Grammar .members [.string, .char ':', .string] :=
    @Grammar.lastMember [] [] [.string] blank blank value
  have object := @Grammar.element [] _ [] blank (.object members) blank
  refine ⟨[.char '{', .string "repo".toList, .char ':',
    .string "\x7b\x7bname\x7d\x7d".toList, .char '}'], ?_, object⟩
  decide +kernel

theorem bodyKept_iff_name :
    BodyKept .asciiOnly nameTemplate.toList (nameBody "web").toList ↔
      ∀ path ∈ placeholders .asciiOnly nameTemplate.toList, ∀ value,
        resolveField (.object [("name", .string "web")]) path =
          some value → Harmless (valueToString value) :=
  bodyKept_iff (nameOutside "web")
    (nameRequest "\x7b\"name\":\"web\"\x7d") (nameBody "web")
    (by decide +kernel) isValid_nameTemplate (by decide +kernel)

/-- A value that closes its literal and adds a field. -/
def forcing : String := "x\",\"force\":\"y"

theorem not_bodyKept :
    (nameRequest "\x7b\"name\":\"x\\\",\\\"force\\\":\\\"y\"\x7d").body
        (nameOutside forcing) = some (nameBody forcing) ∧
      IsValid nameTemplate.toList ∧
      InsideFrom .outside
        (WordClass.asciiOnly.segments nameTemplate.toList) ∧
      ¬ BodyKept .asciiOnly nameTemplate.toList
        (nameBody forcing).toList := by
  refine ⟨by decide +kernel, isValid_nameTemplate, by decide +kernel, ?_⟩
  rintro ⟨marks, bodyMarks, cut, bodyOutline, kept⟩
  have length : (marks? nameTemplate.toList).map List.length = some 5 := by
    decide +kernel
  have bodyLength :
      (marks? (nameBody forcing).toList).map List.length = some 9 := by
    decide +kernel
  rw [cut] at length
  rw [bodyOutline.cut] at bodyLength
  have same := kept.length_eq
  rw [Option.some.inj length, Option.some.inj bodyLength] at same
  cases same

end Sendword
