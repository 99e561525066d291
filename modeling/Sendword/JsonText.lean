import Mathlib.Data.List.Basic

/-!
# JSON texts

A text is cut at its string literals: what stands outside them, and the
content of each.  Whether it is JSON is a matter of what stands outside only.
-/

namespace JsonText

/-! ## String literals -/

/-- A character outside the literals, or a literal with its content. -/
inductive Mark where
  | char (char : Char)
  | string (content : List Char)
  deriving DecidableEq, Repr

inductive Position where
  | outside
  | inside
  /-- Behind a backslash. -/
  | escaped
  /-- Before the digits of a `\u`. -/
  | unicode (left : Nat)
  deriving DecidableEq, Repr

def isHex (char : Char) : Bool :=
  char.isDigit || ('a' ≤ char && char ≤ 'f') || ('A' ≤ char && char ≤ 'F')

/-- Read one character; a control character or another escape is an error
inside a literal. -/
def Position.next : Position → Char → Option Position
  | .outside, char => if char = '"' then some .inside else some .outside
  | .inside, char =>
      if char = '"' then some .outside
      else if char = '\\' then some .escaped
      else if char.toNat < 32 then none
      else some .inside
  | .escaped, char =>
      if char ∈ ['"', '\\', '/', 'b', 'f', 'n', 'r', 't'] then some .inside
      else if char = 'u' then some (.unicode 4)
      else none
  | .unicode left, char =>
      if isHex char then
        if left ≤ 1 then some .inside else some (.unicode (left - 1))
      else none

def Position.run (position : Position) (text : List Char) :
    Option Position :=
  text.foldlM next position

structure Scan where
  position : Position := .outside
  marks : List Mark := []
  /-- What is read of the open literal. -/
  content : List Char := []
  deriving DecidableEq, Repr

namespace Scan

/-- The scan at its next place. -/
def move (scan : Scan) (char : Char) (position : Position) : Scan :=
  match scan.position, position with
  | .outside, .outside => { scan with marks := scan.marks ++ [.char char] }
  | .outside, _ => { scan with position, content := [] }
  | _, .outside =>
      { position, marks := scan.marks ++ [.string scan.content] }
  | _, _ => { scan with position, content := scan.content ++ [char] }

def read (scan : Scan) (char : Char) : Option Scan :=
  (scan.position.next char).map (scan.move char)

def run (scan : Scan) (text : List Char) : Option Scan :=
  text.foldlM read scan

end Scan

/-- The marks of a text whose literals are all closed. -/
def marks? (text : List Char) : Option (List Mark) :=
  (Scan.run {} text).bind fun scan =>
    if scan.position = .outside then some scan.marks else none

theorem marks?_eq_some_iff {text : List Char} {marks : List Mark} :
    marks? text = some marks ↔
      ∃ scan, Scan.run {} text = some scan ∧ scan.position = .outside ∧
        scan.marks = marks := by
  unfold marks?
  rw [Option.bind_eq_some_iff]
  refine exists_congr fun scan => and_congr_right fun _ => ?_
  split
  case isTrue isOutside => simp [isOutside]
  case isFalse opened => simp [opened]

/-- Where a text inside a literal leads, as long as it does not close it. -/
def contentFrom : Position → List Char → Option Position
  | position, [] => some position
  | position, char :: text =>
      match position.next char with
      | none | some .outside => none
      | some next => contentFrom next text

/-- A text that can stand in a literal. -/
def IsContent (text : List Char) : Prop :=
  contentFrom .inside text = some .inside

instance (text : List Char) : Decidable (IsContent text) :=
  inferInstanceAs (Decidable (_ = _))

/-! ## The grammar -/

/-- A mark without the content of a literal. -/
inductive Symbol where
  | char (char : Char)
  | string
  deriving DecidableEq, Repr

def Mark.symbol : Mark → Symbol
  | .char letter => .char letter
  | .string _ => .string

def isBlank (char : Char) : Bool :=
  char == ' ' || char == '\n' || char == '\r' || char == '\t'

def chars (text : List Char) : List Symbol := text.map .char

def IsDigits (text : List Char) : Prop :=
  text ≠ [] ∧ ∀ char ∈ text, char.isDigit = true

/-- The digits before the point have no leading zero. -/
def IsWhole (text : List Char) : Prop :=
  text = ['0'] ∨ IsDigits text ∧ text.head? ≠ some '0'

inductive IsFraction : List Char → Prop where
  | absent : IsFraction []
  | digits {text : List Char} : IsDigits text → IsFraction ('.' :: text)

inductive IsExponent : List Char → Prop where
  | absent : IsExponent []
  | digits {letter : Char} {sign text : List Char} :
      letter ∈ ['e', 'E'] → sign ∈ [[], ['+'], ['-']] → IsDigits text →
      IsExponent (letter :: (sign ++ text))

inductive IsNumber : List Char → Prop where
  | parts {sign whole fraction exponent : List Char} :
      sign ∈ [[], ['-']] → IsWhole whole → IsFraction fraction →
      IsExponent exponent →
      IsNumber (sign ++ whole ++ fraction ++ exponent)

inductive Kind where
  | value
  /-- A value with blanks around it. -/
  | element
  | elements
  | members
  deriving DecidableEq, Repr

def IsBlank (symbols : List Symbol) : Prop :=
  ∃ text : List Char, symbols = chars text ∧ ∀ char ∈ text, isBlank char = true

/-- The JSON grammar, on what stands outside the literals. -/
inductive Grammar : Kind → List Symbol → Prop where
  | word {text : List Char} :
      text ∈ ["true".toList, "false".toList, "null".toList] →
      Grammar .value (chars text)
  | number {text : List Char} : IsNumber text → Grammar .value (chars text)
  | string : Grammar .value [.string]
  | emptyArray {blank : List Symbol} : IsBlank blank →
      Grammar .value (.char '[' :: (blank ++ [.char ']']))
  | array {symbols : List Symbol} : Grammar .elements symbols →
      Grammar .value (.char '[' :: (symbols ++ [.char ']']))
  | emptyObject {blank : List Symbol} : IsBlank blank →
      Grammar .value (.char '{' :: (blank ++ [.char '}']))
  | object {symbols : List Symbol} : Grammar .members symbols →
      Grammar .value (.char '{' :: (symbols ++ [.char '}']))
  | element {before symbols after : List Symbol} : IsBlank before →
      Grammar .value symbols → IsBlank after →
      Grammar .element (before ++ symbols ++ after)
  | lastElement {symbols : List Symbol} : Grammar .element symbols →
      Grammar .elements symbols
  | moreElements {symbols rest : List Symbol} : Grammar .element symbols →
      Grammar .elements rest →
      Grammar .elements (symbols ++ .char ',' :: rest)
  | lastMember {before between symbols : List Symbol} : IsBlank before →
      IsBlank between → Grammar .element symbols →
      Grammar .members (before ++ .string :: (between ++ .char ':' :: symbols))
  | moreMembers {before between symbols rest : List Symbol} :
      IsBlank before → IsBlank between → Grammar .element symbols →
      Grammar .members rest →
      Grammar .members (before ++ .string ::
        (between ++ .char ':' :: (symbols ++ .char ',' :: rest)))

/-- What a valid text is made of. -/
structure Outline (text : List Char) (marks : List Mark) : Prop where
  cut : marks? text = some marks
  grammar : Grammar .element (marks.map Mark.symbol)

/-- A text that is JSON. -/
def IsValid (text : List Char) : Prop := ∃ marks, Outline text marks

/-! ## No apostrophe stands outside the literals -/

/-- The characters that JSON texts have outside their literals. -/
def isOuter (char : Char) : Bool :=
  isBlank char || char.isAlphanum || char ∈ "[]\x7b\x7d,:+-.".toList

theorem outer_chars {text : List Char}
    (outer : ∀ char ∈ text, isOuter char = true) :
    ∀ char, .char char ∈ chars text → isOuter char = true := by
  intro char member
  obtain ⟨letter, inText, same⟩ := List.mem_map.mp member
  cases same
  exact outer char inText

theorem IsBlank.outer {symbols : List Symbol} (blank : IsBlank symbols) :
    ∀ char, .char char ∈ symbols → isOuter char = true := by
  obtain ⟨text, rfl, blanks⟩ := blank
  refine outer_chars fun char member => ?_
  unfold isOuter
  rw [blanks char member]
  rfl

theorem IsDigits.outer {text : List Char} (digits : IsDigits text) :
    ∀ char ∈ text, isOuter char = true := by
  intro char member
  unfold isOuter Char.isAlphanum
  rw [digits.2 char member]
  simp

theorem IsNumber.outer {text : List Char} (number : IsNumber text) :
    ∀ char ∈ text, isOuter char = true := by
  obtain ⟨isSign, isWhole, isFraction, isExponent⟩ := number
  intro char member
  simp only [List.mem_append] at member
  rcases member with ((inSign | inWhole) | inFraction) | inExponent
  · simp only [List.mem_cons, List.not_mem_nil, or_false] at isSign
    rcases isSign with rfl | rfl
    · cases inSign
    · rw [List.mem_singleton.mp inSign]
      rfl
  · rcases isWhole with rfl | ⟨digits, -⟩
    · rw [List.mem_singleton.mp inWhole]
      rfl
    · exact digits.outer char inWhole
  · cases isFraction with
    | absent => cases inFraction
    | digits digits =>
        rcases List.mem_cons.mp inFraction with rfl | inDigits
        · rfl
        · exact digits.outer char inDigits
  · cases isExponent with
    | absent => cases inExponent
    | digits isLetter isSign digits =>
        rcases List.mem_cons.mp inExponent with rfl | behind
        · simp only [List.mem_cons, List.not_mem_nil, or_false] at isLetter
          rcases isLetter with rfl | rfl
          · rfl
          · rfl
        · rcases List.mem_append.mp behind with inSign | inDigits
          · simp only [List.mem_cons, List.not_mem_nil, or_false] at isSign
            rcases isSign with rfl | rfl | rfl
            · cases inSign
            · rw [List.mem_singleton.mp inSign]
              rfl
            · rw [List.mem_singleton.mp inSign]
              rfl
          · exact digits.outer char inDigits

theorem Grammar.outer {kind : Kind} {symbols : List Symbol}
    (grammar : Grammar kind symbols) :
    ∀ char, .char char ∈ symbols → isOuter char = true := by
  induction grammar with
  | word isWord =>
      refine outer_chars ?_
      simp only [List.mem_cons, List.not_mem_nil, or_false] at isWord
      rcases isWord with rfl | rfl | rfl
      · exact List.all_eq_true.mp (by decide)
      · exact List.all_eq_true.mp (by decide)
      · exact List.all_eq_true.mp (by decide)
  | number isNumber => exact outer_chars isNumber.outer
  | string => simp
  | emptyArray blank | emptyObject blank =>
      intro char member
      simp only [List.mem_cons, List.mem_append, List.not_mem_nil,
        Symbol.char.injEq, or_false] at member
      rcases member with rfl | inBlank | rfl
      · rfl
      · exact blank.outer char inBlank
      · rfl
  | array items induction | object items induction =>
      intro char member
      simp only [List.mem_cons, List.mem_append, List.not_mem_nil,
        Symbol.char.injEq, or_false] at member
      rcases member with rfl | inItems | rfl
      · rfl
      · exact induction char inItems
      · rfl
  | element before value after induction =>
      intro char member
      simp only [List.mem_append] at member
      rcases member with (inBefore | inValue) | inAfter
      · exact before.outer char inBefore
      · exact induction char inValue
      · exact after.outer char inAfter
  | lastElement element induction => exact induction
  | moreElements first rest induction inductionRest =>
      intro char member
      simp only [List.mem_append, List.mem_cons, Symbol.char.injEq] at member
      rcases member with inFirst | rfl | inRest
      · exact induction char inFirst
      · rfl
      · exact inductionRest char inRest
  | lastMember before between element induction =>
      intro char member
      simp only [List.mem_append, List.mem_cons, Symbol.char.injEq,
        reduceCtorEq, false_or] at member
      rcases member with inBefore | inBetween | rfl | inElement
      · exact before.outer char inBefore
      · exact between.outer char inBetween
      · rfl
      · exact induction char inElement
  | moreMembers before between element rest induction inductionRest =>
      intro char member
      simp only [List.mem_append, List.mem_cons, Symbol.char.injEq,
        reduceCtorEq, false_or] at member
      rcases member with
        inBefore | inBetween | rfl | inElement | rfl | inRest
      · exact before.outer char inBefore
      · exact between.outer char inBetween
      · rfl
      · exact induction char inElement
      · rfl
      · exact inductionRest char inRest

theorem Outline.not_mem_char {text : List Char} {marks : List Mark}
    (outline : Outline text marks) {char : Char}
    (inner : isOuter char = false) : .char char ∉ marks := by
  intro member
  have outer := outline.grammar.outer char
    (List.mem_map.mpr ⟨.char char, member, rfl⟩)
  rw [inner] at outer
  cases outer

/-! ## Reading on -/

namespace Scan

variable {scan after : Scan} {first second text : List Char}

theorem run_cons {char : Char} :
    scan.run (char :: text) = (scan.read char).bind (·.run text) :=
  rfl

theorem run_append :
    scan.run (first ++ second) = (scan.run first).bind (·.run second) :=
  List.foldlM_append

theorem move_outside {char : Char} (outside : scan.position = .outside) :
    scan.move char .outside =
      { scan with marks := scan.marks ++ [.char char] } := by
  unfold move
  rw [outside]

theorem move_opening {char : Char} {position : Position}
    (outside : scan.position = .outside) (opens : position ≠ .outside) :
    scan.move char position = { scan with position, content := [] } := by
  unfold move
  split
  · contradiction
  · rfl
  · contradiction
  · contradiction

theorem move_content {char : Char} {position : Position}
    (opened : scan.position ≠ .outside) (stays : position ≠ .outside) :
    scan.move char position =
      { scan with position, content := scan.content ++ [char] } := by
  unfold move
  split
  · contradiction
  · contradiction
  · contradiction
  · rfl

theorem move_closing {char : Char} (opened : scan.position ≠ .outside) :
    scan.move char .outside =
      { position := .outside,
        marks := scan.marks ++ [.string scan.content] } := by
  unfold move
  split
  · contradiction
  · contradiction
  · rfl
  · contradiction

theorem move_position {char : Char} {position : Position} :
    (scan.move char position).position = position := by
  unfold move
  split
  case h_1 isOutside => exact isOutside
  case h_2 => rfl
  case h_3 => rfl
  case h_4 => rfl

/-- The places do not depend on what is read before. -/
theorem run_position (ran : scan.run text = some after) :
    scan.position.run text = some after.position := by
  induction text generalizing scan with
  | nil =>
      cases ran
      rfl
  | cons char text induction =>
      rw [run_cons, Option.bind_eq_some_iff] at ran
      obtain ⟨following, isRead, ran⟩ := ran
      obtain ⟨position, isNext, rfl⟩ := Option.map_eq_some_iff.mp isRead
      have known := induction ran
      rw [move_position] at known
      exact Option.bind_eq_some_iff.mpr ⟨position, isNext, known⟩

/-- Neither does the number of marks that a character adds. -/
theorem length_move {other : Scan} {char : Char} {position : Position}
    (same : other.position = scan.position) :
    (scan.move char position).marks.length + other.marks.length =
      scan.marks.length + (other.move char position).marks.length := by
  unfold move
  rw [same]
  split
  · simp only [List.length_append, List.length_singleton]
    omega
  · rfl
  · simp only [List.length_append, List.length_singleton]
    omega
  · rfl

/-- Marks are only added. -/
theorem run_marks (ran : scan.run text = some after) :
    scan.marks <+: after.marks := by
  induction text generalizing scan with
  | nil =>
      cases ran
      exact List.prefix_rfl
  | cons char text induction =>
      rw [run_cons, Option.bind_eq_some_iff] at ran
      obtain ⟨next, isNext, ran⟩ := ran
      refine List.IsPrefix.trans ?_ (induction ran)
      obtain ⟨position, -, rfl⟩ := Option.map_eq_some_iff.mp isNext
      unfold move
      split
      · exact List.prefix_append _ _
      · exact List.prefix_rfl
      · exact List.prefix_append _ _
      · exact List.prefix_rfl

/-- A text that can stand in the open literal is added to its content. -/
theorem run_content {position : Position} (opened : scan.position ≠ .outside)
    (content : contentFrom scan.position text = some position) :
    scan.run text = some
      { scan with position, content := scan.content ++ text } := by
  induction text generalizing scan with
  | nil =>
      cases content
      rw [List.append_nil]
      rfl
  | cons char text induction =>
      unfold contentFrom at content
      split at content
      case h_1 => cases content
      case h_2 => cases content
      case h_3 next stays isNext =>
        have isRead : scan.read char = some { scan with
            position := next, content := scan.content ++ [char] } := by
          unfold read
          rw [isNext, Option.map_some, move_content opened stays]
        rw [run_cons, isRead, Option.bind_some, induction stays content,
          List.append_assoc]
        rfl

/-- Another text closes the literal. -/
theorem run_not_content (opened : scan.position ≠ .outside)
    (closes : contentFrom scan.position text = none)
    (ran : scan.run text = some after) :
    scan.marks.length < after.marks.length := by
  induction text generalizing scan with
  | nil => cases closes
  | cons char text induction =>
      rw [run_cons, Option.bind_eq_some_iff] at ran
      obtain ⟨following, isRead, ran⟩ := ran
      obtain ⟨position, isNext, rfl⟩ := Option.map_eq_some_iff.mp isRead
      unfold contentFrom at closes
      rw [isNext] at closes
      have grown := (run_marks ran).length_le
      by_cases closed : position = .outside
      · subst closed
        rw [move_closing opened] at grown
        refine Nat.lt_of_lt_of_le ?_ grown
        simp
      · rw [move_content opened closed] at ran
        refine @induction
          { scan with position, content := scan.content ++ [char] }
          closed ?_ ran
        split at closes
        case h_1 => contradiction
        case h_2 same => exact absurd (Option.some.inj same) closed
        case h_3 same =>
          cases same
          exact closes

end Scan

/-! ## Contents -/

theorem contentFrom_append {position : Position} {first second : List Char} :
    contentFrom position (first ++ second) =
      (contentFrom position first).bind (contentFrom · second) := by
  induction first generalizing position with
  | nil => rfl
  | cons char first induction =>
      rw [List.cons_append, contentFrom, contentFrom]
      split
      · rfl
      · rfl
      · exact induction

/-- Without quotes and backslashes a literal stays open. -/
theorem isContent_of_plain {text : List Char} {scan after : Scan}
    (opened : scan.position = .inside)
    (plain : ∀ char ∈ text, char ≠ '"' ∧ char ≠ '\\')
    (ran : scan.run text = some after) : IsContent text := by
  induction text generalizing scan with
  | nil => rfl
  | cons char text induction =>
      rw [Scan.run_cons, Option.bind_eq_some_iff] at ran
      obtain ⟨following, isRead, ran⟩ := ran
      obtain ⟨position, isNext, rfl⟩ := Option.map_eq_some_iff.mp isRead
      obtain ⟨⟨noQuote, noBackslash⟩, plain⟩ := List.forall_mem_cons.mp plain
      rw [opened] at isNext
      have stays : position = .inside := by
        rw [Position.next, if_neg noQuote, if_neg noBackslash] at isNext
        split at isNext
        · cases isNext
        · exact (Option.some.inj isNext).symm
      unfold IsContent contentFrom
      rw [isNext, stays]
      exact induction (Scan.move_position.trans stays) plain ran

end JsonText
