import Mathlib.Data.List.DropRight

/-!
# Texts in lines

Trimming, splitting at a separator, and texts of one item a line: when a list
of items that is printed line by line is read back.
-/

namespace Text

/-! ## Blanks -/

section Blanks

variable (blank : Char → Bool)

/-- A text without the blanks at its ends. -/
def trim (text : List Char) : List Char :=
  (text.dropWhile blank).rdropWhile blank

/-- No blank stands at either end. -/
structure Trimmed (text : List Char) : Prop where
  head : ∀ char, text.head? = some char → blank char = false
  last : ∀ char, text.getLast? = some char → blank char = false

variable {blank} {text : List Char}

theorem dropWhile_eq_self {items : List Char}
    (head : ∀ char, items.head? = some char → blank char = false) :
    items.dropWhile blank = items := by
  cases items with
  | nil => rfl
  | cons first rest => simp [head first rfl]

theorem head?_dropWhile {char : Char}
    (isHead : (text.dropWhile blank).head? = some char) :
    blank char = false := by
  have some := List.head?_dropWhile_not blank text
  rw [isHead] at some
  simpa using some

theorem rdropWhile_eq_self
    (last : ∀ char, text.getLast? = some char → blank char = false) :
    text.rdropWhile blank = text := by
  rw [List.rdropWhile, dropWhile_eq_self, List.reverse_reverse]
  intro char isHead
  exact last char (by rwa [List.head?_reverse] at isHead)

theorem getLast?_rdropWhile {char : Char}
    (isLast : (text.rdropWhile blank).getLast? = some char) :
    blank char = false := by
  rw [List.rdropWhile, List.getLast?_reverse] at isLast
  exact head?_dropWhile isLast

/-- What is left after trimming begins where it began. -/
theorem head?_trim {char : Char} (isHead : (trim blank text).head? = some char) :
    blank char = false := by
  obtain ⟨rest, same⟩ := List.rdropWhile_prefix blank (text.dropWhile blank)
  cases left : trim blank text with
  | nil =>
      rw [left] at isHead
      cases isHead
  | cons first more =>
      rw [left] at isHead
      cases isHead
      refine @head?_dropWhile blank text _ ?_
      rw [← same, ← trim, left]
      rfl

theorem trimmed_trim (text : List Char) : Trimmed blank (trim blank text) :=
  ⟨fun _ => head?_trim, fun _ => getLast?_rdropWhile⟩

theorem Trimmed.trim_eq (trimmed : Trimmed blank text) :
    trim blank text = text := by
  rw [trim, dropWhile_eq_self trimmed.head, rdropWhile_eq_self trimmed.last]

theorem trim_eq_self_iff : trim blank text = text ↔ Trimmed blank text :=
  ⟨fun same => same ▸ trimmed_trim text, Trimmed.trim_eq⟩

theorem mem_of_mem_trim {char : Char} (member : char ∈ trim blank text) :
    char ∈ text :=
  (List.dropWhile_sublist _).subset
    ((List.rdropWhile_prefix _ _).subset member)

/-- Two texts that begin and end without blanks, whatever stands between. -/
theorem Trimmed.append {before after : List Char}
    (first : Trimmed blank before) (second : Trimmed blank after)
    (nonempty : before ≠ []) (filled : after ≠ []) (between : List Char) :
    Trimmed blank (before ++ between ++ after) := by
  constructor
  · intro char isHead
    refine first.head char ?_
    rwa [List.append_assoc, List.head?_append_of_ne_nil _ nonempty] at isHead
  · intro char isLast
    refine second.last char ?_
    rwa [List.getLast?_append_of_ne_nil _ filled] at isLast

end Blanks

/-! ## Splitting at a separator -/

/-- `str::split_once`. -/
def splitOnce (separator : Char) :
    List Char → Option (List Char × List Char)
  | [] => none
  | char :: rest =>
      if char = separator then some ([], rest)
      else (splitOnce separator rest).map fun (before, after) =>
        (char :: before, after)

/-- `str::splitn`. -/
def splitn (separator : Char) : Nat → List Char → List (List Char)
  | 0, _ => []
  | 1, text => [text]
  | count + 2, text =>
      match splitOnce separator text with
      | none => [text]
      | some (before, after) => before :: splitn separator (count + 1) after

section Separators

variable {separator : Char} {text before after : List Char}

theorem splitOnce_append (apart : separator ∉ before) (after : List Char) :
    splitOnce separator (before ++ separator :: after) =
      some (before, after) := by
  induction before with
  | nil => simp [splitOnce]
  | cons char before induction =>
      have other : char ≠ separator := fun same =>
        apart (same ▸ List.mem_cons_self)
      simp only [List.cons_append, splitOnce, if_neg other]
      rw [induction fun member => apart (List.mem_cons_of_mem _ member)]
      rfl

theorem splitOnce_eq_none (apart : separator ∉ text) :
    splitOnce separator text = none := by
  induction text with
  | nil => rfl
  | cons char text induction =>
      have other : char ≠ separator := fun same =>
        apart (same ▸ List.mem_cons_self)
      rw [splitOnce, if_neg other,
        induction fun member => apart (List.mem_cons_of_mem _ member)]
      rfl

theorem splitOnce_some
    (split : splitOnce separator text = some (before, after)) :
    text = before ++ separator :: after ∧ separator ∉ before := by
  induction text generalizing before with
  | nil => cases split
  | cons char text induction =>
      rw [splitOnce] at split
      split at split
      · rename_i same
        cases split
        exact ⟨by rw [same]; rfl, List.not_mem_nil⟩
      · rename_i other
        obtain ⟨⟨first, rest⟩, found, same⟩ := Option.map_eq_some_iff.mp split
        cases same
        obtain ⟨rfl, apart⟩ := induction found
        refine ⟨rfl, fun member => ?_⟩
        rcases List.mem_cons.mp member with same | later
        · exact other same.symm
        · exact apart later

theorem splitn_two (apart : separator ∉ before)
    (without : separator ∉ after) :
    splitn separator 3 (before ++ separator :: after) = [before, after] := by
  simp only [splitn, splitOnce_append apart, splitOnce_eq_none without]

theorem splitn_three {middle : List Char} (apart : separator ∉ before)
    (without : separator ∉ middle) :
    splitn separator 3
        (before ++ separator :: (middle ++ separator :: after)) =
      [before, middle, after] := by
  simp only [splitn, splitOnce_append apart, splitOnce_append without]

/-- The pieces of a text, and what stands in them. -/
theorem mem_splitn {count : Nat} {piece : List Char}
    (member : piece ∈ splitn separator count text) :
    ∀ char ∈ piece, char ∈ text := by
  induction count generalizing text with
  | zero => cases member
  | succ count induction =>
      cases count with
      | zero =>
          rw [splitn, List.mem_singleton] at member
          exact fun char inside => member ▸ inside
      | succ count =>
          rw [splitn] at member
          split at member
          · rw [List.mem_singleton] at member
            exact fun char inside => member ▸ inside
          · rename_i before after found
            obtain ⟨rfl, -⟩ := splitOnce_some found
            rcases List.mem_cons.mp member with rfl | later
            · exact fun char inside => List.mem_append_left _ inside
            · exact fun char inside => List.mem_append_right _
                (List.mem_cons_of_mem _ (induction later char inside))

/-- The first piece ends where the separator stands first. -/
theorem splitn_head {first second : List Char} {rest : List (List Char)}
    (split : splitn separator 3 text = first :: second :: rest) :
    separator ∉ first := by
  rw [splitn] at split
  cases found : splitOnce separator text with
  | none =>
      rw [found] at split
      cases split
  | some parts =>
      rw [found] at split
      rw [← (List.cons.inj split).1]
      exact (splitOnce_some found).2

/-- `str::split`: no piece has the separator. -/
theorem mem_splitOn {piece : List Char}
    (member : piece ∈ text.splitOn separator) :
    ∀ char ∈ piece, char ∈ text ∧ char ≠ separator := by
  induction text generalizing piece with
  | nil =>
      rw [List.splitOn_nil, List.mem_singleton] at member
      subst member
      exact fun char none => by cases none
  | cons first text induction =>
      rw [List.splitOn_cons_eq_if_modifyHead] at member
      intro char inside
      split at member
      · rcases List.mem_cons.mp member with rfl | later
        · cases inside
        · exact (induction later char inside).imp
            (List.mem_cons_of_mem _) id
      · rename_i other
        cases pieces : text.splitOn separator with
        | nil => exact (List.splitOn_ne_nil _ _ pieces).elim
        | cons head tail =>
            rw [pieces, List.modifyHead_cons] at member
            rcases List.mem_cons.mp member with rfl | later
            · rcases List.mem_cons.mp inside with rfl | inHead
              · exact ⟨List.mem_cons_self, by simpa using other⟩
              · exact (induction (pieces ▸ List.mem_cons_self) char
                  inHead).imp (List.mem_cons_of_mem _) id
            · exact (induction (pieces ▸ List.mem_cons_of_mem _ later) char
                inside).imp (List.mem_cons_of_mem _) id

end Separators

/-! ## Lines -/

/-- The text before a carriage return at its end. -/
def stripReturn (line : List Char) : List Char :=
  if line.getLast? = some '\r' then line.dropLast else line

/-- The lines of a text, of whose first line `line` is read, backwards. -/
def linesFrom (line : List Char) : List Char → List (List Char)
  | [] => if line.isEmpty then [] else [line.reverse]
  | char :: rest =>
      if char = '\n' then stripReturn line.reverse :: linesFrom [] rest
      else linesFrom (char :: line) rest

/-- `str::lines`. -/
def lines (text : List Char) : List (List Char) := linesFrom [] text

/-- No line ends in the text. -/
def SingleLine (text : List Char) : Prop := '\n' ∉ text

section Lines

variable {line text : List Char}

theorem linesFrom_append (single : SingleLine line) (begun rest : List Char) :
    linesFrom begun (line ++ '\n' :: rest) =
      stripReturn (begun.reverse ++ line) :: lines rest := by
  induction line generalizing begun with
  | nil => simp [linesFrom, lines]
  | cons char line induction =>
      have other : char ≠ '\n' := fun same =>
        single (same ▸ List.mem_cons_self)
      rw [List.cons_append, linesFrom, if_neg other,
        induction fun member => single (List.mem_cons_of_mem _ member)]
      simp

theorem lines_append (single : SingleLine line) (rest : List Char) :
    lines (line ++ '\n' :: rest) = stripReturn line :: lines rest :=
  linesFrom_append single [] rest

theorem linesFrom_last (single : SingleLine line) (begun : List Char)
    (nonempty : begun.reverse ++ line ≠ []) :
    linesFrom begun line = [begun.reverse ++ line] := by
  induction line generalizing begun with
  | nil =>
      have filled : begun ≠ [] := fun empty => nonempty (by simp [empty])
      simp [linesFrom, filled]
  | cons char line induction =>
      have other : char ≠ '\n' := fun same =>
        single (same ▸ List.mem_cons_self)
      rw [linesFrom, if_neg other,
        induction (fun member => single (List.mem_cons_of_mem _ member)) _
          (by simp)]
      simp

theorem lines_last (single : SingleLine line) (nonempty : line ≠ []) :
    lines line = [line] :=
  linesFrom_last single [] nonempty

theorem stripReturn_of_ne (other : line.getLast? ≠ some '\r') :
    stripReturn line = line := if_neg other

/-- No line has a line feed. -/
theorem singleLine_of_mem_linesFrom {begun : List Char}
    (single : SingleLine begun) (member : line ∈ linesFrom begun text) :
    SingleLine line := by
  induction text generalizing begun with
  | nil =>
      rw [linesFrom] at member
      split at member
      · cases member
      · rw [List.mem_singleton.mp member]
        exact fun inside => single (List.mem_reverse.mp inside)
  | cons char rest induction =>
      rw [linesFrom] at member
      split at member
      · rcases List.mem_cons.mp member with rfl | later
        · intro inside
          refine single (List.mem_reverse.mp ?_)
          rw [stripReturn] at inside
          split at inside
          · exact List.dropLast_subset _ inside
          · exact inside
        · exact induction List.not_mem_nil later
      · rename_i notFeed
        refine induction (fun inside => ?_) member
        rcases List.mem_cons.mp inside with same | earlier
        · exact notFeed same.symm
        · exact single earlier

theorem singleLine_of_mem_lines (member : line ∈ lines text) :
    SingleLine line :=
  singleLine_of_mem_linesFrom List.not_mem_nil member

end Lines

/-! ## One item a line -/

/-- Lines joined by line feeds. -/
def joinLines : List (List Char) → List Char
  | [] => []
  | [line] => line
  | line :: next :: rest => line ++ '\n' :: joinLines (next :: rest)

/-- How an item is written in a line, and how a line of a given number is
read. -/
structure LineFormat (Error Item : Type) where
  print : Item → List Char
  parse : Nat → List Char → Except Error Item

namespace LineFormat

variable {Error Item : Type} (format : LineFormat Error Item)
  (blank : Char → Bool)

def write (items : List Item) : List Char :=
  joinLines (items.map format.print)

/-- The items in lines from a number on.  Blank lines are passed over, and the
first line that cannot be read counts. -/
def readFrom : Nat → List (List Char) → Except Error (List Item)
  | _, [] => .ok []
  | number, line :: rest =>
      if (trim blank line).isEmpty then readFrom (number + 1) rest
      else
        match format.parse number (trim blank line) with
        | .error error => .error error
        | .ok item => (readFrom (number + 1) rest).map (item :: ·)

def read (text : List Char) : Except Error (List Item) :=
  format.readFrom blank 1 (lines text)

/-- An item that is writable is read from its line, and only such items are
read. -/
structure Lawful (writable : Item → Prop) : Prop where
  print_nonempty : ∀ item, writable item → format.print item ≠ []
  print_single : ∀ item, writable item → SingleLine (format.print item)
  print_trimmed : ∀ item, writable item → Trimmed blank (format.print item)
  parse_print : ∀ item, writable item → ∀ number,
    format.parse number (format.print item) = .ok item
  writable_of_parse : ∀ number line item, SingleLine line →
    Trimmed blank line → format.parse number line = .ok item → writable item

variable {format blank} {writable : Item → Prop}

/-- Lines that are joined come back, if none of them is empty or ends with a
carriage return. -/
theorem lines_joinLines {given : List (List Char)}
    (single : ∀ line ∈ given, SingleLine line)
    (nonempty : ∀ line ∈ given, line ≠ [])
    (last : ∀ line ∈ given, line.getLast? ≠ some '\r') :
    lines (joinLines given) = given := by
  induction given with
  | nil => rfl
  | cons line given induction =>
      have here := single line List.mem_cons_self
      cases given with
      | nil => exact lines_last here (nonempty line List.mem_cons_self)
      | cons next rest =>
          rw [joinLines, lines_append here,
            stripReturn_of_ne (last line List.mem_cons_self),
            induction
              (fun other member =>
                single other (List.mem_cons_of_mem _ member))
              (fun other member =>
                nonempty other (List.mem_cons_of_mem _ member))
              fun other member => last other (List.mem_cons_of_mem _ member)]

/-- What is read is read from the lines. -/
theorem readFrom_ok {number : Nat} {given : List (List Char)}
    {items : List Item}
    (ok : format.readFrom blank number given = .ok items) :
    ∀ item ∈ items, ∃ position, ∃ line ∈ given,
      format.parse position (trim blank line) = .ok item := by
  induction given generalizing number items with
  | nil =>
      cases ok
      exact fun item none => by cases none
  | cons line given induction =>
      have later {rest : List Item} {start : Nat}
          (isRest : format.readFrom blank start given = .ok rest) :
          ∀ item ∈ rest, ∃ position, ∃ other ∈ line :: given,
            format.parse position (trim blank other) = .ok item := by
        intro item member
        obtain ⟨position, other, inside, parsed⟩ := induction isRest item member
        exact ⟨position, other, List.mem_cons_of_mem _ inside, parsed⟩
      rw [readFrom] at ok
      split at ok
      · exact later ok
      · split at ok
        · cases ok
        · rename_i first parsed
          cases isRest : format.readFrom blank (number + 1) given with
          | error error =>
              rw [isRest] at ok
              cases ok
          | ok rest =>
              rw [isRest] at ok
              cases ok
              intro item member
              rcases List.mem_cons.mp member with rfl | inRest
              · exact ⟨number, line, List.mem_cons_self, parsed⟩
              · exact later isRest item inRest

theorem readFrom_print (lawful : format.Lawful blank writable)
    {items : List Item} (fine : ∀ item ∈ items, writable item)
    (number : Nat) :
    format.readFrom blank number (items.map format.print) = .ok items := by
  induction items generalizing number with
  | nil => rfl
  | cons item items induction =>
      have first := fine item List.mem_cons_self
      rw [List.map_cons, readFrom,
        (lawful.print_trimmed item first).trim_eq,
        if_neg (by simpa using lawful.print_nonempty item first),
        lawful.parse_print item first,
        induction fun other member =>
          fine other (List.mem_cons_of_mem _ member)]
      rfl

/-- A list of items comes back from its lines exactly when each of them is
writable. -/
theorem read_write_iff (lawful : format.Lawful blank writable)
    (carriage : blank '\r' = true) (items : List Item) :
    format.read blank (format.write items) = .ok items ↔
      ∀ item ∈ items, writable item := by
  constructor
  · intro ok item member
    obtain ⟨number, line, inside, parsed⟩ := readFrom_ok ok item member
    have single := singleLine_of_mem_lines inside
    exact lawful.writable_of_parse number _ item
      (fun feed => single (mem_of_mem_trim feed)) (trimmed_trim line) parsed
  · intro fine
    have same : lines (format.write items) = items.map format.print := by
      refine lines_joinLines ?_ ?_ ?_
      all_goals
        intro line member
        obtain ⟨item, inside, rfl⟩ := List.mem_map.mp member
      · exact lawful.print_single item (fine item inside)
      · exact lawful.print_nonempty item (fine item inside)
      · intro isLast
        have notBlank :=
          (lawful.print_trimmed item (fine item inside)).last '\r' isLast
        cases carriage.symm.trans notBlank
    rw [read, same]
    exact readFrom_print lawful fine 1

end LineFormat

end Text
