import Mathlib.Tactic.ByContra
import Sendword.Fields
import Sendword.Shell.Quoting

/-!
# Payload values inside shell commands

When the values of a payload, put into a command template, can change the
words, operators and expansions that `sh` reads.
-/

namespace Sendword

open Shell

/-! ## Interpolation -/

theorem shellEscape_eq (value : List Char) :
    shellEscape value = quote value := by
  have body : (value.flatMap fun char =>
      if char = '\'' then ['\'', '\\', '\'', '\''] else [char]) =
      value.flatMap quoteChar := rfl
  unfold shellEscape
  split
  · rw [body]
    rfl
  · rename_i unquoted
    have same : value.flatMap quoteChar = value := by
      clear body
      induction value with
      | nil => rfl
      | cons char value induction =>
          simp only [List.contains_cons, Bool.or_eq_true, beq_iff_eq,
            not_or] at unquoted
          have other : quoteChar char = [char] :=
            if_neg (Ne.symm unquoted.1)
          rw [List.flatMap_cons, other, induction unquoted.2]
          rfl
    rw [quote, same]
    rfl

namespace WordClass

variable (words : WordClass)

theorem placeholder?_eq_none {char : Char} {rest : List Char}
    (noBraces : containsBraces (char :: rest) = false) :
    words.placeholder? (char :: rest) = none := by
  unfold placeholder?
  split
  · rename_i braces
    rw [braces] at noBraces
    cases noBraces
  · rfl

theorem segmentsWithin_of_noBraces {template : List Char}
    (noBraces : containsBraces template = false) {fuel : Nat}
    (enough : template.length ≤ fuel) :
    words.segmentsWithin fuel template = template.map .text := by
  induction template generalizing fuel with
  | nil => cases fuel <;> rfl
  | cons char rest induction =>
      cases fuel with
      | zero => cases enough
      | succ fuel =>
          have later : containsBraces rest = false := by
            unfold containsBraces at noBraces
            split at noBraces
            · cases noBraces
            · rename_i same
              cases same
              exact noBraces
            · rename_i empty
              cases empty
          rw [segmentsWithin, placeholder?_eq_none words noBraces,
            List.map_cons]
          exact congrArg _
            (induction later (Nat.le_of_succ_le_succ enough))

end WordClass

theorem interpolateCommand_eq (words : WordClass) (template : List Char)
    (payload : Json) :
    interpolateCommand words template payload =
      (words.segments template).flatMap (Segment.replace payload) := by
  unfold interpolateCommand
  split
  · rfl
  · rename_i noBraces
    rw [Bool.not_eq_true] at noBraces
    rw [WordClass.segments,
      words.segmentsWithin_of_noBraces noBraces (Nat.le_refl _)]
    simp [List.flatMap_map, Segment.replace]

/-! ## Placeholders and their fields -/

def Segment.path? : Segment → Option (List Char)
  | .text _ => none
  | .placeholder _ path => some path

/-- The field paths of a template's placeholders. -/
def placeholders (words : WordClass) (template : List Char) :
    List (List Char) :=
  (words.segments template).filterMap Segment.path?

/-- The same placeholders resolve. -/
def SameFields (words : WordClass) (template : List Char)
    (payload other : Json) : Prop :=
  ∀ path ∈ placeholders words template,
    (resolveField payload path).isSome = (resolveField other path).isSome

/-- No value that the template uses contains NUL. -/
def NulFree (words : WordClass) (template : List Char) (payload : Json) :
    Prop :=
  ∀ path ∈ placeholders words template, ∀ value,
    resolveField payload path = some value →
      Char.ofNat 0 ∉ valueToString value

/-- The placeholder resolves to an object, because another one resolves to a
field below it. -/
def compound (words : WordClass) (template : List Char) (payload : Json)
    (path : List Char) : Bool :=
  (placeholders words template).any fun other =>
    (resolveField payload other).isSome &&
      ((fieldKeys path).isPrefixOf (fieldKeys other) &&
        fieldKeys path != fieldKeys other)

/-- Every placeholder that resolves stands in plain command text, or in a
comment if its value is an object.  On the way each of them counts as an
empty quoted value. -/
def placedFrom (resolves compound : List Char → Bool) :
    Shell.State → List Segment → Bool
  | _, [] => true
  | state, .text char :: rest =>
      placedFrom resolves compound (state.read [char]).2 rest
  | state, .placeholder raw path :: rest =>
      if resolves path then
        (state.plain || state.mode == .comment && compound path) &&
          placedFrom resolves compound (state.read (quote [])).2 rest
      else placedFrom resolves compound (state.read raw).2 rest

def Placed (words : WordClass) (template : List Char) (payload : Json) :
    Prop :=
  placedFrom (fun path => (resolveField payload path).isSome)
    (compound words template payload) {} (words.segments template) = true

instance (words : WordClass) (template : List Char) (payload : Json) :
    Decidable (Placed words template payload) :=
  inferInstanceAs (Decidable (placedFrom _ _ _ _ = true))

/-! ## Values in plain text -/

section Placed

variable {resolves compound : List Char → Bool} {payload : Json}

/-- A template with empty values. -/
def Segment.blank (resolves : List Char → Bool) : Segment → List Char
  | .text char => [char]
  | .placeholder raw path => if resolves path then quote [] else raw

theorem placedFrom_append (before after : List Segment)
    (state : Shell.State) :
    placedFrom resolves compound state (before ++ after) =
      (placedFrom resolves compound state before &&
        placedFrom resolves compound
          (state.read (before.flatMap (Segment.blank resolves))).2 after) := by
  induction before generalizing state with
  | nil => rfl
  | cons segment before induction =>
      cases segment with
      | text char =>
          rw [List.cons_append, placedFrom, placedFrom, induction,
            List.flatMap_cons, State.read_append]
          rfl
      | placeholder raw path =>
          rw [List.cons_append, placedFrom, placedFrom, List.flatMap_cons,
            State.read_append, Segment.blank]
          split <;> simp [induction, Bool.and_assoc]

/-- One value in a good place reads like an empty one. -/
theorem read_replace {state : Shell.State} {segment : Segment}
    (sameFields : ∀ path, segment.path? = some path →
      (resolveField payload path).isSome = resolves path)
    (oneLine : ∀ path value, segment.path? = some path →
      compound path = true → resolveField payload path = some value →
      '\n' ∉ valueToString value)
    (placed : placedFrom resolves compound state [segment] = true) :
    state.read (segment.replace payload) =
      state.read (segment.blank resolves) := by
  cases segment with
  | text char => rfl
  | placeholder raw path =>
      have same := sameFields path rfl
      simp only [Segment.replace, Segment.blank]
      cases found : resolveField payload path with
      | none =>
          have unresolved : resolves path = false := by
            rw [← same, found]
            rfl
          simp [unresolved]
      | some value =>
          have resolved : resolves path = true := by
            rw [← same, found]
            rfl
          rw [placedFrom, if_pos resolved] at placed
          simp only [placedFrom, Bool.and_true, Bool.or_eq_true,
            Bool.and_eq_true, beq_iff_eq] at placed
          simp only [resolved, if_true, shellEscape_eq]
          rcases placed with plain | ⟨comment, isCompound⟩
          · exact State.read_quote_plain plain _
          · have absent := oneLine path value rfl isCompound found
            have silent (text : List Char) (inside : '\n' ∉ text) :
                state.read (quote text) = ([], state) :=
              State.read_comment comment
                (State.not_mem_quote (by decide) (by decide) inside)
            rw [silent _ absent, silent [] (by simp)]

/-- Values in good places read like empty ones. -/
theorem read_placed {segments : List Segment} {state : Shell.State}
    (sameFields : ∀ path ∈ segments.filterMap Segment.path?,
      (resolveField payload path).isSome = resolves path)
    (oneLine : ∀ path ∈ segments.filterMap Segment.path?, ∀ value,
      compound path = true → resolveField payload path = some value →
      '\n' ∉ valueToString value)
    (placed : placedFrom resolves compound state segments = true) :
    state.read (segments.flatMap (Segment.replace payload)) =
      state.read (segments.flatMap (Segment.blank resolves)) := by
  induction segments generalizing state with
  | nil => rfl
  | cons segment segments induction =>
      have known (path : List Char) (named : segment.path? = some path) :
          path ∈ (segment :: segments).filterMap Segment.path? :=
        List.mem_filterMap.mpr ⟨segment, by simp, named⟩
      have later (path : List Char)
          (member : path ∈ segments.filterMap Segment.path?) :
          path ∈ (segment :: segments).filterMap Segment.path? := by
        obtain ⟨other, inRest, named⟩ := List.mem_filterMap.mp member
        exact List.mem_filterMap.mpr ⟨other, by simp [inRest], named⟩
      have parts : placedFrom resolves compound state
          ([segment] ++ segments) = true := placed
      rw [placedFrom_append, Bool.and_eq_true] at parts
      have blank : [segment].flatMap (Segment.blank resolves) =
          segment.blank resolves := by simp
      rw [blank] at parts
      have first : state.read (segment.replace payload) =
          state.read (segment.blank resolves) := by
        refine read_replace ?_ ?_ parts.1
        · intro path named
          exact sameFields path (known path named)
        · intro path value named
          exact oneLine path (known path named) value
      have rest := induction
        (fun path member => sameFields path (later path member))
        (fun path member => oneLine path (later path member)) parts.2
      rw [List.flatMap_cons, List.flatMap_cons, State.read_append,
        State.read_append, first, rest]

/-- The first placeholder in a bad place. -/
theorem misplaced {segments : List Segment} {state : Shell.State}
    (bad : placedFrom resolves compound state segments = false) :
    ∃ before raw path after,
      segments = before ++ .placeholder raw path :: after ∧
        placedFrom resolves compound state before = true ∧
        resolves path = true ∧
        (state.read (before.flatMap (Segment.blank resolves))).2.plain =
          false ∧
        ((state.read (before.flatMap (Segment.blank resolves))).2.mode =
          .comment → compound path = false) := by
  induction segments generalizing state with
  | nil => cases bad
  | cons segment segments induction =>
      by_cases here : placedFrom resolves compound state [segment] = true
      · have parts : placedFrom resolves compound state
            ([segment] ++ segments) = false := bad
        have blank : [segment].flatMap (Segment.blank resolves) =
            segment.blank resolves := by simp
        rw [placedFrom_append, here, Bool.true_and, blank] at parts
        obtain ⟨before, raw, path, after, rfl, placed, resolved, notPlain,
          notCompound⟩ := induction parts
        refine ⟨segment :: before, raw, path, after, rfl, ?_, resolved, ?_,
          ?_⟩
        · have joined : placedFrom resolves compound state
              ([segment] ++ before) = true := by
            rw [placedFrom_append, here, blank, placed]
            rfl
          exact joined
        · rw [List.flatMap_cons, State.read_append]
          exact notPlain
        · rw [List.flatMap_cons, State.read_append]
          exact notCompound
      · cases segment with
        | text char => exact (here rfl).elim
        | placeholder raw path =>
            by_cases resolved : resolves path = true
            · simp only [placedFrom, if_pos resolved, Bool.and_true,
                Bool.or_eq_true, Bool.and_eq_true, beq_iff_eq, not_or,
                not_and, Bool.not_eq_true] at here
              exact ⟨[], raw, path, segments, rfl, rfl, resolved, here⟩
            · simp [placedFrom, resolved] at here

end Placed

/-! ## Two payloads that can be told apart -/

theorem placeholder?_path {words : WordClass}
    {text raw path rest : List Char}
    (found : words.placeholder? text = some (raw, path, rest)) :
    ∀ char ∈ path, words.isPath char = true := by
  unfold WordClass.placeholder? at found
  split at found
  · dsimp only at found
    split at found
    · simp only [Option.some.injEq, Prod.mk.injEq] at found
      obtain ⟨-, rfl, -⟩ := found
      intro char member
      exact List.all_eq_true.mp List.all_takeWhile char member
    · cases found
  · cases found

theorem path_of_placeholders {words : WordClass} {template path : List Char}
    (member : path ∈ placeholders words template) :
    ∀ char ∈ path, words.isPath char = true := by
  have within (fuel : Nat) (text : List Char) :
      ∀ segment ∈ words.segmentsWithin fuel text,
        segment.path? = some path →
        ∀ char ∈ path, words.isPath char = true := by
    induction fuel generalizing text with
    | zero => simp [WordClass.segmentsWithin]
    | succ fuel induction =>
        intro segment inside named
        cases text with
        | nil => simp [WordClass.segmentsWithin] at inside
        | cons char rest =>
            rw [WordClass.segmentsWithin] at inside
            split at inside
            · rename_i raw own after found
              rcases List.mem_cons.mp inside with rfl | later
              · cases named
                exact placeholder?_path found
              · exact induction after segment later named
            · rcases List.mem_cons.mp inside with rfl | later
              · cases named
              · exact induction rest segment later named
  obtain ⟨segment, inside, named⟩ := List.mem_filterMap.mp member
  exact within _ _ segment inside named

theorem mem_of_mem_splitDots {path piece : List Char}
    (member : piece ∈ splitDots path) : ∀ char ∈ piece, char ∈ path := by
  unfold splitDots List.splitOn at member
  induction path generalizing piece with
  | nil =>
      obtain rfl : piece = [] := by simpa using member
      simp
  | cons first path induction =>
      rw [List.splitOnP_cons_eq_if_modifyHead] at member
      intro char inside
      split at member
      · rcases List.mem_cons.mp member with rfl | later
        · cases inside
        · exact List.mem_cons_of_mem _ (induction later char inside)
      · cases pieces : path.splitOnP (· == '.') with
        | nil =>
            rw [pieces] at member
            cases member
        | cons head pieces' =>
            rw [pieces, List.modifyHead_cons] at member
            rcases List.mem_cons.mp member with rfl | later
            · rcases List.mem_cons.mp inside with rfl | inHead
              · exact List.mem_cons_self
              · have known := induction (pieces ▸ List.mem_cons_self) char
                  inHead
                exact List.mem_cons_of_mem _ known
            · have known := induction
                (pieces ▸ List.mem_cons_of_mem _ later) char inside
              exact List.mem_cons_of_mem _ known

/-- A key that no field path can name. -/
def hiddenKey (letter : Char) : String := String.ofList ['$', letter]

theorem fieldKeys_ne_hidden {words : WordClass} {template path : List Char}
    (member : path ∈ placeholders words template) (letter : Char) :
    ∀ key ∈ fieldKeys path, key ≠ hiddenKey letter := by
  rintro key inKeys rfl
  obtain ⟨piece, inPieces, same⟩ := List.mem_map.mp inKeys
  have piece_eq : piece = ['$', letter] := by
    simpa [hiddenKey] using congrArg String.toList same
  have dollar := path_of_placeholders member '$'
    (mem_of_mem_splitDots inPieces '$' (by simp [piece_eq]))
  have noWord : words.isWord '$' = false := words.ascii '$' (by decide)
  simp [WordClass.isPath, noWord] at dollar

/-- An object with a hidden key in front of the fields of a value. -/
def marked (letter : Char) (old : Json) : Json :=
  .object ((hiddenKey letter, .null) ::
    old.entries.filter fun entry => entry.1 != hiddenKey letter)

private theorem lookup_filter {entries : List (String × Json)}
    {key hidden : String} (other : key ≠ hidden) :
    (entries.filter fun entry => entry.1 != hidden).lookup key =
      entries.lookup key := by
  induction entries with
  | nil => rfl
  | cons entry entries induction =>
      obtain ⟨name, value⟩ := entry
      by_cases same : name = hidden
      · subst same
        have differs : (key == name) = false := by simpa using other
        simp [List.lookup_cons, differs, induction]
      · simp [same, List.lookup_cons, induction]

theorem walk_marked {keys : List String} {letter : Char} (old : Json)
    (nonempty : keys ≠ []) (visible : ∀ key ∈ keys, key ≠ hiddenKey letter) :
    (marked letter old).walk keys = old.walk keys := by
  cases keys with
  | nil => exact (nonempty rfl).elim
  | cons key keys =>
      have other := visible key (by simp)
      have differs : (key == hiddenKey letter) = false := by simpa using other
      rw [Json.walk_cons, Json.walk_cons, Json.get?_eq_lookup,
        Json.get?_eq_lookup old, marked, Json.entries]
      simp only [List.lookup_cons, differs]
      rw [lookup_filter other]

theorem valueToString_marked (letter : Char) (old : Json)
    (ordinary : Json.escapeChar letter = [letter]) :
    ∃ rest, valueToString (marked letter old) =
      '{' :: '"' :: '$' :: letter :: rest := by
  have key : Json.renderString (hiddenKey letter) =
      ['"', '$', letter, '"'] := by
    simp [Json.renderString, hiddenKey, ordinary,
      show Json.escapeChar '$' = ['$'] from by decide]
  have text : valueToString (marked letter old) =
      '{' :: (Json.renderEntries ((hiddenKey letter, .null) ::
        old.entries.filter fun entry => entry.1 != hiddenKey letter) ++
          ['}']) := by
    simp [valueToString, marked, Json.render]
  rw [text]
  cases old.entries.filter fun entry => entry.1 != hiddenKey letter with
  | nil =>
      simp only [Json.renderEntries, key, List.cons_append]
      exact ⟨_, rfl⟩
  | cons entry entries =>
      simp only [Json.renderEntries, key, List.cons_append]
      exact ⟨_, rfl⟩

/-- A payload with another value for one of the fields. -/
theorem replaced {words : WordClass} {template path : List Char}
    {payload old new : Json} (clean : NulFree words template payload)
    (found : payload.walk (fieldKeys path) = some old)
    (below : ∀ other ∈ placeholders words template, ∀ more,
      fieldKeys other = fieldKeys path ++ more → more ≠ [] →
      new.walk more = old.walk more)
    (cleanNew : Char.ofNat 0 ∉ valueToString new) :
    SameFields words template payload
        (Json.set new (fieldKeys path) payload) ∧
      NulFree words template (Json.set new (fieldKeys path) payload) := by
  have cases (other : List Char)
      (member : other ∈ placeholders words template) :
      (resolveField payload other).isSome = (resolveField
          (Json.set new (fieldKeys path) payload) other).isSome ∧
        ∀ value, resolveField (Json.set new (fieldKeys path) payload) other =
          some value → Char.ofNat 0 ∉ valueToString value := by
    have cleanOld := clean other member
    rw [resolveField_eq] at cleanOld ⊢
    rw [resolveField_eq]
    by_cases inside : fieldKeys path <+: fieldKeys other
    · obtain ⟨more, same⟩ := inside
      rw [← same, Json.walk_append, found] at cleanOld
      rw [← same, Json.walk_set new found, Json.walk_append, found]
      by_cases here : more = []
      · subst here
        refine ⟨rfl, ?_⟩
        rintro value ⟨rfl⟩
        exact cleanNew
      · rw [below other member more same.symm here]
        exact ⟨rfl, cleanOld⟩
    · rcases Json.walk_set_other new found inside with same |
        ⟨before, after, foundBefore, foundAfter⟩
      · rw [same]
        exact ⟨rfl, cleanOld⟩
      · rw [foundBefore, foundAfter]
        refine ⟨rfl, ?_⟩
        rintro value ⟨rfl⟩
        exact (Json.printed_render (.object after)).not_mem (by decide)
  exact ⟨fun other member => (cases other member).1,
    fun other member => (cases other member).2⟩

/-- The value of a compound placeholder is an object, on one line. -/
theorem oneLine_of_compound {words : WordClass} {template path : List Char}
    {payload other value : Json}
    (same : SameFields words template payload other)
    (isCompound : compound words template payload path = true)
    (found : resolveField other path = some value) :
    '\n' ∉ valueToString value := by
  obtain ⟨deeper, member, below⟩ := List.any_eq_true.mp isCompound
  simp only [Bool.and_eq_true, List.isPrefixOf_iff_prefix, bne_iff_ne]
    at below
  obtain ⟨resolved, ⟨more, keys⟩, different⟩ := below
  rw [same deeper member, resolveField_eq, ← keys, Json.walk_append,
    ← resolveField_eq, found] at resolved
  cases more with
  | nil => exact (different (by simpa using keys)).elim
  | cons key more =>
      obtain ⟨last, lastFound⟩ := Option.isSome_iff_exists.mp resolved
      rw [Option.bind_some, Json.walk_cons] at lastFound
      obtain ⟨inner, innerFound, -⟩ :=
        Option.bind_eq_some_iff.mp lastFound
      obtain ⟨entries, rfl⟩ := Json.object_of_get? innerFound
      exact (Json.printed_render (.object entries)).not_mem (by decide)

/-- In a bad place two values can be told apart by one letter. -/
theorem rivals {words : WordClass} {template path : List Char}
    {payload old : Json} {state : Shell.State}
    (found : payload.walk (fieldKeys path) = some old)
    (notPlain : state.plain = false)
    (notCompound : state.mode = .comment →
      compound words template payload path = false) :
    ∃ (common : List Char) (value : Char → Json),
      (state.read common).2.tells = true ∧
        ∀ letter, letter = 'a' ∨ letter = 'b' →
          (∃ rest, quote (valueToString (value letter)) =
            common ++ letter :: rest) ∧
          (∀ other ∈ placeholders words template, ∀ more,
            fieldKeys other = fieldKeys path ++ more → more ≠ [] →
            (value letter).walk more = old.walk more) ∧
          Char.ofNat 0 ∉ valueToString (value letter) := by
  by_cases comment : state.mode = .comment
  · refine ⟨State.openingLine,
      fun letter => .string (String.ofList ['\n', '$', letter]),
      State.read_openingLine comment, ?_⟩
    intro letter isLetter
    refine ⟨?_, ?_, ?_⟩
    · rcases isLetter with rfl | rfl <;> exact ⟨_, rfl⟩
    · intro other otherMember more keys nonempty
      have unresolved : old.walk more = none := by
        by_contra resolved
        have alone := notCompound comment
        simp only [compound, List.any_eq_false, Bool.and_eq_true,
          List.isPrefixOf_iff_prefix, bne_iff_ne, not_and] at alone
        refine alone other otherMember ?_ ⟨more, keys.symm⟩ ?_
        · rw [resolveField_eq, keys, Json.walk_append, found]
          exact Option.isSome_iff_ne_none.mpr resolved
        · rw [keys]
          simpa using nonempty.symm
      cases more with
      | nil => exact (nonempty rfl).elim
      | cons key more =>
          rw [unresolved]
          rfl
    · rcases isLetter with rfl | rfl <;> decide
  · refine ⟨State.opening, fun letter => marked letter old,
      State.read_opening notPlain comment, ?_⟩
    intro letter isLetter
    have ordinary : Json.escapeChar letter = [letter] := by
      rcases isLetter with rfl | rfl <;> decide
    have unquoted : letter ≠ '\'' := by
      rcases isLetter with rfl | rfl <;> decide
    refine ⟨?_, ?_, ?_⟩
    · obtain ⟨rest, text⟩ := valueToString_marked letter old ordinary
      refine ⟨rest.flatMap quoteChar ++ ['\''], ?_⟩
      simp [text, quote, State.opening, unquoted, quoteChar]
    · intro other otherMember more keys nonempty
      refine walk_marked old nonempty fun key inMore => ?_
      refine fieldKeys_ne_hidden otherMember letter key ?_
      rw [keys]
      exact List.mem_append_right _ inMore
    · exact (Json.printed_render (marked letter old)).not_mem (by decide)

/-- A payload with one field. -/
def fieldPayload (value : String) : Json := .object [("x", .string value)]

def plainTemplate : List Char := "echo {{x}} # {{y}}".toList

def quotedTemplate : List Char := "echo \"{{x}}\"".toList

theorem nulFree_of_field {template : List Char} {value : String}
    (only : placeholders .asciiOnly template ⊆ [['x'], ['y']])
    (clean : Char.ofNat 0 ∉ value.toList) :
    NulFree .asciiOnly template (fieldPayload value) := by
  intro path member found resolved
  have named := only member
  simp only [List.mem_cons, List.not_mem_nil, or_false] at named
  rcases named with rfl | rfl
  · obtain rfl : Json.string value = found := Option.some.inj resolved
    exact clean
  · cases resolved

/-- The `)` behind a pattern of a `case` does not end the substitution. -/
example : Placed .asciiOnly
    "echo \"$(case a in a) echo {{x}};; esac)\"".toList
    (fieldPayload "a") := by
  decide

end Sendword
