import Sendword.Executor
import Sendword.Fields
import Sendword.Shell.Environment

/-!
# The environment of a script

Schemas and filters look a field up by its path; a script gets all leaves of
the payload, each in a variable whose name is made of the keys above it.
`str::to_uppercase` maps character by character, by a Unicode table that is a
parameter here.
-/

namespace Sendword

open Environment

/-! ## `executor::script` -/

/-- The prefix below a key; an empty prefix gets no point. -/
def extendPrefix (above key : String) : String :=
  if above.isEmpty then key else above ++ "." ++ key

/-- The root itself is not a field. -/
def pushLeaf (above text : String) : List (String × String) :=
  if above.isEmpty then [] else [(above, text)]

mutual

def flattenRecursive (above : String) : Json → List (String × String)
  | .object entries => flattenEntries above entries
  | .array items => flattenItems above 0 items
  | .string text => pushLeaf above text
  | .number display => pushLeaf above display.text
  | .bool value => pushLeaf above (toString value)
  | .null => []

def flattenEntries (above : String) :
    List (String × Json) → List (String × String)
  | [] => []
  | (key, value) :: entries =>
      flattenRecursive (extendPrefix above key) value ++
        flattenEntries above entries

def flattenItems (above : String) (index : Nat) :
    List Json → List (String × String)
  | [] => []
  | item :: items =>
      flattenRecursive (extendPrefix above (toString index)) item ++
        flattenItems above (index + 1) items

end

/-- Flatten a JSON value into key=value pairs for environment variables. -/
def flattenJsonFields (value : Json) : List (String × String) :=
  flattenRecursive "" value

/-- The variables of the server that a command inherits. -/
def systemEnvVars (serverEnv : String → Option String) :
    List (String × String) :=
  ["PATH", "HOME", "USER", "LANG"].filterMap fun name =>
    (serverEnv name).map fun value => (name, value)

section Command

variable (toUppercase : Char → List Char)
  (parseJson : String → Option Json)
  (serverEnv : String → Option String)
  (context : ExecutionContext)

/-- The variable of a flattened field. -/
def envKey (key : String) : String :=
  "SENDWORD_FIELD_" ++
    String.ofList ((key.toList.flatMap toUppercase).map fun char =>
      if char = '.' then '_' else char)

/-- The variables set before those of the fields. -/
def baseSettings : List (String × String) :=
  systemEnvVars serverEnv ++ context.env ++
    [("SENDWORD_EXECUTION_ID", context.executionId),
      ("SENDWORD_HOOK_SLUG", context.hookSlug),
      ("SENDWORD_PAYLOAD", context.payloadJson)]

/-- The environment that `prepare_command` gives the script. -/
def prepareCommand : List (String × String) :=
  setAll <| baseSettings serverEnv context ++
    match parseJson context.payloadJson with
    | some payload =>
        (flattenJsonFields payload).map fun (key, value) =>
          (envKey toUppercase key, value)
    | none => []

end Command

/-! ## The leaves of a payload -/

mutual

/-- The strings, numbers and booleans, below the keys and indices that lead
to them. -/
def Json.leaves : Json → List (List String × String)
  | .object entries => leavesOfEntries entries
  | .array items => leavesOfItems 0 items
  | .string text => [([], text)]
  | .number display => [([], display.text)]
  | .bool value => [([], toString value)]
  | .null => []

def leavesOfEntries : List (String × Json) → List (List String × String)
  | [] => []
  | (key, value) :: entries =>
      value.leaves.map (fun (keys, text) => (key :: keys, text)) ++
        leavesOfEntries entries

def leavesOfItems (index : Nat) :
    List Json → List (List String × String)
  | [] => []
  | item :: items =>
      item.leaves.map (fun (keys, text) => (toString index :: keys, text)) ++
        leavesOfItems (index + 1) items

end

/-- The rendering of a string, a number or a boolean. -/
def Json.leafText? : Json → Option String
  | .string text => some text
  | .number display => some display.text
  | .bool value => some (toString value)
  | .null | .array _ | .object _ => none

/-- The field that the keys spell; leading empty keys leave no trace. -/
def spelling (keys : List String) : String := keys.foldl extendPrefix ""

/-- The field of a leaf, if it has one. -/
def leafField (leaf : List String × String) : List (String × String) :=
  pushLeaf (spelling leaf.1) leaf.2

section Flattening

variable (above : String)

private def fieldBelow (leaf : List String × String) :
    List (String × String) :=
  pushLeaf (leaf.1.foldl extendPrefix above) leaf.2

private theorem fieldBelow_cons (key : String)
    (leaves : List (List String × String)) :
    (leaves.map fun (keys, text) => (key :: keys, text)).flatMap
        (fieldBelow above) =
      leaves.flatMap (fieldBelow (extendPrefix above key)) := by
  rw [List.flatMap_map]
  rfl

mutual

theorem flattenRecursive_eq (above : String) (value : Json) :
    flattenRecursive above value =
      value.leaves.flatMap (fieldBelow above) := by
  cases value with
  | null => rfl
  | bool value => exact (List.append_nil _).symm
  | number display => exact (List.append_nil _).symm
  | string text => exact (List.append_nil _).symm
  | array items => exact flattenItems_eq above 0 items
  | object entries => exact flattenEntries_eq above entries

theorem flattenEntries_eq (above : String) (entries : List (String × Json)) :
    flattenEntries above entries =
      (leavesOfEntries entries).flatMap (fieldBelow above) := by
  cases entries with
  | nil => rfl
  | cons entry entries =>
      obtain ⟨key, value⟩ := entry
      unfold flattenEntries leavesOfEntries
      rw [List.flatMap_append, fieldBelow_cons,
        flattenRecursive_eq _ value, flattenEntries_eq above entries]

theorem flattenItems_eq (above : String) (index : Nat) (items : List Json) :
    flattenItems above index items =
      (leavesOfItems index items).flatMap (fieldBelow above) := by
  cases items with
  | nil => rfl
  | cons item items =>
      unfold flattenItems leavesOfItems
      rw [List.flatMap_append, fieldBelow_cons,
        flattenRecursive_eq _ item, flattenItems_eq above _ items]

end

end Flattening

/-- The flattened fields are those of the leaves. -/
theorem flattenJsonFields_eq (payload : Json) :
    flattenJsonFields payload = payload.leaves.flatMap leafField :=
  flattenRecursive_eq "" payload

theorem mem_leavesOfEntries {entries : List (String × Json)} {key : String}
    {value : Json} {keys : List String} {text : String}
    (found : entries.lookup key = some value)
    (leaf : (keys, text) ∈ value.leaves) :
    (key :: keys, text) ∈ leavesOfEntries entries := by
  induction entries with
  | nil => cases found
  | cons entry entries induction =>
      obtain ⟨name, other⟩ := entry
      unfold leavesOfEntries
      rw [List.lookup_cons] at found
      by_cases same : key = name
      · subst same
        rw [beq_self_eq_true] at found
        cases found
        exact List.mem_append_left _ (List.mem_map.mpr ⟨_, leaf, rfl⟩)
      · have differs : (key == name) = false := by simpa using same
        rw [differs] at found
        exact List.mem_append_right _ (induction found)

/-- A value that is looked up is a leaf of the payload. -/
theorem mem_leaves {root value : Json} {keys : List String} {text : String}
    (found : root.walk keys = some value)
    (leaf : value.leafText? = some text) : (keys, text) ∈ root.leaves := by
  induction keys generalizing root with
  | nil =>
      rw [Json.walk_nil] at found
      cases found
      cases value with
      | null | array | object => cases leaf
      | string | number | bool =>
          cases leaf
          exact List.mem_singleton.mpr rfl
  | cons key keys induction =>
      rw [Json.walk_cons] at found
      obtain ⟨below, isBelow, rest⟩ := Option.bind_eq_some_iff.mp found
      obtain ⟨entries, rfl⟩ := Json.object_of_get? isBelow
      exact mem_leavesOfEntries isBelow (induction rest)

/-! ## Fields and their paths -/

theorem foldl_extendPrefix {above : String} (inside : above ≠ "")
    (keys : List String) :
    (keys.foldl extendPrefix above).toList =
      above.toList ++ keys.flatMap fun key => '.' :: key.toList := by
  induction keys generalizing above with
  | nil => simp
  | cons key keys induction =>
      have extended : extendPrefix above key = above ++ "." ++ key := by
        unfold extendPrefix
        rw [if_neg (by simpa using inside)]
      have longer : above ++ "." ++ key ≠ "" := by simp
      rw [List.foldl_cons, extended, induction longer]
      simp

theorem intercalate_point (first : List Char) (rest : List (List Char)) :
    ['.'].intercalate (first :: rest) =
      first ++ rest.flatMap fun piece => '.' :: piece := by
  induction rest generalizing first with
  | nil => simp
  | cons second rest induction =>
      rw [List.intercalate_cons_cons, induction second]
      simp

/-- A path that starts with a key is the field of its leaf. -/
theorem spelling_fieldKeys {path : String} {first : Char}
    (starts : path.toList.head? = some first) (isKey : first ≠ '.') :
    spelling (fieldKeys path.toList) = path := by
  obtain ⟨piece, pieces, split⟩ :=
    List.exists_cons_of_ne_nil (List.splitOn_ne_nil '.' path.toList)
  have whole : piece ++ pieces.flatMap (fun piece => '.' :: piece) =
      path.toList := by
    rw [← intercalate_point, ← split, List.intercalate_splitOn]
  have inside : String.ofList piece ≠ "" := by
    intro empty
    have none : piece = [] := by simpa using empty
    subst none
    rw [← whole] at starts
    cases pieces with
    | nil => cases starts
    | cons second pieces => exact isKey (Option.some.inj starts).symm
  apply String.toList_inj.mp
  unfold spelling fieldKeys splitDots
  rw [split, List.map_cons, List.foldl_cons]
  have start : extendPrefix "" (String.ofList piece) = String.ofList piece :=
    rfl
  rw [start, foldl_extendPrefix inside, ← whole, List.flatMap_map]
  simp

/-! ## What a script reads -/

section Script

variable (toUppercase : Char → List Char)
  (serverEnv : String → Option String)
  (context : ExecutionContext)

/-- What a script's environment is set to: the variables of the fields come
last, in the order of the payload's leaves. -/
def scriptSettings (payload : Json) : List (String × String) :=
  baseSettings serverEnv context ++
    (payload.leaves.flatMap leafField).map fun (key, value) =>
      (envKey toUppercase key, value)

/-- The variable of a path can be read and is set, no later field sets it to
another text, and no name goes on after it with an equals sign. -/
structure Undisturbed (payload : Json) (path text : String) : Prop where
  named : '=' ∉ (envKey toUppercase path).toList
  isSet : (∃ first, path.toList.head? = some first ∧ first ≠ '.') ∨
    (∃ last, Lasts (scriptSettings toUppercase serverEnv context payload)
      (envKey toUppercase path) last) ∨
    ∃ rest last, Lasts (scriptSettings toUppercase serverEnv context payload)
      (envKey toUppercase path ++ "=" ++ rest) last
  unshadowed : ∀ last,
    Lasts (scriptSettings toUppercase serverEnv context payload)
      (envKey toUppercase path) last → last = text
  uncontinued : ∀ rest last,
    Lasts (scriptSettings toUppercase serverEnv context payload)
      (envKey toUppercase path ++ "=" ++ rest) last →
        rest ++ "=" ++ last = text

variable {toUppercase serverEnv context}
  {parseJson : String → Option Json} {payload value : Json}
  {path text : String}

theorem prepareCommand_eq
    (parsed : parseJson context.payloadJson = some payload) :
    prepareCommand toUppercase parseJson serverEnv context =
      setAll (scriptSettings toUppercase serverEnv context payload) := by
  unfold prepareCommand scriptSettings
  rw [parsed, ← flattenJsonFields_eq]

/-- A field whose path starts with a key has its own setting. -/
theorem field_isSet
    (resolved : resolveField payload path.toList = some value)
    (leaf : value.leafText? = some text) {first : Char}
    (starts : path.toList.head? = some first) (isKey : first ≠ '.') :
    (envKey toUppercase path, text) ∈
      scriptSettings toUppercase serverEnv context payload := by
  rw [resolveField_eq] at resolved
  have member := mem_leaves resolved leaf
  have nonempty : path.isEmpty = false := by
    cases empty : path.isEmpty with
    | false => rfl
    | true =>
        rw [String.isEmpty_iff.mp empty] at starts
        cases starts
  refine List.mem_append_right _ (List.mem_map.mpr ⟨(path, text), ?_, rfl⟩)
  refine List.mem_flatMap.mpr ⟨_, member, ?_⟩
  unfold leafField pushLeaf
  rw [spelling_fieldKeys starts isKey, nonempty]
  exact List.mem_singleton.mpr rfl

/-- The script reads the value that was validated exactly where the variable
of its path is undisturbed. -/
theorem script_reads_iff
    (parsed : parseJson context.payloadJson = some payload)
    (resolved : resolveField payload path.toList = some value)
    (leaf : value.leafText? = some text) :
    Reads (prepareCommand toUppercase parseJson serverEnv context)
        (envKey toUppercase path).toList text.toList ↔
      Undisturbed toUppercase serverEnv context payload path text := by
  rw [prepareCommand_eq parsed]
  constructor
  · intro reads
    have named : '=' ∉ (envKey toUppercase path).toList := by
      obtain ⟨entry, -, same⟩ := List.mem_map.mp reads.1
      have plain := @not_mem_reading entry.1 entry.2
      rw [same] at plain
      exact plain
    obtain ⟨isSet, unshadowed, uncontinued⟩ := (reads_setAll named).mp reads
    exact ⟨named, .inr isSet, unshadowed, uncontinued⟩
  · intro undisturbed
    refine (reads_setAll undisturbed.named).mpr
      ⟨?_, undisturbed.unshadowed, undisturbed.uncontinued⟩
    rcases undisturbed.isSet with ⟨first, starts, isKey⟩ | isSet
    · exact .inl (exists_lasts
        ⟨text, field_isSet resolved leaf starts isKey⟩)
    · exact isSet

end Script

/-- A run of hook `deploy` with the given payload text. -/
def deployContext (payloadJson : String) : ExecutionContext where
  executionId := "1"
  hookSlug := "deploy"
  executor := .script "deploy.sh" .direct
  env := []
  cwd := none
  timeout := 30000000000
  logsDir := "data/logs"
  payloadJson := payloadJson

def asciiUppercase (char : Char) : List Char := [char.toUpper]

/-- The only field of a payload. -/
theorem script_reads_action :
    Reads (prepareCommand asciiUppercase
        (fun _ => some (.object [("action", .string "prod")]))
        (fun _ => none) (deployContext "\x7b\"action\":\"prod\"\x7d"))
        (envKey asciiUppercase "action").toList "prod".toList ↔
      Undisturbed asciiUppercase (fun _ => none)
        (deployContext "\x7b\"action\":\"prod\"\x7d")
        (.object [("action", .string "prod")]) "action" "prod" :=
  @script_reads_iff asciiUppercase _ _ _ _ (.string "prod") _ _ rfl rfl rfl

/-- A nested field and a field whose name has an underscore. -/
def shadowingPayload : Json :=
  .object [("repo", .object [("name", .string "site")]),
    ("repo_name", .string "other")]

def shadowingText : String :=
  "\x7b\"repo\":\x7b\"name\":\"site\"\x7d,\"repo_name\":\"other\"\x7d"

/-- The filters see `site`, the script reads `other`. -/
theorem not_script_reads :
    resolveField shadowingPayload "repo.name".toList =
        some (.string "site") ∧
      ¬ Reads (prepareCommand asciiUppercase
          (fun _ => some shadowingPayload) (fun _ => none)
          (deployContext shadowingText))
        (envKey asciiUppercase "repo.name").toList "site".toList := by
  refine ⟨rfl, ?_⟩
  intro reads
  exact absurd reads.1 (by decide)

end Sendword
