import Sendword.ScriptEnvironment

/-!
# The variables of a child process

A shell command and a script get the same settings; a script also gets the
fields of the payload.
-/

namespace Sendword

open Environment

/-- Who runs the child. -/
inductive ChildKind where
  | shell
  | script
  deriving DecidableEq, Repr

/-- `std::env::var`, where it succeeds: a value that is not Unicode is an
error. -/
def envVar (serverEnv : String → Option ByteArray) (name : String) :
    Option String :=
  (serverEnv name).bind String.fromUTF8?

section Child

variable (toUppercase : Char → List Char)
  (parseJson : String → Option Json)
  (serverEnv : String → Option ByteArray)

/-- The environment that `run_shell` gives the command. -/
def shellEnvironment (context : ExecutionContext) : List (String × String) :=
  setAll (baseSettings (envVar serverEnv) context)

def childEnvironment (kind : ChildKind) (context : ExecutionContext) :
    List (String × String) :=
  match kind with
  | .shell => shellEnvironment serverEnv context
  | .script => prepareCommand toUppercase parseJson (envVar serverEnv) context

/-- The settings for the fields of the payload. -/
def fieldSettings (kind : ChildKind) (context : ExecutionContext) :
    List (String × String) :=
  match kind with
  | .shell => []
  | .script =>
      match parseJson context.payloadJson with
      | some payload =>
          (flattenJsonFields payload).map fun (key, value) =>
            (envKey toUppercase key, value)
      | none => []

end Child

/-- The variables that a payload's fields may have. -/
def IsFieldName (name : String) : Prop :=
  "SENDWORD_FIELD_".toList <+: name.toList

/-- The variables that tell a child what it runs for. -/
def ownNames : List String :=
  ["SENDWORD_EXECUTION_ID", "SENDWORD_HOOK_SLUG", "SENDWORD_PAYLOAD"]

/-- The hook's value of another variable, or else the inherited one. -/
def settledVar (serverEnv : String → Option ByteArray)
    (context : ExecutionContext) (name : String) : Option String :=
  context.env.lookup name <|>
    if name ∈ ["PATH", "HOME", "USER", "LANG"] then envVar serverEnv name
    else none

variable {toUppercase : Char → List Char}
  {parseJson : String → Option Json}
  {serverEnv : String → Option ByteArray} {kind : ChildKind}
  {context : ExecutionContext} {name : String}

theorem childEnvironment_eq :
    childEnvironment toUppercase parseJson serverEnv kind context =
      setAll (baseSettings (envVar serverEnv) context ++
        fieldSettings toUppercase parseJson kind context) := by
  cases kind with
  | shell => exact congrArg setAll (List.append_nil _).symm
  | script => rfl

/-! ## The settings of a name -/

theorem isFieldName_envKey (key : String) :
    IsFieldName (envKey toUppercase key) := by
  unfold IsFieldName envKey
  rw [String.toList_append]
  exact List.prefix_append _ _

theorem isFieldName_of_mem {setting : String × String}
    (member : setting ∈ fieldSettings toUppercase parseJson kind context) :
    kind = .script ∧ IsFieldName setting.1 := by
  cases kind with
  | shell => cases member
  | script =>
      refine ⟨rfl, ?_⟩
      unfold fieldSettings at member
      cases parsed : parseJson context.payloadJson with
      | none =>
          simp only [parsed] at member
          cases member
      | some payload =>
          simp only [parsed] at member
          obtain ⟨entry, -, rfl⟩ := List.mem_map.mp member
          exact isFieldName_envKey entry.1

/-- A name that goes on to the name of a field is one itself. -/
theorem isFieldName_of_append {rest : String}
    (field : IsFieldName (name ++ "=" ++ rest)) : IsFieldName name := by
  unfold IsFieldName at field ⊢
  rw [String.toList_append, String.toList_append, List.append_assoc] at field
  have whole := List.prefix_append name.toList ("=".toList ++ rest.toList)
  rcases List.prefix_or_prefix_of_prefix field whole with inside | outside
  · exact inside
  · obtain ⟨behind, split⟩ := outside
    rw [← split, List.prefix_append_right_inj] at field
    cases behind with
    | nil =>
        rw [List.append_nil] at split
        exact split ▸ List.prefix_rfl
    | cons first behind =>
        -- the first character behind the name is the equals sign
        have isEquals : first = '=' :=
          Option.some.inj (List.prefix_iff_getElem?.mp field 0 (by simp)).symm
        have plain : '=' ∉ "SENDWORD_FIELD_".toList := by decide
        rw [← split, isEquals] at plain
        simp at plain

/-- The names of the base have no equals sign. -/
theorem plain_baseSettings
    (keys : ∀ entry ∈ context.env, '=' ∉ entry.1.toList)
    {setting : String × String}
    (member : setting ∈ baseSettings (envVar serverEnv) context) :
    '=' ∉ setting.1.toList := by
  unfold baseSettings systemEnvVars at member
  rcases List.mem_append.mp member with early | own
  · rcases List.mem_append.mp early with inherited | hook
    · obtain ⟨name, listed, found⟩ := List.mem_filterMap.mp inherited
      obtain ⟨value, -, rfl⟩ := Option.map_eq_some_iff.mp found
      have plain : ∀ name ∈ ["PATH", "HOME", "USER", "LANG"],
          '=' ∉ String.toList name := by decide
      exact plain name listed
    · exact keys setting hook
  · have plain : ∀ own ∈ [("SENDWORD_EXECUTION_ID", context.executionId),
        ("SENDWORD_HOOK_SLUG", context.hookSlug),
        ("SENDWORD_PAYLOAD", context.payloadJson)],
        '=' ∉ own.1.toList := by
      simp
    exact plain setting own

/-- What a child finds under a name that is no field. -/
theorem finds_child (keys : ∀ entry ∈ context.env, '=' ∉ entry.1.toList)
    (plain : '=' ∉ name.toList)
    (other : kind = .script → ¬ IsFieldName name) :
    Finds (childEnvironment toUppercase parseJson serverEnv kind context)
      name
      ((baseSettings (envVar serverEnv) context).reverse.lookup name) := by
  have noField : (fieldSettings toUppercase parseJson kind
      context).reverse.lookup name = none := by
    rw [List.lookup_eq_none_iff]
    intro setting member
    have field := isFieldName_of_mem (List.mem_reverse.mp member)
    rw [bne_iff_ne]
    intro same
    exact other field.1 (same ▸ field.2)
  have finds := @finds_setAll
    (baseSettings (envVar serverEnv) context ++
      fieldSettings toUppercase parseJson kind context) name plain ?_
  · rw [List.reverse_append, List.lookup_append, noField,
      Option.none_or] at finds
    rw [childEnvironment_eq]
    exact finds
  · intro rest value member
    rcases List.mem_append.mp member with base | field
    · exact plain_baseSettings keys base (by simp)
    · have isField := isFieldName_of_mem field
      exact other isField.1 (isFieldName_of_append isField.2)

/-- What the settings of the base give. -/
theorem lookup_baseSettings
    (oneValue : (context.env.map Prod.fst).Nodup) (name : String) :
    (baseSettings (envVar serverEnv) context).reverse.lookup name =
      if name = "SENDWORD_PAYLOAD" then some context.payloadJson
      else if name = "SENDWORD_HOOK_SLUG" then some context.hookSlug
      else if name = "SENDWORD_EXECUTION_ID" then some context.executionId
      else settledVar serverEnv context name := by
  have names : ((systemEnvVars (envVar serverEnv)).map Prod.fst).Nodup := by
    have listed : (systemEnvVars (envVar serverEnv)).map Prod.fst =
        ["PATH", "HOME", "USER", "LANG"].filter fun name =>
          (envVar serverEnv name).isSome := by
      unfold systemEnvVars
      rw [List.map_filterMap, ← List.filterMap_eq_filter]
      refine List.filterMap_congr fun name _ => ?_
      cases found : envVar serverEnv name with
      | none => simp [Option.guard, found]
      | some value => simp [Option.guard, found]
    rw [listed]
    exact List.Pairwise.filter _ (by decide)
  have inherited : (systemEnvVars (envVar serverEnv)).lookup name =
      if name ∈ ["PATH", "HOME", "USER", "LANG"] then envVar serverEnv name
      else none := by
    refine Option.ext fun value => ?_
    rw [lookup_eq_some_iff_mem names]
    unfold systemEnvVars
    simp only [List.mem_filterMap, Option.map_eq_some_iff, Prod.mk.injEq]
    constructor
    · rintro ⟨own, listed, found, isValue, rfl, rfl⟩
      rw [if_pos listed, isValue]
    · intro isValue
      split at isValue
      · rename_i listed
        exact ⟨name, listed, value, isValue, rfl, rfl⟩
      · cases isValue
  unfold baseSettings settledVar
  rw [List.reverse_append, List.reverse_append, List.lookup_append,
    List.lookup_append, lookup_reverse oneValue, lookup_reverse names,
    inherited]
  simp only [List.reverse_cons, List.reverse_nil, List.nil_append,
    List.cons_append, List.lookup_cons]
  by_cases isPayload : name = "SENDWORD_PAYLOAD"
  · simp [isPayload]
  · by_cases isSlug : name = "SENDWORD_HOOK_SLUG"
    · simp [isSlug]
    · by_cases isId : name = "SENDWORD_EXECUTION_ID"
      · simp [isId]
      · simp [beq_eq_false_iff_ne.mpr, isPayload, isSlug, isId]

/-- A variable of the child that is no field. -/
def childVar (serverEnv : String → Option ByteArray)
    (context : ExecutionContext) (name : String) : Option String :=
  if name = "SENDWORD_PAYLOAD" then some context.payloadJson
  else if name = "SENDWORD_HOOK_SLUG" then some context.hookSlug
  else if name = "SENDWORD_EXECUTION_ID" then some context.executionId
  else settledVar serverEnv context name

theorem finds_childVar
    (keys : ∀ entry ∈ context.env, '=' ∉ entry.1.toList)
    (oneValue : (context.env.map Prod.fst).Nodup)
    (other : kind = .script → ¬ IsFieldName name) :
    Finds (childEnvironment toUppercase parseJson serverEnv kind context)
      name (childVar serverEnv context name) := by
  by_cases equals : '=' ∈ name.toList
  · have unset : context.env.lookup name = none := by
      rw [List.lookup_eq_none_iff]
      intro entry member
      rw [bne_iff_ne]
      rintro rfl
      exact keys entry member equals
    have apart (known : String) (plain : '=' ∉ known.toList) :
        name ≠ known := fun same => plain (same ▸ equals)
    have none : childVar serverEnv context name = none := by
      unfold childVar settledVar
      rw [if_neg (apart _ (by decide)), if_neg (apart _ (by decide)),
        if_neg (apart _ (by decide)), unset, if_neg]
      · rfl
      · simp only [List.mem_cons, List.not_mem_nil, or_false, not_or]
        exact ⟨apart _ (by decide), apart _ (by decide),
          apart _ (by decide), apart _ (by decide)⟩
    rw [none]
    exact finds_equals equals
  · have finds := @finds_child toUppercase parseJson serverEnv kind context
      name keys equals other
    rw [lookup_baseSettings oneValue] at finds
    exact finds

section Apart

variable (toUppercase : Char → List Char)
  (parseJson : String → Option Json)
  (serverEnv : String → Option ByteArray) (kind : ChildKind)
  (context : ExecutionContext)

/-- The environment of the child that runs for a payload. -/
def childOf (payloadJson : String) : List (String × String) :=
  childEnvironment toUppercase parseJson serverEnv kind
    { context with payloadJson }

/-- The payload and the entries of the hook stay in their own variables. -/
structure VariablesApart : Prop where
  /-- Two payloads give the same variables, but for those of the payload. -/
  agree : ∀ payload other name, name ≠ "SENDWORD_PAYLOAD" →
    (kind = .script → ¬ IsFieldName name) → ∀ found,
      Finds (childOf toUppercase parseJson serverEnv kind context payload)
          name found ↔
        Finds (childOf toUppercase parseJson serverEnv kind context other)
          name found
  /-- What the child runs for is never changed. -/
  executionId : ∀ payload,
    Finds (childOf toUppercase parseJson serverEnv kind context payload)
      "SENDWORD_EXECUTION_ID" (some context.executionId)
  hookSlug : ∀ payload,
    Finds (childOf toUppercase parseJson serverEnv kind context payload)
      "SENDWORD_HOOK_SLUG" (some context.hookSlug)
  payload : ∀ payload,
    Finds (childOf toUppercase parseJson serverEnv kind context payload)
      "SENDWORD_PAYLOAD" (some payload)
  /-- Any other variable has the hook's value, or the inherited one. -/
  others : ∀ payload name, name ∉ ownNames →
    (kind = .script → ¬ IsFieldName name) →
      Finds (childOf toUppercase parseJson serverEnv kind context payload)
        name (settledVar serverEnv context name)

/-- The payload cannot reach the variables of the hook and of the server. -/
theorem variables_apart
    (keys : ∀ entry ∈ context.env, '=' ∉ entry.1.toList)
    (oneValue : (context.env.map Prod.fst).Nodup) :
    VariablesApart toUppercase parseJson serverEnv kind context := by
  have finds (payload name : String)
      (other : kind = .script → ¬ IsFieldName name) :
      Finds (childOf toUppercase parseJson serverEnv kind context payload)
        name (childVar serverEnv { context with payloadJson := payload }
          name) :=
    finds_childVar keys oneValue other
  have own (known : String) (plain : ¬ IsFieldName known) :
      kind = .script → ¬ IsFieldName known := fun _ => plain
  constructor
  · intro payload other name apart outside found
    have same : childVar serverEnv { context with payloadJson := payload }
        name = childVar serverEnv { context with payloadJson := other }
          name := by
      unfold childVar
      rw [if_neg apart, if_neg apart]
      rfl
    have left := finds payload name outside
    have right := finds other name outside
    rw [same] at left
    constructor
    · intro here
      rw [here.unique left]
      exact right
    · intro here
      rw [here.unique right]
      exact left
  · intro payload
    exact finds payload _ (own _ (by unfold IsFieldName; decide))
  · intro payload
    exact finds payload _ (own _ (by unfold IsFieldName; decide))
  · intro payload
    exact finds payload _ (own _ (by unfold IsFieldName; decide))
  · intro payload name apart outside
    have found := finds payload name outside
    unfold ownNames at apart
    simp only [List.mem_cons, List.not_mem_nil, or_false, not_or] at apart
    unfold childVar at found
    rw [if_neg apart.2.2, if_neg apart.2.1, if_neg apart.1] at found
    exact found

end Apart

/-- A push whose fields have names that look like settings. -/
def pushedPayload (text : String) : Option Json :=
  if text = "push" then
    some (.object [("ref", .string "main"), ("PATH=/tmp", .string "x"),
      ("repo", .object [("name", .string "site")])])
  else none

def pathEnv (name : String) : Option ByteArray :=
  if name = "PATH" then some "/usr/bin".toUTF8 else none

/-- A hook that sets two variables, on a server with a path. -/
theorem variables_apart_deploy :
    VariablesApart asciiUppercase pushedPayload pathEnv .script
      { deployContext "push" with
        env := [("STAGE", "prod"), ("HOME", "/srv")] } :=
  variables_apart asciiUppercase pushedPayload pathEnv .script
    { deployContext "push" with
      env := [("STAGE", "prod"), ("HOME", "/srv")] }
    (by decide) (by decide)

/-- A server whose path is not Unicode. -/
def unreadableEnv (name : String) : Option ByteArray :=
  if name = "PATH" then some ⟨#[47, 255]⟩ else none

/-- The child has no path then. -/
theorem path_not_inherited :
    unreadableEnv "PATH" = some ⟨#[47, 255]⟩ ∧
      (deployContext "{}").env = [] ∧
      Finds (childOf asciiUppercase (fun _ => none) unreadableEnv .shell
        (deployContext "{}") "{}") "PATH" none := by
  refine ⟨rfl, rfl, ?_⟩
  have finds := @finds_childVar asciiUppercase (fun _ => none) unreadableEnv
    .shell (deployContext "{}") "PATH" nofun List.nodup_nil nofun
  have absent : childVar unreadableEnv (deployContext "{}") "PATH" =
      none := by decide
  rwa [absent] at finds

end Sendword
