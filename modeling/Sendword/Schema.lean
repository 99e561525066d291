import Sendword.Config
import Sendword.Payload

/-!
# Payload schemas

A schema lists fields by their paths.  Validation collects one error for
every field that is missing or has another type.
-/

namespace Sendword

def FieldType.matchesValue : FieldType → Json → Bool
  | .string, .string _
  | .number, .number _
  | .boolean, .bool _
  | .object, .object _
  | .array, .array _ => true
  | _, _ => false

/-- The `Display` of a field type. -/
def FieldType.display : FieldType → String
  | .string => "string"
  | .number => "number"
  | .boolean => "boolean"
  | .object => "object"
  | .array => "array"

/-- The JSON type name for a value (for error messages). -/
def jsonTypeName : Json → String
  | .null => "null"
  | .bool _ => "boolean"
  | .number _ => "number"
  | .string _ => "string"
  | .array _ => "array"
  | .object _ => "object"

structure FieldValidationError where
  field : String
  message : String
  deriving DecidableEq, Repr

/-- The error of one field, if it has one. -/
def PayloadField.error (payload : Json) (field : PayloadField) :
    Option FieldValidationError :=
  let name := field.name
  let expected := field.fieldType.display
  match resolveField payload name.toList with
  | none
  | some .null =>
      if field.required then
        some { field := name, message := s!"required field '{name}' is missing" }
      else none
  | some value =>
      if field.fieldType.matchesValue value then none
      else some
        { field := name
          message := s!"field '{name}' expected type {expected}, " ++
            s!"got {jsonTypeName value}" }

/-- Validate a JSON value against a schema, with all errors. -/
def PayloadSchema.validate (schema : PayloadSchema) (payload : Json) :
    Except (List FieldValidationError) Unit :=
  let errors := schema.fields.filterMap (PayloadField.error payload)
  if errors.isEmpty then .ok () else .error errors

variable {schema : PayloadSchema} {payload : Json} {field : PayloadField}

theorem error_eq_none
    (accepted : schema.validate payload = .ok ())
    (listed : field ∈ schema.fields) : field.error payload = none := by
  unfold PayloadSchema.validate at accepted
  by_cases empty : schema.fields.filterMap (PayloadField.error payload) = []
  · exact List.filterMap_eq_nil_iff.mp empty field listed
  · have some : (schema.fields.filterMap
        (PayloadField.error payload)).isEmpty = false := by simpa using empty
    simp [some] at accepted

/-- A required field of an accepted payload has a value of its type. -/
theorem exists_value_of_required
    (accepted : schema.validate payload = .ok ())
    (listed : field ∈ schema.fields) (required : field.required = true) :
    ∃ value, resolveField payload field.name.toList = some value ∧
      field.fieldType.matchesValue value = true := by
  have noError := error_eq_none accepted listed
  unfold PayloadField.error at noError
  dsimp only at noError
  split at noError
  · simp [required] at noError
  · simp [required] at noError
  · rename_i value _ resolved
    refine ⟨value, resolved, ?_⟩
    cases matching : field.fieldType.matchesValue value with
    | true => rfl
    | false => simp [matching] at noError

/-- Every error names the field it is about. -/
theorem field_of_mem_errors {errors : List FieldValidationError}
    {error : FieldValidationError}
    (refused : schema.validate payload = .error errors)
    (member : error ∈ errors) :
    ∃ field ∈ schema.fields, error.field = field.name := by
  unfold PayloadSchema.validate at refused
  dsimp only at refused
  split at refused
  · cases refused
  · cases refused
    obtain ⟨field, listed, isError⟩ := List.mem_filterMap.mp member
    refine ⟨field, listed, ?_⟩
    unfold PayloadField.error at isError
    dsimp only at isError
    split at isError
    · split at isError
      · cases isError
        rfl
      · cases isError
    · split at isError
      · cases isError
        rfl
      · cases isError
    · split at isError
      · cases isError
      · cases isError
        rfl

end Sendword
