import Sendword.Interpolation

/-!
# Fields of payloads

What replacing the value of one field does to the others, and the characters
that the compact text of a value is made of.
-/

namespace Sendword

namespace Json

/-- The value below a list of keys. -/
def walk (root : Json) (keys : List String) : Option Json :=
  keys.foldlM get? root

@[simp] theorem walk_nil (root : Json) : root.walk [] = some root := rfl

@[simp] theorem walk_cons (root : Json) (key : String)
    (keys : List String) :
    root.walk (key :: keys) = (root.get? key).bind (·.walk keys) := rfl

theorem walk_append (root : Json) (first second : List String) :
    root.walk (first ++ second) =
      (root.walk first).bind (·.walk second) :=
  List.foldlM_append

/-- The entries of an object. -/
def entries : Json → List (String × Json)
  | .object entries => entries
  | _ => []

theorem get?_eq_lookup (root : Json) (key : String) :
    root.get? key = root.entries.lookup key := by
  cases root <;> rfl

theorem object_of_get? {root value : Json} {key : String}
    (found : root.get? key = some value) :
    ∃ entries, root = .object entries := by
  cases root with
  | object entries => exact ⟨entries, rfl⟩
  | null | bool | number | string | array => cases found

/-- Replace the value below a list of keys. -/
def set (new : Json) : List String → Json → Json
  | [], _ => new
  | key :: keys, .object entries =>
      .object (entries.map fun (name, value) =>
        (name, if name = key then set new keys value else value))
  | _ :: _, other => other

private theorem lookup_map (entries : List (String × Json)) (key : String)
    (change : String → Json → Json) :
    (entries.map fun (name, value) => (name, change name value)).lookup
        key = (entries.lookup key).map (change key) := by
  induction entries with
  | nil => rfl
  | cons entry entries induction =>
      obtain ⟨name, value⟩ := entry
      by_cases same : key = name
      · subst same
        simp
      · have differs : (key == name) = false := by simpa using same
        simp [List.lookup_cons, differs, induction]

theorem get?_set (new : Json) (key other : String) (keys : List String)
    (entries : List (String × Json)) :
    (set new (key :: keys) (.object entries)).get? other =
      ((Json.object entries).get? other).map fun value =>
        if other = key then set new keys value else value := by
  exact lookup_map entries other fun name value =>
    if name = key then set new keys value else value

/-- Below the replaced value. -/
theorem walk_set {root old : Json} (new : Json) {keys : List String}
    (found : root.walk keys = some old) (more : List String) :
    (set new keys root).walk (keys ++ more) = new.walk more := by
  induction keys generalizing root with
  | nil => rfl
  | cons key keys induction =>
      rw [walk_cons] at found
      obtain ⟨value, valueFound, rest⟩ := Option.bind_eq_some_iff.mp found
      obtain ⟨entries, rfl⟩ := object_of_get? valueFound
      rw [List.cons_append, walk_cons, get?_set, valueFound]
      simpa using induction rest

/-- Beside the replaced value nothing changes, and above it objects stay
objects. -/
theorem walk_set_other {root old : Json} (new : Json)
    {keys others : List String} (found : root.walk keys = some old)
    (outside : ¬ keys <+: others) :
    (set new keys root).walk others = root.walk others ∨
      ∃ before after, root.walk others = some (.object before) ∧
        (set new keys root).walk others = some (.object after) := by
  induction keys generalizing root others with
  | nil => exact (outside (List.nil_prefix)).elim
  | cons key keys induction =>
      rw [walk_cons] at found
      obtain ⟨value, valueFound, rest⟩ := Option.bind_eq_some_iff.mp found
      obtain ⟨entries, rfl⟩ := object_of_get? valueFound
      cases others with
      | nil => exact .inr ⟨entries, _, rfl, rfl⟩
      | cons other others =>
          rw [walk_cons, walk_cons, get?_set]
          by_cases same : other = key
          · subst same
            have deeper : ¬ keys <+: others := by
              intro isPrefix
              exact outside (List.cons_prefix_cons.mpr ⟨rfl, isPrefix⟩)
            rw [valueFound]
            simpa using induction rest deeper
          · left
            cases (Json.object entries).get? other with
            | none => rfl
            | some value => simp [same]

end Json

/-- The keys of a field path. -/
def fieldKeys (path : List Char) : List String :=
  (splitDots path).map String.ofList

theorem resolveField_eq (payload : Json) (path : List Char) :
    resolveField payload path = payload.walk (fieldKeys path) := by
  rw [resolveField, Json.walk, fieldKeys, List.foldlM_map]

/-! ## Printed values -/

/-- No character of the text is a control character. -/
def Printed (text : List Char) : Prop := ∀ char ∈ text, 32 ≤ char.toNat

instance (text : List Char) : Decidable (Printed text) :=
  List.decidableBAll (fun char : Char => 32 ≤ char.toNat) text

namespace Printed

theorem append {first second : List Char} (left : Printed first)
    (right : Printed second) : Printed (first ++ second) := by
  intro char member
  rcases List.mem_append.mp member with inFirst | inSecond
  · exact left char inFirst
  · exact right char inSecond

theorem cons {char : Char} {text : List Char} (first : 32 ≤ char.toNat)
    (rest : Printed text) : Printed (char :: text) := by
  intro other member
  rcases List.mem_cons.mp member with rfl | inRest
  · exact first
  · exact rest other inRest

theorem single {char : Char} (printed : 32 ≤ char.toNat) :
    Printed [char] := by
  intro other member
  rw [List.mem_singleton.mp member]
  exact printed

theorem not_mem {text : List Char} (printed : Printed text) {char : Char}
    (control : char.toNat < 32) : char ∉ text := by
  intro member
  have large := printed char member
  omega

end Printed

namespace Json

theorem printed_hexDigit (value : Nat) (small : value < 16) :
    32 ≤ (hexDigit value).toNat := by
  have table : ∀ digit : Fin 16, 32 ≤ (hexDigit digit).toNat := by decide
  exact table ⟨value, small⟩

theorem printed_escapeChar (char : Char) : Printed (escapeChar char) := by
  unfold escapeChar
  split
  · decide
  · split
    · decide
    · split
      · decide
      · split
        · decide
        · split
          · decide
          · split
            · decide
            · split
              · decide
              · split
                · rename_i control
                  have high : char.toNat / 16 < 16 := by omega
                  have low : char.toNat % 16 < 16 := by omega
                  have front : Printed ['\\', 'u', '0', '0'] := by decide
                  exact front.append (.cons (printed_hexDigit _ high)
                    (.single (printed_hexDigit _ low)))
                · rename_i printable
                  exact .single (by omega)

theorem printed_renderString (value : String) :
    Printed (renderString value) := by
  refine .cons (by decide) (.append ?_ (by decide))
  intro char member
  obtain ⟨source, -, inside⟩ := List.mem_flatMap.mp member
  exact printed_escapeChar source char inside

theorem printed_number (display : NumberText) :
    Printed display.text.toList := by
  intro char member
  rcases display.numeric char member with digit | sign
  · simp only [Char.isDigit, Bool.and_eq_true, decide_eq_true_eq] at digit
    have large : 48 ≤ char.val.toNat := digit.1
    exact Nat.le_trans (by decide) large
  · simp only [List.mem_cons, List.not_mem_nil, or_false] at sign
    rcases sign with rfl | rfl | rfl | rfl | rfl <;> decide

mutual

theorem printed_render (value : Json) : Printed value.render := by
  cases value with
  | null => exact (by decide : Printed "null".toList)
  | bool value =>
      cases value with
      | false => exact (by decide : Printed "false".toList)
      | true => exact (by decide : Printed "true".toList)
  | number display => exact printed_number display
  | string value => exact printed_renderString value
  | array items =>
      exact .cons (by decide) (.append (printed_items items) (by decide))
  | object entries =>
      exact .cons (by decide) (.append (printed_entries entries) (by decide))

theorem printed_items (items : List Json) : Printed (renderItems items) := by
  cases items with
  | nil => exact (by decide : Printed [])
  | cons item items =>
      cases items with
      | nil => exact printed_render item
      | cons second items =>
          exact .append (printed_render item)
            (.cons (by decide) (printed_items (second :: items)))

theorem printed_entries (entries : List (String × Json)) :
    Printed (renderEntries entries) := by
  cases entries with
  | nil => exact (by decide : Printed [])
  | cons entry entries =>
      obtain ⟨key, value⟩ := entry
      cases entries with
      | nil =>
          exact .append (printed_renderString key)
            (.cons (by decide) (printed_render value))
      | cons second entries =>
          exact .append (printed_renderString key)
            (.cons (by decide) (.append (printed_render value)
              (.cons (by decide) (printed_entries (second :: entries)))))

end

end Json

end Sendword
