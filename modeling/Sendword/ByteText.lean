import Mathlib.Data.List.Infix

/-!
# Texts with byte offsets

A text is a list of characters, and its slices are taken at byte offsets of
its UTF-8 encoding.  An offset inside a character gives no slice.
-/

namespace ByteText

def byteLength : List Char → Nat
  | [] => 0
  | char :: text => char.utf8Size + byteLength text

/-- The text before an offset at which a character begins or the text
ends. -/
def sliceTo : List Char → Nat → Option (List Char)
  | _, 0 => some []
  | [], _ + 1 => none
  | char :: text, offset + 1 =>
      if char.utf8Size ≤ offset + 1 then
        (sliceTo text (offset + 1 - char.utf8Size)).map (char :: ·)
      else none

/-- The characters of a text that begins at an offset, with the offsets at
which they begin. -/
def charIndicesFrom (offset : Nat) : List Char → List (Nat × Char)
  | [] => []
  | char :: text =>
      (offset, char) :: charIndicesFrom (offset + char.utf8Size) text

def charIndices (text : List Char) : List (Nat × Char) :=
  charIndicesFrom 0 text

variable {text front other rest : List Char} {char : Char}

@[simp] theorem byteLength_nil : byteLength [] = 0 := rfl

@[simp] theorem byteLength_cons :
    byteLength (char :: text) = char.utf8Size + byteLength text := rfl

@[simp] theorem byteLength_append :
    byteLength (front ++ rest) = byteLength front + byteLength rest := by
  induction front with
  | nil => rw [List.nil_append, byteLength_nil, Nat.zero_add]
  | cons char front ih =>
      rw [List.cons_append, byteLength_cons, byteLength_cons, ih,
        Nat.add_assoc]

theorem byteLength_pos (filled : text ≠ []) : 0 < byteLength text := by
  cases text with
  | nil => exact (filled rfl).elim
  | cons char text =>
      have positive := char.utf8Size_pos
      rw [byteLength_cons]
      omega

/-! ## Slices -/

theorem sliceTo_append :
    sliceTo (front ++ rest) (byteLength front) = some front := by
  induction front with
  | nil => cases rest <;> rfl
  | cons char front ih =>
      have positive := char.utf8Size_pos
      obtain ⟨size, isSize⟩ := Nat.exists_eq_succ_of_ne_zero
        (Nat.ne_of_gt (Nat.add_pos_left positive (byteLength front)))
      rw [byteLength_cons, isSize, List.cons_append, sliceTo,
        if_pos (by omega),
        show size + 1 - char.utf8Size = byteLength front by omega, ih]
      rfl

theorem sliceTo_beginning (before : front <+: text) :
    sliceTo text (byteLength front) = some front := by
  obtain ⟨rest, rfl⟩ := before
  exact sliceTo_append

/-! ## Two beginnings of one text -/

theorem byteLength_le_of_prefix (before : front <+: other) :
    byteLength front ≤ byteLength other := by
  obtain ⟨rest, rfl⟩ := before
  simp

/-- The shorter of two beginnings is a beginning of the other. -/
theorem prefix_of_byteLength_le
    (before : front <+: text) (otherBefore : other <+: text)
    (le : byteLength front ≤ byteLength other) :
    front <+: other := by
  rcases List.prefix_or_prefix_of_prefix before otherBefore with
    shorter | ⟨rest, rfl⟩
  · exact shorter
  · cases rest with
    | nil => simp
    | cons char rest =>
        have positive := byteLength_pos (List.cons_ne_nil char rest)
        rw [byteLength_append] at le
        omega

/-! ## Character offsets -/

theorem charIndicesFrom_append (offset : Nat) :
    charIndicesFrom offset (front ++ rest) =
      charIndicesFrom offset front ++
        charIndicesFrom (offset + byteLength front) rest := by
  induction front generalizing offset with
  | nil => rfl
  | cons char front ih =>
      rw [List.cons_append, charIndicesFrom, charIndicesFrom, ih,
        byteLength_cons, Nat.add_assoc, List.cons_append]

theorem charIndices_concat :
    charIndices (front ++ [char]) =
      charIndices front ++ [(byteLength front, char)] := by
  unfold charIndices
  rw [charIndicesFrom_append, Nat.zero_add]
  rfl

end ByteText
