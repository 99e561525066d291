import Mathlib.Computability.Language
import Sendword.Validation

/-!
# Slugs

The slugs that the validation accepts are the words of a regular language,
read byte by byte.
-/

namespace Sendword

open scoped Computability

/-! ## The language -/

/-- The class `[a-z0-9]`. -/
def isSlugChar (char : Char) : Bool :=
  ('a' ≤ char && char ≤ 'z') || ('0' ≤ char && char ≤ '9')

/-- The words of `[a-z0-9]+`. -/
def slugWord : Language Char :=
  {text | text ≠ [] ∧ ∀ char ∈ text, isSlugChar char = true}

/-- What follows the first word of a slug. -/
def slugTail : Language Char := (({['-']} : Language Char) * slugWord)∗

/-- The words of `[a-z0-9]+(-[a-z0-9]+)*`. -/
def slugLanguage : Language Char := slugWord * slugTail

theorem nil_mem_slugTail : [] ∈ slugTail := Language.nil_mem_kstar _

theorem hyphen_mem_slugTail
    {word rest : List Char}
    (isWord : word ∈ slugWord)
    (isTail : rest ∈ slugTail) :
    '-' :: (word ++ rest) ∈ slugTail := by
  obtain ⟨parts, same, arePart⟩ := Language.mem_kstar.mp isTail
  refine Language.mem_kstar.mpr ⟨('-' :: word) :: parts, ?_, ?_⟩
  · rw [List.flatten_cons, ← same]
    rfl
  · intro part member
    rcases List.mem_cons.mp member with rfl | member
    · apply Language.mem_mul.mpr
      exact ⟨['-'], rfl, word, isWord, rfl⟩
    · exact arePart part member

/-! ## One character of the loop -/

/-- The loop of `is_valid_slug`, over characters. -/
def slugChars : (previousHyphen : Bool) → List Char → Bool
  | _, [] => true
  | previousHyphen, char :: text =>
      if isSlugChar char then slugChars false text
      else if char = '-' then !previousHyphen && slugChars true text
      else false

theorem encode_ascii
    {char : Char}
    (ascii : char.toNat < 128) :
    String.utf8EncodeChar char = [UInt8.ofNat char.toNat] := by
  unfold String.utf8EncodeChar
  exact if_pos (Nat.le_of_lt_succ ascii)

/-- Another character begins with a byte from 128 on. -/
theorem encode_other
    {char : Char}
    (other : 128 ≤ char.toNat) :
    ∃ byte bytes, String.utf8EncodeChar char = byte :: bytes ∧
      128 ≤ byte := by
  have high (value : Nat) (large : 128 ≤ value) (small : value < 256) :
      128 ≤ UInt8.ofNat value := by
    rw [UInt8.le_iff_toNat_le, UInt8.toNat_ofNat_of_lt' small]
    exact large
  unfold String.utf8EncodeChar
  have notOne : ¬ char.val.toNat ≤ 127 := Nat.not_le.mpr other
  dsimp only
  rw [if_neg notOne]
  split
  · exact ⟨_, _, rfl, high _ (by omega) (by omega)⟩
  · split
    · exact ⟨_, _, rfl, high _ (by omega) (by omega)⟩
    · exact ⟨_, _, rfl, high _ (by omega) (by omega)⟩

theorem slugBytes_encode
    (previousHyphen : Bool)
    (text : List Char) :
    slugBytes previousHyphen (text.flatMap String.utf8EncodeChar) =
      slugChars previousHyphen text := by
  induction text generalizing previousHyphen with
  | nil => rfl
  | cons char text induction =>
      rw [List.flatMap_cons, slugChars]
      by_cases ascii : char.toNat < 128
      · have table : ∀ code : Fin 128,
            ((97 ≤ UInt8.ofNat code ∧ UInt8.ofNat code ≤ 122) ∨
                (48 ≤ UInt8.ofNat code ∧ UInt8.ofNat code ≤ 57) ↔
              isSlugChar (Char.ofNat code) = true) ∧
              (UInt8.ofNat code = 45 ↔ Char.ofNat code = '-') := by
          decide +kernel
        obtain ⟨isLetter, isHyphen⟩ := table ⟨char.toNat, ascii⟩
        simp only [Char.ofNat_toNat] at isLetter isHyphen
        rw [encode_ascii ascii, List.singleton_append, slugBytes]
        simp only [isLetter, isHyphen, induction]
      · have large : 128 ≤ char.toNat := Nat.le_of_not_lt ascii
        obtain ⟨byte, bytes, encoded, high⟩ := encode_other large
        have notLetter : ¬ ((97 ≤ byte ∧ byte ≤ 122) ∨
            (48 ≤ byte ∧ byte ≤ 57)) := by
          simp only [UInt8.le_iff_toNat_le] at high ⊢
          simp at high ⊢
          omega
        have notHyphen : byte ≠ 45 := by
          rintro rfl
          revert high
          decide
        have notSlug : isSlugChar char = false := by
          unfold isSlugChar
          simp only [Char.le_def, UInt32.le_iff_toNat_le, Bool.or_eq_false_iff,
            Bool.and_eq_false_iff, decide_eq_false_iff_not]
          have known : 128 ≤ char.val.toNat := large
          simp
          omega
        have notDash : char ≠ '-' := by
          rintro rfl
          revert large
          decide
        rw [encoded, List.cons_append, slugBytes, if_neg notLetter,
          if_neg notHyphen, notSlug, if_neg notDash]
        rfl

/-! ## The loop accepts the language -/

/-- A text that the loop accepts is a run of letters with a tail behind it;
after a hyphen the run is not empty. -/
theorem split_of_slugChars
    {previousHyphen : Bool}
    {text : List Char}
    (accepted : slugChars previousHyphen text = true)
    (ends : text.getLast? ≠ some '-')
    (goesOn : previousHyphen = true → text ≠ []) :
    ∃ word rest, text = word ++ rest ∧
      (∀ char ∈ word, isSlugChar char = true) ∧ rest ∈ slugTail ∧
        (previousHyphen = true → word ≠ []) := by
  induction text generalizing previousHyphen with
  | nil =>
      refine ⟨[], [], rfl, by simp, nil_mem_slugTail, ?_⟩
      intro hyphen
      exact absurd rfl (goesOn hyphen)
  | cons char text induction =>
      have endsLater : text.getLast? ≠ some '-' := by
        intro last
        apply ends
        rw [List.getLast?_cons, last]
        rfl
      unfold slugChars at accepted
      split at accepted
      case isTrue letter =>
        obtain ⟨word, rest, rfl, letters, isTail, -⟩ :=
          induction accepted endsLater (by simp)
        refine ⟨char :: word, rest, rfl, ?_, isTail, by simp⟩
        intro other member
        rcases List.mem_cons.mp member with rfl | member
        · exact letter
        · exact letters other member
      case isFalse notLetter =>
        split at accepted
        case isFalse notHyphen => cases accepted
        case isTrue hyphen =>
          subst hyphen
          obtain ⟨first, accepted⟩ := Bool.and_eq_true_iff.mp accepted
          have notEmpty : text ≠ [] := by
            rintro rfl
            exact ends rfl
          obtain ⟨word, rest, rfl, letters, isTail, filled⟩ :=
            induction accepted endsLater fun _ => notEmpty
          refine ⟨[], '-' :: (word ++ rest), rfl, by simp, ?_, ?_⟩
          · exact hyphen_mem_slugTail ⟨filled rfl, letters⟩ isTail
          · intro hyphen
            rw [hyphen] at first
            cases first

theorem slugChars_word
    {previousHyphen : Bool}
    {word rest : List Char}
    (letters : ∀ char ∈ word, isSlugChar char = true)
    (filled : previousHyphen = true → word ≠ [])
    (accepted : slugChars false rest = true) :
    slugChars previousHyphen (word ++ rest) = true := by
  induction word generalizing previousHyphen with
  | nil =>
      cases previousHyphen with
      | false => exact accepted
      | true => exact absurd rfl (filled rfl)
  | cons char word induction =>
      obtain ⟨letter, letters⟩ := List.forall_mem_cons.mp letters
      rw [List.cons_append, slugChars, if_pos letter]
      exact induction letters (by simp)

theorem slugChars_tail
    {rest : List Char}
    (isTail : rest ∈ slugTail) :
    slugChars false rest = true ∧ rest.getLast? ≠ some '-' := by
  obtain ⟨parts, rfl, arePart⟩ := Language.mem_kstar.mp isTail
  clear isTail
  induction parts with
  | nil => exact ⟨rfl, by simp⟩
  | cons part parts induction =>
      obtain ⟨isPart, areParts⟩ := List.forall_mem_cons.mp arePart
      obtain ⟨hyphen, isHyphen, word, ⟨filled, letters⟩, rfl⟩ :=
        Language.mem_mul.mp isPart
      obtain rfl : hyphen = ['-'] := isHyphen
      obtain ⟨accepted, ends⟩ := induction areParts
      rw [List.flatten_cons, List.append_assoc, List.singleton_append]
      constructor
      · have read : slugChars true (word ++ parts.flatten) = true :=
          slugChars_word letters (fun _ => filled) accepted
        rw [slugChars, if_neg (by decide), if_pos rfl, read]
        rfl
      · rw [List.getLast?_cons, List.getLast?_append]
        cases last : parts.flatten.getLast? with
        | some char =>
            rw [last] at ends
            simpa using ends
        | none =>
            have letter := letters (word.getLast filled)
              (List.getLast_mem filled)
            rw [List.getLast?_eq_some_getLast filled]
            simp only [Option.or, Option.getD_some, ne_eq,
              Option.some.injEq]
            intro isHyphen
            rw [isHyphen] at letter
            revert letter
            decide

/-- No hyphen stands first or last, and the loop accepts. -/
theorem mem_slugLanguage_iff
    {text : List Char} :
    text ∈ slugLanguage ↔
      text ≠ [] ∧ text.head? ≠ some '-' ∧ text.getLast? ≠ some '-' ∧
        slugChars false text = true := by
  constructor
  · intro member
    obtain ⟨word, ⟨filled, letters⟩, rest, isTail, rfl⟩ :=
      Language.mem_mul.mp member
    obtain ⟨accepted, ends⟩ := slugChars_tail isTail
    obtain ⟨first, word, rfl⟩ := List.exists_cons_of_ne_nil filled
    have read : slugChars false (first :: word ++ rest) = true :=
      slugChars_word letters (by simp) accepted
    have isLetter (char : Char) (inWord : char ∈ first :: word) :
        char ≠ '-' := by
      rintro rfl
      exact absurd (letters '-' inWord) (by decide)
    refine ⟨by simp, ?_, ?_, read⟩
    · simpa using isLetter first List.mem_cons_self
    · rw [List.getLast?_append]
      cases last : rest.getLast? with
      | some char =>
          rw [last] at ends
          simpa using ends
      | none =>
          rw [List.getLast?_eq_some_getLast filled]
          simpa using isLetter _ (List.getLast_mem filled)
  · rintro ⟨filled, begins, ends, accepted⟩
    obtain ⟨word, rest, rfl, letters, isTail, -⟩ :=
      split_of_slugChars accepted ends (by simp)
    refine Language.append_mem_mul ⟨?_, letters⟩ isTail
    rintro rfl
    -- without a first word the text begins with the hyphen of its tail
    obtain ⟨parts, same, arePart⟩ := Language.mem_kstar.mp isTail
    cases parts with
    | nil => exact filled same
    | cons part parts =>
        obtain ⟨hyphen, isHyphen, other, -, rfl⟩ :=
          Language.mem_mul.mp (arePart part List.mem_cons_self)
        obtain rfl : hyphen = ['-'] := isHyphen
        apply begins
        rw [List.nil_append, same]
        rfl

/-! ## Slugs in addresses -/

theorem toUTF8_toList
    (slug : String) :
    slug.toUTF8.data.toList = slug.toList.flatMap String.utf8EncodeChar := by
  rw [String.toUTF8_eq_toByteArray, ← String.utf8Encode_toList,
    List.utf8Encode]
  simp

/-- The letters, the digits and the hyphen. -/
def isSlugText (char : Char) : Bool := isSlugChar char || char == '-'

theorem isSlugText_of_slugChars
    {previousHyphen : Bool}
    {text : List Char}
    (accepted : slugChars previousHyphen text = true) :
    ∀ char ∈ text, isSlugText char = true := by
  induction text generalizing previousHyphen with
  | nil => simp
  | cons char text induction =>
      rw [List.forall_mem_cons]
      unfold slugChars at accepted
      unfold isSlugText
      split at accepted
      case isTrue letter =>
        exact ⟨by rw [letter]; rfl, induction accepted⟩
      case isFalse =>
        split at accepted
        case isTrue hyphen =>
          exact ⟨by rw [hyphen]; rfl,
            induction (Bool.and_eq_true_iff.mp accepted).2⟩
        case isFalse => cases accepted

theorem ascii_of_isSlugText
    {char : Char}
    (inSlug : isSlugText char = true) :
    char.toNat < 128 := by
  unfold isSlugText isSlugChar at inSlug
  simp only [Char.le_def, UInt32.le_iff_toNat_le, Bool.or_eq_true,
    Bool.and_eq_true, decide_eq_true_eq, beq_iff_eq] at inSlug
  rcases inSlug with (letter | digit) | rfl
  · exact Nat.lt_of_le_of_lt letter.2 (by decide)
  · exact Nat.lt_of_le_of_lt digit.2 (by decide)
  · decide

/-- The bytes of a text of the loop are its characters. -/
theorem encode_of_isSlugText
    {text : List Char}
    (inSlug : ∀ char ∈ text, isSlugText char = true) :
    text.flatMap String.utf8EncodeChar =
      text.map fun char => UInt8.ofNat char.toNat := by
  rw [List.map_eq_flatMap]
  refine List.flatMap_congr fun char member => ?_
  exact encode_ascii (ascii_of_isSlugText (inSlug char member))

/-- The first byte and the last are hyphens where the characters are. -/
theorem byte_eq_hyphen_iff
    {found : Option Char}
    (inSlug : ∀ char ∈ found, isSlugText char = true) :
    found.map (fun char => UInt8.ofNat char.toNat) = some 45 ↔
      found = some '-' := by
  cases found with
  | none => simp
  | some char =>
      have table : ∀ code : Fin 128,
          UInt8.ofNat code = 45 ↔ Char.ofNat code = '-' := by
        decide +kernel
      have known := table
        ⟨char.toNat, ascii_of_isSlugText (inSlug char rfl)⟩
      simpa using known

theorem isValidSlug_iff
    (slug : String) :
    isValidSlug slug = true ↔
      1 ≤ slug.utf8ByteSize ∧ slug.utf8ByteSize ≤ 64 ∧
        slug.toList ∈ slugLanguage := by
  have size : (slug.toUTF8.data.toList).length = slug.utf8ByteSize := by
    rw [String.toUTF8_eq_toByteArray, Array.length_toList]
    rfl
  have loop : slugBytes false slug.toUTF8.data.toList =
      slugChars false slug.toList := by
    rw [toUTF8_toList, slugBytes_encode]
  unfold isValidSlug
  simp only [size, loop]
  rw [mem_slugLanguage_iff]
  by_cases accepted : slugChars false slug.toList = true
  · have inSlug := isSlugText_of_slugChars accepted
    have bytes := toUTF8_toList slug
    rw [encode_of_isSlugText inSlug] at bytes
    have first := @byte_eq_hyphen_iff slug.toList.head? fun char isFirst =>
      inSlug char (List.mem_of_mem_head? isFirst)
    have last := @byte_eq_hyphen_iff slug.toList.getLast? fun char isLast =>
      inSlug char (List.mem_of_getLast? isLast)
    rw [bytes, List.head?_map, List.getLast?_map]
    simp only [first, last, accepted, and_true]
    have empty : slug.toList ≠ [] ↔ 1 ≤ slug.utf8ByteSize := by
      rw [← size, bytes, List.length_map, Nat.one_le_iff_ne_zero, ne_eq,
        ne_eq, List.length_eq_zero_iff]
    rw [empty]
    split
    case isTrue wrong =>
      refine iff_of_false (by simp) fun right => ?_
      omega
    case isFalse inside =>
      split
      case isTrue hyphen =>
        refine iff_of_false (by simp) fun right => ?_
        rcases hyphen with begins | ends
        · exact right.2.2.2.1 begins
        · exact right.2.2.2.2 ends
      case isFalse plain =>
        rw [not_or] at inside plain
        refine iff_of_true rfl ⟨?_, ?_, ?_, plain⟩ <;> omega
  · refine iff_of_false ?_ fun right => accepted right.2.2.2.2.2
    split
    · simp
    · split
      · simp
      · exact accepted

/-- A character of an address that stands for itself. -/
def isUnreserved (char : Char) : Bool :=
  char.isAlphanum || char ∈ ['-', '.', '_', '~']

/-- A character that a path segment holds as it is. -/
structure Unescaped (char : Char) : Prop where
  ascii : char.toNat < 128
  unreserved : isUnreserved char = true
  plain : char ∉ ['/', '.', '%', ' ', '\t', '\n', '\r']

theorem unescaped_of_isSlugText
    {char : Char}
    (inSlug : isSlugText char = true) :
    Unescaped char := by
  have small := ascii_of_isSlugText inSlug
  have table : ∀ code : Fin 128, isSlugText (Char.ofNat code) = true →
      isUnreserved (Char.ofNat code) = true ∧
        Char.ofNat code ∉ ['/', '.', '%', ' ', '\t', '\n', '\r'] := by
    decide +kernel
  have known := table ⟨char.toNat, small⟩
  simp only [Char.ofNat_toNat] at known
  obtain ⟨unreserved, plain⟩ := known inSlug
  exact ⟨small, unreserved, plain⟩

theorem unescaped_of_isValidSlug
    {slug : String}
    (valid : isValidSlug slug = true) :
    ∀ char ∈ slug.toList, Unescaped char := by
  obtain ⟨-, -, member⟩ := (isValidSlug_iff slug).mp valid
  obtain ⟨-, -, -, accepted⟩ := mem_slugLanguage_iff.mp member
  intro char inText
  exact unescaped_of_isSlugText
    (isSlugText_of_slugChars accepted char inText)

/-- The slugs that are valid are the words of the language that have 1 to 64
bytes, and the slugs of a valid configuration need no escapes. -/
theorem slug_grammar :
    (∀ slug, isValidSlug slug = true ↔
      1 ≤ slug.utf8ByteSize ∧ slug.utf8ByteSize ≤ 64 ∧
        slug.toList ∈ slugLanguage) ∧
    (∀ checkers config, AppConfig.validate checkers config = .ok () →
      ∀ hook ∈ config.hooks, ∀ char ∈ hook.slug.toList,
        Unescaped char) := by
  constructor
  · exact isValidSlug_iff
  · intro checkers config valid hook member
    exact unescaped_of_isValidSlug (isValidSlug_of_validate valid member)

/-- Parsers that take everything. -/
def permissiveCheckers : Checkers where
  regexError _ := none
  parseTime _ := none
  cronIsValid _ := true

def deployHook : HookConfig where
  name := "deploy"
  slug := "deploy-2"
  executor := .shell "make deploy"

def deployConfig : AppConfig where
  hooks := [deployHook]

theorem slug_grammar_deploy :
    "deploy-2".toList ∈ slugLanguage ∧
      ∀ char ∈ "deploy-2".toList, Unescaped char := by
  constructor
  · have valid := (slug_grammar.1 "deploy-2").mp (by decide +kernel)
    exact valid.2.2
  · exact slug_grammar.2 permissiveCheckers deployConfig
      (by decide +kernel) deployHook List.mem_cons_self

end Sendword
