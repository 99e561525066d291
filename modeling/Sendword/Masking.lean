import Mathlib.Data.List.Permutation
import Sendword.Config
import Sendword.Replacing

/-!
# Masking of secrets

`mask_secrets` replaces the values of the listed variables one after the
other.  Each replacement sees the masks of the earlier ones, and what they
left of a secret that overlaps theirs.
-/

namespace Sendword

open Replacing

/-! ## The replacements -/

section Mask

variable (serverEnv : String → Option String)
  (hookEnv : List (String × String))

/-- The value of a variable: the hook's, or else the server's. -/
def resolvedEnv (name : String) : Option String :=
  hookEnv.lookup name <|> serverEnv name

/-- The loop over the variables, on items that are read as characters. -/
def maskValues {β : Type} (read : β → Char) (mask : List β)
    (names : List String) (text : List β) : List β :=
  names.foldl (fun result name =>
    match resolvedEnv serverEnv hookEnv name with
    | some value =>
        if value ≠ "" then replace read value.toList mask result else result
    | none => result) text

/-- Replace secret values in a text with `***`: the values of the variables,
then the matches of the patterns. -/
def maskSecrets (replaceMatches : (pattern : String) → List Char → List Char)
    (text : List Char) (config : MaskingConfig) : List Char :=
  if config.envVars = [] ∧ config.compiledPatterns = [] then text
  else
    let masked := maskValues serverEnv hookEnv id "***".toList
      config.envVars text
    config.compiledPatterns.foldl (fun result pattern =>
      replaceMatches pattern result) masked

/-- The characters of a text with their places. -/
def placed (text : List Char) : List (Char × Option Nat) :=
  text.zipIdx.map fun (letter, place) => (letter, some place)

/-- The replacements on characters that remember their place in the text;
those of a mask have none. -/
def maskedPlaces (names : List String) (text : List Char) :
    List (Char × Option Nat) :=
  maskValues serverEnv hookEnv Prod.fst (List.replicate 3 ('*', none)) names
    (placed text)

/-- The values that are replaced, in the order of their variables. -/
def secretsOf (names : List String) : List (List Char) :=
  names.filterMap fun name =>
    ((resolvedEnv serverEnv hookEnv name).filter (· ≠ "")).map String.toList

end Mask

variable {serverEnv : String → Option String}
  {hookEnv : List (String × String)} {names : List String}
  {text : List Char}

theorem maskValues_eq {β : Type} {read : β → Char} {mask items : List β} :
    maskValues serverEnv hookEnv read mask names items =
      (secretsOf serverEnv hookEnv names).foldl
        (fun result secret => replace read secret mask result) items := by
  unfold maskValues secretsOf
  induction names generalizing items with
  | nil => rfl
  | cons name names induction =>
      rw [List.foldl_cons, induction]
      cases resolved : resolvedEnv serverEnv hookEnv name with
      | none => simp [resolved]
      | some value =>
          by_cases empty : value = ""
          · simp [resolved, empty]
          · simp [resolved, empty]

theorem secretsOf_filled :
    ∀ secret ∈ secretsOf serverEnv hookEnv names, secret ≠ [] := by
  intro secret member
  obtain ⟨name, -, resolved⟩ := List.mem_filterMap.mp member
  obtain ⟨value, filled, rfl⟩ := Option.map_eq_some_iff.mp resolved
  have some := (Option.filter_eq_some_iff.mp filled).2
  simpa using some

/-- Without their places, the characters are the masked text. -/
theorem maskedPlaces_map (replaceMatches : String → List Char → List Char) :
    (maskedPlaces serverEnv hookEnv names text).map Prod.fst =
      maskSecrets serverEnv hookEnv replaceMatches text
        { envVars := names } := by
  have letters : (placed text).map Prod.fst = text := by
    simp [placed, Function.comp_def]
  have masks : (List.replicate 3 ('*', (none : Option Nat))).map Prod.fst =
      "***".toList := by decide
  have loop (secrets : List (List Char))
      (filled : ∀ secret ∈ secrets, secret ≠ [])
      (items : List (Char × Option Nat)) :
      (secrets.foldl (fun result secret => replace Prod.fst secret
        (List.replicate 3 ('*', none)) result) items).map Prod.fst =
        secrets.foldl (fun result secret =>
          replace id secret "***".toList result) (items.map Prod.fst) := by
    induction secrets generalizing items with
    | nil => rfl
    | cons secret secrets induction =>
        obtain ⟨own, others⟩ := List.forall_mem_cons.mp filled
        rw [List.foldl_cons, List.foldl_cons, induction others,
          map_replace own, masks]
  unfold maskedPlaces maskSecrets
  rw [maskValues_eq, loop _ secretsOf_filled, letters, maskValues_eq]
  split
  · rename_i empty
    have none : names = [] := empty.1
    rw [none]
    rfl
  · rfl

/-! ## What masking should do -/

/-- A place lies in an occurrence of a secret. -/
def InSecret (secrets : List (List Char)) (text : List Char)
    (place : Nat) : Prop :=
  ∃ secret ∈ secrets, ∃ start, secret <+: text.drop start ∧
    start ≤ place ∧ place < start + secret.length

/-- The places that survive. -/
def survivors (serverEnv : String → Option String)
    (hookEnv : List (String × String)) (names : List String)
    (text : List Char) : List Nat :=
  (maskedPlaces serverEnv hookEnv names text).filterMap Prod.snd

/-- Masking leaves no part of a secret, and does not depend on the order of
the variables. -/
structure MaskingLaw (serverEnv : String → Option String)
    (hookEnv : List (String × String)) (names : List String)
    (text : List Char) : Prop where
  /-- The characters that are followed are those of the output. -/
  output : ∀ replaceMatches,
    (maskedPlaces serverEnv hookEnv names text).map Prod.fst =
      maskSecrets serverEnv hookEnv replaceMatches text
        { envVars := names }
  removed : ∀ letter place,
    (letter, some place) ∈ maskedPlaces serverEnv hookEnv names text →
      ¬ InSecret (secretsOf serverEnv hookEnv names) text place
  kept : ∀ letter place, text[place]? = some letter →
    ¬ InSecret (secretsOf serverEnv hookEnv names) text place →
      (letter, some place) ∈ maskedPlaces serverEnv hookEnv names text
  inOrder : (survivors serverEnv hookEnv names text).Pairwise (· < ·)
  unordered : ∀ others, others.Perm names → ∀ place,
    place ∈ survivors serverEnv hookEnv others text ↔
      place ∈ survivors serverEnv hookEnv names text

/-- In every order of the variables, each character of an occurrence lies in
one that is not broken up: none of an earlier secret, or of the same secret
further left, that is not broken up itself shares a character with it. -/
def Unbroken (serverEnv : String → Option String)
    (hookEnv : List (String × String)) (names : List String)
    (text : List Char) : Prop :=
  ∀ others : List String, others.Perm names → ∃ whole,
    Selection (secretsOf serverEnv hookEnv others) (text.map some) whole ∧
      ∀ place, InSecret (secretsOf serverEnv hookEnv others) text place →
        Covers (secretsOf serverEnv hookEnv others) whole place

/-- In every order of the variables, no value that is replaced lies partly
in the mask of an earlier one and partly in the text. -/
def MasksApart (serverEnv : String → Option String)
    (hookEnv : List (String × String)) (names : List String)
    (text : List Char) : Prop :=
  ∀ before name after value,
    (before ++ name :: after).Perm names →
    resolvedEnv serverEnv hookEnv name = some value → value ≠ "" →
      ApartFromMasks value.toList
        (maskedPlaces serverEnv hookEnv before text)

/-! ## What is left -/

theorem shows_placed (first : Nat) :
    Shows '*' first (text.map some)
      ((text.zipIdx first).map fun (letter, place) =>
        (letter, some place)) := by
  induction text generalizing first with
  | nil => exact .nil
  | cons letter text induction => exact .keep (induction (first + 1))

/-- One variable after the other. -/
theorem shows_maskValues {cells : List (Option Char)}
    {items : List (Char × Option Nat)} (shows : Shows '*' 0 cells items)
    (apart : ∀ before name after value, before ++ name :: after = names →
      resolvedEnv serverEnv hookEnv name = some value → value ≠ "" →
        ApartFromMasks value.toList (maskValues serverEnv hookEnv Prod.fst
          (List.replicate 3 ('*', none)) before items)) :
    Shows '*' 0 (hideAll (secretsOf serverEnv hookEnv names) cells)
      (maskValues serverEnv hookEnv Prod.fst (List.replicate 3 ('*', none))
        names items) := by
  induction names generalizing cells items with
  | nil => exact shows
  | cons name names induction =>
      have hidden : hideAll (secretsOf serverEnv hookEnv (name :: names))
          cells = hideAll (secretsOf serverEnv hookEnv names)
            (hideAll (secretsOf serverEnv hookEnv [name]) cells) := by
        unfold hideAll secretsOf
        rw [← List.singleton_append, List.filterMap_append,
          List.foldl_append]
      have first : Shows '*' 0
          (hideAll (secretsOf serverEnv hookEnv [name]) cells)
          (maskValues serverEnv hookEnv Prod.fst
            (List.replicate 3 ('*', none)) [name] items) := by
        unfold maskValues secretsOf
        cases resolved : resolvedEnv serverEnv hookEnv name with
        | none => simpa [resolved, hideAll] using shows
        | some value =>
            by_cases empty : value = ""
            · simpa [resolved, empty, hideAll] using shows
            · have filled : value.toList ≠ [] := by simpa using empty
              have alone : ApartFromMasks value.toList items :=
                apart [] name names value rfl resolved empty
              have replaced := shows.replaced filled (Nat.succ_pos 2) alone
              simpa [resolved, empty, hideAll] using replaced
      rw [hidden]
      apply induction first
      intro before other after value same
      exact apart (name :: before) other after value
        (congrArg (List.cons name) same)

theorem shows_maskedPlaces
    (apart : MasksApart serverEnv hookEnv names text) :
    Shows '*' 0 (hideAll (secretsOf serverEnv hookEnv names) (text.map some))
      (maskedPlaces serverEnv hookEnv names text) := by
  apply shows_maskValues (shows_placed 0)
  intro before name after value same
  exact apart before name after value (.of_eq same)

/-- A character survives where no place taken covers it. -/
theorem mem_maskedPlaces
    (apart : MasksApart serverEnv hookEnv names text)
    {letter : Char} {place : Nat} :
    (letter, some place) ∈ maskedPlaces serverEnv hookEnv names text ↔
      text[place]? = some letter ∧
        ¬ Covers (secretsOf serverEnv hookEnv names)
          (Taken (secretsOf serverEnv hookEnv names) (text.map some))
          place := by
  rw [(shows_maskedPlaces apart).mem_iff, Nat.sub_zero,
    getElem?_hideAll secretsOf_filled]
  split
  · rename_i covered
    simp [covered]
  · rename_i free
    simp [free]

theorem occurs_text_iff {secret : List Char} {start : Nat} :
    Occurs id (secret.map some) (text.map some) start ↔
      secret <+: text.drop start := by
  rw [occurs_cells_iff, List.prefix_iff_getElem?]
  refine forall₂_congr fun j _ => ?_
  simp

/-- The letters of an occurrence are those that its secret could cover. -/
theorem inSecret_iff {secrets : List (List Char)} {place : Nat} :
    InSecret secrets text place ↔
      ∃ turn start, Stands secrets (text.map some) turn start ∧
        start ≤ place ∧ place < start + lengthOf secrets turn := by
  unfold InSecret Stands
  simp only [occurs_text_iff]
  constructor
  · rintro ⟨secret, member, start, occurs, bounds⟩
    obtain ⟨turn, isSecret⟩ := List.getElem?_of_mem member
    refine ⟨turn, start, ⟨secret, isSecret, occurs⟩, ?_⟩
    unfold lengthOf
    rw [isSecret]
    exact bounds
  · rintro ⟨turn, start, ⟨secret, isSecret, occurs⟩, bounds⟩
    unfold lengthOf at bounds
    rw [isSecret] at bounds
    exact ⟨secret, List.mem_of_getElem? isSecret, start, occurs, bounds⟩

theorem inSecret_of_covers {secrets : List (List Char)}
    {whole : Nat → Nat → Prop} {place : Nat}
    (selection : Selection secrets (text.map some) whole)
    (covers : Covers secrets whole place) : InSecret secrets text place := by
  obtain ⟨turn, start, chosen, bounds⟩ := covers
  exact inSecret_iff.mpr
    ⟨turn, start, ((selection turn start).mp chosen).1, bounds⟩

theorem mem_survivors {place : Nat} :
    place ∈ survivors serverEnv hookEnv names text ↔
      ∃ letter, (letter, some place) ∈
        maskedPlaces serverEnv hookEnv names text := by
  unfold survivors
  rw [List.mem_filterMap]
  constructor
  · rintro ⟨⟨letter, found⟩, member, rfl⟩
    exact ⟨letter, member⟩
  · rintro ⟨letter, member⟩
    exact ⟨(letter, some place), member, rfl⟩

/-- A place in a secret has a letter. -/
theorem exists_letter {secrets : List (List Char)} {place : Nat}
    (inside : InSecret secrets text place) :
    ∃ letter, text[place]? = some letter := by
  obtain ⟨secret, -, start, occurs, low, high⟩ := inside
  have short := occurs.length_le
  rw [List.length_drop] at short
  exact ⟨_, List.getElem?_eq_getElem (by omega)⟩

/-- Orders of the variables have the same secrets. -/
theorem inSecret_perm {others : List String} (order : others.Perm names)
    {place : Nat} :
    InSecret (secretsOf serverEnv hookEnv others) text place ↔
      InSecret (secretsOf serverEnv hookEnv names) text place := by
  unfold InSecret
  refine exists_congr fun secret => and_congr_left' ?_
  exact (order.filterMap _).mem_iff

theorem MasksApart.perm (apart : MasksApart serverEnv hookEnv names text)
    {others : List String} (order : others.Perm names) :
    MasksApart serverEnv hookEnv others text := by
  intro before name after value same
  exact apart before name after value (same.trans order)

/-- Where each character of an occurrence lies in one that is not broken up,
the survivors are the characters outside the occurrences. -/
theorem mem_survivors_iff (apart : MasksApart serverEnv hookEnv names text)
    (unbroken : Unbroken serverEnv hookEnv names text)
    {others : List String} (order : others.Perm names) {letter : Char}
    {place : Nat} :
    (letter, some place) ∈ maskedPlaces serverEnv hookEnv others text ↔
      text[place]? = some letter ∧
        ¬ InSecret (secretsOf serverEnv hookEnv names) text place := by
  obtain ⟨whole, selection, covered⟩ := unbroken others order
  have taken : Selection (secretsOf serverEnv hookEnv others)
      (text.map some) _ := taken_selection secretsOf_filled
  rw [mem_maskedPlaces (apart.perm order), ← inSecret_perm order]
  refine and_congr_right fun _ => not_congr ⟨?_, fun inside => ?_⟩
  · exact inSecret_of_covers taken
  · obtain ⟨turn, start, chosen, bounds⟩ := covered place inside
    exact ⟨turn, start, (selection.unique taken turn start).mp chosen, bounds⟩

/-- Masking does what it should exactly where no order of the variables
breaks up the last occurrence around a character. -/
theorem maskingLaw_iff (serverEnv : String → Option String)
    (hookEnv : List (String × String)) (names : List String)
    (text : List Char)
    (apart : MasksApart serverEnv hookEnv names text) :
    MaskingLaw serverEnv hookEnv names text ↔
      Unbroken serverEnv hookEnv names text := by
  constructor
  · intro law others order
    refine ⟨_, taken_selection secretsOf_filled, fun place inside => ?_⟩
    by_contra free
    obtain ⟨letter, isLetter⟩ := exists_letter inside
    have survives := (mem_maskedPlaces (apart.perm order)).mpr
      ⟨isLetter, free⟩
    have member := (law.unordered others order place).mp
      (mem_survivors.mpr ⟨letter, survives⟩)
    obtain ⟨letter, kept⟩ := mem_survivors.mp member
    exact law.removed letter place kept ((inSecret_perm order).mp inside)
  · intro unbroken
    have own := @mem_survivors_iff _ _ _ _ apart unbroken names (.refl _)
    constructor
    · exact maskedPlaces_map
    · intro letter place member
      exact (own.mp member).2
    · intro letter place isLetter free
      exact own.mpr ⟨isLetter, free⟩
    · exact (shows_maskedPlaces apart).inOrder.1
    · intro others order place
      rw [mem_survivors, mem_survivors]
      refine exists_congr fun letter => ?_
      rw [mem_survivors_iff apart unbroken order, own]

/-- A password with a star in it. -/
def starredEnv : List (String × String) :=
  [("PASSWORD", "p*s"), ("TOKEN", "abc")]

theorem masksApart_starred :
    MasksApart (fun _ => none) starredEnv ["PASSWORD", "TOKEN"]
      "abc and p*s".toList := by
  intro before name after value order resolved filled
  have cases (first second own other : String)
      (same : before ++ name :: after = [first, second])
      (isFirst : resolvedEnv (fun _ => none) starredEnv first = some own)
      (isSecond : resolvedEnv (fun _ => none) starredEnv second = some other)
      (alone : ApartFromMasks own.toList (maskedPlaces (fun _ => none)
        starredEnv [] "abc and p*s".toList))
      (behind : ApartFromMasks other.toList (maskedPlaces (fun _ => none)
        starredEnv [first] "abc and p*s".toList)) :
      ApartFromMasks value.toList (maskedPlaces (fun _ => none) starredEnv
        before "abc and p*s".toList) := by
    cases before with
    | nil =>
        obtain ⟨rfl, -⟩ := List.cons.inj same
        obtain rfl : own = value := Option.some.inj (isFirst ▸ resolved)
        exact alone
    | cons earlier before =>
        obtain ⟨rfl, rest⟩ := List.cons.inj same
        cases before with
        | nil =>
            obtain ⟨rfl, -⟩ := List.cons.inj rest
            obtain rfl : other = value :=
              Option.some.inj (isSecond ▸ resolved)
            exact behind
        | cons further before => simp at rest
  rcases List.perm_pair.mp order with same | same
  · exact cases _ _ "p*s" "abc" same (by decide) (by decide) (by decide)
      (by decide)
  · exact cases _ _ "abc" "p*s" same (by decide) (by decide) (by decide)
      (by decide)

theorem maskingLaw_iff_starred :
    MaskingLaw (fun _ => none) starredEnv ["PASSWORD", "TOKEN"]
        "abc and p*s".toList ↔
      Unbroken (fun _ => none) starredEnv ["PASSWORD", "TOKEN"]
        "abc and p*s".toList :=
  maskingLaw_iff (fun _ => none) starredEnv ["PASSWORD", "TOKEN"]
    "abc and p*s".toList masksApart_starred

/-- A token and the password it begins with. -/
def overlappingEnv : List (String × String) :=
  [("PASSWORD", "ab"), ("TOKEN", "abc")]

/-- The end of the token survives behind the mask of the password. -/
theorem not_maskingLaw :
    ¬ MaskingLaw (fun _ => none) overlappingEnv ["PASSWORD", "TOKEN"]
      "abc".toList := by
  intro law
  have survives : ('c', some 2) ∈ maskedPlaces (fun _ => none)
      overlappingEnv ["PASSWORD", "TOKEN"] "abc".toList := by decide
  refine law.removed _ _ survives
    ⟨"abc".toList, by decide, 0, ?_, by decide, by decide⟩
  exact List.prefix_rfl

end Sendword
