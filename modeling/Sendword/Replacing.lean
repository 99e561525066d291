import Mathlib.Data.List.Infix
import Mathlib.Tactic.Common

/-!
# Replacing one text by another

The replacement of a pattern from left to right, on items that are read as
letters, and the places at which it replaces.
-/

namespace Replacing

variable {α β : Type} [DecidableEq α]

/-- The text begins with the pattern. -/
def begins (read : β → α) (pattern : List α) (text : List β) : Bool :=
  pattern.isPrefixOf (text.map read)

/-- The scan, with the number of items that the last match still covers. -/
def replaceFrom (read : β → α) (pattern : List α) (mask : List β) :
    Nat → List β → List β
  | _, [] => []
  | skip + 1, _ :: text => replaceFrom read pattern mask skip text
  | 0, item :: text =>
      if begins read pattern (item :: text) then
        mask ++ replaceFrom read pattern mask (pattern.length - 1) text
      else item :: replaceFrom read pattern mask 0 text

/-- Replace a pattern that is not empty (`str::replace`). -/
def replace (read : β → α) (pattern : List α) (mask text : List β) :
    List β :=
  replaceFrom read pattern mask 0 text

/-- The scan that notes where it replaces. -/
def picksFrom (read : β → α) (pattern : List α) : Nat → List β → List Nat
  | _, [] => []
  | skip + 1, _ :: text =>
      (picksFrom read pattern skip text).map (· + 1)
  | 0, item :: text =>
      if begins read pattern (item :: text) then
        0 :: (picksFrom read pattern (pattern.length - 1) text).map (· + 1)
      else (picksFrom read pattern 0 text).map (· + 1)

/-- The places at which the pattern is replaced. -/
def picks (read : β → α) (pattern : List α) (text : List β) : List Nat :=
  picksFrom read pattern 0 text

section Scan

variable {read : β → α} {pattern : List α} {mask : List β}

theorem begins_iff {text : List β} :
    begins read pattern text = true ↔
      ∀ j, (inside : j < pattern.length) →
        (text[j]?).map read = some pattern[j] := by
  unfold begins
  rw [List.isPrefixOf_iff_prefix, List.prefix_iff_getElem?]
  simp

theorem length_le_of_begins {text : List β}
    (begin : begins read pattern text = true) :
    pattern.length ≤ text.length := by
  simpa using (List.isPrefixOf_iff_prefix.mp begin).length_le

theorem replaceFrom_skip (skip : Nat) (text : List β) :
    replaceFrom read pattern mask skip text =
      replace read pattern mask (text.drop skip) := by
  induction text generalizing skip with
  | nil => cases skip <;> rfl
  | cons item text induction =>
      cases skip with
      | zero => rfl
      | succ skip => exact induction skip

theorem picksFrom_skip (skip : Nat) (text : List β) :
    picksFrom read pattern skip text =
      (picks read pattern (text.drop skip)).map (· + skip) := by
  induction text generalizing skip with
  | nil => cases skip <;> rfl
  | cons item text induction =>
      cases skip with
      | zero => simp [picks]
      | succ skip =>
          rw [picksFrom, induction, List.map_map, List.drop_succ_cons]
          rfl

theorem replace_skip {item : β} {text : List β}
    (other : ¬ begins read pattern (item :: text) = true) :
    replace read pattern mask (item :: text) =
      item :: replace read pattern mask text :=
  if_neg other

theorem picks_skip {item : β} {text : List β}
    (other : ¬ begins read pattern (item :: text) = true) :
    picks read pattern (item :: text) =
      (picks read pattern text).map (· + 1) :=
  if_neg other

theorem replace_match {text : List β} (some : pattern ≠ [])
    (begin : begins read pattern text = true) :
    replace read pattern mask text =
      mask ++ replace read pattern mask (text.drop pattern.length) := by
  have positive := List.length_pos_iff.mpr some
  cases text with
  | nil =>
      have short := length_le_of_begins begin
      rw [List.length_nil] at short
      omega
  | cons item text =>
      refine (if_pos begin).trans ?_
      rw [replaceFrom_skip]
      obtain ⟨length, isLength⟩ := Nat.exists_eq_add_of_lt positive
      rw [isLength]
      rfl

theorem picks_match {text : List β} (some : pattern ≠ [])
    (begin : begins read pattern text = true) :
    picks read pattern text =
      0 :: (picks read pattern (text.drop pattern.length)).map
        (· + pattern.length) := by
  have positive := List.length_pos_iff.mpr some
  cases text with
  | nil =>
      have short := length_le_of_begins begin
      rw [List.length_nil] at short
      omega
  | cons item text =>
      refine (if_pos begin).trans ?_
      obtain ⟨length, isLength⟩ := Nat.exists_eq_add_of_lt positive
      rw [picksFrom_skip, List.map_map, isLength]
      refine congrArg (List.cons 0) (List.map_congr_left fun place _ => ?_)
      show place + (0 + length + 1 - 1) + 1 = place + (0 + length + 1)
      omega

/-- A scan comes to the end, goes on by one item, or goes on behind a match.
-/
theorem scan_induction {motive : List β → Prop} (read : β → α)
    (some : pattern ≠ [])
    (nil : motive [])
    (skip : ∀ item text, ¬ begins read pattern (item :: text) = true →
      motive text → motive (item :: text))
    (taken : ∀ text, begins read pattern text = true →
      motive (text.drop pattern.length) → motive text)
    (text : List β) : motive text := by
  have positive := List.length_pos_iff.mpr some
  induction isLength : text.length using Nat.strong_induction_on
    generalizing text with
  | _ length induction =>
      cases text with
      | nil => exact nil
      | cons item text =>
          by_cases begin : begins read pattern (item :: text) = true
          · have short := length_le_of_begins begin
            refine taken _ begin (induction _ ?_ _ rfl)
            rw [List.length_drop]
            omega
          · refine skip _ _ begin (induction _ ?_ _ rfl)
            rw [← isLength, List.length_cons]
            omega

/-- The pattern stands at a place of the text. -/
def Occurs (read : β → α) (pattern : List α) (text : List β)
    (place : Nat) : Prop :=
  begins read pattern (text.drop place) = true

theorem not_occurs_nil (some : pattern ≠ []) (place : Nat) :
    ¬ Occurs read pattern [] place := by
  intro occurs
  have short := length_le_of_begins occurs
  rw [List.drop_nil, List.length_nil, Nat.le_zero] at short
  exact some (List.eq_nil_of_length_eq_zero short)

/-- The scan replaces an occurrence where none that it replaced further left
reaches into it. -/
theorem mem_picks_iff (read : β → α) (some : pattern ≠ [])
    (text : List β) (place : Nat) :
    place ∈ picks read pattern text ↔
      Occurs read pattern text place ∧
        ∀ other ∈ picks read pattern text, other < place →
          other + pattern.length ≤ place := by
  induction text using scan_induction read some
    generalizing place with
  | nil =>
      constructor
      · intro member
        cases member
      · intro picked
        exact absurd picked.1 (not_occurs_nil some place)
  | skip item text other induction =>
      rw [picks_skip other]
      cases place with
      | zero =>
          constructor
          · intro member
            obtain ⟨earlier, -, impossible⟩ := List.mem_map.mp member
            omega
          · intro picked
            exact absurd picked.1 other
      | succ place =>
          have shifted : Occurs read pattern (item :: text) (place + 1) ↔
              Occurs read pattern text place := Iff.rfl
          simp only [List.mem_map, Nat.add_right_cancel_iff,
            exists_eq_right, forall_exists_index, and_imp,
            forall_apply_eq_imp_iff₂, Nat.add_lt_add_iff_right, shifted]
          rw [induction]
          refine and_congr_right fun _ => forall₂_congr fun earlier _ => ?_
          omega
  | taken text begin induction =>
      rw [picks_match some begin]
      have positive := List.length_pos_iff.mpr some
      rcases Nat.eq_zero_or_pos place with rfl | later
      · constructor
        · intro _
          exact ⟨begin, fun _ _ impossible => absurd impossible (by omega)⟩
        · intro _
          exact List.mem_cons_self
      · by_cases inside : place < pattern.length
        · constructor
          · intro member
            rcases List.mem_cons.mp member with rfl | member
            · omega
            · obtain ⟨behind, -, isPlace⟩ := List.mem_map.mp member
              omega
          · intro picked
            have apart := picked.2 0 List.mem_cons_self later
            omega
        · obtain ⟨behind, rfl⟩ :=
            Nat.exists_eq_add_of_le (Nat.not_lt.mp inside)
          have shifted : Occurs read pattern text (pattern.length + behind) ↔
              Occurs read pattern (text.drop pattern.length) behind := by
            unfold Occurs
            rw [List.drop_drop]
          have member : pattern.length + behind ∈
              0 :: (picks read pattern (text.drop pattern.length)).map
                (· + pattern.length) ↔
              behind ∈ picks read pattern (text.drop pattern.length) := by
            simp only [List.mem_cons, List.mem_map]
            constructor
            · rintro (isZero | ⟨earlier, picked, isPlace⟩)
              · omega
              · obtain rfl : earlier = behind := by omega
                exact picked
            · intro picked
              exact .inr ⟨behind, picked, Nat.add_comm _ _⟩
          rw [member, induction, shifted]
          refine and_congr_right fun _ => ⟨fun apart => ?_, fun apart => ?_⟩
          · intro other member before
            rcases List.mem_cons.mp member with rfl | member
            · omega
            · obtain ⟨earlier, picked, rfl⟩ := List.mem_map.mp member
              have ends := apart earlier picked (by omega)
              omega
          · intro other picked before
            have ends := apart (other + pattern.length)
              (List.mem_cons_of_mem _ (List.mem_map.mpr ⟨other, picked, rfl⟩))
              (by omega)
            omega

/-- Letters that the pattern does not have are left where they are. -/
theorem replace_append {front text : List β} (some : pattern ≠ [])
    (foreign : ∀ item ∈ front, read item ∉ pattern) :
    replace read pattern mask (front ++ text) =
      front ++ replace read pattern mask text := by
  induction front with
  | nil => rfl
  | cons item front induction =>
      obtain ⟨own, others⟩ := List.forall_mem_cons.mp foreign
      have other : ¬ begins read pattern (item :: (front ++ text)) = true := by
        intro begin
        have positive := List.length_pos_iff.mpr some
        have first := begins_iff.mp begin 0 positive
        simp only [List.getElem?_cons_zero, Option.map_some,
          Option.some.injEq] at first
        exact own (first ▸ List.getElem_mem positive)
      rw [List.cons_append, replace_skip other, induction others,
        List.cons_append]

end Scan

/-! ## Hiding the places -/

section Hide

variable {pattern : List α} {cells : List (Option α)}

/-- The places of a pattern in a text of which parts are hidden. -/
abbrev places (pattern : List α) (cells : List (Option α)) : List Nat :=
  picks id (pattern.map some) cells

/-- Hide the places of a pattern. -/
def hide (pattern : List α) (cells : List (Option α)) : List (Option α) :=
  replace id (pattern.map some) (List.replicate pattern.length none) cells

theorem getElem?_hide (isSome : pattern ≠ []) (index : Nat) :
    (hide pattern cells)[index]? =
      if ∃ place ∈ places pattern cells,
          place ≤ index ∧ index < place + pattern.length then some none
      else cells[index]? := by
  have mapped : pattern.map some ≠ [] := by simpa using isSome
  unfold hide places
  induction cells using scan_induction id mapped
    generalizing index with
  | nil => simp [replace, replaceFrom, picks, picksFrom]
  | skip item text other induction =>
      rw [replace_skip other, picks_skip other]
      cases index with
      | zero => simp
      | succ index =>
          rw [List.getElem?_cons_succ, induction]
          simp only [List.mem_map, exists_exists_and_eq_and,
            List.getElem?_cons_succ]
          refine if_congr (exists_congr fun place => ?_) rfl rfl
          refine and_congr_right fun _ => ?_
          omega
  | taken text begin induction =>
      rw [replace_match mapped begin, picks_match mapped begin,
        List.length_map] at *
      by_cases inside : index < pattern.length
      · rw [List.getElem?_append_left (by simpa using inside),
          List.getElem?_replicate, if_pos inside, if_pos]
        exact ⟨0, List.mem_cons_self, Nat.zero_le _, by omega⟩
      · obtain ⟨behind, rfl⟩ :=
          Nat.exists_eq_add_of_le (Nat.not_lt.mp inside)
        rw [List.getElem?_append_right (by simp), List.length_replicate,
          Nat.add_sub_cancel_left, induction, List.getElem?_drop]
        refine if_congr ⟨?_, ?_⟩ rfl rfl
        · rintro ⟨place, picked, low, high⟩
          exact ⟨place + pattern.length, List.mem_cons_of_mem _
            (List.mem_map.mpr ⟨place, picked, rfl⟩), by omega, by omega⟩
        · rintro ⟨place, member, low, high⟩
          rcases List.mem_cons.mp member with rfl | member
          · omega
          · obtain ⟨place, picked, rfl⟩ := List.mem_map.mp member
            exact ⟨place, picked, by omega, by omega⟩

theorem occurs_cells_iff {place : Nat} :
    Occurs id (pattern.map some) cells place ↔
      ∀ j, (inside : j < pattern.length) →
        cells[place + j]? = some (some pattern[j]) := by
  unfold Occurs
  rw [begins_iff]
  simp

/-- A pattern stands in a text with hidden places where it stands in the
text and none of the places reaches into it. -/
theorem occurs_hide_iff {other : List α} (isSome : pattern ≠ [])
    (filled : other ≠ []) {place : Nat} :
    Occurs id (other.map some) (hide pattern cells) place ↔
      Occurs id (other.map some) cells place ∧
        ∀ hidden ∈ places pattern cells,
          ¬ (hidden < place + other.length ∧
            place < hidden + pattern.length) := by
  have positive := List.length_pos_iff.mpr isSome
  have length := List.length_pos_iff.mpr filled
  rw [occurs_cells_iff, occurs_cells_iff]
  simp only [getElem?_hide isSome]
  constructor
  · intro stands
    constructor
    · intro j inside
      have here := stands j inside
      split at here
      · cases here
      · exact here
    · rintro hidden picked ⟨after, before⟩
      have here := stands (max place hidden - place) (by omega)
      rw [if_pos ⟨hidden, picked, by omega, by omega⟩] at here
      cases here
  · rintro ⟨stands, apart⟩ j inside
    rw [if_neg, stands j inside]
    rintro ⟨hidden, picked, low, high⟩
    exact apart hidden picked ⟨by omega, by omega⟩

end Hide

/-! ## Several patterns in turn -/

section Turns

/-- Hide the places of patterns, one pattern after the other. -/
def hideAll (patterns : List (List α)) (cells : List (Option α)) :
    List (Option α) :=
  patterns.foldl (fun cells pattern => hide pattern cells) cells

/-- The places that are hidden when it is the turn of a pattern. -/
def Taken : List (List α) → List (Option α) → Nat → Nat → Prop
  | [], _, _, _ => False
  | pattern :: _, cells, 0, place => place ∈ places pattern cells
  | pattern :: patterns, cells, turn + 1, place =>
      Taken patterns (hide pattern cells) turn place

/-- The length of the pattern whose turn it is. -/
def lengthOf (patterns : List (List α)) (turn : Nat) : Nat :=
  (patterns[turn]?.getD []).length

/-- The pattern whose turn it is stands at a place. -/
def Stands (patterns : List (List α)) (cells : List (Option α))
    (turn place : Nat) : Prop :=
  ∃ pattern, patterns[turn]? = some pattern ∧
    Occurs id (pattern.map some) cells place

/-- An earlier turn, or the same turn and a place further left. -/
def Before (turn place turn' place' : Nat) : Prop :=
  turn < turn' ∨ turn = turn' ∧ place < place'

/-- Two places share a letter. -/
def Meets (patterns : List (List α)) (turn place turn' place' : Nat) :
    Prop :=
  place < place' + lengthOf patterns turn' ∧
    place' < place + lengthOf patterns turn

/-- A choice of occurrences: one is chosen where no chosen one before it
meets it. -/
def Selection (patterns : List (List α)) (cells : List (Option α))
    (chosen : Nat → Nat → Prop) : Prop :=
  ∀ turn place, chosen turn place ↔
    Stands patterns cells turn place ∧
      ∀ turn' place', chosen turn' place' →
        Before turn' place' turn place →
        ¬ Meets patterns turn' place' turn place

variable {patterns : List (List α)} {cells : List (Option α)}
  {chosen other : Nat → Nat → Prop}

/-- There is one choice. -/
theorem Selection.unique (selection : Selection patterns cells chosen)
    (selects : Selection patterns cells other) (turn place : Nat) :
    chosen turn place ↔ other turn place := by
  induction turn using Nat.strong_induction_on generalizing place with
  | _ turn earlier =>
      induction place using Nat.strong_induction_on with
      | _ place left =>
          rw [selection, selects]
          refine and_congr_right fun _ => ?_
          refine forall₂_congr fun turn' place' => ?_
          constructor
          · intro apart taken before
            refine apart ?_ before
            rcases before with sooner | ⟨rfl, further⟩
            · exact (earlier turn' sooner place').mpr taken
            · exact (left place' further).mpr taken
          · intro apart taken before
            refine apart ?_ before
            rcases before with sooner | ⟨rfl, further⟩
            · exact (earlier turn' sooner place').mp taken
            · exact (left place' further).mp taken

theorem stands_hide_iff {pattern : List α} (isSome : pattern ≠ [])
    (filled : ∀ pattern ∈ patterns, pattern ≠ []) {turn place : Nat} :
    Stands patterns (hide pattern cells) turn place ↔
      Stands (pattern :: patterns) cells (turn + 1) place ∧
        ∀ hidden ∈ places pattern cells,
          ¬ Meets (pattern :: patterns) 0 hidden (turn + 1) place := by
  have length {own : List α} (isOwn : patterns[turn]? = some own) :
      lengthOf (pattern :: patterns) (turn + 1) = own.length :=
    congrArg (fun found : Option (List α) => (found.getD []).length) isOwn
  unfold Meets
  constructor
  · rintro ⟨own, isOwn, occurs⟩
    have stands := (occurs_hide_iff isSome
      (filled own (List.mem_of_getElem? isOwn))).mp occurs
    rw [length isOwn]
    exact ⟨⟨own, isOwn, stands.1⟩, stands.2⟩
  · rintro ⟨⟨own, isOwn, occurs⟩, apart⟩
    have isOwn : patterns[turn]? = some own := isOwn
    rw [length isOwn] at apart
    exact ⟨own, isOwn, (occurs_hide_iff isSome
      (filled own (List.mem_of_getElem? isOwn))).mpr ⟨occurs, apart⟩⟩

/-- What the replacements hide is the choice. -/
theorem taken_selection (filled : ∀ pattern ∈ patterns, pattern ≠ []) :
    Selection patterns cells (Taken patterns cells) := by
  induction patterns generalizing cells with
  | nil =>
      intro turn place
      constructor
      · intro taken
        cases taken
      · rintro ⟨⟨pattern, isPattern, -⟩, -⟩
        simp at isPattern
  | cons pattern patterns induction =>
      obtain ⟨isSome, others⟩ := List.forall_mem_cons.mp filled
      intro turn place
      cases turn with
      | zero =>
          have mapped : pattern.map some ≠ [] := by simpa using isSome
          have picked := mem_picks_iff id mapped cells place
          rw [List.length_map] at picked
          refine Iff.trans picked (and_congr ?_ ?_)
          · exact ⟨fun occurs => ⟨pattern, rfl, occurs⟩,
              fun ⟨_, isPattern, occurs⟩ => by cases isPattern; exact occurs⟩
          · constructor
            · rintro apart turn' place' taken (sooner | ⟨rfl, further⟩)
              · omega
              · rintro ⟨-, meets⟩
                have ends := apart place' taken further
                have short : place < place' + pattern.length := meets
                omega
            · intro apart place' taken further
              by_contra meets
              refine apart 0 place' taken (.inr ⟨rfl, further⟩) ⟨?_, ?_⟩
              · exact Nat.lt_add_right _ further
              · exact Nat.not_le.mp meets
      | succ turn =>
          have later : Taken (pattern :: patterns) cells (turn + 1) place ↔
              _ := induction others turn place
          rw [later, stands_hide_iff isSome others, and_assoc]
          refine and_congr_right fun _ => ?_
          constructor
          · rintro ⟨first, apart⟩ turn' place' taken before
            cases turn' with
            | zero => exact first place' taken
            | succ turn' =>
                refine apart turn' place' taken ?_
                exact before.imp Nat.lt_of_succ_lt_succ
                  (And.imp_left Nat.succ.inj)
          · intro apart
            constructor
            · intro hidden picked
              exact apart 0 hidden picked (.inl (Nat.succ_pos turn))
            · intro turn' place' taken before
              refine apart (turn' + 1) place' taken ?_
              exact before.imp Nat.succ_lt_succ
                (And.imp_left (congrArg Nat.succ))

/-- A letter is covered by a place of a choice. -/
def Covers (patterns : List (List α)) (chosen : Nat → Nat → Prop)
    (index : Nat) : Prop :=
  ∃ turn place, chosen turn place ∧
    place ≤ index ∧ index < place + lengthOf patterns turn

open Classical in
/-- What is hidden at the end: the letters of the places taken. -/
theorem getElem?_hideAll (filled : ∀ pattern ∈ patterns, pattern ≠ [])
    (index : Nat) :
    (hideAll patterns cells)[index]? =
      if Covers patterns (Taken patterns cells) index then some none
      else cells[index]? := by
  induction patterns generalizing cells with
  | nil =>
      refine (if_neg ?_).symm
      rintro ⟨turn, place, impossible, -⟩
      exact impossible
  | cons pattern patterns induction =>
      obtain ⟨isSome, others⟩ := List.forall_mem_cons.mp filled
      refine (induction others).trans ?_
      rw [getElem?_hide isSome]
      have split : Covers (pattern :: patterns)
            (Taken (pattern :: patterns) cells) index ↔
          Covers patterns (Taken patterns (hide pattern cells)) index ∨
            ∃ place ∈ places pattern cells,
              place ≤ index ∧ index < place + pattern.length := by
        constructor
        · rintro ⟨turn, place, taken, bounds⟩
          cases turn with
          | zero => exact .inr ⟨place, taken, bounds⟩
          | succ turn => exact .inl ⟨turn, place, taken, bounds⟩
        · rintro (⟨turn, place, taken, bounds⟩ | ⟨place, picked, bounds⟩)
          · exact ⟨turn + 1, place, taken, bounds⟩
          · exact ⟨0, place, picked, bounds⟩
      simp only [split]
      by_cases later : Covers patterns (Taken patterns (hide pattern cells))
          index
      · rw [if_pos later, if_pos (.inl later)]
      · rw [if_neg later]
        exact if_congr (or_iff_right later).symm rfl rfl

end Turns

/-! ## Letters that remember their place -/

section Places

variable {star : α} {pattern : List α}

/-- A text in which stars stand for hidden letters, and the others remember
their place. -/
inductive Shows (star : α) :
    Nat → List (Option α) → List (α × Option Nat) → Prop where
  | nil {first : Nat} : Shows star first [] []
  | keep {first : Nat} {letter : α} {cells : List (Option α)}
      {text : List (α × Option Nat)} :
      Shows star (first + 1) cells text →
      Shows star first (some letter :: cells) ((letter, some first) :: text)
  | hidden {first count stars : Nat} {cells : List (Option α)}
      {text : List (α × Option Nat)} :
      0 < count → 0 < stars → Shows star (first + count) cells text →
      Shows star first (List.replicate count none ++ cells)
        (List.replicate stars (star, none) ++ text)

variable {first : Nat} {cells : List (Option α)}
  {text : List (α × Option Nat)}

theorem begins_cons {read : β → α} {letter : α} {item : β} {text : List β} :
    begins read (letter :: pattern) (item :: text) = true ↔
      letter = read item ∧ begins read pattern text = true := by
  unfold begins
  simp [List.isPrefixOf]

/-- No occurrence that is replaced has letters of the text and letters of a
mask. -/
def ApartFromMasks (pattern : List α) (text : List (α × Option Nat)) : Prop :=
  ∀ place ∈ picks Prod.fst pattern text,
    (∀ item ∈ (text.drop place).take pattern.length, item.2 ≠ none) ∨
      ∀ item ∈ (text.drop place).take pattern.length, item.2 = none

instance (text : List (α × Option Nat)) :
    Decidable (ApartFromMasks pattern text) :=
  inferInstanceAs (Decidable (∀ place ∈ picks Prod.fst pattern text, _))

/-- A pattern that stands in the letters that are left stands in what is
shown. -/
theorem Shows.stands (shows : Shows star first cells text)
    (begin : begins id (pattern.map some) cells = true) :
    begins Prod.fst pattern text = true ∧
      Shows star (first + pattern.length) (cells.drop pattern.length)
        (text.drop pattern.length) := by
  induction pattern generalizing first cells text with
  | nil => exact ⟨rfl, shows⟩
  | cons letter pattern induction =>
      cases shows with
      | nil => cases begin
      | @keep _ own _ _ shows =>
          rw [List.map_cons, begins_cons] at begin
          obtain ⟨same, rest⟩ := induction shows begin.2
          refine ⟨begins_cons.mpr ⟨Option.some.inj begin.1, same⟩, ?_⟩
          rw [Nat.add_assoc, Nat.add_comm 1] at rest
          exact rest
      | @hidden _ count stars _ _ someCells someStars shows =>
          obtain ⟨count, rfl⟩ := Nat.exists_eq_succ_of_ne_zero someCells.ne'
          rw [List.replicate_succ, List.cons_append, List.map_cons,
            begins_cons] at begin
          cases begin.1

/-- What is shown and not of a mask is left. -/
theorem Shows.stands_cells (shows : Shows star first cells text)
    (begin : begins Prod.fst pattern text = true)
    (kept : ∀ item ∈ text.take pattern.length, item.2 ≠ none) :
    begins id (pattern.map some) cells = true := by
  induction pattern generalizing first cells text with
  | nil => rfl
  | cons letter pattern induction =>
      cases shows with
      | nil => cases begin
      | @keep _ own _ _ shows =>
          rw [begins_cons] at begin
          rw [List.map_cons, begins_cons]
          refine ⟨congrArg some begin.1, induction shows begin.2 ?_⟩
          intro item member
          exact kept item (List.mem_cons_of_mem _ member)
      | @hidden _ count stars _ _ someCells someStars shows =>
          obtain ⟨stars, rfl⟩ := Nat.exists_eq_succ_of_ne_zero someStars.ne'
          exact absurd rfl (kept (star, none) List.mem_cons_self)

omit [DecidableEq α] in
/-- The stars in front are those of what is hidden in front. -/
theorem Shows.front (shows : Shows star first cells text) :
    ∃ count stars rest others,
      cells = List.replicate count none ++ rest ∧
        text = List.replicate stars (star, none) ++ others ∧
        (0 < count ↔ 0 < stars) ∧
        Shows star (first + count) rest others ∧
        ∀ item ∈ others.head?, item.2 ≠ none := by
  induction shows with
  | nil => exact ⟨0, 0, [], [], rfl, rfl, Iff.rfl, .nil, by simp⟩
  | keep shows _ =>
      exact ⟨0, 0, _, _, rfl, rfl, Iff.rfl, .keep shows, by simp⟩
  | @hidden first count stars _ _ someCells someStars _ induction =>
      obtain ⟨more, further, rest, others, rfl, rfl, -, shows, placed⟩ :=
        induction
      refine ⟨count + more, stars + further, rest, others, ?_, ?_, ?_, ?_,
        placed⟩
      · rw [List.replicate_add, List.append_assoc]
      · rw [List.replicate_add, List.append_assoc]
      · omega
      · rw [← Nat.add_assoc]
        exact shows

section ApartFromMasks

variable {item : α × Option Nat}

theorem ApartFromMasks.skip (apart : ApartFromMasks pattern (item :: text))
    (other : ¬ begins Prod.fst pattern (item :: text) = true) :
    ApartFromMasks pattern text := by
  intro place picked
  apply apart (place + 1)
  rw [picks_skip other]
  exact List.mem_map.mpr ⟨place, picked, rfl⟩

theorem ApartFromMasks.behind (filled : pattern ≠ [])
    (apart : ApartFromMasks pattern text)
    (begin : begins Prod.fst pattern text = true) :
    ApartFromMasks pattern (text.drop pattern.length) := by
  intro place picked
  rw [List.drop_drop, Nat.add_comm]
  apply apart (place + pattern.length)
  rw [picks_match filled begin]
  exact List.mem_cons_of_mem _ (List.mem_map.mpr ⟨place, picked, rfl⟩)

theorem ApartFromMasks.here (filled : pattern ≠ [])
    (apart : ApartFromMasks pattern text)
    (begin : begins Prod.fst pattern text = true) :
    (∀ item ∈ text.take pattern.length, item.2 ≠ none) ∨
      ∀ item ∈ text.take pattern.length, item.2 = none := by
  apply apart 0
  rw [picks_match filled begin]
  exact List.mem_cons_self

/-- Masks are replaced by masks, and the text behind them on its own. -/
theorem replace_stars {stars : Nat} (filled : pattern ≠ []) (some : 0 < stars)
    (placed : ∀ item ∈ text.head?, item.2 ≠ none) (count : Nat)
    (apart : ApartFromMasks pattern
      (List.replicate count (star, none) ++ text)) :
    ∃ left, (0 < left ↔ 0 < count) ∧ ApartFromMasks pattern text ∧
      replace Prod.fst pattern (List.replicate stars (star, none))
          (List.replicate count (star, none) ++ text) =
        List.replicate left (star, none) ++
          replace Prod.fst pattern (List.replicate stars (star, none))
            text := by
  have positive := List.length_pos_iff.mpr filled
  induction count using Nat.strong_induction_on with
  | _ count induction =>
      cases count with
      | zero => exact ⟨0, Iff.rfl, apart, rfl⟩
      | succ count =>
          by_cases begin : begins Prod.fst pattern
              (List.replicate (count + 1) (star, none) ++ text) = true
          · have masks := apart.here filled begin
            rw [List.take_append, List.length_replicate] at masks
            have inMask : pattern.length ≤ count + 1 := by
              by_contra longer
              have short := length_le_of_begins begin
              rw [List.length_append, List.length_replicate] at short
              cases text with
              | nil =>
                  rw [List.length_nil] at short
                  omega
              | cons item text =>
                  obtain ⟨further, more⟩ := Nat.exists_eq_add_of_lt
                    (Nat.not_le.mp longer)
                  rw [more, Nat.add_assoc, Nat.add_sub_cancel_left] at masks
                  rcases masks with kept | hidden
                  · refine kept (star, none) (List.mem_append_left _ ?_) rfl
                    exact List.mem_cons_self
                  · exact placed item rfl (hidden item
                      (List.mem_append_right _ List.mem_cons_self))
            have rest : (List.replicate (count + 1) (star, none) ++ text).drop
                pattern.length = List.replicate (count + 1 - pattern.length)
                  (star, none) ++ text := by
              rw [List.drop_append_of_le_length (by simpa using inMask),
                List.drop_replicate]
            have further := apart.behind filled begin
            rw [rest] at further
            obtain ⟨left, -, behind, same⟩ :=
              induction _ (by omega) further
            refine ⟨stars + left, by omega, behind, ?_⟩
            rw [replace_match filled begin, rest, same,
              List.replicate_add, List.append_assoc]
          · rw [List.replicate_succ, List.cons_append] at begin apart ⊢
            obtain ⟨left, -, behind, same⟩ :=
              induction count (Nat.lt_succ_self count) (apart.skip begin)
            refine ⟨left + 1, by omega, behind, ?_⟩
            rw [replace_skip begin, same, List.replicate_succ,
              List.cons_append]

end ApartFromMasks

/-- Replacing by stars shows what is hidden. -/
theorem Shows.replaced {stars : Nat} (filled : pattern ≠ [])
    (some : 0 < stars) (apart : ApartFromMasks pattern text)
    (shows : Shows star first cells text) :
    Shows star first (hide pattern cells)
      (replace Prod.fst pattern (List.replicate stars (star, none)) text) := by
  have positive := List.length_pos_iff.mpr filled
  have mapped : pattern.map Option.some ≠ [] := by simpa using filled
  induction isLength : text.length using Nat.strong_induction_on
    generalizing first cells text with
  | _ length induction =>
      obtain ⟨count, masked, rest, others, rfl, rfl, alike, later, placed⟩ :=
        shows.front
      obtain ⟨left, same, behind, replaced⟩ :=
        replace_stars filled some placed masked apart
      have hidden : hide pattern (List.replicate count none ++ rest) =
          List.replicate count none ++ hide pattern rest := by
        apply replace_append mapped
        intro item member
        rw [List.eq_of_mem_replicate member]
        simp
      rw [hidden, replaced]
      rcases Nat.eq_zero_or_pos masked with rfl | someStars
      · obtain rfl : count = 0 := by omega
        obtain rfl : left = 0 := by omega
        rw [List.replicate_zero, List.nil_append] at isLength ⊢
        rw [List.replicate_zero, List.nil_append]
        have shows : Shows star first rest others := later
        cases shows with
        | nil => exact .nil
        | hidden _ stars _ =>
            obtain ⟨more, rfl⟩ := Nat.exists_eq_succ_of_ne_zero stars.ne'
            exact absurd rfl (placed (star, none) rfl)
        | @keep _ letter rest others inner =>
            have whole : Shows star first (Option.some letter :: rest)
              ((letter, Option.some first) :: others) := .keep inner
            by_cases begin : begins id (pattern.map Option.some)
                (Option.some letter :: rest) = true
            · obtain ⟨shown, further⟩ := whole.stands begin
              rw [hide, replace_match mapped begin,
                replace_match filled shown, List.length_map]
              refine .hidden positive some (induction _ ?_
                (behind.behind filled shown) further rfl)
              rw [← isLength, List.length_drop, List.length_cons]
              omega
            · have unshown : ¬ begins Prod.fst pattern
                  ((letter, Option.some first) :: others) = true := by
                intro shown
                refine begin (whole.stands_cells shown ?_)
                rcases behind.here filled shown with kept | masks
                · exact kept
                · obtain ⟨length, isLength⟩ :=
                    Nat.exists_eq_succ_of_ne_zero positive.ne'
                  rw [isLength, List.take_succ_cons] at masks
                  cases masks _ List.mem_cons_self
              rw [hide, replace_skip begin, replace_skip unshown]
              refine .keep (induction _ ?_ (behind.skip unshown) inner rfl)
              rw [← isLength, List.length_cons]
              omega
      · refine .hidden (alike.mpr someStars) (same.mpr someStars)
          (induction _ ?_ behind later rfl)
        rw [← isLength, List.length_append, List.length_replicate]
        omega

omit [DecidableEq α] in
/-- The letters that are left are those that are not hidden. -/
theorem Shows.mem_iff (shows : Shows star first cells text) {letter : α}
    {place : Nat} :
    (letter, some place) ∈ text ↔
      first ≤ place ∧ cells[place - first]? = some (some letter) := by
  induction shows with
  | nil => simp
  | @keep first own cells text _ induction =>
      rw [List.mem_cons, induction]
      rcases Nat.lt_trichotomy place first with below | rfl | above
      · have differs : place ≠ first := below.ne
        simp [differs, Nat.not_le.mpr below,
          Nat.not_le.mpr (Nat.lt_succ_of_lt below)]
      · simp [Nat.not_succ_le_self, @eq_comm α own]
      · obtain ⟨behind, rfl⟩ := Nat.exists_eq_add_of_lt above
        have shifted : first + behind + 1 - first = behind + 1 := by omega
        have rest : first + behind + 1 - (first + 1) = behind := by omega
        rw [shifted, rest, List.getElem?_cons_succ]
        simp [Nat.add_assoc, Nat.add_comm behind]
  | @hidden first count stars cells text someCells _ _ induction =>
      have foreign : (letter, some place) ∉
          List.replicate stars (star, (none : Option Nat)) := by
        intro member
        cases List.eq_of_mem_replicate member
      rw [List.mem_append, or_iff_right foreign, induction]
      by_cases inside : place - first < count
      · rw [List.getElem?_append_left (by simpa using inside),
          List.getElem?_replicate, if_pos inside]
        simp only [Option.some.injEq, reduceCtorEq, and_false, iff_false,
          not_and]
        omega
      · rw [List.getElem?_append_right (by simpa using inside),
          List.length_replicate, Nat.sub_add_eq]
        refine and_congr_left fun _ => ?_
        omega

omit [DecidableEq α] in
/-- They are in the order of the text. -/
theorem Shows.inOrder (shows : Shows star first cells text) :
    (text.filterMap Prod.snd).Pairwise (· < ·) ∧
      ∀ place ∈ text.filterMap Prod.snd, first ≤ place := by
  induction shows with
  | nil => simp
  | @keep first own cells text _ induction =>
      obtain ⟨sorted, above⟩ := induction
      have head : ((own, some first) :: text).filterMap Prod.snd =
          first :: text.filterMap Prod.snd := rfl
      rw [head, List.pairwise_cons]
      refine ⟨⟨fun place member => above place member, sorted⟩, ?_⟩
      intro place member
      rcases List.mem_cons.mp member with rfl | member
      · exact Nat.le_refl _
      · exact Nat.le_of_succ_le (above place member)
  | @hidden first count stars cells text _ _ _ induction =>
      obtain ⟨sorted, above⟩ := induction
      have none : (List.replicate stars (star, (none : Option Nat))).filterMap
          Prod.snd = [] := by
        rw [List.filterMap_eq_nil_iff]
        intro item member
        rw [List.eq_of_mem_replicate member]
      rw [List.filterMap_append, none, List.nil_append]
      exact ⟨sorted, fun place member =>
        Nat.le_of_add_right_le (above place member)⟩

/-- Replacing letter by letter forgets the places. -/
theorem map_replace {read : β → α} {pattern : List α} {mask : List β}
    (filled : pattern ≠ []) (text : List β) :
    (replace read pattern mask text).map read =
      replace id pattern (mask.map read) (text.map read) := by
  have same (text : List β) : begins read pattern text = true ↔
      begins id pattern (text.map read) = true := by
    unfold begins
    rw [List.map_id]
  induction text using scan_induction read filled with
  | nil => rfl
  | skip item text other induction =>
      have otherwise :
          ¬ begins id pattern (read item :: text.map read) = true :=
        fun begin => other ((same _).mpr begin)
      rw [replace_skip other, List.map_cons, List.map_cons, induction,
        replace_skip otherwise]
  | taken text begin induction =>
      rw [replace_match filled begin, List.map_append, induction,
        replace_match filled ((same _).mp begin), List.map_drop]

end Places

/-! ## A cut of the text -/

section Cut

variable {star : α} {pattern mask piece text front back : List α}

/-- An occurrence of the pattern lies on both sides of a cut. -/
def Straddles (pattern front back : List α) : Prop :=
  ∃ left right, left ≠ [] ∧ right ≠ [] ∧ pattern = left ++ right ∧
    left <:+ front ∧ right <+: back

omit [DecidableEq α] in
theorem straddles_iff :
    Straddles pattern front back ↔
      ∃ start, pattern <+: (front ++ back).drop start ∧
        start < front.length ∧ front.length < start + pattern.length := by
  constructor
  · rintro ⟨left, right, someLeft, someRight, rfl, ⟨before, rfl⟩, ⟨rest, rfl⟩⟩
    have leftLength := List.length_pos_iff.mpr someLeft
    have rightLength := List.length_pos_iff.mpr someRight
    refine ⟨before.length, ⟨rest, ?_⟩, ?_, ?_⟩
    · simp
    · rw [List.length_append]
      omega
    · rw [List.length_append, List.length_append]
      omega
  · rintro ⟨start, ⟨rest, occurs⟩, first, last⟩
    have inFront : (front ++ back).drop start = front.drop start ++ back :=
      List.drop_append_of_le_length first.le
    rw [inFront] at occurs
    have shorter : front.drop start <+: pattern := by
      apply List.prefix_of_prefix_length_le ⟨back, rfl⟩ ⟨rest, occurs⟩
      rw [List.length_drop]
      omega
    obtain ⟨right, rfl⟩ := shorter
    refine ⟨front.drop start, right, ?_, ?_, rfl, List.drop_suffix _ _, ?_⟩
    · rw [← List.length_pos_iff, List.length_drop]
      omega
    · rintro rfl
      rw [List.append_nil, List.length_drop] at last
      omega
    · rw [List.append_assoc, List.append_cancel_left_eq] at occurs
      exact ⟨rest, occurs⟩

omit [DecidableEq α] in
theorem Straddles.suffix {other : List α}
    (straddles : Straddles pattern other back) (ends : other <:+ front) :
    Straddles pattern front back := by
  obtain ⟨left, right, someLeft, someRight, isPattern, onLeft, onRight⟩ :=
    straddles
  exact ⟨left, right, someLeft, someRight, isPattern, onLeft.trans ends,
    onRight⟩

theorem begins_id_iff :
    begins id pattern text = true ↔ pattern <+: text := by
  unfold begins
  rw [List.isPrefixOf_iff_prefix, List.map_id]

/-- Where no occurrence lies on both sides of a cut, the sides are replaced
on their own. -/
theorem replace_cut (filled : pattern ≠ [])
    (apart : ¬ Straddles pattern front back) :
    replace id pattern mask (front ++ back) =
      replace id pattern mask front ++ replace id pattern mask back := by
  induction front using scan_induction id filled with
  | nil => rfl
  | skip item front other induction =>
      have whole : ¬ begins id pattern (item :: (front ++ back)) = true := by
        rw [begins_id_iff] at other ⊢
        intro begin
        rcases List.prefix_or_prefix_of_prefix begin
            (List.prefix_append (item :: front) back) with shorter | longer
        · exact other shorter
        · obtain ⟨right, rfl⟩ := longer
          apply apart
          refine ⟨item :: front, right, List.cons_ne_nil _ _, ?_, rfl,
            List.suffix_rfl, ?_⟩
          · rintro rfl
            exact other (by rw [List.append_nil])
          · exact (List.prefix_append_right_inj (item :: front)).mp begin
      rw [List.cons_append, replace_skip whole, replace_skip other,
        List.cons_append, induction]
      intro straddles
      exact apart (straddles.suffix (List.suffix_cons item front))
  | taken front begin induction =>
      have inside := length_le_of_begins begin
      have whole : begins id pattern (front ++ back) = true := by
        rw [begins_id_iff] at begin ⊢
        exact begin.trans (List.prefix_append front back)
      rw [replace_match filled whole, replace_match filled begin,
        List.drop_append_of_le_length inside, List.append_assoc, induction]
      intro straddles
      exact apart (straddles.suffix (List.drop_suffix _ _))

/-- A replaced text without stars is the text. -/
theorem replace_eq_self (filled : pattern ≠ []) (stars : star ∈ mask)
    (plain : star ∉ replace id pattern mask text) :
    replace id pattern mask text = text := by
  induction text using scan_induction id filled with
  | nil => rfl
  | skip item text other induction =>
      rw [replace_skip other] at plain ⊢
      rw [induction (fun member => plain (List.mem_cons_of_mem _ member))]
  | taken text begin induction =>
      rw [replace_match filled begin] at plain
      exact (plain (List.mem_append_left _ stars)).elim

/-- What a replaced text begins with, the text begins with, up to the first
star. -/
theorem prefix_of_replace (filled : pattern ≠ []) (some : mask ≠ [])
    (stars : ∀ letter ∈ mask, letter = star) (plain : star ∉ piece)
    (before : piece <+: replace id pattern mask text) :
    piece <+: text := by
  induction text using scan_induction id filled generalizing piece with
  | nil => exact before
  | skip item text other induction =>
      rw [replace_skip other] at before
      cases piece with
      | nil => exact List.nil_prefix
      | cons letter piece =>
          obtain ⟨rfl, rest⟩ := List.cons_prefix_cons.mp before
          apply List.cons_prefix_cons.mpr ⟨rfl, _⟩
          exact induction (List.not_mem_of_not_mem_cons plain) rest
  | taken text begin induction =>
      rw [replace_match filled begin] at before
      cases piece with
      | nil => exact List.nil_prefix
      | cons letter piece =>
          obtain ⟨first, mask, rfl⟩ := List.exists_cons_of_ne_nil some
          obtain ⟨rfl, -⟩ := List.cons_prefix_cons.mp before
          rw [stars letter List.mem_cons_self] at plain
          exact (plain List.mem_cons_self).elim

omit [DecidableEq α] in
/-- What ends behind the last star ends behind the stars. -/
theorem suffix_of_stars (stars : ∀ letter ∈ mask, letter = star)
    (plain : star ∉ piece) (ends : piece <:+ mask ++ text) :
    piece <:+ text := by
  rcases List.suffix_or_suffix_of_suffix ends (List.suffix_append mask text)
    with shorter | ⟨more, rfl⟩
  · exact shorter
  · have inMask : more <:+ mask := by
      obtain ⟨before, isMask⟩ := ends
      rw [← List.append_assoc, List.append_cancel_right_eq] at isMask
      exact ⟨before, isMask⟩
    cases more with
    | nil => exact List.suffix_rfl
    | cons letter more =>
        have isStar := stars letter (inMask.subset List.mem_cons_self)
        rw [isStar] at plain
        exact (plain List.mem_cons_self).elim

/-- What a replaced text ends with, the text ends with, back to the last
star. -/
theorem suffix_of_replace (filled : pattern ≠ []) (some : star ∈ mask)
    (stars : ∀ letter ∈ mask, letter = star) (plain : star ∉ piece)
    (ends : piece <:+ replace id pattern mask text) :
    piece <:+ text := by
  induction text using scan_induction id filled with
  | nil => exact ends
  | skip item text other induction =>
      rw [replace_skip other] at ends
      rcases List.suffix_cons_iff.mp ends with rfl | inside
      · rw [replace_eq_self filled some
          (List.not_mem_of_not_mem_cons plain)]
      · exact (induction inside).trans (List.suffix_cons item text)
  | taken text begin induction =>
      rw [replace_match filled begin] at ends
      exact (induction (suffix_of_stars stars plain ends)).trans
        (List.drop_suffix _ _)

/-- Replacing by stars makes no occurrence of a pattern without stars. -/
theorem Straddles.of_replace {other : List α} (filled : pattern ≠ [])
    (some : star ∈ mask) (stars : ∀ letter ∈ mask, letter = star)
    (plain : star ∉ other)
    (straddles : Straddles other (replace id pattern mask front)
      (replace id pattern mask back)) :
    Straddles other front back := by
  obtain ⟨left, right, someLeft, someRight, rfl, onLeft, onRight⟩ := straddles
  rw [List.mem_append, not_or] at plain
  refine ⟨left, right, someLeft, someRight, rfl, ?_, ?_⟩
  · exact suffix_of_replace filled some stars plain.1 onLeft
  · exact prefix_of_replace filled (List.ne_nil_of_mem some) stars plain.2
      onRight

/-- Where none of the patterns lies on both sides of a cut, they are replaced
in turn on the sides on their own. -/
theorem foldl_replace_cut {patterns : List (List α)}
    (filled : ∀ pattern ∈ patterns, pattern ≠ [])
    (some : star ∈ mask) (stars : ∀ letter ∈ mask, letter = star)
    (plain : ∀ pattern ∈ patterns, star ∉ pattern)
    (apart : ∀ pattern ∈ patterns, ¬ Straddles pattern front back) :
    patterns.foldl (fun text pattern => replace id pattern mask text)
        (front ++ back) =
      patterns.foldl (fun text pattern => replace id pattern mask text)
          front ++
        patterns.foldl (fun text pattern => replace id pattern mask text)
          back := by
  induction patterns generalizing front back with
  | nil => rfl
  | cons pattern patterns induction =>
      obtain ⟨own, others⟩ := List.forall_mem_cons.mp filled
      obtain ⟨-, othersPlain⟩ := List.forall_mem_cons.mp plain
      obtain ⟨ownApart, othersApart⟩ := List.forall_mem_cons.mp apart
      rw [List.foldl_cons, replace_cut own ownApart]
      apply induction others othersPlain
      intro other member straddles
      exact othersApart other member
        (straddles.of_replace own some stars (othersPlain other member))

/-- A text that is not empty is not replaced by the empty text. -/
theorem replace_ne_nil {read : β → α} {mask text : List β}
    (filled : pattern ≠ []) (masked : mask ≠ []) (some : text ≠ []) :
    replace read pattern mask text ≠ [] := by
  cases text with
  | nil => exact some
  | cons item text =>
      by_cases begin : begins read pattern (item :: text) = true
      · rw [replace_match filled begin]
        intro empty
        exact masked (List.append_eq_nil_iff.mp empty).1
      · rw [replace_skip begin]
        exact List.cons_ne_nil _ _

end Cut

end Replacing
