import Mathlib.Data.List.Sort

/-!
# Windows of sorted lists

What `ORDER BY … LIMIT … OFFSET …` returns, and when a window of a filtered
list can be read off a prefix of the unfiltered one.
-/

namespace Paging

variable {α : Type}

/-- At most `limit` items after the first `offset`. -/
def window (items : List α) (limit offset : Nat) : List α :=
  (items.drop offset).take limit

theorem window_take (items : List α) (count limit offset : Nat) :
    window (items.take count) limit offset =
      (items.drop offset).take (min limit (count - offset)) := by
  rw [window, List.drop_take, List.take_take]

/-- The window of a prefix is the window of the whole list exactly when the
prefix reaches to its end. -/
theorem window_take_eq_iff (items : List α) (count limit offset : Nat) :
    window (items.take count) limit offset = window items limit offset ↔
      min limit (items.length - offset) ≤ count - offset := by
  rw [window_take, window]
  constructor
  · intro same
    have lengths := congrArg List.length same
    simp only [List.length_take, List.length_drop] at lengths
    omega
  · intro reaches
    rw [List.take_eq_take_iff, List.length_drop]
    omega

theorem window_take_take (items : List α) (count limit offset : Nat) :
    window (items.take count) limit offset <+: window items limit offset := by
  rw [window_take, window]
  exact List.take_prefix_take_left (Nat.min_le_left _ _)

/-- Filtering a prefix gives a prefix of the filtered list. -/
theorem filter_take (items : List α) (keep : α → Bool) (count : Nat) :
    (items.take count).filter keep =
      (items.filter keep).take ((items.take count).countP keep) := by
  induction items generalizing count with
  | nil => simp
  | cons item items induction =>
      cases count with
      | zero => simp
      | succ count =>
          by_cases kept : keep item = true
          · simp [kept, induction count]
          · simp [kept, induction count]

/-! ## Sorting and filtering -/

section Sorting

variable (before : α → α → Prop) [DecidableRel before] [IsTrans α before]

theorem filter_orderedInsert {item : α} {items : List α}
    (keep : α → Bool) (sorted : items.Pairwise before) :
    (items.orderedInsert before item).filter keep =
      if keep item = true then
        (items.filter keep).orderedInsert before item
      else items.filter keep := by
  induction items with
  | nil =>
      by_cases kept : keep item = true
      · simp [kept]
      · simp [kept]
  | cons head items induction =>
      have rest := induction (List.Pairwise.of_cons sorted)
      by_cases first : before item head
      · rw [List.orderedInsert_cons_of_le before items first]
        by_cases kept : keep item = true
        · rw [if_pos kept, List.filter_cons_of_pos kept]
          symm
          cases filtered : (head :: items).filter keep with
          | nil => rfl
          | cons next others =>
              refine List.orderedInsert_cons_of_le before others ?_
              have member : next ∈ head :: items := by
                have inFiltered : next ∈ (head :: items).filter keep := by
                  simp [filtered]
                exact (List.mem_filter.mp inFiltered).1
              rcases List.mem_cons.mp member with rfl | later
              · exact first
              · have ordered := List.rel_of_pairwise_cons sorted later
                exact IsTrans.trans _ _ _ first ordered
        · rw [if_neg kept, List.filter_cons_of_neg kept]
      · rw [List.orderedInsert_of_not_le before items first]
        by_cases headKept : keep head = true
        · rw [List.filter_cons_of_pos headKept, rest,
            List.filter_cons_of_pos headKept]
          split
          · rw [List.orderedInsert_of_not_le before _ first]
          · rfl
        · rw [List.filter_cons_of_neg headKept, rest,
            List.filter_cons_of_neg headKept]

/-- A stable sort may be done before or after filtering. -/
theorem filter_insertionSort [Std.Total before] (keep : α → Bool)
    (items : List α) :
    (items.insertionSort before).filter keep =
      (items.filter keep).insertionSort before := by
  induction items with
  | nil => rfl
  | cons item items induction =>
      rw [List.insertionSort_cons,
        filter_orderedInsert before keep (List.pairwise_insertionSort _ _),
        induction]
      by_cases kept : keep item = true
      · rw [if_pos kept, List.filter_cons_of_pos kept,
          List.insertionSort_cons]
      · rw [if_neg kept, List.filter_cons_of_neg kept]

end Sorting

/-! ## Pages -/

/-- Pages of a size, one after another. -/
def pages (page : Nat → List α) (size first : Nat) : Nat → List α
  | 0 => []
  | count + 1 =>
      page (first * size) ++ pages page size (first + 1) count

/-- Pages that are cut short at most are together no longer than what they
page. -/
theorem length_pages_le {items : List α} {page : Nat → List α}
    {size : Nat}
    (cut : ∀ offset, page offset <+: window items size offset)
    (first count : Nat) :
    (pages page size first count).length ≤ items.length - first * size := by
  induction count generalizing first with
  | zero => exact Nat.zero_le _
  | succ count induction =>
      have rest := induction (first + 1)
      have here := (cut (first * size)).length_le
      rw [window, List.length_take, List.length_drop] at here
      rw [pages, List.length_append]
      rw [Nat.succ_mul] at rest
      omega

/-- Pages give the whole list exactly when each of them is complete. -/
theorem pages_eq_iff {items : List α} {page : Nat → List α} {size : Nat}
    (cut : ∀ offset, page offset <+: window items size offset)
    (first count : Nat) (covered : items.length ≤ (first + count) * size) :
    pages page size first count = items.drop (first * size) ↔
      ∀ number, first ≤ number → number < first + count →
        page (number * size) = window items size (number * size) := by
  induction count generalizing first with
  | zero =>
      constructor
      · intro _ number above below
        omega
      · intro _
        rw [pages, List.drop_eq_nil_of_le (by simpa using covered)]
  | succ count induction =>
      have rest := induction (first + 1)
        (by rw [Nat.add_right_comm, Nat.add_assoc]; exact covered)
      have split : items.drop (first * size) =
          window items size (first * size) ++
            items.drop ((first + 1) * size) := by
        rw [window, Nat.succ_mul, ← List.drop_drop, List.take_append_drop]
      rw [pages, split]
      constructor
      · intro same
        have later := length_pages_le cut (first + 1) count
        have here := (cut (first * size)).length_le
        have lengths := congrArg List.length same
        rw [List.length_append, List.length_append, List.length_drop]
          at lengths
        obtain ⟨pageSame, restSame⟩ :=
          List.append_inj same (by omega)
        intro number above below
        rcases Nat.eq_or_lt_of_le above with rfl | further
        · exact pageSame
        · exact rest.mp restSame number further (by omega)
      · intro complete
        rw [complete first (Nat.le_refl first) (by omega)]
        rw [rest.mpr fun number above below =>
          complete number (by omega) (by omega)]

end Paging
