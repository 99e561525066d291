import Mathlib.Data.List.Nodup
import Mathlib.Data.List.Perm.Basic

/-!
# Places in a sorted list

Where a stable sort puts an element of a list without repetitions: behind it
are the greater elements, and of the equal ones those that followed it.
-/

namespace StableSort

variable {α : Type} {le : α → α → Bool} {entries front back before after :
  List α} {entry other : α}

theorem mem_front_of_pair (nodup : (front ++ entry :: back).Nodup)
    (pair : [other, entry].Sublist (front ++ entry :: back))
    (different : other ≠ entry) : other ∈ front := by
  obtain ⟨left, right, both, inFront, inRest⟩ :=
    List.sublist_append_iff.mp pair
  cases left with
  | nil =>
      obtain rfl : [other, entry] = right := both
      cases inRest with
      | cons _ later =>
          have again : entry ∈ back := later.subset (by simp)
          exact ((List.nodup_middle.mp nodup).notMem
            (List.mem_append_right _ again)).elim
      | cons_cons _ later => exact (different rfl).elim
  | cons head left =>
      obtain ⟨rfl, -⟩ := List.cons.inj both
      exact inFront.subset List.mem_cons_self

theorem mem_back_of_pair (nodup : (front ++ entry :: back).Nodup)
    (pair : [entry, other].Sublist (front ++ entry :: back)) :
    other ∈ back := by
  obtain ⟨left, right, both, inFront, inRest⟩ :=
    List.sublist_append_iff.mp pair
  cases left with
  | nil =>
      obtain rfl : [entry, other] = right := both
      cases inRest with
      | cons _ later => exact later.subset (by simp)
      | cons_cons _ later => exact later.subset (by simp)
  | cons head left =>
      obtain ⟨rfl, -⟩ := List.cons.inj both
      have early : entry ∈ front := inFront.subset List.mem_cons_self
      exact ((List.nodup_middle.mp nodup).notMem
        (List.mem_append_left _ early)).elim

/-- Which elements a stable sort puts behind an element. -/
theorem mem_back_iff
    (trans : ∀ first second third, le first second → le second third →
      le first third)
    (total : ∀ first second, le first second || le second first)
    (nodup : (before ++ entry :: after).Nodup)
    (sorted : (before ++ entry :: after).mergeSort le =
      front ++ entry :: back) :
    other ∈ back ↔ other ∈ before ∧ le other entry = false ∨
      other ∈ after ∧ le entry other = true := by
  have permuted := List.mergeSort_perm (before ++ entry :: after) le
  have ordered := List.pairwise_mergeSort trans total
    (before ++ entry :: after)
  rw [sorted] at permuted ordered
  have fresh : (front ++ entry :: back).Nodup := permuted.nodup_iff.mpr nodup
  have apart := (List.nodup_middle.mp fresh).notMem
  have notTwice := (List.nodup_middle.mp nodup).notMem
  have places : other ∈ front ∨ other = entry ∨ other ∈ back ↔
      other ∈ before ∨ other = entry ∨ other ∈ after := by
    have same := permuted.mem_iff (a := other)
    simpa using same
  obtain ⟨-, behind, ahead⟩ := List.pairwise_append.mp ordered
  have behind := (List.pairwise_cons.mp behind).1
  have stable (first second : α) (kept : le first second)
      (pair : [first, second].Sublist (before ++ entry :: after)) :
      [first, second].Sublist (front ++ entry :: back) := by
    have sublist := List.pair_sublist_mergeSort trans total kept pair
    rwa [sorted] at sublist
  constructor
  · intro inBack
    have different : other ≠ entry := by
      rintro rfl
      exact apart (List.mem_append_right _ inBack)
    have greater := behind other inBack
    rcases places.mp (.inr (.inr inBack)) with early | same | late
    · refine .inl ⟨early, ?_⟩
      by_contra kept
      have pair : [other, entry].Sublist (before ++ entry :: after) :=
        List.Sublist.append (List.singleton_sublist.mpr early)
          (List.singleton_sublist.mpr List.mem_cons_self)
      have inFront := mem_front_of_pair fresh
        (stable other entry (by simpa using kept) pair)
        different
      exact (List.nodup_append.mp fresh).2.2 other inFront other
        (List.mem_cons_of_mem _ inBack) rfl
    · exact (different same).elim
    · exact .inr ⟨late, greater⟩
  · rintro (⟨early, greater⟩ | ⟨late, kept⟩)
    · have different : other ≠ entry := by
        rintro rfl
        exact notTwice (List.mem_append_left _ early)
      rcases places.mpr (.inl early) with inFront | same | inBack
      · have smaller := ahead other inFront entry List.mem_cons_self
        rw [greater] at smaller
        cases smaller
      · exact (different same).elim
      · exact inBack
    · refine mem_back_of_pair fresh (stable entry other kept ?_)
      have later : [other].Sublist after := List.singleton_sublist.mpr late
      exact (later.cons_cons entry).trans (List.sublist_append_right _ _)

/-- How many elements a stable sort puts behind an element. -/
theorem length_back
    (trans : ∀ first second third, le first second → le second third →
      le first third)
    (total : ∀ first second, le first second || le second first)
    (nodup : (before ++ entry :: after).Nodup)
    (sorted : (before ++ entry :: after).mergeSort le =
      front ++ entry :: back) :
    back.length = before.countP (fun other => !le other entry) +
      after.countP (fun other => le entry other) := by
  have permuted := List.mergeSort_perm (before ++ entry :: after) le
  rw [sorted] at permuted
  have fresh : (front ++ entry :: back).Nodup := permuted.nodup_iff.mpr nodup
  have backNodup : back.Nodup :=
    ((List.sublist_cons_self _ _).trans
      (List.sublist_append_right _ _)).nodup fresh
  have othersNodup : (before ++ after).Nodup :=
    (List.nodup_cons.mp (List.nodup_middle.mp nodup)).2
  have newerNodup : (before.filter (fun other => !le other entry) ++
      after.filter fun other => le entry other).Nodup :=
    (List.filter_sublist.append List.filter_sublist).nodup othersNodup
  have same : back.Perm (before.filter (fun other => !le other entry) ++
      after.filter fun other => le entry other) := by
    rw [List.perm_ext_iff_of_nodup backNodup newerNodup]
    intro other
    rw [mem_back_iff trans total nodup sorted]
    simp
  rw [same.length_eq, List.length_append, List.countP_eq_length_filter,
    List.countP_eq_length_filter]

/-- An element is among the first of a sorted list, all but `count`, when at
least so many are behind it. -/
theorem mem_take_iff [DecidableEq α] (count : Nat)
    (trans : ∀ first second third, le first second → le second third →
      le first third)
    (total : ∀ first second, le first second || le second first)
    (nodup : (before ++ entry :: after).Nodup) :
    entry ∈ ((before ++ entry :: after).mergeSort le).take
        ((before ++ entry :: after).length - count) ↔
      count ≤ before.countP (fun other => !le other entry) +
        after.countP (fun other => le entry other) := by
  have member : entry ∈ (before ++ entry :: after).mergeSort le := by simp
  obtain ⟨front, back, sorted⟩ := List.append_of_mem member
  have permuted := List.mergeSort_perm (before ++ entry :: after) le
  have long := permuted.length_eq
  rw [sorted] at permuted long
  have fresh : (front ++ entry :: back).Nodup := permuted.nodup_iff.mpr nodup
  have apart : entry ∉ front := fun early =>
    (List.nodup_middle.mp fresh).notMem (List.mem_append_left _ early)
  rw [List.mem_take_iff_idxOf_lt member, sorted,
    List.idxOf_append_of_notMem apart, List.idxOf_cons_self,
    ← length_back trans total nodup sorted, ← long]
  simp only [List.length_append, List.length_cons]
  omega

end StableSort
