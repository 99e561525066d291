import Mathlib.Data.List.Lex
import Mathlib.Tactic.Linarith
import Mathlib.Tactic.Ring

/-!
# Decimal fields in texts

Numbers written with a fixed number of digits, and the order of texts that
are made of them.
-/

namespace Decimal

def digit (value : Nat) : Char := Char.ofNat (48 + value)

/-- The digits of a number below `10 ^ width`, with leading zeros. -/
def padded : Nat → Nat → List Char
  | 0, _ => []
  | width + 1, value =>
      digit (value / 10 ^ width) :: padded width (value % 10 ^ width)

theorem digit_lt {value other : Nat} (small : value < 10)
    (below : other < 10) : digit value < digit other ↔ value < other := by
  have all : ∀ value other : Fin 10,
      digit value < digit other ↔ value < other := by decide
  exact all ⟨value, small⟩ ⟨other, below⟩

theorem digit_inj {value other : Nat} (small : value < 10)
    (below : other < 10) : digit value = digit other ↔ value = other := by
  have all : ∀ value other : Fin 10,
      digit value = digit other ↔ value = other := by decide
  exact (all ⟨value, small⟩ ⟨other, below⟩).trans Fin.ext_iff

/-- Where the digits stand among the characters of a timestamp. -/
theorem digit_between {value : Nat} (small : value < 10) :
    '+' < digit value ∧ '-' < digit value ∧ '.' < digit value ∧
      digit value < 'Z' := by
  have all : ∀ value : Fin 10, '+' < digit value ∧ '-' < digit value ∧
      '.' < digit value ∧ digit value < 'Z' := by decide
  exact all ⟨value, small⟩

theorem head_small {width value : Nat} (small : value < 10 ^ (width + 1)) :
    value / 10 ^ width < 10 := by
  rw [Nat.div_lt_iff_lt_mul (by positivity)]
  rwa [pow_succ, Nat.mul_comm] at small

@[simp] theorem length_padded (width value : Nat) :
    (padded width value).length = width := by
  induction width generalizing value with
  | zero => rfl
  | succ width induction => exact congrArg Nat.succ (induction _)

/-- A number is its multiple of a unit and the rest. -/
theorem lt_iff_of_split {unit : Int} (positive : 0 < unit)
    (value other : Int) :
    value < other ↔ value / unit < other / unit ∨
      value / unit = other / unit ∧ value % unit < other % unit := by
  have left := Int.mul_ediv_add_emod value unit
  have right := Int.mul_ediv_add_emod other unit
  have small := Int.emod_lt_of_pos value positive
  have below := Int.emod_lt_of_pos other positive
  have low := Int.emod_nonneg value positive.ne'
  have least := Int.emod_nonneg other positive.ne'
  rcases lt_trichotomy (value / unit) (other / unit) with less | same | more
  · have step : unit * (value / unit + 1) ≤ unit * (other / unit) :=
      Int.mul_le_mul_of_nonneg_left less positive.le
    rw [Int.mul_add, Int.mul_one] at step
    omega
  · rw [same] at left
    omega
  · have step : unit * (other / unit + 1) ≤ unit * (value / unit) :=
      Int.mul_le_mul_of_nonneg_left more positive.le
    rw [Int.mul_add, Int.mul_one] at step
    omega

/-- Texts that start with numbers of one width. -/
theorem padded_append_lt {width value other : Nat} {rest tail : List Char}
    (small : value < 10 ^ width) (below : other < 10 ^ width) :
    padded width value ++ rest < padded width other ++ tail ↔
      value < other ∨ value = other ∧ rest < tail := by
  induction width generalizing value other with
  | zero =>
      obtain rfl : value = 0 := by simpa using small
      obtain rfl : other = 0 := by simpa using below
      simp [padded]
  | succ width induction =>
      have positive : 0 < 10 ^ width := by positivity
      have split := lt_iff_of_split (Int.ofNat_lt.mpr positive) value other
      norm_cast at split
      simp only [padded, List.cons_append, List.cons_lt_cons_iff,
        digit_lt (head_small small) (head_small below),
        digit_inj (head_small small) (head_small below),
        induction (Nat.mod_lt _ positive) (Nat.mod_lt _ positive)]
      have left := Nat.div_add_mod value (10 ^ width)
      have right := Nat.div_add_mod other (10 ^ width)
      grind

theorem padded_lt {width value other : Nat} (small : value < 10 ^ width)
    (below : other < 10 ^ width) :
    padded width value < padded width other ↔ value < other := by
  have ordered := @padded_append_lt width value other [] [] small below
  simpa using ordered

/-- Texts that start with parts of one length. -/
theorem append_lt_append_iff {first second rest tail : List Char}
    (same : first.length = second.length) :
    first ++ rest < second ++ tail ↔
      first < second ∨ first = second ∧ rest < tail := by
  induction first generalizing second with
  | nil =>
      obtain rfl := List.eq_nil_of_length_eq_zero same.symm
      simp
  | cons head first induction =>
      cases second with
      | nil => cases same
      | cons other second =>
          simp only [List.cons_append, List.cons_lt_cons_iff,
            induction (Nat.succ.inj same), List.cons.injEq]
          grind

/-- A text whose first character is the greater one is not smaller. -/
theorem not_cons_lt {first second : Char} {rest tail : List Char}
    (less : first < second) : ¬ second :: rest < first :: tail := by
  rw [List.cons_lt_cons_iff]
  rintro (other | ⟨rfl, -⟩)
  · exact Char.lt_asymm less other
  · exact Char.lt_irrefl _ less

/-- Cross-multiplied fractions, first digit and rest. -/
theorem cross_iff_of_split (unit part first second : Int)
    {fraction remainder : Int}
    (inner : 0 ≤ fraction ∧ fraction < unit)
    (outer : 0 ≤ remainder ∧ remainder < part) :
    (unit * first + fraction + 1) * part ≤
        (part * second + remainder) * unit ↔
      first < second ∨ first = second ∧
        (fraction + 1) * part ≤ remainder * unit := by
  have left : (unit * first + fraction + 1) * part =
      part * unit * first + (fraction + 1) * part := by ring
  have right : (part * second + remainder) * unit =
      part * unit * second + remainder * unit := by ring
  rw [left, right]
  have positive : 0 < part * unit := by
    have low : 0 < part := by omega
    have high : 0 < unit := by omega
    positivity
  have whole : (fraction + 1) * part ≤ part * unit := by nlinarith
  have less : remainder * unit < part * unit := by nlinarith
  have least : 0 < (fraction + 1) * part := by nlinarith
  have low : 0 ≤ remainder * unit := by nlinarith
  rcases lt_trichotomy first second with before | same | behind
  · have step : part * unit * (first + 1) ≤ part * unit * second :=
      Int.mul_le_mul_of_nonneg_left before positive.le
    rw [Int.mul_add, Int.mul_one] at step
    exact iff_of_true (by omega) (.inl before)
  · subst same
    rw [Int.add_le_add_iff_left]
    simp
  · have step : part * unit * (second + 1) ≤ part * unit * first :=
      Int.mul_le_mul_of_nonneg_left behind positive.le
    rw [Int.mul_add, Int.mul_one] at step
    exact iff_of_false (by omega) (by omega)

/-- Two fractions, written with different numbers of digits and then closed
by `Z` and by `+`: the first text is the smaller one exactly when the whole
of its last unit lies before the other fraction. -/
theorem padded_zulu_lt {width other value number : Nat}
    {rest tail : List Char} (small : value < 10 ^ width)
    (below : number < 10 ^ other) :
    padded width value ++ 'Z' :: rest < padded other number ++ '+' :: tail ↔
      (value + 1) * 10 ^ other ≤ number * 10 ^ width := by
  induction width generalizing value number other with
  | zero =>
      obtain rfl : value = 0 := by simpa using small
      have later : ¬ padded 0 0 ++ 'Z' :: rest <
          padded other number ++ '+' :: tail := by
        cases other with
        | zero => exact not_cons_lt (by decide)
        | succ other =>
            exact not_cons_lt (digit_between (head_small below)).2.2.2
      refine iff_of_false later ?_
      simpa using below
  | succ width induction =>
      cases other with
      | zero =>
          obtain rfl : number = 0 := by simpa using below
          have later : ¬ padded (width + 1) value ++ 'Z' :: rest <
              padded 0 0 ++ '+' :: tail :=
            not_cons_lt (digit_between (head_small small)).1
          exact iff_of_false later (by simp)
      | succ other =>
          have positive : 0 < 10 ^ width := by positivity
          have ground : 0 < 10 ^ other := by positivity
          simp only [padded, List.cons_append, List.cons_lt_cons_iff,
            digit_lt (head_small small) (head_small below),
            digit_inj (head_small small) (head_small below),
            induction (Nat.mod_lt _ positive) (Nat.mod_lt _ ground)]
          have left := Nat.div_add_mod value (10 ^ width)
          have right := Nat.div_add_mod number (10 ^ other)
          have inner := Nat.mod_lt value positive
          have outer := Nat.mod_lt number ground
          have split := cross_iff_of_split (10 ^ width : Nat)
            (10 ^ other : Nat) (value / 10 ^ width : Nat)
            (number / 10 ^ other : Nat)
            ⟨Int.natCast_nonneg _, Int.ofNat_lt.mpr inner⟩
            ⟨Int.natCast_nonneg _, Int.ofNat_lt.mpr outer⟩
          norm_cast at split
          rw [← split, left, right, pow_succ,
            pow_succ, ← Nat.mul_assoc, ← Nat.mul_assoc,
            Nat.mul_le_mul_right_iff (by decide)]

end Decimal
