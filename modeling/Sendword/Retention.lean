import Sendword.Backup
import Sendword.Concurrency.Alone
import Sendword.Decimal
import Sendword.StableSort

/-!
# Retention

Which backups `apply_retention` deletes.  The times of the listing and the
cutoff are compared as texts, and the two formats differ in their fractions
and in the sign of the time zone.
-/

namespace Sendword

open Concurrency Decimal

/-! ## Timestamps as texts -/

/-- The years 0 to 9999, in seconds since the epoch. -/
def yearZero : Int := -62167219200

def yearTenThousand : Int := 253402300800

def InFourDigitYears (seconds : Int) : Prop :=
  yearZero ≤ seconds ∧ seconds < yearTenThousand

instance (seconds : Int) : Decidable (InFourDigitYears seconds) :=
  inferInstanceAs (Decidable (_ ∧ _))

/-- A fraction of a second with a fixed number of digits. -/
def fractionText (digits value : Nat) : List Char :=
  if digits = 0 then [] else '.' :: padded digits value

/-- The shortest fraction of 0, 3, 6 or 9 digits that is exact. -/
def shortestFraction (nanos : Nat) : List Char :=
  if nanos = 0 then []
  else if nanos % 1000000 = 0 then '.' :: padded 3 (nanos / 1000000)
  else if nanos % 1000 = 0 then '.' :: padded 6 (nanos / 1000)
  else '.' :: padded 9 nanos

/-- The timestamp of a listing: date and time, a fraction of the given number
of digits, and `Z`.  The time is counted in units of the last digit. -/
def stampText (civil : Int → String) (digits : Nat) (time : Int) : String :=
  String.ofList ((civil (time / 10 ^ digits)).toList ++
    (fractionText digits (time % 10 ^ digits).toNat ++ ['Z']))

/-- How `DateTime::to_rfc3339` prints an instant, with `civil` the part up to
the seconds: texts of one length for the years of four digits, and a sign
before all other years. -/
structure PrintsRfc3339 (formats : TimeFormats) (civil : Int → String) :
    Prop where
  width : ∀ seconds, InFourDigitYears seconds →
    (civil seconds).toList.length = 19
  starts : ∀ seconds, InFourDigitYears seconds →
    ∃ value < 10, ∃ rest, (civil seconds).toList = digit value :: rest
  increasing : ∀ seconds later, InFourDigitYears seconds →
    InFourDigitYears later → seconds < later → civil seconds < civil later
  rfc3339 : ∀ instant, InFourDigitYears (instant / 1000000000) →
    formats.rfc3339 instant =
      String.ofList ((civil (instant / 1000000000)).toList ++
        (shortestFraction (instant % 1000000000).toNat ++ "+00:00".toList))
  before : ∀ instant, instant / 1000000000 < yearZero →
    ∃ rest, formats.rfc3339 instant = String.ofList ('-' :: rest)
  after : ∀ instant, yearTenThousand ≤ instant / 1000000000 →
    ∃ rest, formats.rfc3339 instant = String.ofList ('+' :: rest)

theorem fraction_lt_dotted {digits value width number : Nat}
    {tail : List Char} (small : value < 10 ^ digits)
    (below : number < 10 ^ width) :
    fractionText digits value ++ ['Z'] <
        '.' :: (padded width number ++ '+' :: tail) ↔
      (value + 1) * 10 ^ width ≤ number * 10 ^ digits := by
  unfold fractionText
  by_cases none : digits = 0
  · subst none
    obtain rfl : value = 0 := by simpa using small
    exact iff_of_false (not_cons_lt (by decide)) (by simpa using below)
  · rw [if_neg none, List.cons_append, List.cons_lt_cons_iff,
      padded_zulu_lt small below]
    simp

/-- The fraction of a listed time and that of the cutoff. -/
theorem fraction_lt_iff {digits value nanos : Nat} {tail : List Char}
    (small : value < 10 ^ digits) (below : nanos < 1000000000) :
    fractionText digits value ++ ['Z'] <
        shortestFraction nanos ++ '+' :: tail ↔
      (value + 1) * 1000000000 ≤ nanos * 10 ^ digits := by
  have scale (width number factor : Nat) (positive : 0 < factor)
      (whole : nanos = number * factor)
      (second : 1000000000 = 10 ^ width * factor) :
      (value + 1) * 10 ^ width ≤ number * 10 ^ digits ↔
        (value + 1) * 1000000000 ≤ nanos * 10 ^ digits := by
    rw [whole, second, ← Nat.mul_assoc, Nat.mul_right_comm number,
      Nat.mul_le_mul_right_iff positive]
  unfold shortestFraction
  split
  · rename_i zero
    subst zero
    refine iff_of_false ?_ (by simp)
    unfold fractionText
    split
    · exact not_cons_lt (by decide)
    · exact not_cons_lt (by decide)
  · split
    · rw [List.cons_append, fraction_lt_dotted small (by omega)]
      exact scale 3 (nanos / 1000000) 1000000 (by decide) (by omega)
        (by decide)
    · split
      · rw [List.cons_append, fraction_lt_dotted small (by omega)]
        exact scale 6 (nanos / 1000) 1000 (by decide) (by omega) (by decide)
      · rw [List.cons_append, fraction_lt_dotted small (by omega)]
        exact scale 9 nanos 1 (by decide) (by omega) (by decide)

section Texts

variable {formats : TimeFormats} {civil : Int → String}

theorem civil_append_lt {seconds later : Int} {rest tail : List Char}
    (prints : PrintsRfc3339 formats civil)
    (inYears : InFourDigitYears seconds) (still : InFourDigitYears later) :
    (civil seconds).toList ++ rest < (civil later).toList ++ tail ↔
      seconds < later ∨ seconds = later ∧ rest < tail := by
  have same : (civil seconds).toList.length = (civil later).toList.length :=
    (prints.width seconds inYears).trans (prints.width later still).symm
  rw [append_lt_append_iff same]
  rcases lt_trichotomy seconds later with before | rfl | behind
  · exact iff_of_true (.inl (prints.increasing _ _ inYears still before))
      (.inl before)
  · simp
  · have more := prints.increasing _ _ still inYears behind
    refine iff_of_false ?_ (by omega)
    rintro (less | ⟨equal, -⟩)
    · exact List.lt_asymm more less
    · rw [String.lt_iff, equal] at more
      exact List.lt_irrefl _ more

/-- Two fractions with the same number of digits. -/
theorem fraction_lt_fraction {digits value other : Nat}
    (small : value < 10 ^ digits) (below : other < 10 ^ digits) :
    fractionText digits value ++ ['Z'] < fractionText digits other ++ ['Z'] ↔
      value < other := by
  unfold fractionText
  by_cases none : digits = 0
  · subst none
    obtain rfl : value = 0 := by simpa using small
    obtain rfl : other = 0 := by simpa using below
    simp
  · rw [if_neg none, if_neg none, List.cons_append, List.cons_append,
      List.cons_lt_cons_iff, padded_append_lt small below]
    simp

theorem unit_pos (digits : Nat) : (0 : Int) < 10 ^ digits := by
  positivity

/-- The fraction of a time as a natural number. -/
theorem toNat_emod (digits : Nat) (time : Int) :
    ((time % 10 ^ digits).toNat : Int) = time % 10 ^ digits ∧
      (time % 10 ^ digits).toNat < 10 ^ digits := by
  have low := Int.emod_nonneg time (unit_pos digits).ne'
  have small := Int.emod_lt_of_pos time (unit_pos digits)
  have same := Int.toNat_of_nonneg low
  refine ⟨same, ?_⟩
  rw [← Int.ofNat_lt, same]
  exact_mod_cast small

/-- Times of one format are ordered as texts. -/
theorem stampText_lt_iff {digits : Nat} {time later : Int}
    (prints : PrintsRfc3339 formats civil)
    (inYears : InFourDigitYears (time / 10 ^ digits))
    (still : InFourDigitYears (later / 10 ^ digits)) :
    stampText civil digits time < stampText civil digits later ↔
      time < later := by
  obtain ⟨same, small⟩ := toNat_emod digits time
  obtain ⟨equal, below⟩ := toNat_emod digits later
  rw [String.lt_iff, stampText, stampText, String.toList_ofList,
    String.toList_ofList, civil_append_lt prints inYears still,
    fraction_lt_fraction small below,
    lt_iff_of_split (unit_pos digits) time later]
  omega

/-- A listed time is before the cutoff, as texts, when the whole of its last
unit is. -/
theorem stampText_lt_rfc3339 {digits : Nat} {time instant : Int}
    (prints : PrintsRfc3339 formats civil)
    (inYears : InFourDigitYears (time / 10 ^ digits))
    (still : InFourDigitYears (instant / 1000000000)) :
    stampText civil digits time < formats.rfc3339 instant ↔
      (time + 1) * 1000000000 ≤ instant * 10 ^ digits := by
  obtain ⟨same, small⟩ := toNat_emod digits time
  have low := Int.emod_nonneg instant (by decide : (1000000000 : Int) ≠ 0)
  have below : (instant % 1000000000).toNat < 1000000000 := by omega
  have split := cross_iff_of_split (10 ^ digits) 1000000000
    (time / 10 ^ digits) (instant / 1000000000)
    ⟨Int.emod_nonneg time (unit_pos digits).ne',
      Int.emod_lt_of_pos time (unit_pos digits)⟩
    ⟨Int.emod_nonneg instant (by decide),
      Int.emod_lt_of_pos instant (by decide)⟩
  rw [Int.mul_ediv_add_emod, Int.mul_ediv_add_emod] at split
  rw [String.lt_iff, prints.rfc3339 instant still, stampText,
    String.toList_ofList, String.toList_ofList,
    civil_append_lt prints inYears still, split]
  have fractions : fractionText digits (time % 10 ^ digits).toNat ++ ['Z'] <
        shortestFraction (instant % 1000000000).toNat ++ "+00:00".toList ↔
      _ := fraction_lt_iff small below
  rw [fractions, ← Int.ofNat_le]
  push_cast
  rw [same, Int.toNat_of_nonneg low]

end Texts

/-! ## What is deleted -/

def oldestFirst (entries : List BackupEntry) : List BackupEntry :=
  entries.mergeSort fun first second =>
    decide (first.lastModified ≤ second.lastModified)

@[simp] theorem mem_oldestFirst {entry : BackupEntry}
    {entries : List BackupEntry} :
    entry ∈ oldestFirst entries ↔ entry ∈ entries :=
  List.mem_mergeSort

/-- The keys that are deleted when no request fails. -/
def chosen (formats : TimeFormats) (retention : RetentionConfig)
    (entries : List BackupEntry) (now : Int) : List String :=
  let entries := oldestFirst entries
  let toDelete := surplus retention.maxCount entries
  match retention.maxAge with
  | none => toDelete
  | some maxAge =>
      match cutoffText formats now maxAge with
      | none => []
      | some cutoff => withAged cutoff entries toDelete

/-- The answers of a bucket that works: the listing and the time. -/
def Answers (objects : List (String × StoredObject)) (now : Int) :
    Event BackupOp.Answer → Prop
  | ⟨.newClient, answer⟩ => answer = Except.ok ()
  | ⟨.listObjects _, answer⟩ => answer = Except.ok objects
  | ⟨.now, answer⟩ => answer = now
  | ⟨.deleteObject _, answer⟩ => answer = Except.ok ()
  | _ => True

def deleted? : Event BackupOp.Answer → Option String
  | ⟨.deleteObject key, _⟩ => some key
  | _ => none

/-- The keys of the objects that a run deletes. -/
def deletedIn (trace : List (Event BackupOp.Answer)) : List String :=
  trace.filterMap deleted?

/-- A run of the retention on a bucket that works. -/
def RetentionRun (formats : TimeFormats) (config : BackupConfig)
    (objects : List (String × StoredObject)) (now : Int)
    (trace : List (Event BackupOp.Answer)) : Prop :=
  (∃ result, Runs anyAnswer (applyRetention formats config) () trace result
    ()) ∧ ∀ event ∈ trace, Answers objects now event

section Runs

variable {formats : TimeFormats} {config : BackupConfig}
  {objects : List (String × StoredObject)} {now : Int}
  {trace : List (Event BackupOp.Answer)}
  {result : Except BackupError Unit}

theorem deletedIn_deleteAll {names : List String}
    (runs : Runs anyAnswer (deleteAll config names) () trace result ())
    (answers : ∀ event ∈ trace, Answers objects now event) :
    deletedIn trace = names.map (S3Client.key config) := by
  induction names generalizing trace with
  | nil =>
      obtain ⟨rfl, -, -⟩ := runs_pure.mp runs
      rfl
  | cons name names induction =>
      obtain ⟨choice, answer, middle, rest, rfl, -, later⟩ :=
        runs_perform.mp runs
      obtain ⟨first, others⟩ := List.forall_mem_cons.mp answers
      obtain rfl : answer = .ok () := first
      exact congrArg (S3Client.key config name :: ·) (induction later others)

theorem deletedIn_retain {entries : List BackupEntry}
    (runs : Runs anyAnswer (retain formats config entries) () trace result ())
    (answers : ∀ event ∈ trace, Answers objects now event) :
    deletedIn trace =
      (chosen formats config.retention entries now).map
        (S3Client.key config) := by
  unfold retain at runs
  unfold chosen
  cases aged : config.retention.maxAge with
  | none =>
      rw [aged] at runs
      exact deletedIn_deleteAll runs answers
  | some maxAge =>
      rw [aged] at runs
      obtain ⟨choice, answer, middle, rest, rfl, -, later⟩ :=
        runs_perform.mp runs
      obtain ⟨first, others⟩ := List.forall_mem_cons.mp answers
      obtain rfl : answer = now := first
      rw [Program.pure_bind] at later
      dsimp only
      cases known : cutoffText formats answer maxAge with
      | none =>
          rw [known] at later
          obtain ⟨rfl, -, -⟩ := runs_pure.mp later
          rfl
      | some cutoff =>
          rw [known] at later
          have deleted : deletedIn rest = _ :=
            deletedIn_deleteAll later others
          exact deleted

/-- A run deletes the chosen keys, in their order. -/
theorem RetentionRun.deleted
    (run : RetentionRun formats config objects now trace) :
    deletedIn trace = (chosen formats config.retention
      (objects.map (S3Client.entry config)) now).map
        (S3Client.key config) := by
  obtain ⟨⟨result, runs⟩, answers⟩ := run
  unfold applyRetention at runs
  split at runs
  · rename_i unset
    obtain ⟨rfl, -, -⟩ := runs_pure.mp runs
    simp [chosen, unset.1, unset.2, surplus, deletedIn]
  · obtain ⟨choice, answer, middle, rest, rfl, -, later⟩ :=
      runs_perform.mp runs
    obtain ⟨first, others⟩ := List.forall_mem_cons.mp answers
    obtain rfl : answer = .ok () := first
    obtain ⟨choice, answer, middle, rest, rfl, -, last⟩ :=
      runs_perform.mp later
    obtain ⟨second, remaining⟩ := List.forall_mem_cons.mp others
    obtain rfl : answer = .ok objects := second
    have retained : deletedIn rest = _ := deletedIn_retain last remaining
    exact retained

end Runs

/-! ## What should be deleted -/

/-- How many entries are newer: the later ones, and of those with the same
time the ones listed after it. -/
def newerCount (time : BackupEntry → Int) (before after : List BackupEntry)
    (entry : BackupEntry) : Nat :=
  before.countP (fun other => decide (time entry < time other)) +
    after.countP fun other => decide (time entry ≤ time other)

/-- The entry is not among the newest `max_count`. -/
def Unneeded (time : BackupEntry → Int) (retention : RetentionConfig)
    (entries : List BackupEntry) (entry : BackupEntry) : Prop :=
  ∃ maxCount, retention.maxCount = some maxCount ∧
    ∃ before after, entries = before ++ entry :: after ∧
      maxCount ≤ newerCount time before after entry

/-- A time in units of its last digit, in nanoseconds. -/
def nanoseconds (digits : Nat) (time : Int) : Int := time * 10 ^ (9 - digits)

/-- The entry is more than `max_age` old. -/
def Outdated (digits : Nat) (time : BackupEntry → Int)
    (retention : RetentionConfig) (now : Int) (entry : BackupEntry) : Prop :=
  ∃ maxAge, retention.maxAge = some maxAge ∧
    (maxAge : Int) < now - nanoseconds digits (time entry)

/-- The listing: keys of their own, and times printed in one format. -/
structure Listed (civil : Int → String) (digits : Nat)
    (time : BackupEntry → Int) (entries : List BackupEntry) : Prop where
  precise : digits ≤ 9
  distinct : (entries.map (·.key)).Nodup
  years : ∀ entry ∈ entries, InFourDigitYears (time entry / 10 ^ digits)
  printed : ∀ entry ∈ entries,
    entry.lastModified = stampText civil digits (time entry)

section Selection

variable {formats : TimeFormats} {civil : Int → String} {digits : Nat}
  {time : BackupEntry → Int} {entries : List BackupEntry}
  {retention : RetentionConfig} {now : Int} {key : String}

theorem Listed.nodup (listed : Listed civil digits time entries) :
    entries.Nodup :=
  List.Nodup.of_map _ listed.distinct

theorem Listed.text_le_iff (prints : PrintsRfc3339 formats civil)
    (listed : Listed civil digits time entries) {first second : BackupEntry}
    (here : first ∈ entries) (there : second ∈ entries) :
    first.lastModified ≤ second.lastModified ↔ time first ≤ time second := by
  rw [listed.printed first here, listed.printed second there,
    ← String.not_lt, stampText_lt_iff prints (listed.years second there)
      (listed.years first here), Int.not_lt]

theorem mem_surplus_iff (prints : PrintsRfc3339 formats civil)
    (listed : Listed civil digits time entries) :
    key ∈ surplus retention.maxCount (oldestFirst entries) ↔
      ∃ entry ∈ entries, entry.key = key ∧
        Unneeded time retention entries entry := by
  unfold surplus Unneeded
  cases retention.maxCount with
  | none => simp
  | some maxCount =>
      rw [List.mem_map, oldestFirst, List.length_mergeSort]
      have place (entry : BackupEntry) (before after : List BackupEntry)
          (split : entries = before ++ entry :: after) :
          entry ∈ (entries.mergeSort fun first second =>
              decide (first.lastModified ≤ second.lastModified)).take
                (entries.length - maxCount) ↔
            maxCount ≤ newerCount time before after entry := by
        subst split
        have member : entry ∈ before ++ entry :: after := by simp
        have trans (first second third : BackupEntry)
            (left : decide (first.lastModified ≤ second.lastModified))
            (right : decide (second.lastModified ≤ third.lastModified)) :
            decide (first.lastModified ≤ third.lastModified) :=
          decide_eq_true (String.le_trans (of_decide_eq_true left)
            (of_decide_eq_true right))
        have total (first second : BackupEntry) :
            decide (first.lastModified ≤ second.lastModified) ||
              decide (second.lastModified ≤ first.lastModified) := by
          simpa using String.le_total first.lastModified second.lastModified
        rw [StableSort.mem_take_iff maxCount trans total listed.nodup,
          newerCount]
        have earlier : before.countP (fun other =>
              !decide (other.lastModified ≤ entry.lastModified)) =
            before.countP fun other => decide (time entry < time other) := by
          refine List.countP_congr fun other early => ?_
          have order := listed.text_le_iff prints
            (List.mem_append_left _ early) member
          simp [order]
        have later : after.countP (fun other =>
              decide (entry.lastModified ≤ other.lastModified)) =
            after.countP fun other => decide (time entry ≤ time other) := by
          refine List.countP_congr fun other late => ?_
          have order := listed.text_le_iff prints member
            (List.mem_append_right _ (List.mem_cons_of_mem _ late))
          simp [order]
        rw [earlier, later]
      constructor
      · rintro ⟨entry, taken, named⟩
        have member : entry ∈ entries :=
          List.mem_mergeSort.mp (List.mem_of_mem_take taken)
        obtain ⟨before, after, split⟩ := List.append_of_mem member
        exact ⟨entry, member, named, maxCount, rfl, before, after, split,
          (place entry before after split).mp taken⟩
      · rintro ⟨entry, member, named, other, isCount, before, after, split,
          enough⟩
        cases isCount
        exact ⟨entry, (place entry before after split).mpr enough, named⟩

theorem mem_withAged_iff {cutoff : String} {toDelete : List String} :
    key ∈ withAged cutoff entries toDelete ↔
      key ∈ toDelete ∨
        ∃ entry ∈ entries, entry.key = key ∧ entry.lastModified < cutoff := by
  unfold withAged
  induction entries generalizing toDelete with
  | nil => simp
  | cons entry entries induction =>
      rw [List.foldl_cons, induction]
      split
      · rename_i aged
        simp only [List.mem_append, List.mem_cons, exists_eq_or_imp,
          or_assoc]
        grind
      · simp only [List.mem_cons, exists_eq_or_imp]
        grind

theorem nodup_withAged {cutoff : String} {toDelete : List String}
    (nodup : toDelete.Nodup) : (withAged cutoff entries toDelete).Nodup := by
  unfold withAged
  induction entries generalizing toDelete with
  | nil => exact nodup
  | cons entry entries induction =>
      rw [List.foldl_cons]
      split
      · rename_i aged
        refine induction (List.nodup_append.mpr ⟨nodup, by simp, ?_⟩)
        rintro other old _ new rfl
        rw [List.mem_singleton.mp new] at old
        exact aged.2 old
      · exact induction nodup

theorem nodup_surplus (listed : Listed civil digits time entries) :
    (surplus retention.maxCount (oldestFirst entries)).Nodup := by
  unfold surplus
  split
  · exact .nil
  · have keys : ((oldestFirst entries).map (·.key)).Nodup :=
      ((List.mergeSort_perm _ _).map _).nodup_iff.mpr listed.distinct
    exact ((List.take_sublist _ _).map _).nodup keys

theorem units_of_second (precise : digits ≤ 9) :
    (10 : Int) ^ digits * 10 ^ (9 - digits) = 1000000000 := by
  rw [← pow_add, Nat.add_sub_cancel' precise]
  norm_num

theorem nanoseconds_of_year (precise : digits ≤ 9) {instant : Int}
    (years : InFourDigitYears (instant / 10 ^ digits)) :
    yearZero * 1000000000 ≤ nanoseconds digits instant := by
  have low : yearZero * 10 ^ digits ≤ instant := by
    have part := Int.ediv_mul_le instant (unit_pos digits).ne'
    have times := Int.mul_le_mul_of_nonneg_right years.1 (unit_pos digits).le
    omega
  rw [nanoseconds, ← units_of_second precise, ← Int.mul_assoc]
  exact Int.mul_le_mul_of_nonneg_right low (unit_pos _).le

theorem nanoseconds_succ (instant : Int) :
    nanoseconds digits (instant + 1) =
      nanoseconds digits instant + 10 ^ (9 - digits) := by
  rw [nanoseconds, nanoseconds, Int.add_mul, Int.one_mul]

/-- A listed time is before an instant, as texts. -/
theorem Listed.text_lt_iff (prints : PrintsRfc3339 formats civil)
    (listed : Listed civil digits time entries) {entry : BackupEntry}
    (member : entry ∈ entries) (instant : Int) :
    entry.lastModified < formats.rfc3339 instant ↔
      instant / 1000000000 < yearTenThousand ∧
        nanoseconds digits (time entry + 1) ≤ instant := by
  have years := listed.years entry member
  obtain ⟨value, small, rest, starts⟩ := prints.starts _ years
  have order := digit_between small
  have low := nanoseconds_of_year listed.precise years
  have next := @nanoseconds_succ digits (time entry)
  have unit := unit_pos (9 - digits)
  rw [listed.printed entry member]
  rcases lt_or_ge (instant / 1000000000) yearZero with before | later
  · obtain ⟨tail, text⟩ := prints.before instant before
    refine iff_of_false ?_ (by omega)
    rw [text, String.lt_iff, stampText, String.toList_ofList,
      String.toList_ofList, starts]
    exact not_cons_lt order.2.1
  · rcases lt_or_ge (instant / 1000000000) yearTenThousand with inside | after
    · rw [stampText_lt_rfc3339 prints years ⟨later, inside⟩,
        and_iff_right inside, ← units_of_second listed.precise,
        Int.mul_comm (10 ^ digits), ← Int.mul_assoc,
        mul_le_mul_iff_of_pos_right (unit_pos digits)]
      rfl
    · obtain ⟨tail, text⟩ := prints.after instant after
      refine iff_of_false ?_ (by omega)
      rw [text, String.lt_iff, stampText, String.toList_ofList,
        String.toList_ofList, starts]
      exact not_cons_lt order.1

/-- What `chosen` makes of one entry. -/
def Deletes (digits : Nat) (time : BackupEntry → Int)
    (retention : RetentionConfig) (entries : List BackupEntry) (now : Int)
    (entry : BackupEntry) : Prop :=
  match retention.maxAge with
  | none => Unneeded time retention entries entry
  | some maxAge =>
      let cutoff := now - (chronoDuration maxAge).getD 0
      chronoMin * 1000000000 ≤ cutoff ∧
        (Unneeded time retention entries entry ∨
          cutoff / 1000000000 < yearTenThousand ∧
            nanoseconds digits (time entry + 1) ≤ cutoff)

/-- What a cutoff makes of `chosen`. -/
theorem mem_chosen_iff (prints : PrintsRfc3339 formats civil)
    (listed : Listed civil digits time entries) :
    key ∈ chosen formats retention entries now ↔
      ∃ entry ∈ entries, entry.key = key ∧
        Deletes digits time retention entries now entry := by
  unfold chosen cutoffText Deletes
  cases retention.maxAge with
  | none => exact mem_surplus_iff prints listed
  | some maxAge =>
      dsimp only
      by_cases known : chronoMin * 1000000000 ≤
          now - (chronoDuration maxAge).getD 0
      · rw [if_pos known]
        simp only [mem_withAged_iff, mem_surplus_iff prints listed,
          and_iff_right known, mem_oldestFirst]
        constructor
        · rintro (⟨entry, member, named, old⟩ | ⟨entry, member, named, old⟩)
          · exact ⟨entry, member, named, .inl old⟩
          · exact ⟨entry, member, named, .inr
              ((listed.text_lt_iff prints member _).mp old)⟩
        · rintro ⟨entry, member, named, old | old⟩
          · exact .inl ⟨entry, member, named, old⟩
          · exact .inr ⟨entry, member, named,
              (listed.text_lt_iff prints member _).mpr old⟩
      · rw [if_neg known]
        simp [known]

theorem nodup_chosen (listed : Listed civil digits time entries) :
    (chosen formats retention entries now).Nodup := by
  unfold chosen
  split
  · exact nodup_surplus listed
  · split
    · exact .nil
    · exact nodup_withAged (nodup_surplus listed)

/-- Exactly the expired entries are deleted, each once. -/
structure DeletesExpired (digits : Nat) (time : BackupEntry → Int)
    (config : BackupConfig) (entries : List BackupEntry) (now : Int)
    (deleted : List String) : Prop where
  keys : ∀ key, key ∈ deleted ↔
    ∃ entry ∈ entries, S3Client.key config entry.key = key ∧
      (Unneeded time config.retention entries entry ∨
        Outdated digits time config.retention now entry)
  once : deleted.Nodup

/-- A limit that is raised, or lifted. -/
def Raised (smaller larger : Option Nat) : Prop :=
  ∀ limit, larger = some limit → ∃ before, smaller = some before ∧
    before ≤ limit

/-- The cutoff can be computed, printed in four digits, and does not fall
between a time of the listing and the end of its last unit; nothing depends
on that where every entry is unneeded, or none. -/
structure CutoffFits (digits : Nat) (time : BackupEntry → Int)
    (retention : RetentionConfig) (entries : List BackupEntry) (now : Int)
    (maxAge : Duration) : Prop where
  /-- A longer age counts as none at all. -/
  bounded : chronoMax < maxAge → ∀ entry ∈ entries,
    ¬ Unneeded time retention entries entry →
    now / 1000000000 < yearTenThousand →
    now < nanoseconds digits (time entry + 1)
  representable : maxAge ≤ chronoMax →
    now - maxAge < chronoMin * 1000000000 → ∀ entry ∈ entries,
      ¬ Unneeded time retention entries entry
  apart : maxAge ≤ chronoMax →
    chronoMin * 1000000000 ≤ now - maxAge → ∀ entry ∈ entries,
      ¬ Unneeded time retention entries entry →
      nanoseconds digits (time entry) < now - maxAge →
      (now - maxAge) / 1000000000 < yearTenThousand ∧
        nanoseconds digits (time entry + 1) ≤ now - maxAge

theorem deletes_iff_of_long {maxAge : Duration}
    (listed : Listed civil digits time entries)
    (past : chronoMin * 1000000000 ≤ now)
    (future : now / 1000000000 ≤ chronoLatest)
    (set : retention.maxAge = some maxAge) (long : chronoMax < maxAge) :
    (∀ entry ∈ entries, Deletes digits time retention entries now entry ↔
      (Unneeded time retention entries entry ∨
        Outdated digits time retention now entry)) ↔
      ∀ entry ∈ entries, ¬ Unneeded time retention entries entry →
        now / 1000000000 < yearTenThousand →
        now < nanoseconds digits (time entry + 1) := by
  have unlimited : chronoDuration maxAge = none := if_neg (not_le_of_gt long)
  refine forall₂_congr fun entry member => ?_
  have recent : ¬ Outdated digits time retention now entry := by
    rintro ⟨other, isAge, old⟩
    rw [set] at isAge
    cases isAge
    have low := nanoseconds_of_year listed.precise (listed.years entry member)
    have big : (chronoMax : Int) < maxAge := Int.ofNat_lt.mpr long
    unfold chronoMax at big
    unfold chronoLatest at future
    unfold yearZero at low
    omega
  simp only [Deletes, set, unlimited, Option.getD_none, Int.sub_zero,
    and_iff_right past, recent, or_false]
  by_cases unneeded : Unneeded time retention entries entry
  · simp [unneeded]
  · simp [unneeded]

theorem deletes_iff_of_short {maxAge : Duration}
    (listed : Listed civil digits time entries)
    (set : retention.maxAge = some maxAge) (short : maxAge ≤ chronoMax) :
    (∀ entry ∈ entries, Deletes digits time retention entries now entry ↔
      (Unneeded time retention entries entry ∨
        Outdated digits time retention now entry)) ↔
      ∀ entry ∈ entries, ¬ Unneeded time retention entries entry ∧
          now - maxAge < chronoMin * 1000000000 ∨
        chronoMin * 1000000000 ≤ now - maxAge ∧
          (¬ Unneeded time retention entries entry →
            nanoseconds digits (time entry) < now - maxAge →
            (now - maxAge) / 1000000000 < yearTenThousand ∧
              nanoseconds digits (time entry + 1) ≤ now - maxAge) := by
  have limited : chronoDuration maxAge = some (maxAge : Int) := if_pos short
  refine forall₂_congr fun entry member => ?_
  have old : Outdated digits time retention now entry ↔
      nanoseconds digits (time entry) < now - maxAge := by
    constructor
    · rintro ⟨other, isAge, old⟩
      rw [set] at isAge
      cases isAge
      omega
    · intro old
      exact ⟨maxAge, set, by omega⟩
  have low := nanoseconds_of_year listed.precise (listed.years entry member)
  have next := @nanoseconds_succ digits (time entry)
  have unit := unit_pos (9 - digits)
  have years : chronoMin * 1000000000 ≤ yearZero * 1000000000 := by decide
  simp only [Deletes, set, limited, Option.getD_some, old]
  by_cases unneeded : Unneeded time retention entries entry
  · simp only [unneeded, true_or, and_true, iff_true, not_true_eq_false,
      false_and, false_or, false_imp_iff]
  · simp only [unneeded, false_or, not_false_eq_true, true_and,
      forall_const]
    omega

/-- Whether the right entries are deleted, entry by entry. -/
theorem deletes_iff_of_cutoff
    (listed : Listed civil digits time entries)
    (past : chronoMin * 1000000000 ≤ now)
    (future : now / 1000000000 ≤ chronoLatest) :
    (∀ entry ∈ entries, Deletes digits time retention entries now entry ↔
      (Unneeded time retention entries entry ∨
        Outdated digits time retention now entry)) ↔
      ∀ maxAge, retention.maxAge = some maxAge →
        CutoffFits digits time retention entries now maxAge := by
  cases set : retention.maxAge with
  | none => simp [Deletes, Outdated, set]
  | some maxAge =>
      simp only [Option.some.injEq, forall_eq']
      rcases lt_or_ge chronoMax maxAge with long | short
      · rw [deletes_iff_of_long listed past future set long]
        constructor
        · intro recent
          exact ⟨fun _ => recent, fun short => absurd short (not_le_of_gt long),
            fun short => absurd short (not_le_of_gt long)⟩
        · intro fits
          exact fits.bounded long
      · rw [deletes_iff_of_short listed set short]
        constructor
        · intro each
          refine ⟨fun long => absurd short (not_le_of_gt long), ?_, ?_⟩
          · intro _ unknown entry member
            rcases each entry member with ⟨needed, -⟩ | ⟨known, -⟩
            · exact needed
            · exact absurd known (not_le_of_gt unknown)
          · intro _ known entry member
            rcases each entry member with ⟨-, unknown⟩ | ⟨-, apart⟩
            · exact absurd known (not_le_of_gt unknown)
            · exact apart
        · intro fits entry member
          rcases lt_or_ge (now - (maxAge : Int)) (chronoMin * 1000000000)
            with unknown | known
          · exact .inl ⟨fits.representable short unknown entry member, unknown⟩
          · exact .inr ⟨known, fits.apart short known entry member⟩

theorem Unneeded.of_raised {raised : RetentionConfig} {entry : BackupEntry}
    (counts : Raised retention.maxCount raised.maxCount)
    (unneeded : Unneeded time raised entries entry) :
    Unneeded time retention entries entry := by
  obtain ⟨maxCount, isCount, before, after, split, enough⟩ := unneeded
  obtain ⟨smaller, isSmaller, below⟩ := counts maxCount isCount
  exact ⟨smaller, isSmaller, before, after, split, below.trans enough⟩

theorem Outdated.of_raised {raised : RetentionConfig} {entry : BackupEntry}
    (ages : Raised retention.maxAge raised.maxAge)
    (old : Outdated digits time raised now entry) :
    Outdated digits time retention now entry := by
  obtain ⟨maxAge, isAge, old⟩ := old
  obtain ⟨smaller, isSmaller, below⟩ := ages maxAge isAge
  refine ⟨smaller, isSmaller, lt_of_le_of_lt ?_ old⟩
  exact Int.ofNat_le.mpr below

end Selection

/-! ## The retention of a bucket -/

theorem S3Client.key_injective (config : BackupConfig) :
    Function.Injective (S3Client.key config) := by
  intro name other same
  unfold S3Client.key at same
  split at same
  · exact same
  · have texts := congrArg String.toList same
    rw [String.toList_append, String.toList_append, String.toList_append,
      String.toList_append] at texts
    exact String.toList_injective (List.append_cancel_left texts)

section Bucket

variable {formats : TimeFormats} {civil : Int → String} {digits : Nat}
  {time : BackupEntry → Int} {config : BackupConfig}
  {objects : List (String × StoredObject)} {now : Int}
  {trace : List (Event BackupOp.Answer)}

theorem Listed.key_injective {entries : List BackupEntry}
    (listed : Listed civil digits time entries) {first second : BackupEntry}
    (here : first ∈ entries) (there : second ∈ entries)
    (same : first.key = second.key) : first = second :=
  List.inj_on_of_nodup_map listed.distinct here there same

/-- A run deletes exactly the expired entries when the cutoff fits. -/
theorem deletesExpired_iff (prints : PrintsRfc3339 formats civil)
    (listed : Listed civil digits time (objects.map (S3Client.entry config)))
    (past : chronoMin * 1000000000 ≤ now)
    (future : now / 1000000000 ≤ chronoLatest)
    (run : RetentionRun formats config objects now trace) :
    DeletesExpired digits time config (objects.map (S3Client.entry config))
        now (deletedIn trace) ↔
      ∀ maxAge, config.retention.maxAge = some maxAge →
        CutoffFits digits time config.retention
          (objects.map (S3Client.entry config)) now maxAge := by
  rw [← deletes_iff_of_cutoff listed past future, run.deleted]
  have chosenKey (entry : BackupEntry)
      (member : entry ∈ objects.map (S3Client.entry config)) :
      S3Client.key config entry.key ∈ (chosen formats config.retention
          (objects.map (S3Client.entry config)) now).map
            (S3Client.key config) ↔
        Deletes digits time config.retention
          (objects.map (S3Client.entry config)) now entry := by
    rw [List.mem_map_of_injective (S3Client.key_injective config),
      mem_chosen_iff prints listed]
    constructor
    · rintro ⟨other, inside, named, deletes⟩
      rwa [listed.key_injective inside member named] at deletes
    · intro deletes
      exact ⟨entry, member, rfl, deletes⟩
  constructor
  · intro expired entry member
    rw [← chosenKey entry member, expired.keys]
    constructor
    · rintro ⟨other, inside, named, due⟩
      rwa [listed.key_injective inside member
        (S3Client.key_injective config named)] at due
    · intro due
      exact ⟨entry, member, rfl, due⟩
  · intro exact
    refine ⟨fun key => ?_, ?_⟩
    · rw [List.mem_map]
      constructor
      · rintro ⟨name, picked, rfl⟩
        obtain ⟨entry, member, rfl, deletes⟩ :=
          (mem_chosen_iff prints listed).mp picked
        exact ⟨entry, member, rfl, (exact entry member).mp deletes⟩
      · rintro ⟨entry, member, rfl, due⟩
        have picked := (mem_chosen_iff prints listed).mpr
          ⟨entry, member, rfl, (exact entry member).mpr due⟩
        exact ⟨entry.key, picked, rfl⟩
    · exact (nodup_chosen listed).map (S3Client.key_injective config)

/-- The retention of a bucket under two settings: each deletes exactly what
has expired, and the raised one deletes nothing that the other keeps. -/
structure RetentionLaw (digits : Nat) (time : BackupEntry → Int)
    (config : BackupConfig) (raised : RetentionConfig)
    (entries : List BackupEntry) (now : Int) (deleted less : List String) :
    Prop where
  before : DeletesExpired digits time config entries now deleted
  after : DeletesExpired digits time { config with retention := raised }
    entries now less
  monotone : ∀ key ∈ less, key ∈ deleted

/-- Retention is exact and monotone when the cutoffs fit. -/
theorem retention_iff {raised : RetentionConfig}
    {retrace : List (Event BackupOp.Answer)}
    (prints : PrintsRfc3339 formats civil)
    (listed : Listed civil digits time (objects.map (S3Client.entry config)))
    (past : chronoMin * 1000000000 ≤ now)
    (future : now / 1000000000 ≤ chronoLatest)
    (counts : Raised config.retention.maxCount raised.maxCount)
    (ages : Raised config.retention.maxAge raised.maxAge)
    (run : RetentionRun formats config objects now trace)
    (rerun : RetentionRun formats { config with retention := raised } objects
      now retrace) :
    RetentionLaw digits time config raised
        (objects.map (S3Client.entry config)) now (deletedIn trace)
        (deletedIn retrace) ↔
      (∀ maxAge, config.retention.maxAge = some maxAge →
        CutoffFits digits time config.retention
          (objects.map (S3Client.entry config)) now maxAge) ∧
      ∀ maxAge, raised.maxAge = some maxAge →
        CutoffFits digits time raised (objects.map (S3Client.entry config))
          now maxAge := by
  have before := deletesExpired_iff prints listed past future run
  have relisted : Listed civil digits time (objects.map
      (S3Client.entry { config with retention := raised })) := listed
  have after := deletesExpired_iff prints relisted past future rerun
  constructor
  · intro law
    exact ⟨before.mp law.before, after.mp law.after⟩
  · rintro ⟨fits, raisedFits⟩
    have expired := before.mpr fits
    have fewer := after.mpr raisedFits
    refine ⟨expired, fewer, fun key inLess => ?_⟩
    obtain ⟨entry, member, named, due⟩ := (fewer.keys key).mp inLess
    refine (expired.keys key).mpr ⟨entry, member, named, ?_⟩
    rcases due with unneeded | old
    · exact .inl (unneeded.of_raised counts)
    · exact .inr (old.of_raised ages)

end Bucket

/-! ## A calendar -/

/-- A calendar whose months all have 31 days.  It agrees with the real one in
January 2026. -/
def januaryFields (seconds : Int) : List Char :=
  let day := seconds / 86400 - 20454
  let second := (seconds % 86400).toNat
  padded 4 (2026 + day / 372).toNat ++ '-' ::
    (padded 2 ((day % 372).toNat / 31 + 1) ++ '-' ::
      (padded 2 ((day % 372).toNat % 31 + 1) ++ 'T' ::
        (padded 2 (second / 3600) ++ ':' ::
          (padded 2 (second % 3600 / 60) ++ ':' ::
            padded 2 (second % 60)))))

def januaryCivil (seconds : Int) : String :=
  String.ofList (januaryFields seconds)

def januaryFormats : TimeFormats where
  filename _ := "20260101-000000"
  rfc3339 instant :=
    let seconds := instant / 1000000000
    if seconds < yearZero then "-"
    else if yearTenThousand ≤ seconds then "+"
    else String.ofList ((januaryCivil seconds).toList ++
      (shortestFraction (instant % 1000000000).toNat ++ "+00:00".toList))

theorem januaryFields_lt {seconds later : Int}
    (inYears : InFourDigitYears seconds) (still : InFourDigitYears later)
    (before : seconds < later) :
    januaryFields seconds < januaryFields later := by
  obtain ⟨low, high⟩ := inYears
  obtain ⟨least, most⟩ := still
  unfold yearZero at low least
  unfold yearTenThousand at high most
  unfold januaryFields
  dsimp only
  rw [padded_append_lt (by omega) (by omega), List.cons_lt_cons_iff,
    padded_append_lt (by omega) (by omega), List.cons_lt_cons_iff,
    padded_append_lt (by omega) (by omega), List.cons_lt_cons_iff,
    padded_append_lt (by omega) (by omega), List.cons_lt_cons_iff,
    padded_append_lt (by omega) (by omega), List.cons_lt_cons_iff,
    padded_lt (by omega) (by omega)]
  simp only [Char.lt_irrefl, true_and, false_or]
  have days : seconds / 86400 < later / 86400 ∨
      seconds / 86400 = later / 86400 ∧ seconds % 86400 < later % 86400 := by
    omega
  rcases days with less | ⟨same, less⟩
  · have split := (lt_iff_of_split (by decide : (0 : Int) < 372)
      (seconds / 86400 - 20454) (later / 86400 - 20454)).mp (by omega)
    omega
  · rw [same]
    omega

theorem january_prints : PrintsRfc3339 januaryFormats januaryCivil where
  width seconds _ := by
    simp [januaryCivil, januaryFields]
  starts seconds inYears := by
    obtain ⟨low, high⟩ := inYears
    unfold yearZero at low
    unfold yearTenThousand at high
    refine ⟨(2026 + (seconds / 86400 - 20454) / 372).toNat / 10 ^ 3, ?_, ?_⟩
    · omega
    · simp [januaryCivil, januaryFields, padded]
  increasing seconds later inYears still before := by
    rw [String.lt_iff, januaryCivil, januaryCivil, String.toList_ofList,
      String.toList_ofList]
    exact januaryFields_lt inYears still before
  rfc3339 instant inYears := by
    have late : ¬ instant / 1000000000 < yearZero := not_lt_of_ge inYears.1
    have early : ¬ yearTenThousand ≤ instant / 1000000000 :=
      not_le_of_gt inYears.2
    simp only [januaryFormats, if_neg late, if_neg early]
  before instant early := by
    exact ⟨[], by simp only [januaryFormats, if_pos early]⟩
  after instant late := by
    have notEarly : ¬ instant / 1000000000 < yearZero := by
      unfold yearTenThousand at late
      unfold yearZero
      omega
    exact ⟨[], by simp only [januaryFormats, if_neg notEarly, if_pos late]⟩

/-! ## Two backups -/

def storedAt (lastModified : String) : StoredObject where
  data := []
  lastModified
  created := true

def twoBackups : List (String × StoredObject) :=
  [("backup-20260101-000000.tar.gz", storedAt "2026-01-01T00:00:00.000Z"),
    ("backup-20260102-000000.tar.gz", storedAt "2026-01-02T00:00:00.500Z")]

/-- Their times in milliseconds. -/
def twoTimes (entry : BackupEntry) : Int :=
  if entry.key = "backup-20260101-000000.tar.gz" then 1767225600000
  else 1767312000500

/-- The root of a bucket. -/
def rootBackups (retention : RetentionConfig) : BackupConfig where
  endpoint := "http://localhost:9000"
  bucket := "backups"
  accessKey := "access"
  secretKey := "secret"
  retention

theorem twoBackups_listed (retention : RetentionConfig) :
    Listed januaryCivil 3 twoTimes
      (twoBackups.map (S3Client.entry (rootBackups retention))) := by
  have sameEntries : twoBackups.map (S3Client.entry (rootBackups retention)) =
      twoBackups.map (S3Client.entry (rootBackups {})) := rfl
  rw [sameEntries]
  exact ⟨by decide, by decide, by decide, by decide⟩

/-- The answers of a bucket that works. -/
def working (objects : List (String × StoredObject)) (now : Int) :
    (operation : BackupOp) → operation.Answer
  | .newClient => .ok ()
  | .snapshot => .ok ()
  | .nowUtcFilename => ""
  | .bundle _ => .ok []
  | .putObject .. => .ok ()
  | .listObjects _ => .ok objects
  | .now => now
  | .deleteObject _ => .ok ()

/-- Every listing can be met. -/
theorem retentionRun_exists (formats : TimeFormats) (config : BackupConfig)
    (objects : List (String × StoredObject)) (now : Int) :
    ∃ trace, RetentionRun formats config objects now trace := by
  obtain ⟨trace, result, runs, answers⟩ := runs_anyAnswer
    (working objects now) (applyRetention formats config)
  refine ⟨trace, ⟨result, runs⟩, fun event member => ?_⟩
  have answered := answers event member
  obtain ⟨operation, answer⟩ := event
  cases operation with
  | newClient | listObjects | now | deleteObject => exact answered
  | snapshot | nowUtcFilename | bundle | putObject => trivial

/-- The third of January 2026, at midnight. -/
def thirdOfJanuary : Int := 1767398400000000000

def keepsTen : RetentionConfig where
  maxCount := some 1
  maxAge := some 864000000000000

def keepsMore : RetentionConfig where
  maxCount := some 2
  maxAge := some 864000000000000

theorem retention_iff_january :
    ∃ trace retrace,
      RetentionLaw 3 twoTimes (rootBackups keepsTen) keepsMore
          (twoBackups.map (S3Client.entry (rootBackups keepsTen)))
          thirdOfJanuary (deletedIn trace) (deletedIn retrace) ↔
        (∀ maxAge, keepsTen.maxAge = some maxAge →
          CutoffFits 3 twoTimes keepsTen
            (twoBackups.map (S3Client.entry (rootBackups keepsTen)))
            thirdOfJanuary maxAge) ∧
        ∀ maxAge, keepsMore.maxAge = some maxAge →
          CutoffFits 3 twoTimes keepsMore
            (twoBackups.map (S3Client.entry (rootBackups keepsTen)))
            thirdOfJanuary maxAge := by
  obtain ⟨trace, run⟩ := retentionRun_exists januaryFormats
    (rootBackups keepsTen) twoBackups thirdOfJanuary
  obtain ⟨retrace, rerun⟩ := retentionRun_exists januaryFormats
    (rootBackups keepsMore) twoBackups thirdOfJanuary
  refine ⟨trace, retrace, retention_iff january_prints
    (twoBackups_listed keepsTen) (by decide) (by decide) ?_ ?_ run rerun⟩
  · rintro limit ⟨rfl⟩
    exact ⟨1, rfl, by decide⟩
  · rintro limit ⟨rfl⟩
    exact ⟨864000000000000, rfl, le_rfl⟩

/-- Three hundred million years. -/
def keepsForAges : RetentionConfig where
  maxAge := some 9467280000000000000000000

/-- An age that is too long for `chrono` counts as none, and every backup is
deleted. -/
theorem not_retention_iff :
    ¬ ∀ (formats : TimeFormats) (civil : Int → String) (digits : Nat)
      (time : BackupEntry → Int) (config : BackupConfig)
      (raised : RetentionConfig) (objects : List (String × StoredObject))
      (now : Int) (trace retrace : List (Event BackupOp.Answer)),
      PrintsRfc3339 formats civil →
      Listed civil digits time (objects.map (S3Client.entry config)) →
      chronoMin * 1000000000 ≤ now → now / 1000000000 ≤ chronoLatest →
      Raised config.retention.maxCount raised.maxCount →
      Raised config.retention.maxAge raised.maxAge →
      RetentionRun formats config objects now trace →
      RetentionRun formats { config with retention := raised } objects now
        retrace →
      RetentionLaw digits time config raised
        (objects.map (S3Client.entry config)) now (deletedIn trace)
        (deletedIn retrace) := by
  intro claim
  obtain ⟨trace, run⟩ := retentionRun_exists januaryFormats
    (rootBackups keepsForAges) twoBackups thirdOfJanuary
  have law := claim januaryFormats januaryCivil 3 twoTimes
    (rootBackups keepsForAges) keepsForAges twoBackups thirdOfJanuary trace
    trace january_prints (twoBackups_listed keepsForAges) (by decide)
    (by decide) (fun limit set => ⟨limit, set, le_rfl⟩)
    (fun limit set => ⟨limit, set, le_rfl⟩) run run
  have fits := (deletesExpired_iff january_prints
    (twoBackups_listed keepsForAges) (by decide) (by decide) run).mp
      law.before _ rfl
  have recent := fits.bounded (by decide) _ List.mem_cons_self
    (by rintro ⟨maxCount, unset, -⟩; cases unset) (by decide)
  exact absurd recent (by decide)

end Sendword
