import Sendword.Isolation
import Sendword.Shell.Spelling

/-!
# What the shell reads of an escaped value

A value that `shell_escape` has quoted comes back as it was, wherever the
text before it leaves the shell in unquoted text.  Only behind an open `$` it
does not: there a quote may open a quoting of another kind.
-/

namespace Sendword

open Shell

/-- What a whole shell text spells in its words. -/
def literalsOf (text : List Char) : List Char :=
  ({} : State).spell text

/-- An escaped value is one literal part of the current word, and the text
around it is read as without it. -/
def RoundTrip (before after value : List Char) : Prop :=
  (structureOf before).2.ReadsAs (shellEscape value) value ∧
    (structureOf (before ++ shellEscape value ++ after)).1 =
      (structureOf before).1 ++
        ((structureOf before).2.read (shellEscape value)).1 ++
        ((structureOf (before ++ shellEscape value)).2.read after).1 ∧
    literalsOf (before ++ shellEscape value ++ after) =
      literalsOf before ++ value ++
        (structureOf (before ++ shellEscape value)).2.spell after

theorem roundTrip_of_readsAs
    {before value : List Char}
    (reads : (structureOf before).2.ReadsAs (shellEscape value) value)
    (after : List Char) :
    RoundTrip before after value := by
  refine ⟨reads, ?_, ?_⟩
  · unfold structureOf
    rw [State.read_append, State.read_append]
  · unfold literalsOf structureOf
    rw [State.spell_append, State.spell_append]
    exact congrArg (fun spelled => State.spell {} before ++ spelled ++ _)
      reads.spelled

/-- Distinct values have distinct escapes, since the shell tells them
apart. -/
theorem shellEscape_injective :
    Function.Injective shellEscape := by
  intro value other same
  have spelled (value : List Char) :
      literalsOf (shellEscape value) = value := by
    rw [shellEscape_eq]
    exact (State.quote_readsAs rfl (by decide) value).spelled
  rw [← spelled value, same, spelled other]

/-- In unquoted text, and not behind an open `$`, an escaped value is read as
its own characters. -/
theorem shellEscape_roundTrip :
    (∀ before after value : List Char,
      (structureOf before).2.unquoted = true →
      (structureOf before).2.mode ≠ .dollar →
      RoundTrip before after value) ∧
    Function.Injective shellEscape := by
  refine ⟨?_, shellEscape_injective⟩
  intro before after value unquoted noDollar
  apply roundTrip_of_readsAs
  rw [shellEscape_eq]
  exact State.quote_readsAs unquoted noDollar value

theorem shellEscape_roundTrip_apostrophe :
    RoundTrip "echo a".toList " b".toList "it's".toList := by
  apply shellEscape_roundTrip.1
  · decide
  · decide

/-- Behind a `$` the quotes are not those of the value. -/
theorem not_shellEscape_roundTrip :
    ¬∀ before after value : List Char,
      (structureOf before).2.unquoted = true →
      RoundTrip before after value := by
  intro always
  have reads := (always "echo $".toList [] "x".toList (by decide)).1
  have spelled := reads.spelled
  revert spelled
  decide

end Sendword
