import Mathlib.Data.Set.Lattice
import Sendword.ByteText

/-!
# How much of a log may be sent

`safe_emit_prefix_len` cuts the buffered text of a log so that no beginning
of a secret stands at the end of what is sent.  A slice at an offset inside a
character, or a negative length, would panic; here it gives no result.
-/

namespace Sendword

open ByteText

/-- Walk back over the characters until `tailChars` of them are retained. -/
def retainFrom (tailChars retainedChars : Nat) : List (Nat × Char) → Nat
  | [] => 0
  | index :: indices =>
      if retainedChars + 1 = tailChars then index.1
      else retainFrom tailChars (retainedChars + 1) indices

def emitPrefixLen (text : List Char) (tailChars : Nat) : Nat :=
  if tailChars = 0 then byteLength text
  else retainFrom tailChars 0 (charIndices text).reverse

/-- One beginning of a secret: the text is cut before it where it ends with
it. -/
def cutBefore (emitted piece : List Char) (emitLen adjusted : Nat) :
    Option Nat :=
  if piece.isSuffixOf emitted then
    if byteLength piece ≤ emitLen then
      some (min adjusted (emitLen - byteLength piece))
    else none
  else some adjusted

/-- The loop over the beginnings of one secret. -/
def cutSecret (emitted : List Char) (emitLen : Nat) (secret : List Char)
    (adjusted : Nat) (indices : List (Nat × Char)) : Option Nat :=
  indices.foldlM (fun adjusted index =>
    (sliceTo secret index.1).bind fun piece =>
      cutBefore emitted piece emitLen adjusted) adjusted

def adjustEmitLenForSecretPrefixes (text : List Char) (emitLen : Nat)
    (secretValues : List (List Char)) : Option Nat :=
  (sliceTo text emitLen).bind fun emitted =>
    secretValues.foldlM (fun adjusted secret =>
      cutSecret emitted emitLen secret adjusted
        ((charIndices secret).drop 1)) emitLen

/-! ## The loop ends -/

theorem foldlM_le {β : Type} {step : Nat → β → Option Nat}
    (steps : ∀ number item after, step number item = some after →
      after ≤ number)
    {items : List β} {number after : Nat}
    (folds : items.foldlM step number = some after) :
    after ≤ number := by
  induction items generalizing number with
  | nil =>
      cases folds
      exact le_rfl
  | cons item items ih =>
      rw [List.foldlM_cons] at folds
      obtain ⟨between, first, later⟩ := Option.bind_eq_some_iff.mp folds
      exact (ih later).trans (steps number item between first)

theorem cutBefore_le {emitted piece : List Char}
    {emitLen adjusted after : Nat}
    (cuts : cutBefore emitted piece emitLen adjusted = some after) :
    after ≤ adjusted := by
  unfold cutBefore at cuts
  split at cuts
  · split at cuts
    · cases cuts
      exact min_le_left _ _
    · cases cuts
  · cases cuts
    exact le_rfl

theorem adjustEmitLen_le {text : List Char} {emitLen adjusted : Nat}
    {secretValues : List (List Char)}
    (adjusts : adjustEmitLenForSecretPrefixes text emitLen secretValues =
      some adjusted) :
    adjusted ≤ emitLen := by
  unfold adjustEmitLenForSecretPrefixes at adjusts
  obtain ⟨emitted, -, folds⟩ := Option.bind_eq_some_iff.mp adjusts
  apply foldlM_le _ folds
  intro adjusted secret after cuts
  apply foldlM_le _ cuts
  intro adjusted index after step
  obtain ⟨piece, -, cut⟩ := Option.bind_eq_some_iff.mp step
  exact cutBefore_le cut

/-- The loop of `safe_emit_prefix_len`: every round but the last shortens the
text. -/
def safeEmitFrom (text : List Char) (secretValues : List (List Char))
    (emitLen : Nat) : Option Nat :=
  if emitLen = 0 then some 0
  else
    match _ :
        adjustEmitLenForSecretPrefixes text emitLen secretValues with
    | none => none
    | some adjusted =>
        if _ : adjusted = emitLen then some emitLen
        else safeEmitFrom text secretValues adjusted
termination_by emitLen
decreasing_by
  exact lt_of_le_of_ne (adjustEmitLen_le ‹_›) ‹_›

def safeEmitPrefixLen (text : List Char) (tailChars : Nat)
    (secretValues : List (List Char)) : Option Nat :=
  safeEmitFrom text secretValues (emitPrefixLen text tailChars)

/-! ## The first cut -/

theorem retainFrom_eq (tailChars retainedChars : Nat) (text : List Char)
    (more : retainedChars < tailChars) :
    retainFrom tailChars retainedChars (charIndices text).reverse =
      byteLength (text.take (text.length + retainedChars - tailChars)) := by
  induction text using List.reverseRecOn generalizing retainedChars with
  | nil =>
      rw [List.take_nil]
      rfl
  | append_singleton text char ih =>
      rw [charIndices_concat, List.reverse_concat, retainFrom]
      rw [List.length_append, List.length_singleton]
      split
      · rename_i last
        rw [show text.length + 1 + retainedChars - tailChars =
          text.length by omega, List.take_left]
      · rw [ih (retainedChars + 1) (by omega),
          List.take_append_of_le_length (by omega),
          show text.length + 1 + retainedChars - tailChars =
            text.length + (retainedChars + 1) - tailChars by omega]

/-- The first cut retains the last `tailChars` characters. -/
theorem emitPrefixLen_eq (text : List Char) (tailChars : Nat) :
    emitPrefixLen text tailChars =
      byteLength (text.take (text.length - tailChars)) := by
  unfold emitPrefixLen
  split
  · rename_i none
    rw [none, Nat.sub_zero, List.take_length]
  · rw [retainFrom_eq tailChars 0 text (by omega), Nat.add_zero]

/-! ## Beginnings of secrets -/

/-- The beginnings of a secret that are neither empty nor the whole. -/
def Beginning (secret piece : List Char) : Prop :=
  piece ≠ [] ∧ piece ≠ secret ∧ piece <+: secret

/-- The text ends with a beginning of a secret. -/
def EndsInside (secretValues : List (List Char)) (emitted : List Char) :
    Prop :=
  ∃ secret ∈ secretValues, ∃ piece, Beginning secret piece ∧
    piece <:+ emitted

/-- The cut before the longest of the pieces that `emitted` ends with. -/
structure Longest (emitted : List Char) (pieces : Set (List Char))
    (adjusted : Nat) (kept : List Char) : Prop where
  length : adjusted = byteLength kept
  cut : kept = emitted ∨ ∃ piece ∈ pieces, emitted = kept ++ piece
  longest : ∀ piece ∈ pieces, piece <:+ emitted →
    byteLength kept + byteLength piece ≤ byteLength emitted

variable {emitted kept piece : List Char} {pieces : Set (List Char)}
  {adjusted : Nat}

theorem Longest.cutBefore_step
    (longest : Longest emitted pieces adjusted kept)
    (piece : List Char) :
    ∃ after kept, cutBefore emitted piece (byteLength emitted) adjusted =
        some after ∧
      Longest emitted (insert piece pieces) after kept := by
  unfold cutBefore
  by_cases ends : piece <:+ emitted
  · obtain ⟨front, rfl⟩ := ends
    have total : byteLength (front ++ piece) - byteLength piece =
        byteLength front := by simp
    rw [if_pos (List.isSuffixOf_iff_suffix.mpr (List.suffix_append _ _)),
      if_pos (by simp), total]
    refine ⟨_, if byteLength kept ≤ byteLength front then kept else front,
      rfl, ?_, ?_, ?_⟩
    · rw [longest.length]
      split
      · exact min_eq_left ‹_›
      · exact min_eq_right (by omega)
    · split
      · rcases longest.cut with whole | ⟨other, member, isCut⟩
        · exact .inl whole
        · exact .inr ⟨other, Set.mem_insert_of_mem _ member, isCut⟩
      · exact .inr ⟨piece, Set.mem_insert _ _, rfl⟩
    · intro other member otherEnds
      rcases Set.mem_insert_iff.mp member with rfl | earlier
      · rw [byteLength_append]
        split <;> omega
      · have shorter := longest.longest other earlier otherEnds
        split <;> omega
  · rw [if_neg (by rwa [List.isSuffixOf_iff_suffix])]
    refine ⟨adjusted, kept, rfl, longest.length, ?_, ?_⟩
    · rcases longest.cut with whole | ⟨other, member, isCut⟩
      · exact .inl whole
      · exact .inr ⟨other, Set.mem_insert_of_mem _ member, isCut⟩
    · intro other member otherEnds
      rcases Set.mem_insert_iff.mp member with rfl | earlier
      · exact (ends otherEnds).elim
      · exact longest.longest other earlier otherEnds

/-- What begins with `done` is `done` or goes on with the next character. -/
theorem prefix_or_next
    {done rest : List Char} {char : Char}
    (longer : done <+: piece)
    (before : piece <+: done ++ char :: rest) :
    piece = done ∨ done ++ [char] <+: piece := by
  obtain ⟨more, rfl⟩ := longer
  cases more with
  | nil => exact .inl (List.append_nil done)
  | cons first more =>
      have same := (List.prefix_append_right_inj done).mp before
      obtain ⟨rfl, -⟩ := List.cons_prefix_cons.mp same
      right
      exact ⟨more, by simp⟩

theorem beginnings_cons
    (done rest : List Char) (char : Char) :
    insert done (pieces ∪ {piece | done ++ [char] <+: piece ∧
        piece ≠ done ++ char :: rest ∧ piece <+: done ++ char :: rest}) =
      pieces ∪ {piece | done <+: piece ∧ piece ≠ done ++ char :: rest ∧
        piece <+: done ++ char :: rest} := by
  ext piece
  constructor
  · rintro (rfl | member | ⟨longer, others⟩)
    · right
      refine ⟨List.prefix_rfl, by simp, List.prefix_append _ _⟩
    · exact .inl member
    · exact .inr ⟨(List.prefix_append _ _).trans longer, others⟩
  · rintro (member | ⟨longer, differs, before⟩)
    · exact .inr (.inl member)
    · rcases prefix_or_next longer before with same | next
      · exact .inl same
      · exact .inr (.inr ⟨next, differs, before⟩)

/-- The rest of the loop over one secret, from the offset where `done`
ends. -/
theorem Longest.cutSecret_run
    (longest : Longest emitted pieces adjusted kept)
    (done rest : List Char) :
    ∃ after kept, cutSecret emitted (byteLength emitted) (done ++ rest)
        adjusted (charIndicesFrom (byteLength done) rest) = some after ∧
      Longest emitted
        (pieces ∪ {piece | done <+: piece ∧ piece ≠ done ++ rest ∧
          piece <+: done ++ rest}) after kept := by
  induction rest generalizing done pieces adjusted kept with
  | nil =>
      refine ⟨adjusted, kept, rfl, longest.length, ?_, ?_⟩
      · rcases longest.cut with whole | ⟨other, member, isCut⟩
        · exact .inl whole
        · exact .inr ⟨other, .inl member, isCut⟩
      · intro other member otherEnds
        rcases member with earlier | ⟨longer, differs, before⟩
        · exact longest.longest other earlier otherEnds
        · rw [List.append_nil] at differs before
          exact (differs (before.eq_of_length_le longer.length_le)).elim
  | cons char rest ih =>
      obtain ⟨between, keptBetween, first, longestBetween⟩ :=
        longest.cutBefore_step done
      obtain ⟨after, keptAfter, later, longestAfter⟩ :=
        ih longestBetween (done ++ [char])
      have joined : done ++ [char] ++ rest = done ++ char :: rest := by simp
      have offset : byteLength (done ++ [char]) =
          byteLength done + char.utf8Size := by simp
      rw [joined, offset] at later
      rw [joined] at longestAfter
      refine ⟨after, keptAfter, ?_, ?_⟩
      · unfold cutSecret at later ⊢
        rw [charIndicesFrom, List.foldlM_cons,
          sliceTo_append, Option.bind_some, first]
        exact later
      · rw [Set.insert_union, beginnings_cons] at longestAfter
        exact longestAfter

/-- The loop over one secret tries its beginnings. -/
theorem Longest.cutSecret_all
    (longest : Longest emitted pieces adjusted kept)
    (secret : List Char) :
    ∃ after kept, cutSecret emitted (byteLength emitted) secret adjusted
        ((charIndices secret).drop 1) = some after ∧
      Longest emitted (pieces ∪ {piece | Beginning secret piece}) after
        kept := by
  cases secret with
  | nil =>
      have none : {piece | Beginning [] piece} = (∅ : Set (List Char)) := by
        ext piece
        apply iff_of_false
        · rintro ⟨filled, -, before⟩
          exact filled (List.prefix_nil.mp before)
        · exact Set.notMem_empty piece
      rw [none, Set.union_empty]
      exact ⟨adjusted, kept, rfl, longest⟩
  | cons char rest =>
      have run := longest.cutSecret_run [char] rest
      have offsets : (charIndices (char :: rest)).drop 1 =
          charIndicesFrom (byteLength [char]) rest := by
        simp [charIndices, charIndicesFrom]
      have beginnings : {piece | Beginning (char :: rest) piece} =
          {piece | [char] <+: piece ∧ piece ≠ [char] ++ rest ∧
            piece <+: [char] ++ rest} := by
        ext piece
        constructor
        · rintro ⟨filled, differs, before⟩
          refine ⟨?_, differs, before⟩
          rcases @prefix_or_next piece [] rest char List.nil_prefix before with
            empty | next
          · exact (filled empty).elim
          · exact next
        · rintro ⟨longer, differs, before⟩
          refine ⟨?_, differs, before⟩
          rintro rfl
          simp at longer
      rw [offsets, beginnings]
      exact run

/-- The loop over the secrets. -/
theorem Longest.foldlM_secrets
    (longest : Longest emitted pieces adjusted kept)
    (secretValues : List (List Char)) :
    ∃ after kept, secretValues.foldlM (fun adjusted secret =>
        cutSecret emitted (byteLength emitted) secret adjusted
          ((charIndices secret).drop 1)) adjusted = some after ∧
      Longest emitted (pieces ∪ {piece | ∃ secret ∈ secretValues,
        Beginning secret piece}) after kept := by
  induction secretValues generalizing pieces adjusted kept with
  | nil =>
      refine ⟨adjusted, kept, rfl, ?_⟩
      simpa using longest
  | cons secret secretValues ih =>
      obtain ⟨between, keptBetween, first, longestBetween⟩ :=
        longest.cutSecret_all secret
      obtain ⟨after, keptAfter, later, longestAfter⟩ := ih longestBetween
      refine ⟨after, keptAfter, ?_, ?_⟩
      · rw [List.foldlM_cons, first]
        exact later
      · have all : pieces ∪ {piece | ∃ other ∈ secret :: secretValues,
              Beginning other piece} =
            pieces ∪ {piece | Beginning secret piece} ∪
              {piece | ∃ other ∈ secretValues, Beginning other piece} := by
          ext piece
          simp [or_assoc]
        rw [all]
        exact longestAfter

/-! ## The greatest safe cut -/

variable {text front : List Char} {secretValues : List (List Char)}

theorem not_endsInside_nil : ¬EndsInside secretValues [] := by
  rintro ⟨secret, -, piece, ⟨filled, -, -⟩, ends⟩
  exact filled (List.suffix_nil.mp ends)

/-- Every cut inside a beginning of a secret ends with a beginning of it. -/
theorem endsInside_of_inside
    {secret other : List Char}
    (member : secret ∈ secretValues)
    (beginning : Beginning secret piece)
    (before : other <+: kept ++ piece)
    (longer : kept.length < other.length) :
    EndsInside secretValues other := by
  obtain ⟨part, rfl⟩ := List.prefix_of_prefix_length_le
    (List.prefix_append kept piece) before longer.le
  have within : part <+: piece :=
    (List.prefix_append_right_inj kept).mp before
  refine ⟨secret, member, part, ⟨?_, ?_, within.trans beginning.2.2⟩,
    List.suffix_append _ _⟩
  · rintro rfl
    simp at longer
  · rintro rfl
    exact beginning.2.1 (beginning.2.2.eq_of_length_le within.length_le)

/-- One round keeps a beginning of the text; what it skips is not safe, and
it skips nothing only if the text is. -/
theorem adjustEmitLen_eq
    (before : front <+: text)
    (secretValues : List (List Char)) :
    ∃ kept, adjustEmitLenForSecretPrefixes text (byteLength front)
        secretValues = some (byteLength kept) ∧
      kept <+: front ∧
      (kept = front → ¬EndsInside secretValues front) ∧
      ∀ other, other <+: front → kept.length < other.length →
        EndsInside secretValues other := by
  have start : Longest front ∅ (byteLength front) front :=
    ⟨rfl, .inl rfl, by simp⟩
  obtain ⟨adjusted, kept, folds, longest⟩ := start.foldlM_secrets secretValues
  rw [Set.empty_union] at longest
  have adjusts : adjustEmitLenForSecretPrefixes text (byteLength front)
      secretValues = some (byteLength kept) := by
    unfold adjustEmitLenForSecretPrefixes
    rw [sliceTo_beginning before, Option.bind_some, folds, longest.length]
  refine ⟨kept, adjusts, ?_, ?_, ?_⟩
  · rcases longest.cut with whole | ⟨piece, -, isCut⟩
    · rw [whole]
    · exact ⟨piece, isCut.symm⟩
  · rintro rfl ⟨secret, member, piece, beginning, ends⟩
    have shorter := longest.longest piece ⟨secret, member, beginning⟩ ends
    have positive := byteLength_pos beginning.1
    omega
  · intro other otherBefore longer
    rcases longest.cut with whole | ⟨piece, ⟨secret, member, beginning⟩, isCut⟩
    · rw [whole] at longer
      exact (Nat.not_lt_of_le otherBefore.length_le longer).elim
    · rw [isCut] at otherBefore
      exact endsInside_of_inside member beginning otherBefore longer

theorem safeEmitFrom_eq {emitLen adjusted : Nat}
    (filled : emitLen ≠ 0)
    (adjusts : adjustEmitLenForSecretPrefixes text emitLen secretValues =
      some adjusted) :
    safeEmitFrom text secretValues emitLen =
      if adjusted = emitLen then some emitLen
      else safeEmitFrom text secretValues adjusted := by
  rw [safeEmitFrom, if_neg filled]
  split
  · rename_i panics
    rw [adjusts] at panics
    cases panics
  · rename_i other isOther
    rw [adjusts] at isOther
    cases isOther
    rfl

/-- The loop comes to the longest safe beginning. -/
theorem safeEmitFrom_maximal
    (before : front <+: text) :
    ∃ best, safeEmitFrom text secretValues (byteLength front) =
        some (byteLength best) ∧
      best <+: front ∧ ¬EndsInside secretValues best ∧
      ∀ other, other <+: front → ¬EndsInside secretValues other →
        other <+: best := by
  induction length : front.length using Nat.strong_induction_on
    generalizing front with
  | _ length ih =>
      subst length
      rcases List.eq_nil_or_concat front with rfl | ⟨_, _, isFront⟩
      · refine ⟨[], ?_, List.nil_prefix, not_endsInside_nil, ?_⟩
        · rw [safeEmitFrom]
          rfl
        · intro other isEmpty _
          exact isEmpty
      · have filled : front ≠ [] := by
          rw [isFront]
          simp
        have positive := byteLength_pos filled
        obtain ⟨kept, adjusts, shorter, safe, skipped⟩ :=
          adjustEmitLen_eq before secretValues
        rw [safeEmitFrom_eq (by omega) adjusts]
        by_cases unchanged : kept = front
        · subst unchanged
          rw [if_pos rfl]
          refine ⟨kept, rfl, List.prefix_rfl, safe rfl, ?_⟩
          intro other otherBefore _
          exact otherBefore
        · have less : kept.length < front.length := by
            apply lt_of_le_of_ne shorter.length_le
            intro same
            exact unchanged (shorter.eq_of_length same)
          have differs : byteLength kept ≠ byteLength front := by
            intro same
            exact unchanged (shorter.eq_of_length_le
              (prefix_of_byteLength_le before (shorter.trans before)
                same.ge).length_le)
          rw [if_neg differs]
          obtain ⟨best, result, bestBefore, bestSafe, greatest⟩ :=
            ih kept.length less (shorter.trans before) rfl
          refine ⟨best, result, bestBefore.trans shorter, bestSafe, ?_⟩
          intro other otherBefore otherSafe
          apply greatest other _ otherSafe
          -- a longer one would have been skipped, and is not safe
          apply List.prefix_of_prefix_length_le otherBefore shorter
          by_contra longer
          exact otherSafe (skipped other otherBefore (by omega))

/-- `safe_emit_prefix_len` ends without a panic, with the length of the
longest beginning of the text, up to the first cut, at whose end no secret
has begun. -/
theorem safeEmitPrefixLen_maximal
    (text : List Char)
    (tailChars : Nat)
    (secretValues : List (List Char)) :
    ∃ best, safeEmitPrefixLen text tailChars secretValues =
        some (byteLength best) ∧
      best <+: text ∧
      byteLength best ≤ emitPrefixLen text tailChars ∧
      ¬EndsInside secretValues best ∧
      ∀ other, other <+: text →
        byteLength other ≤ emitPrefixLen text tailChars →
        ¬EndsInside secretValues other →
        byteLength other ≤ byteLength best := by
  have before : text.take (text.length - tailChars) <+: text :=
    List.take_prefix _ _
  obtain ⟨best, result, bestBefore, safe, greatest⟩ :=
    @safeEmitFrom_maximal text _ secretValues before
  unfold safeEmitPrefixLen
  rw [emitPrefixLen_eq]
  refine ⟨best, result, bestBefore.trans before,
    byteLength_le_of_prefix bestBefore, safe, ?_⟩
  intro other otherBefore short otherSafe
  apply byteLength_le_of_prefix
  exact greatest other (prefix_of_byteLength_le otherBefore before short)
    otherSafe

end Sendword
