import Sendword.EmitCut
import Sendword.Masking

/-!
# Masking a log that is streamed

`LogStreamMasker` keeps the end of the text that was pushed until no secret
can begin in what it emits.  The pieces that it emits, masked one by one, are
the masked text.
-/

namespace Sendword

open ByteText Replacing

/-! ## Escaped texts -/

def htmlEscapeChar : Char → List Char
  | '&' => "&amp;".toList
  | '<' => "&lt;".toList
  | '>' => "&gt;".toList
  | '"' => "&quot;".toList
  | char => [char]

def htmlEscape (text : List Char) : List Char :=
  text.flatMap htmlEscapeChar

def maskAndEscape (serverEnv : String → Option String)
    (replaceMatches : (pattern : String) → List Char → List Char)
    (text : List Char) (masking : MaskingConfig)
    (hookEnv : List (String × String)) : List Char :=
  if masking.envVars = [] ∧ masking.compiledPatterns = [] then
    htmlEscape text
  else
    htmlEscape (maskSecrets serverEnv hookEnv replaceMatches text masking)

def maskResolvedEnvValuesAndEscape (secretValues : List (List Char))
    (text : List Char) : List Char :=
  if secretValues = [] then htmlEscape text
  else
    htmlEscape (secretValues.foldl (fun masked value =>
      replace id value "***".toList masked) text)

def streamMaskTailChars (secretValues : List (List Char)) : Nat :=
  (secretValues.map List.length).max?.getD 0

def streamMaskSecretValues (serverEnv : String → Option String)
    (masking : MaskingConfig) (hookEnv : List (String × String)) :
    List (List Char) :=
  ((masking.envVars.filterMap (resolvedEnv serverEnv hookEnv)).filter
    (· ≠ "")).map String.toList

/-! ## The masker -/

structure LogStreamMasker where
  secretValues : List (List Char)
  buffer : List Char
  tailChars : Nat
  deriving DecidableEq, Repr

namespace LogStreamMasker

/-- The masker for secrets that are resolved. -/
def ofValues (secretValues : List (List Char)) : LogStreamMasker :=
  { secretValues, buffer := [],
    tailChars := streamMaskTailChars secretValues }

def new (serverEnv : String → Option String) (masking : MaskingConfig)
    (hookEnv : List (String × String)) : LogStreamMasker :=
  ofValues (streamMaskSecretValues serverEnv masking hookEnv)

/-- The chunk that a push splits off the buffer.  A split inside a character
would panic. -/
def splitOff (masker : LogStreamMasker) (text : List Char) :
    Option (Option (List Char) × LogStreamMasker) :=
  let buffer := masker.buffer ++ text
  (safeEmitPrefixLen buffer masker.tailChars masker.secretValues).bind
    fun emitLen =>
      if emitLen = 0 then some (none, { masker with buffer })
      else
        (sliceTo buffer emitLen).map fun chunk =>
          (some chunk, { masker with buffer := buffer.drop chunk.length })

/-- The buffer that a flush takes. -/
def takeBuffer (masker : LogStreamMasker) :
    Option (List Char) × LogStreamMasker :=
  if masker.buffer = [] then (none, masker)
  else (some masker.buffer, { masker with buffer := [] })

/-- What is emitted of a chunk. -/
def emit (masker : LogStreamMasker) (chunk : Option (List Char)) :
    Option (List Char) :=
  (chunk.map (maskResolvedEnvValuesAndEscape masker.secretValues)).filter
    (· ≠ [])

def push (masker : LogStreamMasker) (text : List Char) :
    Option (Option (List Char) × LogStreamMasker) :=
  (masker.splitOff text).map fun split => (masker.emit split.1, split.2)

def flush (masker : LogStreamMasker) :
    Option (List Char) × LogStreamMasker :=
  (masker.emit masker.takeBuffer.1, masker.takeBuffer.2)

end LogStreamMasker

/-- The pieces of pushes one after the other and one flush. -/
def piecesOf
    (push : LogStreamMasker → List Char →
      Option (Option (List Char) × LogStreamMasker))
    (flush : LogStreamMasker → Option (List Char) × LogStreamMasker) :
    LogStreamMasker → List (List Char) → Option (List (List Char))
  | masker, [] => some (flush masker).1.toList
  | masker, text :: texts =>
      (push masker text).bind fun pushed =>
        (piecesOf push flush pushed.2 texts).map (pushed.1.toList ++ ·)

/-- The chunks of the text. -/
def chunksOf : LogStreamMasker → List (List Char) →
    Option (List (List Char)) :=
  piecesOf LogStreamMasker.splitOff LogStreamMasker.takeBuffer

/-- What is emitted. -/
def emittedOf : LogStreamMasker → List (List Char) →
    Option (List (List Char)) :=
  piecesOf LogStreamMasker.push LogStreamMasker.flush

/-! ## Masking of pieces -/

variable {secretValues : List (List Char)} {text front back : List Char}

theorem maskResolved_eq :
    maskResolvedEnvValuesAndEscape secretValues text =
      htmlEscape (secretValues.foldl (fun masked value =>
        replace id value "***".toList masked) text) := by
  unfold maskResolvedEnvValuesAndEscape
  split
  · rename_i none
    rw [none, List.foldl_nil]
  · rfl

theorem streamMaskSecretValues_eq {serverEnv : String → Option String}
    {masking : MaskingConfig} {hookEnv : List (String × String)} :
    streamMaskSecretValues serverEnv masking hookEnv =
      secretsOf serverEnv hookEnv masking.envVars := by
  unfold streamMaskSecretValues secretsOf
  rw [List.filter_filterMap, List.map_filterMap]

/-- Without patterns, the view of a finished log replaces the same values. -/
theorem maskAndEscape_eq
    (serverEnv : String → Option String)
    (replaceMatches : (pattern : String) → List Char → List Char)
    (text : List Char)
    (masking : MaskingConfig)
    (hookEnv : List (String × String))
    (none : masking.compiledPatterns = []) :
    maskAndEscape serverEnv replaceMatches text masking hookEnv =
      maskResolvedEnvValuesAndEscape
        (streamMaskSecretValues serverEnv masking hookEnv) text := by
  rw [maskResolved_eq, streamMaskSecretValues_eq]
  unfold maskAndEscape maskSecrets
  split
  · rename_i empty
    rw [empty.1]
    rfl
  · rw [maskValues_eq, none, List.foldl_nil]

theorem htmlEscape_append :
    htmlEscape (front ++ back) = htmlEscape front ++ htmlEscape back :=
  List.flatMap_append

theorem htmlEscapeChar_ne_nil (char : Char) : htmlEscapeChar char ≠ [] := by
  unfold htmlEscapeChar
  split
  · decide
  · decide
  · decide
  · decide
  · exact List.cons_ne_nil char []

theorem htmlEscape_ne_nil (some : text ≠ []) : htmlEscape text ≠ [] := by
  obtain ⟨char, rest, rfl⟩ := List.exists_cons_of_ne_nil some
  intro empty
  rw [htmlEscape, List.flatMap_cons, List.append_eq_nil_iff] at empty
  exact htmlEscapeChar_ne_nil char empty.1

theorem maskResolved_ne_nil
    (filled : ∀ secret ∈ secretValues, secret ≠ [])
    (some : text ≠ []) :
    maskResolvedEnvValuesAndEscape secretValues text ≠ [] := by
  rw [maskResolved_eq]
  apply htmlEscape_ne_nil
  induction secretValues generalizing text with
  | nil => exact some
  | cons secret secretValues ih =>
      obtain ⟨own, others⟩ := List.forall_mem_cons.mp filled
      exact ih others (replace_ne_nil own (by decide) some)

/-- No secret lies on both sides of a boundary between pieces. -/
def CutsApart (secretValues pieces : List (List Char)) : Prop :=
  ∀ front back, pieces = front ++ back → ∀ secret ∈ secretValues,
    ¬Straddles secret front.flatten back.flatten

/-- Such pieces are masked one by one. -/
theorem maskResolved_flatten
    {pieces : List (List Char)}
    (filled : ∀ secret ∈ secretValues, secret ≠ [])
    (plain : ∀ secret ∈ secretValues, '*' ∉ secret)
    (apart : CutsApart secretValues pieces) :
    (pieces.map (maskResolvedEnvValuesAndEscape secretValues)).flatten =
      maskResolvedEnvValuesAndEscape secretValues pieces.flatten := by
  induction pieces with
  | nil =>
      rw [maskResolved_eq]
      have empty : secretValues.foldl (fun masked value =>
          replace id value "***".toList masked) [] = [] := by
        clear filled plain apart
        induction secretValues with
        | nil => rfl
        | cons secret secretValues ih => exact ih
      rw [List.flatten_nil, empty]
      rfl
  | cons piece pieces ih =>
      have later : CutsApart secretValues pieces := by
        intro front back isSplit secret member straddles
        apply apart (piece :: front) back (by rw [isSplit]; rfl) secret member
        exact straddles.suffix (List.suffix_append piece front.flatten)
      have first : ∀ secret ∈ secretValues,
          ¬Straddles secret piece pieces.flatten := by
        intro secret member
        have here := apart [piece] pieces rfl secret member
        rwa [List.flatten_singleton] at here
      rw [List.map_cons, List.flatten_cons, ih later, List.flatten_cons,
        maskResolved_eq, maskResolved_eq, maskResolved_eq,
        ← htmlEscape_append]
      congr 1
      symm
      have isMasked : '*' ∈ "***".toList := by decide
      have stars : ∀ letter ∈ "***".toList, letter = '*' := by
        intro letter member
        simpa using member
      exact foldl_replace_cut filled isMasked stars plain first

/-! ## What a push splits off -/

variable {masker : LogStreamMasker} {released chunk rest : List Char}

/-- The buffer is split, if at all, where no secret has begun. -/
theorem splitOff_eq (masker : LogStreamMasker) (text : List Char) :
    ∃ chunk rest, masker.buffer ++ text = chunk ++ rest ∧
      ¬EndsInside masker.secretValues chunk ∧
      masker.splitOff text =
        some (if chunk = [] then none else some chunk,
          { masker with buffer := rest }) := by
  obtain ⟨best, isBest, ⟨rest, split⟩, -, safe, -⟩ :=
    safeEmitPrefixLen_maximal (masker.buffer ++ text) masker.tailChars
      masker.secretValues
  refine ⟨best, rest, split.symm, safe, ?_⟩
  unfold LogStreamMasker.splitOff
  dsimp only
  rw [isBest, Option.bind_some, ← split]
  cases best with
  | nil => rfl
  | cons char best =>
      have positive := byteLength_pos (List.cons_ne_nil char best)
      rw [if_neg (by omega), sliceTo_append,
        if_neg (List.cons_ne_nil char best), Option.map_some,
        List.drop_left]

/-- However the text goes on behind the buffer, no secret lies on both sides
of the place up to which it was emitted. -/
def KeepsApart (masker : LogStreamMasker) (released : List Char) : Prop :=
  ∀ later, masker.buffer <+: later → ∀ secret ∈ masker.secretValues,
    ¬Straddles secret released later

theorem keepsApart_ofValues :
    KeepsApart (LogStreamMasker.ofValues secretValues) [] := by
  rintro later - secret - ⟨left, right, some, -, -, empty, -⟩
  exact some (List.suffix_nil.mp empty)

/-- A secret on both sides of the next boundary has begun in the chunk, or
lies on both sides of the last one. -/
theorem KeepsApart.split
    (apart : KeepsApart masker released)
    (isSplit : masker.buffer ++ text = chunk ++ rest)
    (safe : ¬EndsInside masker.secretValues chunk) :
    KeepsApart { masker with buffer := rest } (released ++ chunk) := by
  rintro later goesOn secret member
    ⟨left, right, someLeft, someRight, isSecret, onLeft, onRight⟩
  have ends : chunk <:+ released ++ chunk := List.suffix_append _ _
  by_cases inside : left <:+ chunk
  · apply safe
    refine ⟨secret, member, left, ⟨someLeft, ?_, ?_⟩, inside⟩
    · rintro rfl
      exact someRight (List.append_right_eq_self.mp isSecret.symm)
    · rw [isSecret]
      exact List.prefix_append left right
  · obtain ⟨before, rfl⟩ :=
      (List.suffix_or_suffix_of_suffix onLeft ends).resolve_left inside
    have someBefore : before ≠ [] := by
      rintro rfl
      exact inside List.suffix_rfl
    have onReleased : before <:+ released := by
      obtain ⟨front, isReleased⟩ := onLeft
      rw [← List.append_assoc, List.append_cancel_right_eq] at isReleased
      exact ⟨front, isReleased⟩
    have whole : masker.buffer <+: chunk ++ rest := ⟨text, isSplit⟩
    apply apart (chunk ++ later) _ secret member
    · refine ⟨before, chunk ++ right, someBefore, ?_, ?_, onReleased, ?_⟩
      · intro empty
        exact someRight (List.append_eq_nil_iff.mp empty).2
      · rw [isSecret, List.append_assoc]
      · exact (List.prefix_append_right_inj chunk).mpr onRight
    · exact whole.trans ((List.prefix_append_right_inj chunk).mpr goesOn)

/-! ## Runs -/

theorem chunksOf_cons (masker : LogStreamMasker) (text : List Char)
    (texts : List (List Char)) :
    chunksOf masker (text :: texts) =
      (masker.splitOff text).bind fun split =>
        (chunksOf split.2 texts).map (split.1.toList ++ ·) :=
  rfl

theorem emittedOf_cons (masker : LogStreamMasker) (text : List Char)
    (texts : List (List Char)) :
    emittedOf masker (text :: texts) =
      (masker.splitOff text).bind fun split =>
        (emittedOf split.2 texts).map
          ((masker.emit split.1).toList ++ ·) := by
  show (Option.map _ _).bind _ = _
  rw [Option.bind_map]
  rfl

theorem emit_eq {chunk : Option (List Char)}
    (filled : ∀ secret ∈ masker.secretValues, secret ≠ [])
    (some : ∀ text ∈ chunk, text ≠ []) :
    masker.emit chunk =
      chunk.map (maskResolvedEnvValuesAndEscape masker.secretValues) := by
  unfold LogStreamMasker.emit
  cases chunk with
  | none => rfl
  | some text =>
      have masked := maskResolved_ne_nil filled (some text rfl)
      rw [Option.map_some, Option.filter_some, if_pos (by simpa using masked)]

/-- What is emitted are the masked chunks. -/
theorem emittedOf_eq
    (filled : ∀ secret ∈ masker.secretValues, secret ≠ [])
    (texts : List (List Char)) :
    emittedOf masker texts = (chunksOf masker texts).map
      (List.map (maskResolvedEnvValuesAndEscape masker.secretValues)) := by
  induction texts generalizing masker with
  | nil =>
      show some ((masker.emit masker.takeBuffer.1).toList) =
        some (masker.takeBuffer.1.toList.map _)
      rw [emit_eq filled]
      · cases masker.takeBuffer.1 <;> rfl
      · intro text isBuffer
        unfold LogStreamMasker.takeBuffer at isBuffer
        split at isBuffer
        · cases isBuffer
        · cases isBuffer
          assumption
  | cons text texts ih =>
      obtain ⟨chunk, rest, -, -, isSplit⟩ := splitOff_eq masker text
      have later := @ih { masker with buffer := rest } filled
      rw [emittedOf_cons, chunksOf_cons, isSplit, Option.bind_some,
        Option.bind_some, later, emit_eq filled]
      · rw [Option.map_map, Option.map_map]
        congr 1
        funext pieces
        split
        · rfl
        · rfl
      · intro text isChunk
        split at isChunk
        · cases isChunk
        · cases isChunk
          assumption

theorem takeBuffer_flatten :
    masker.takeBuffer.1.toList.flatten = masker.buffer := by
  unfold LogStreamMasker.takeBuffer
  split
  · rename_i empty
    rw [empty]
    rfl
  · exact List.flatten_singleton

theorem not_straddles_end {secret : List Char} :
    ¬Straddles secret released [] := by
  rintro ⟨left, right, -, some, -, -, empty⟩
  exact some (List.prefix_nil.mp empty)

/-- A run from a state in which no secret lies on both sides of the last
boundary. -/
theorem chunksOf_run
    (apart : KeepsApart masker released)
    (texts : List (List Char)) :
    ∃ pieces, chunksOf masker texts = some pieces ∧
      pieces.flatten = masker.buffer ++ texts.flatten ∧
      ∀ front back, pieces = front ++ back →
        ∀ secret ∈ masker.secretValues,
          ¬Straddles secret (released ++ front.flatten) back.flatten := by
  induction texts generalizing masker released with
  | nil =>
      refine ⟨masker.takeBuffer.1.toList, rfl, ?_, ?_⟩
      · rw [takeBuffer_flatten, List.flatten_nil, List.append_nil]
      · intro front back isSplit secret member
        cases front with
        | nil =>
            rw [List.flatten_nil, List.append_nil]
            apply apart back.flatten _ secret member
            rw [← List.nil_append back, ← isSplit, takeBuffer_flatten]
        | cons piece front =>
            have last : back = [] := by
              cases isTaken : masker.takeBuffer.1 with
              | none =>
                  rw [isTaken] at isSplit
                  cases isSplit
              | some taken =>
                  rw [isTaken, List.cons_append] at isSplit
                  have rest := (List.cons.inj isSplit).2
                  exact (List.append_eq_nil_iff.mp rest.symm).2
            rw [last]
            exact not_straddles_end
  | cons text texts ih =>
      obtain ⟨chunk, rest, split, safe, isSplit⟩ := splitOff_eq masker text
      have next := apart.split split safe
      obtain ⟨pieces, run, whole, later⟩ := ih next
      have goesOn : chunk ++ pieces.flatten =
          masker.buffer ++ (text :: texts).flatten := by
        rw [whole, ← List.append_assoc, ← split, List.append_assoc,
          List.flatten_cons]
      rw [chunksOf_cons, isSplit, Option.bind_some, run, Option.map_some]
      refine ⟨_, rfl, ?_⟩
      by_cases empty : chunk = []
      · rw [if_pos empty]
        rw [empty, List.nil_append] at goesOn
        rw [empty, List.append_nil] at later
        exact ⟨goesOn, later⟩
      · rw [if_neg empty]
        refine ⟨goesOn, ?_⟩
        intro front back isFront secret member
        cases front with
        | nil =>
            rw [List.flatten_nil, List.append_nil]
            apply apart back.flatten _ secret member
            rw [← List.nil_append back, ← isFront]
            exact ⟨(text :: texts).flatten, goesOn.symm⟩
        | cons piece front =>
            obtain ⟨rfl, isRest⟩ := List.cons.inj isFront
            have here := later front back isRest secret member
            rwa [List.append_assoc] at here

/-- The boundary behind some of the pieces lies strictly inside an occurrence
of a secret in the text. -/
def BoundaryInside (secret text : List Char) (boundary : Nat) : Prop :=
  ∃ start, secret <+: text.drop start ∧ start < boundary ∧
    boundary < start + secret.length

/-- However a text is cut into pushes, no boundary between the pieces that
are emitted lies inside a secret, and the pieces together are the text masked
at once, as the view of a finished log masks it. -/
theorem logStream_eq
    (secretValues : List (List Char))
    (filled : ∀ secret ∈ secretValues, secret ≠ [])
    (texts : List (List Char)) :
    ∃ pieces emitted,
      chunksOf (LogStreamMasker.ofValues secretValues) texts =
        some pieces ∧
      emittedOf (LogStreamMasker.ofValues secretValues) texts =
        some emitted ∧
      emitted = pieces.map (maskResolvedEnvValuesAndEscape secretValues) ∧
      pieces.flatten = texts.flatten ∧
      (∀ front back, pieces = front ++ back →
        ∀ secret ∈ secretValues,
          ¬BoundaryInside secret texts.flatten front.flatten.length) ∧
      ((∀ secret ∈ secretValues, '*' ∉ secret) →
        emitted.flatten =
          maskResolvedEnvValuesAndEscape secretValues texts.flatten) ∧
      ∀ serverEnv replaceMatches masking hookEnv,
        masking.compiledPatterns = [] →
        streamMaskSecretValues serverEnv masking hookEnv = secretValues →
        LogStreamMasker.new serverEnv masking hookEnv =
            LogStreamMasker.ofValues secretValues ∧
          maskAndEscape serverEnv replaceMatches texts.flatten masking
              hookEnv =
            maskResolvedEnvValuesAndEscape secretValues texts.flatten := by
  obtain ⟨pieces, run, whole, apart⟩ :=
    chunksOf_run (@keepsApart_ofValues secretValues) texts
  have cuts : CutsApart secretValues pieces := apart
  have whole : pieces.flatten = texts.flatten := whole
  refine ⟨pieces, _, run, ?_, rfl, whole, ?_, ?_, ?_⟩
  · rw [emittedOf_eq filled, run]
    rfl
  · intro front back isSplit secret member inside
    apply cuts front back isSplit secret member
    rw [straddles_iff, ← List.flatten_append, ← isSplit, whole]
    exact inside
  · intro plain
    rw [maskResolved_flatten filled plain cuts, whole]
  · intro serverEnv replaceMatches masking hookEnv none isValues
    rw [LogStreamMasker.new, maskAndEscape_eq _ _ _ _ _ none, isValues]
    exact ⟨rfl, rfl⟩

/-- A secret that is cut by the pushes, and one that it begins with. -/
theorem logStream_eq_cut :
    ∃ pieces emitted,
      chunksOf (LogStreamMasker.ofValues ["ab".toList, "abab".toList])
        ["<ab".toList, "abx".toList] = some pieces ∧
      emittedOf (LogStreamMasker.ofValues ["ab".toList, "abab".toList])
        ["<ab".toList, "abx".toList] = some emitted ∧
      pieces.flatten = "<ababx".toList ∧
      emitted.flatten = "&lt;******x".toList := by
  obtain ⟨pieces, emitted, run, emits, -, whole, -, masked, -⟩ :=
    logStream_eq ["ab".toList, "abab".toList] (by decide)
      ["<ab".toList, "abx".toList]
  refine ⟨pieces, emitted, run, emits, whole, ?_⟩
  rw [masked (by decide)]
  decide

end Sendword
