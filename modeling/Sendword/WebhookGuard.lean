import Mathlib.Data.List.Basic
import Sendword.Validation
import Sendword.WebhookAuth

/-!
# Which requests pass the authentication

A request passes where it shows the token or signs its body.  An environment
variable that is empty opens the webhook, and a token that no header can be
read with closes it.
-/

namespace Sendword

namespace WebhookAuth

/-! ## Hex -/

theorem forall_byte (holds : UInt8 → Prop)
    (all : ∀ value : Fin 256, holds (UInt8.ofNat value)) (byte : UInt8) :
    holds byte := by
  have known := all ⟨byte.toNat, byte.toNat_lt⟩
  simpa using known

theorem forall_nibble (holds : UInt8 → Prop)
    (all : ∀ value : Fin 16, holds (UInt8.ofNat value)) {value : UInt8}
    (small : value < 16) : holds value := by
  have known := all ⟨value.toNat, UInt8.lt_iff_toNat_lt.mp small⟩
  simpa using known

theorem hexDigit_small {byte value : UInt8}
    (digit : hexDigit byte = some value) : value < 16 := by
  have all : ∀ byte : Fin 256,
      (hexDigit (UInt8.ofNat byte)).all (· < 16) = true := by
    decide +kernel
  have known := forall_byte
    (fun byte => (hexDigit byte).all (· < 16) = true) all byte
  rw [digit] at known
  simpa using known

/-- A digit in either letter case. -/
theorem hexDigit_eq_some_iff {byte value : UInt8} (small : value < 16) :
    hexDigit byte = some value ↔ lowerByte byte = digitOf value := by
  have bytes : ∀ byte : Fin 256,
      hexDigit (lowerByte (UInt8.ofNat byte)) = hexDigit (UInt8.ofNat byte) ∧
        (hexDigit (UInt8.ofNat byte)).all
          (fun digit => lowerByte (UInt8.ofNat byte) == digitOf digit) =
            true := by
    decide +kernel
  obtain ⟨lower, shown⟩ := forall_byte
    (fun byte => hexDigit (lowerByte byte) = hexDigit byte ∧
      (hexDigit byte).all (fun digit => lowerByte byte == digitOf digit) =
        true) bytes byte
  constructor
  · intro digit
    rw [digit] at shown
    simpa using shown
  · intro same
    rw [← lower, same]
    exact forall_nibble (fun value => hexDigit (digitOf value) = some value)
      (by decide) small

/-- The halves of a byte. -/
theorem nibbles (byte : UInt8) :
    byte >>> 4 < 16 ∧ byte &&& 15 < 16 ∧
      (byte >>> 4) <<< 4 ||| (byte &&& 15) = byte := by
  have all : ∀ value : Fin 256, UInt8.ofNat value >>> 4 < 16 ∧
      UInt8.ofNat value &&& 15 < 16 ∧
      (UInt8.ofNat value >>> 4) <<< 4 ||| (UInt8.ofNat value &&& 15) =
        UInt8.ofNat value := by
    decide +kernel
  exact forall_byte (fun byte => byte >>> 4 < 16 ∧ byte &&& 15 < 16 ∧
    (byte >>> 4) <<< 4 ||| (byte &&& 15) = byte) all byte

/-- A byte is put together from its halves. -/
theorem halves {hi lo : UInt8} (high : hi < 16) (low : lo < 16) :
    (hi <<< 4 ||| lo) >>> 4 = hi ∧ (hi <<< 4 ||| lo) &&& 15 = lo := by
  have all : ∀ hi lo : Fin 16,
      (UInt8.ofNat hi <<< 4 ||| UInt8.ofNat lo) >>> 4 = UInt8.ofNat hi ∧
        (UInt8.ofNat hi <<< 4 ||| UInt8.ofNat lo) &&& 15 =
          UInt8.ofNat lo := by
    decide +kernel
  refine forall_nibble (fun hi => (hi <<< 4 ||| lo) >>> 4 = hi ∧
    (hi <<< 4 ||| lo) &&& 15 = lo) (fun known => ?_) high
  exact forall_nibble (fun lo =>
    (UInt8.ofNat known <<< 4 ||| lo) >>> 4 = UInt8.ofNat known ∧
      (UInt8.ofNat known <<< 4 ||| lo) &&& 15 = lo) (all known) low

theorem hexEncode_cons (byte : UInt8) (bytes : List UInt8) :
    hexEncode (byte :: bytes) =
      digitOf (byte >>> 4) :: digitOf (byte &&& 15) :: hexEncode bytes :=
  rfl

/-- Decoding reads the hex form in either letter case. -/
theorem hexPairs_eq_some_iff {text bytes : List UInt8}
    (even : text.length % 2 = 0) :
    hexPairs text = some bytes ↔ text.map lowerByte = hexEncode bytes := by
  induction text using hexPairs.induct generalizing bytes with
  | case1 hi lo rest induction =>
      have shorter : rest.length % 2 = 0 := by
        rw [List.length_cons, List.length_cons] at even
        omega
      unfold hexPairs
      simp only [Option.bind_eq_bind, Option.bind_eq_some_iff,
        Option.pure_def, Option.some.injEq, List.map_cons]
      constructor
      · rintro ⟨high, isHigh, low, isLow, others, decoded, rfl⟩
        have highSmall := hexDigit_small isHigh
        have lowSmall := hexDigit_small isLow
        obtain ⟨front, back⟩ := halves highSmall lowSmall
        rw [(hexDigit_eq_some_iff highSmall).mp isHigh,
          (hexDigit_eq_some_iff lowSmall).mp isLow,
          (induction shorter).mp decoded, hexEncode_cons, front, back]
      · intro same
        cases bytes with
        | nil => cases same
        | cons byte bytes =>
            obtain ⟨highSmall, lowSmall, whole⟩ := nibbles byte
            obtain ⟨isHigh, behind⟩ := List.cons.inj same
            obtain ⟨isLow, others⟩ := List.cons.inj behind
            exact ⟨_, (hexDigit_eq_some_iff highSmall).mpr isHigh, _,
              (hexDigit_eq_some_iff lowSmall).mpr isLow, bytes,
              (induction shorter).mpr others, by rw [whole]⟩
  | case2 text short =>
      rcases text with _ | ⟨first, _ | ⟨second, rest⟩⟩
      · cases bytes with
        | nil => exact ⟨fun _ => rfl, fun _ => rfl⟩
        | cons byte bytes => exact ⟨nofun, nofun⟩
      · cases even
      · exact absurd rfl (short first second rest)

theorem length_hexEncode (bytes : List UInt8) :
    (hexEncode bytes).length = 2 * bytes.length := by
  induction bytes with
  | nil => rfl
  | cons byte bytes induction =>
      rw [hexEncode_cons, List.length_cons, List.length_cons, induction,
        List.length_cons]
      omega

theorem hexDecode_eq_some_iff {text bytes : List UInt8} :
    hexDecode text = some bytes ↔ text.map lowerByte = hexEncode bytes := by
  unfold hexDecode
  by_cases even : text.length % 2 = 0
  · rw [if_pos even]
    exact hexPairs_eq_some_iff even
  · rw [if_neg even]
    refine ⟨nofun, fun same => ?_⟩
    have length := congrArg List.length same
    rw [List.length_map, length_hexEncode] at length
    omega

/-- A hex form holds digits only. -/
theorem hexDigit_of_mem
    {text bytes : List UInt8}
    (hex : text.map lowerByte = hexEncode bytes)
    {byte : UInt8}
    (member : byte ∈ text) :
    (hexDigit byte).isSome = true := by
  have low : lowerByte byte ∈ hexEncode bytes :=
    hex ▸ List.mem_map_of_mem member
  obtain ⟨whole, _, half⟩ := List.mem_flatMap.mp low
  obtain ⟨highSmall, lowSmall, _⟩ := nibbles whole
  simp only [List.mem_cons, List.not_mem_nil, or_false] at half
  rcases half with half | half
  · rw [(hexDigit_eq_some_iff highSmall).mpr half]
    rfl
  · rw [(hexDigit_eq_some_iff lowSmall).mpr half]
    rfl

theorem isVisible_of_hexDigit {byte : UInt8}
    (digit : (hexDigit byte).isSome = true) : isVisible byte = true := by
  have within {low high : UInt8} (between : low ≤ byte ∧ byte ≤ high)
      (above : 32 ≤ low) (below : high < 127) : isVisible byte = true := by
    have first : 32 ≤ byte := UInt8.le_trans above between.1
    have last : byte < 127 := UInt8.lt_of_le_of_lt between.2 below
    simp [isVisible, first, last]
  unfold hexDigit at digit
  split at digit
  · exact within ‹_› (by decide) (by decide)
  · split at digit
    · exact within ‹_› (by decide) (by decide)
    · split at digit
      · exact within ‹_› (by decide) (by decide)
      · cases digit

/-! ## Equal bytes -/

theorem constantTimeEq_iff {a b : List UInt8} :
    constantTimeEq a b = true ↔ a = b := by
  have loop (pairs : List (UInt8 × UInt8)) (start : UInt8) :
      pairs.foldl (fun acc pair => acc ||| (pair.1 ^^^ pair.2)) start = 0 ↔
        start = 0 ∧ ∀ pair ∈ pairs, pair.1 = pair.2 := by
    induction pairs generalizing start with
    | nil => simp
    | cons pair pairs induction =>
        rw [List.foldl_cons, induction, UInt8.or_eq_zero_iff,
          UInt8.xor_eq_zero_iff, List.forall_mem_cons, and_assoc]
  have zipped (a b : List UInt8) (length : a.length = b.length) :
      (∀ pair ∈ a.zip b, pair.1 = pair.2) ↔ a = b := by
    induction a generalizing b with
    | nil =>
        rw [List.eq_nil_of_length_eq_zero length.symm]
        simp
    | cons first a induction =>
        cases b with
        | nil => cases length
        | cons second b =>
            rw [List.zip_cons_cons, List.forall_mem_cons,
              induction b (Nat.succ.inj length), List.cons.injEq]
  unfold constantTimeEq
  by_cases length : a.length = b.length
  · rw [if_neg (not_not.mpr length), beq_iff_eq, loop, zipped a b length]
    exact and_iff_right rfl
  · rw [if_pos length]
    exact ⟨nofun, fun same => absurd (congrArg List.length same) length⟩

/-! ## What a request has to show -/

theorem stripBytes_eq_some_iff {front text rest : List UInt8} :
    stripBytes front text = some rest ↔ text = front ++ rest := by
  unfold stripBytes
  by_cases isFront : front.isPrefixOf text
  · rw [if_pos isFront, Option.some.injEq]
    obtain ⟨behind, rfl⟩ := List.isPrefixOf_iff_prefix.mp isFront
    rw [List.drop_left, List.append_cancel_left_eq]
  · rw [if_neg isFront]
    refine ⟨nofun, fun same => absurd ?_ isFront⟩
    exact List.isPrefixOf_iff_prefix.mpr ⟨rest, same.symm⟩

theorem HeaderValue.toStr_eq_some_iff {value : HeaderValue}
    {text : List UInt8} :
    value.toStr = some text ↔
      value.bytes.all isVisible = true ∧ value.bytes = text := by
  unfold HeaderValue.toStr
  split
  case isTrue visible => simp [visible]
  case isFalse hidden => simp [hidden]

section Requests

variable (serverEnv : String → Option String)
  (hmacSha256 : (key message : List UInt8) → List UInt8)

/-- The value shows the token. -/
def ShowsToken
    (token : String)
    (value : HeaderValue) :
    Prop :=
  value.bytes = bytesOf "Bearer " ++ bytesOf token

/-- The value is the tag in hex, in either letter case. -/
def ShowsTag
    (tag : List UInt8)
    (value : HeaderValue) :
    Prop :=
  ∃ text, text.map lowerByte = hexEncode tag ∧
    (value.bytes = text ∨ value.bytes = bytesOf "sha256=" ++ text)

/-- A request that is to pass. -/
def Legitimate
    (headers : HeaderMap)
    (body : List UInt8) :
    HookAuthConfig → Prop
  | .none => True
  | .bearer token =>
      ∃ known, resolveEnvRef serverEnv token = some known ∧ known ≠ "" ∧
        ∃ value, headers.get "authorization" = some value ∧
          ShowsToken known value
  | .hmac header _ secret =>
      ∃ known, resolveEnvRef serverEnv secret = some known ∧ known ≠ "" ∧
        ∃ value, headers.get header = some value ∧
          ShowsTag (hmacSha256 (bytesOf known) body) value

/-- Exactly the legitimate requests pass. -/
def NeverOpen
    (auth : HookAuthConfig) :
    Prop :=
  ∀ headers body,
    verify serverEnv hmacSha256 (some auth) headers body = .ok ↔
      Legitimate serverEnv hmacSha256 headers body auth

/-- A token that a header can carry is one that `to_str` reads. -/
def Readable
    (token : String) :
    Prop :=
  (bytesOf token).all isHeaderByte = true →
    (bytesOf token).all isVisible = true

/-- What the variables have to hold. -/
def Guarded : HookAuthConfig → Prop
  | .none => True
  | .bearer token =>
      ∀ known, resolveEnvRef serverEnv token = some known →
        known ≠ "" ∧ Readable known
  | .hmac header _ secret =>
      ∀ known, resolveEnvRef serverEnv secret = some known →
        known ≠ "" ∨ headerName? header = none

theorem verifyBearer_eq_ok_iff
    (token : String)
    (headers : HeaderMap) :
    verifyBearer serverEnv token headers = .ok ↔
      ∃ known, resolveEnvRef serverEnv token = some known ∧
        ∃ value, headers.get "authorization" = some value ∧
          value.bytes.all isVisible = true ∧ ShowsToken known value := by
  unfold verifyBearer
  cases resolveEnvRef serverEnv token with
  | none => simp
  | some known =>
      cases headers.get "authorization" with
      | none => simp
      | some value =>
          simp only [Option.some.injEq, exists_eq_left', ShowsToken]
          cases read : value.toStr with
          | none =>
              refine ⟨nofun, fun ⟨visible, _⟩ => ?_⟩
              rw [HeaderValue.toStr_eq_some_iff.mpr ⟨visible, rfl⟩] at read
              cases read
          | some text =>
              obtain ⟨visible, rfl⟩ :=
                HeaderValue.toStr_eq_some_iff.mp read
              rw [← stripBytes_eq_some_iff]
              simp only [visible, true_and]
              cases stripBytes (bytesOf "Bearer ") value.bytes with
              | none => exact ⟨nofun, nofun⟩
              | some provided =>
                  simp only [Option.some.injEq]
                  rw [eq_comm (a := provided), ← constantTimeEq_iff]
                  by_cases same :
                      constantTimeEq (bytesOf known) provided = true
                  · simp [same]
                  · simp [same]

/-- What shows a tag can be read, and the front is taken off it once. -/
theorem showsTag_iff
    (tag : List UInt8)
    (value : HeaderValue) :
    ShowsTag tag value ↔
      value.bytes.all isVisible = true ∧
        ((stripBytes (bytesOf "sha256=") value.bytes).getD
          value.bytes).map lowerByte = hexEncode tag := by
  constructor
  · rintro ⟨text, hex, shown⟩
    have readable : ∀ byte ∈ text, isVisible byte = true :=
      fun _ member => isVisible_of_hexDigit (hexDigit_of_mem hex member)
    rcases shown with shown | shown
    · rw [shown]
      refine ⟨List.all_eq_true.mpr readable, ?_⟩
      cases stripped : stripBytes (bytesOf "sha256=") text with
      | none => exact hex
      | some rest =>
          -- the front starts with a letter that is no digit
          have start : (115 : UInt8) ∈ text := by
            rw [stripBytes_eq_some_iff.mp stripped]
            exact List.mem_append_left _ (by decide)
          exact absurd (hexDigit_of_mem hex start) (by decide)
    · have stripped := stripBytes_eq_some_iff.mpr shown
      rw [stripped, shown, List.all_append, Bool.and_eq_true]
      exact ⟨⟨by decide, List.all_eq_true.mpr readable⟩, hex⟩
  · rintro ⟨_, hex⟩
    cases stripped : stripBytes (bytesOf "sha256=") value.bytes with
    | none =>
        rw [stripped] at hex
        exact ⟨value.bytes, hex, Or.inl rfl⟩
    | some rest =>
        rw [stripped] at hex
        exact ⟨rest, hex, Or.inr (stripBytes_eq_some_iff.mp stripped)⟩

theorem verifyHmac_eq_ok_iff
    (header : String)
    (algorithm : HmacAlgorithm)
    (secret : String)
    (headers : HeaderMap)
    (body : List UInt8) :
    verifyHmac serverEnv hmacSha256 header algorithm secret headers body =
        .ok ↔
      ∃ known, resolveEnvRef serverEnv secret = some known ∧
        ∃ value, headers.get header = some value ∧
          ShowsTag (hmacSha256 (bytesOf known) body) value := by
  unfold verifyHmac
  cases resolveEnvRef serverEnv secret with
  | none => simp
  | some known =>
      cases headers.get header with
      | none => simp
      | some value =>
          simp only [Option.some.injEq, exists_eq_left', showsTag_iff]
          cases read : value.toStr with
          | none =>
              refine ⟨nofun, fun ⟨visible, _⟩ => ?_⟩
              rw [HeaderValue.toStr_eq_some_iff.mpr ⟨visible, rfl⟩] at read
              cases read
          | some text =>
              obtain ⟨visible, rfl⟩ :=
                HeaderValue.toStr_eq_some_iff.mp read
              cases algorithm
              simp only [visible, true_and, ← hexDecode_eq_some_iff]
              cases hexDecode ((stripBytes (bytesOf "sha256=")
                value.bytes).getD value.bytes) with
              | none => exact ⟨nofun, nofun⟩
              | some signature =>
                  simp only [Option.some.injEq]
                  split
                  case isTrue same => exact ⟨fun _ => same, fun _ => rfl⟩
                  case isFalse other =>
                    exact ⟨nofun, fun same => absurd same other⟩

/-! ## Requests that show what they are to show -/

theorem isHeaderByte_of_isVisible {byte : UInt8}
    (visible : isVisible byte = true) : isHeaderByte byte = true := by
  simp only [isVisible, isHeaderByte, Bool.or_eq_true, Bool.and_eq_true,
    decide_eq_true_eq, beq_iff_eq, bne_iff_ne] at visible ⊢
  rcases visible with ⟨first, last⟩ | tab
  · exact .inl ⟨first, UInt8.ne_of_lt last⟩
  · exact .inr tab

theorem map_lowerByte_hexEncode (bytes : List UInt8) :
    (hexEncode bytes).map lowerByte = hexEncode bytes := by
  have digits (value : UInt8) (small : value < 16) :
      lowerByte (digitOf value) = digitOf value :=
    forall_nibble (fun value => lowerByte (digitOf value) = digitOf value)
      (by decide) small
  induction bytes with
  | nil => rfl
  | cons byte bytes induction =>
      obtain ⟨highSmall, lowSmall, _⟩ := nibbles byte
      rw [hexEncode_cons, List.map_cons, List.map_cons, induction,
        digits _ highSmall, digits _ lowSmall]

/-- A request with one header. -/
theorem exists_headers
    {name key : String}
    (named : headerName? name = some key)
    {bytes : List UInt8}
    (valid : bytes.all isHeaderByte = true) :
    ∃ headers : HeaderMap, ∃ value,
      headers.get name = some value ∧ value.bytes = bytes := by
  let value : HeaderValue := ⟨bytes, List.all_eq_true.mp valid⟩
  refine ⟨[(key, value)], value, ?_, rfl⟩
  unfold HeaderMap.get
  rw [named, Option.bind_some]
  exact List.lookup_cons_self

theorem headerName?_authorization :
    headerName? "authorization" = some "authorization" := by
  decide +kernel

theorem neverOpen_bearer_iff
    (token : String) :
    NeverOpen serverEnv hmacSha256 (.bearer token) ↔
      Guarded serverEnv (.bearer token) := by
  have carried (known : String)
      (valid : (bytesOf known).all isHeaderByte = true) :
      ∃ headers : HeaderMap, ∃ value,
        headers.get "authorization" = some value ∧
          ShowsToken known value := by
    refine exists_headers headerName?_authorization ?_
    rw [List.all_append, Bool.and_eq_true]
    exact ⟨by decide, valid⟩
  constructor
  · intro closed known resolved
    have passes := fun headers =>
      ((verifyBearer_eq_ok_iff serverEnv token headers).symm.trans
        (closed headers []))
    constructor
    · intro empty
      obtain ⟨headers, value, first, shown⟩ := carried known (by
        rw [empty]
        decide)
      have visible : value.bytes.all isVisible = true := by
        rw [shown, empty]
        decide
      obtain ⟨other, again, nonempty, _⟩ := (passes headers).mp
        ⟨known, resolved, value, first, visible, shown⟩
      rw [resolved] at again
      cases again
      exact nonempty empty
    · intro valid
      obtain ⟨headers, value, first, shown⟩ := carried known valid
      by_cases nonempty : known = ""
      · rw [nonempty]
        decide
      obtain ⟨other, again, read, found, visible, _⟩ :=
        (passes headers).mpr
          ⟨known, resolved, nonempty, value, first, shown⟩
      rw [first] at found
      cases found
      rw [shown, List.all_append, Bool.and_eq_true] at visible
      exact visible.2
  · intro guarded headers body
    refine (verifyBearer_eq_ok_iff serverEnv token headers).trans ?_
    constructor
    · rintro ⟨known, resolved, value, first, _, shown⟩
      exact ⟨known, resolved, (guarded known resolved).1, value, first,
        shown⟩
    · rintro ⟨known, resolved, _, value, first, shown⟩
      refine ⟨known, resolved, value, first, ?_, shown⟩
      have valid := List.all_eq_true.mpr value.valid
      rw [shown, List.all_append, Bool.and_eq_true] at valid ⊢
      exact ⟨by decide, (guarded known resolved).2 valid.2⟩

theorem neverOpen_hmac_iff
    (header : String)
    (algorithm : HmacAlgorithm)
    (secret : String) :
    NeverOpen serverEnv hmacSha256 (.hmac header algorithm secret) ↔
      Guarded serverEnv (.hmac header algorithm secret) := by
  have passes := verifyHmac_eq_ok_iff serverEnv hmacSha256 header algorithm
    secret
  constructor
  · intro closed known resolved
    cases named : headerName? header with
    | none => exact Or.inr rfl
    | some key =>
        refine Or.inl fun empty => ?_
        let tag := hmacSha256 (bytesOf known) []
        have hex := map_lowerByte_hexEncode tag
        have valid : (hexEncode tag).all isHeaderByte = true := by
          refine List.all_eq_true.mpr fun byte member => ?_
          exact isHeaderByte_of_isVisible
            (isVisible_of_hexDigit (hexDigit_of_mem hex member))
        obtain ⟨headers, value, first, written⟩ :=
          exists_headers named valid
        have accepted := (passes headers []).mpr
          ⟨known, resolved, value, first, _, hex, Or.inl written⟩
        obtain ⟨other, again, nonempty, _⟩ :=
          (closed headers []).mp accepted
        rw [resolved] at again
        cases again
        exact nonempty empty
  · intro guarded headers body
    refine (passes headers body).trans ?_
    constructor
    · rintro ⟨known, resolved, value, first, shown⟩
      refine ⟨known, resolved, ?_, value, first, shown⟩
      rcases guarded known resolved with nonempty | unnamed
      · exact nonempty
      · unfold HeaderMap.get at first
        rw [unnamed] at first
        cases first
    · rintro ⟨known, resolved, _, value, first, shown⟩
      exact ⟨known, resolved, value, first, shown⟩

/-- The webhook is closed to all others as long as no variable is empty and
no header can carry a token that is not read. -/
theorem neverOpen_iff
    (auth : HookAuthConfig) :
    NeverOpen serverEnv hmacSha256 auth ↔ Guarded serverEnv auth := by
  cases auth with
  | none =>
      exact iff_of_true (fun _ _ => iff_of_true rfl trivial) trivial
  | bearer token =>
      exact neverOpen_bearer_iff serverEnv hmacSha256 token
  | hmac header algorithm secret =>
      exact neverOpen_hmac_iff serverEnv hmacSha256 header algorithm secret

end Requests

/-- A variable that is set to nothing opens a webhook that the validation
accepts. -/
theorem not_neverOpen :
    ¬ ∀ (serverEnv : String → Option String)
        (hmacSha256 : (key message : List UInt8) → List UInt8)
        (place : String)
        (auth : HookAuthConfig),
      auth.errors place = [] →
        NeverOpen serverEnv hmacSha256 auth := by
  intro all
  have closed := all (fun _ => some "") (fun _ _ => []) "hooks[0]"
    (.bearer "$\x7bTOKEN\x7d") (by decide)
  let empty : HeaderValue :=
    ⟨bytesOf "Bearer ", List.all_eq_true.mp (by decide)⟩
  have opened : verify (fun _ => some "") (fun _ _ => [])
      (some (.bearer "$\x7bTOKEN\x7d")) [("authorization", empty)] [] =
        .ok := by
    decide +kernel
  obtain ⟨known, resolved, nonempty, _⟩ := (closed _ _).mp opened
  have isEmpty : some "" = some known := by
    rw [← resolved]
    decide +kernel
  exact nonempty (Option.some.inj isEmpty).symm

end WebhookAuth

end Sendword
