import Sendword.Config

/-!
# Webhook authentication

`webhook_auth::verify` on a header map.  Texts are their bytes here: a header
that can be read as a text is all ASCII.
-/

namespace Sendword

namespace WebhookAuth

inductive AuthResult where
  | ok
  | denied (reason : String)
  deriving DecidableEq, Repr

/-- The bytes of a text. -/
def bytesOf (text : String) : List UInt8 := text.toUTF8.data.toList

/-! ## Headers -/

/-- `HeaderValue`: visible bytes, blanks and tabs, and any from 128 on. -/
def isHeaderByte (byte : UInt8) : Bool :=
  (32 ≤ byte && byte != 127) || byte == 9

/-- The bytes that `HeaderValue::to_str` takes. -/
def isVisible (byte : UInt8) : Bool :=
  (32 ≤ byte && byte < 127) || byte == 9

/-- The characters of a header name. -/
def isNameChar (char : Char) : Bool :=
  char.isAlphanum || char ∈ "!#$%&'*+-.^_|~".toList || char.toNat == 96

/-- `HeaderName` from a text: its lower-case form. -/
def headerName? (text : String) : Option String :=
  if text.toList ≠ [] ∧ text.toList.length < 65536 ∧
      text.toList.all isNameChar then
    some text.toLower
  else none

structure HeaderValue where
  bytes : List UInt8
  valid : ∀ byte ∈ bytes, isHeaderByte byte = true

/-- The entries of a `HeaderMap`, each under its lower-case name. -/
abbrev HeaderMap := List (String × HeaderValue)

/-- The first value of a name. -/
def HeaderMap.get (headers : HeaderMap) (name : String) :
    Option HeaderValue :=
  (headerName? name).bind fun key => headers.lookup key

def HeaderValue.toStr (value : HeaderValue) : Option (List UInt8) :=
  if value.bytes.all isVisible then some value.bytes else none

/-- `strip_prefix`. -/
def stripBytes (front text : List UInt8) : Option (List UInt8) :=
  if front.isPrefixOf text then some (text.drop front.length) else none

/-! ## Hex -/

def hexDigit (byte : UInt8) : Option UInt8 :=
  if 48 ≤ byte ∧ byte ≤ 57 then some (byte - 48)
  else if 97 ≤ byte ∧ byte ≤ 102 then some (byte - 97 + 10)
  else if 65 ≤ byte ∧ byte ≤ 70 then some (byte - 65 + 10)
  else none

/-- The loop over the pairs of digits. -/
def hexPairs : List UInt8 → Option (List UInt8)
  | hi :: lo :: rest => do
      let hi ← hexDigit hi
      let lo ← hexDigit lo
      let bytes ← hexPairs rest
      return (hi <<< 4 ||| lo) :: bytes
  | _ => some []

/-- Decode a hex string into bytes. -/
def hexDecode (hex : List UInt8) : Option (List UInt8) :=
  if hex.length % 2 = 0 then hexPairs hex else none

/-- The lower-case digit of a value below 16. -/
def digitOf (value : UInt8) : UInt8 :=
  if value < 10 then 48 + value else 87 + value

/-- Encode bytes as lowercase hex string. -/
def hexEncode (bytes : List UInt8) : List UInt8 :=
  bytes.flatMap fun (byte : UInt8) =>
    [digitOf (byte >>> 4), digitOf (byte &&& 15)]

/-- An ASCII letter in lower case. -/
def lowerByte (byte : UInt8) : UInt8 :=
  if 65 ≤ byte ∧ byte ≤ 90 then byte + 32 else byte

/-- Constant-time byte slice equality comparison. -/
def constantTimeEq (a b : List UInt8) : Bool :=
  if a.length ≠ b.length then false
  else (a.zip b).foldl (fun acc (x, y) => acc ||| (x ^^^ y)) 0 == 0

/-! ## The checks -/

variable (serverEnv : String → Option String)
  (hmacSha256 : (key message : List UInt8) → List UInt8)

/-- Resolve a config value that may be an env var reference. -/
def resolveEnvRef (value : String) : Option String :=
  match value.toList with
  | '$' :: '{' :: rest =>
      if rest.getLast? = some '}' then
        serverEnv (String.ofList rest.dropLast)
      else some value
  | _ => some value

def verifyBearer (token : String) (headers : HeaderMap) : AuthResult :=
  match resolveEnvRef serverEnv token with
  | none => .denied "server misconfiguration: token env var not set"
  | some expected =>
      match headers.get "authorization" with
      | none => .denied "missing Authorization header"
      | some value =>
          match value.toStr with
          | none => .denied "invalid Authorization header encoding"
          | some text =>
              match stripBytes (bytesOf "Bearer ") text with
              | none => .denied "Authorization header is not Bearer scheme"
              | some provided =>
                  if constantTimeEq (bytesOf expected) provided then .ok
                  else .denied "bearer token mismatch"

/-- The tag is compared by `ring`, which takes exactly the true one. -/
def verifyHmac (header : String) (algorithm : HmacAlgorithm)
    (secret : String) (headers : HeaderMap) (body : List UInt8) :
    AuthResult :=
  match resolveEnvRef serverEnv secret with
  | none => .denied "server misconfiguration: HMAC secret env var not set"
  | some secret =>
      match headers.get header with
      | none => .denied s!"missing signature header: {header}"
      | some value =>
          match value.toStr with
          | none => .denied "invalid signature header encoding"
          | some text =>
              let hexSig := match algorithm with
                | .sha256 => (stripBytes (bytesOf "sha256=") text).getD text
              match hexDecode hexSig with
              | none => .denied "invalid hex in signature header"
              | some signature =>
                  if signature = hmacSha256 (bytesOf secret) body then .ok
                  else .denied "HMAC signature mismatch"

/-- Verify a webhook request against the hook's auth config. -/
def verify (auth : Option HookAuthConfig) (headers : HeaderMap)
    (body : List UInt8) : AuthResult :=
  match auth with
  | none
  | some .none => .ok
  | some (.bearer token) => verifyBearer serverEnv token headers
  | some (.hmac header algorithm secret) =>
      verifyHmac serverEnv hmacSha256 header algorithm secret headers body

end WebhookAuth

end Sendword
