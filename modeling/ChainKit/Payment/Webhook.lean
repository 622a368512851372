import ChainKit.Lib.Text

/-! The signature check of a payment webhook. Texts are byte strings, and the seconds and
durations are 64-bit integers that wrap around as in the source. -/
namespace ChainKit.Payment
open Lib

inductive Malformed
  | noPairs
  | pairWithoutEquals (raw : Bytes)
  | emptyKey (raw : Bytes)
  | missingT
  | tNotInteger
  | v1NotHex
  deriving DecidableEq

/-- The sentinel errors of the package, a malformed header with its detail. -/
inductive WebhookError
  | signatureMissing
  | signatureMalformed (detail : Malformed)
  | signatureUnsupportedScheme
  | signatureMismatch
  | signatureExpired
  deriving DecidableEq

/-- What follows the text of the sentinel; `quote` is the verb `%q`. -/
def Malformed.detail (quote : Bytes → String) : Malformed → String
  | .noPairs => ""
  | .pairWithoutEquals raw => ": pair " ++ quote raw ++ " has no ="
  | .emptyKey raw => ": empty key in " ++ quote raw
  | .missingT => ": missing t="
  | .tNotInteger => ": t= is not an integer"
  | .v1NotHex => ": v1 is not hex"

def WebhookError.error (quote : Bytes → String) : WebhookError → String
  | .signatureMissing => "payment: webhook signature header is empty"
  | .signatureMalformed m => "payment: webhook signature header is malformed" ++ m.detail quote
  | .signatureUnsupportedScheme => "payment: webhook signature scheme not recognised"
  | .signatureMismatch => "payment: webhook signature does not match"
  | .signatureExpired => "payment: webhook signature timestamp outside tolerance window"

/-- The map of a parsed header. -/
abbrev Parts := AList (fun _ : Bytes => Bytes)

/-- One turn of the loop of `parseSignatureHeader`. -/
def parsePair (raw : Bytes) : Except WebhookError (Bytes × Bytes) :=
  match cut 0x3d (trimSpace raw) with
  | none => .error (.signatureMalformed (.pairWithoutEquals raw))
  | some (k,v) =>
    if trimSpace k = [] then .error (.signatureMalformed (.emptyKey raw))
    else .ok (trimSpace k,trimSpace v)

/-- The loop of `parseSignatureHeader`: a key that recurs takes its latest value. -/
def parsePairs : List Bytes → Parts → Except WebhookError Parts
  | [],out => .ok out
  | raw :: rest,out => do
    let (k,v) ← parsePair raw
    parsePairs rest (out.insert k v)

def parseSignatureHeader (header : Bytes) : Except WebhookError Parts := do
  let out ← parsePairs (header.splitOn 0x2c) ∅
  if out.entries = [] then .error (.signatureMalformed .noPairs) else .ok out

/-- `strconv.ParseInt` in base 10 for 64 bits. -/
def parseInt64 (s : Bytes) : Option Int64 :=
  match parseInt s with
  | none => none
  | some n => if -2^63 ≤ n ∧ n < 2^63 then some (Int64.ofInt n) else none

def timestamp (parts : Parts) : Except WebhookError Int64 :=
  match parts.lookup (ascii "t") with
  | none => .error (.signatureMalformed .missingT)
  | some s =>
    match parseInt64 s with
    | none => .error (.signatureMalformed .tNotInteger)
    | some ts => .ok ts

def signature (parts : Parts) : Except WebhookError Bytes :=
  match parts.lookup (ascii "v1") with
  | none => .error .signatureUnsupportedScheme
  | some s =>
    match hexDecode s with
    | none => .error (.signatureMalformed .v1NotHex)
    | some mac => .ok mac

/-- The first part of `VerifyWebhook`: the timestamp and the MAC that a header carries. -/
def readHeader (header : Bytes) : Except WebhookError (Int64 × Bytes) :=
  if trimSpace header = [] then .error .signatureMissing
  else do
    let parts ← parseSignatureHeader header
    let ts ← timestamp parts
    let mac ← signature parts
    .ok (ts,mac)

/-- The message that is signed: the timestamp in decimal digits, a full stop and the body. -/
def signedInput (ts : Int64) (body : Bytes) : Bytes := formatInt ts.toInt ++ 0x2e :: body

structure VerifyWebhookOptions where
  tolerance : Int64 := 0
  now : Option Int64 := none

def defaultTolerance : Int64 := 300000000000

/-- The absolute difference as the code computes it: a subtraction, a negation and a product
with a billion, each in 64 bits. -/
def elapsed (now ts : Int64) : Int64 :=
  let delta := now-ts
  (if delta < 0 then -delta else delta)*1000000000

/-- The last part of `VerifyWebhook`. -/
def checkFresh (o : VerifyWebhookOptions) (wallClock ts : Int64) : Except WebhookError Unit :=
  let tolerance := if o.tolerance = 0 then defaultTolerance else o.tolerance
  if tolerance < elapsed (o.now.getD wallClock) ts then .error .signatureExpired else .ok ()

/-- `VerifyWebhook`. Only the first options count; `hmac` is keyed by the secret. -/
def verifyWebhook (hmac : Bytes → Bytes → Bytes) (wallClock : Int64) (body header secret : Bytes)
    (opts : List VerifyWebhookOptions) : Except WebhookError Unit := do
  let (ts,expected) ← readHeader header
  if expected ≠ hmac secret (signedInput ts body) then .error .signatureMismatch
  else checkFresh (opts.headD {}) wallClock ts

end ChainKit.Payment
