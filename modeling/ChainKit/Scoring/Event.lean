import ChainKit.Config

/-! The events that the provider manager sends to a scoring engine, and the part of the
engine that the manager calls. -/
namespace ChainKit

inductive ScoreEventType
  | healthCheckFailed
  | healthCheck429
  | healthCheckAuthFail
  | healthCheckTimeout
  | operationFailed
  | operationAuthFail
  | operationSuccess
  | slowResponse
  | rateLimited
  deriving DecidableEq, Repr

/-- Call-site metadata from the context. A Go map is a partial function of its keys. -/
structure OperationMetadata where
  operation : String
  address : String
  network : String
  touchpoint : String
  extra : String → Option String

/-- The map written into the event, lines 705-713 of `recordFailureWithError`: an extra
key replaces a fixed one of the same name. -/
def OperationMetadata.toMap (m : OperationMetadata) (key : String) : Option String :=
  match m.extra key with
  | some value => some value
  | none =>
    if key = "operation" then some m.operation
    else if key = "address" then some m.address
    else if key = "network" then some m.network
    else if key = "touchpoint" then some m.touchpoint
    else none

structure ScoreEvent where
  type : ScoreEventType
  provider : String
  timestamp : ℤ
  responseTime : ℤ := 0
  error : Option GoError := none
  metadata : String → Option String := fun _ => none

/-- `findSubstring`: the substring starts at one of the positions where it fits. -/
def findSubstring (s substr : List Char) : Bool :=
  (List.range (s.length+1-substr.length)).any (fun i => (s.drop i).take substr.length == substr)

/-- `contains`, which compares characters as they are. -/
def contains (s substr : String) : Bool :=
  decide (substr.toList.length ≤ s.toList.length) &&
    (s == substr || decide (substr.toList.length < s.toList.length) &&
      findSubstring s.toList substr.toList)

def authFailureIndicators : List String :=
  ["authentication failed","unauthorized","invalid client","invalid credentials","access denied",
    "not found in the allow list","api key","invalid api key","missing api key","forbidden",
    "HTTP 401","HTTP 403"]

def rateLimitIndicators : List String :=
  ["rate limit","too many requests","429","quota exceeded","throttled"]

def containsAuthFailureIndicator (errMsg : String) : Bool :=
  authFailureIndicators.any (contains errMsg)

def containsRateLimitIndicator (errMsg : String) : Bool :=
  rateLimitIndicators.any (contains errMsg)

/-- `ClassifyOperationEvent`; the manager sets the timestamp afterwards. -/
def classifyOperationEvent (providerName : String) (responseTime : ℤ)
    (err : Option GoError) (timestamp : ℤ) : ScoreEvent where
  provider := providerName
  timestamp := timestamp
  responseTime := responseTime
  error := err
  type := match err with
    | none => .operationSuccess
    | some e =>
      if containsAuthFailureIndicator e.error then .operationAuthFail
      else if containsRateLimitIndicator e.error then .rateLimited
      else .operationFailed

/-- The calls that a provider manager makes on a `*scoring.Engine`. -/
class ScoringEngine (ε : Type) where
  registerProvider : ε → String → ℤ → ε
  recordEvent : ε → ScoreEvent → ε
  getEffectiveScore : ε → String → ℚ

/-- The engine type of a manager without adaptive scoring. -/
instance : ScoringEngine Unit where
  registerProvider _ _ _ := ()
  recordEvent _ _ := ()
  getEffectiveScore _ _ := 0

end ChainKit
