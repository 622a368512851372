import ChainKit.Lib.Rearrange
import ChainKit.Scoring.Event

/-! The scoring engine: one score for each provider name, lowered by penalties, and the
response times by which the providers are compared with each other. The floats of the source
are rationals here; a standard deviation is rounded down to whole nanoseconds as there. -/
namespace ChainKit

structure ScoringConfig where
  healthCheckFailPenalty : ℚ
  rateLimitPenalty : ℚ
  authFailurePenalty : ℚ
  slowResponsePenalty : ℚ
  operationFailPenalty : ℚ
  timeoutPenalty : ℚ
  successBonus : ℚ
  decayInterval : ℤ
  decayRate : ℚ
  maxPenalty : ℚ
  latencyWindowSize : ℤ
  slowThresholdStdDev : ℚ
  minSamplesForLatencyComparison : ℤ
  enabled : Bool
  deriving DecidableEq

def defaultScoringConfig : ScoringConfig where
  healthCheckFailPenalty := 5
  rateLimitPenalty := 20
  authFailurePenalty := 50
  slowResponsePenalty := 2
  operationFailPenalty := 3
  timeoutPenalty := 10
  successBonus := 1/2
  decayInterval := Duration.minute
  decayRate := 1/10
  maxPenalty := 90
  latencyWindowSize := 100
  slowThresholdStdDev := 1
  minSamplesForLatencyComparison := 10
  enabled := true

/-- `Validate`, which repairs three fields and never fails. -/
def ScoringConfig.validate (c : ScoringConfig) : ScoringConfig :=
  { c with
    decayRate := if c.decayRate < 0 ∨ 1 < c.decayRate then 1/10 else c.decayRate
    latencyWindowSize := if c.latencyWindowSize < 10 then 10 else c.latencyWindowSize
    decayInterval := if c.decayInterval < 0 then Duration.minute else c.decayInterval }

/-- Append a sample; above the window size the oldest one goes. -/
def pushSample (windowSize : ℤ) (samples : List ℤ) (sample : ℤ) : List ℤ :=
  let samples := samples ++ [sample]
  if windowSize < samples.length then samples.drop 1 else samples

structure ProviderScore where
  priority : ℤ
  baseScore : ℚ
  healthPenalty : ℚ
  latencyPenalty : ℚ
  errorPenalty : ℚ
  rateLimitPenalty : ℚ
  totalOperations : ℕ
  successfulOps : ℕ
  failedOps : ℕ
  recentLatencies : List ℤ
  latencyWindowSize : ℤ

/-- The base score of a priority: 100 for the first, ten less for each further one, down to 10. -/
def baseScore (priority : ℤ) : ℚ :=
  let score : ℚ := 110-priority*10
  if score < 10 then 10 else score

def newProviderScore (priority latencyWindowSize : ℤ) : ProviderScore where
  priority := priority
  baseScore := baseScore priority
  healthPenalty := 0
  latencyPenalty := 0
  errorPenalty := 0
  rateLimitPenalty := 0
  totalOperations := 0
  successfulOps := 0
  failedOps := 0
  recentLatencies := []
  latencyWindowSize := latencyWindowSize

/-- A penalty category grows up to the maximum. -/
def addPenalty (maxPenalty current penalty : ℚ) : ℚ :=
  if maxPenalty < current+penalty then maxPenalty else current+penalty

/-- A success takes its bonus off the error penalty. -/
def applyBonus (successBonus current : ℚ) : ℚ :=
  if 0 < successBonus then
    if current-successBonus < 0 then 0 else current-successBonus
  else current

namespace ProviderScore

def effectiveScore (ps : ProviderScore) : ℚ :=
  let score :=
    ps.baseScore-ps.healthPenalty-ps.latencyPenalty-ps.errorPenalty-ps.rateLimitPenalty
  if score < 0 then 0 else score

def addHealthPenalty (ps : ProviderScore) (penalty maxPenalty : ℚ) : ProviderScore :=
  { ps with healthPenalty := addPenalty maxPenalty ps.healthPenalty penalty }

def addRateLimitPenalty (ps : ProviderScore) (penalty maxPenalty : ℚ) : ProviderScore :=
  { ps with rateLimitPenalty := addPenalty maxPenalty ps.rateLimitPenalty penalty }

/-- `AddErrorPenalty`, the only penalty that counts an operation. -/
def addErrorPenalty (ps : ProviderScore) (penalty maxPenalty : ℚ) : ProviderScore :=
  { ps with
    errorPenalty := addPenalty maxPenalty ps.errorPenalty penalty
    failedOps := ps.failedOps+1
    totalOperations := ps.totalOperations+1 }

def recordSuccess (ps : ProviderScore) (successBonus : ℚ) : ProviderScore :=
  { ps with
    errorPenalty := applyBonus successBonus ps.errorPenalty
    successfulOps := ps.successfulOps+1
    totalOperations := ps.totalOperations+1 }

def recordLatency (ps : ProviderScore) (latency : ℤ) : ProviderScore :=
  { ps with recentLatencies := pushSample ps.latencyWindowSize ps.recentLatencies latency }

def updateLatencyPenalty (ps : ProviderScore) (slownessFactor penaltyPerStdDev : ℚ) :
    ProviderScore :=
  let penalty := slownessFactor*penaltyPerStdDev
  { ps with latencyPenalty := if penalty < 0 then 0 else penalty }

end ProviderScore

/-- The fields of `LatencyStats` that the engine compares. -/
structure LatencyStats where
  mean : ℤ := 0
  stdDev : ℤ := 0
  sampleCount : ℕ := 0

/-- `calculateStats`: the mean is rounded towards zero and the root of the variance down. -/
def calculateStats (samples : List ℤ) : LatencyStats :=
  if samples = [] then {} else
    let mean := samples.sum.tdiv samples.length
    { mean := mean
      stdDev := Nat.sqrt ((samples.map (fun s => (s-mean).natAbs^2)).sum/samples.length)
      sampleCount := samples.length }

/-- The samples of each provider, in the order in which the providers were first seen. -/
structure LatencyTracker where
  samples : List (String × List ℤ)
  windowSize : ℤ

namespace LatencyTracker

/-- `NewLatencyTracker`. -/
def new (windowSize : ℤ) : LatencyTracker where
  samples := []
  windowSize := if windowSize ≤ 0 then 100 else windowSize

def providerSamples (lt : LatencyTracker) (provider : String) : List ℤ :=
  (lt.samples.lookup provider).getD []

def recordLatency (lt : LatencyTracker) (provider : String) (latency : ℤ) : LatencyTracker :=
  { lt with
    samples := if (lt.samples.lookup provider).isSome then
        lt.samples.map (fun s =>
          if s.1 = provider then (s.1,pushSample lt.windowSize s.2 latency) else s)
      else lt.samples ++ [(provider,pushSample lt.windowSize [] latency)] }

/-- `GetGlobalStats`, over the samples of all providers. -/
def getGlobalStats (lt : LatencyTracker) : LatencyStats :=
  calculateStats (lt.samples.flatMap Prod.snd)

/-- `GetProviderSlownessFactor`: the distance from the mean in standard deviations. -/
def getProviderSlownessFactor (lt : LatencyTracker) (provider : String) : ℚ :=
  let samples := lt.providerSamples provider
  let globalStats := lt.getGlobalStats
  if samples = [] then 0
  else if globalStats.stdDev = 0 then 0
  else ((samples.sum.tdiv samples.length-globalStats.mean : ℤ) : ℚ)/globalStats.stdDev

end LatencyTracker

structure Engine where
  config : ScoringConfig
  scores : String → Option ProviderScore
  latencyTracker : LatencyTracker

namespace Engine

/-- `NewEngine` without a store, for the configuration that the options leave. -/
def new (config : ScoringConfig) : Engine where
  config := config.validate
  scores := fun _ => none
  latencyTracker := .new config.validate.latencyWindowSize

/-- `RegisterProvider`: a name that is known keeps its score and its first priority. -/
def registerProvider (e : Engine) (name : String) (priority : ℤ) : Engine :=
  match e.scores name with
  | some _ => e
  | none =>
    { e with
      scores := Function.update e.scores name
        (some (newProviderScore priority e.config.latencyWindowSize)) }

def updateScore (e : Engine) (name : String) (f : ProviderScore → ProviderScore) : Engine :=
  { e with scores := Function.update e.scores name ((e.scores name).map f) }

/-- `updateLatencyPenalty`: nothing happens before there are enough samples. -/
def updateLatencyPenalty (e : Engine) (name : String) : Engine :=
  if (e.latencyTracker.getGlobalStats.sampleCount : ℤ) < e.config.minSamplesForLatencyComparison
  then e
  else
    let slownessFactor := e.latencyTracker.getProviderSlownessFactor name
    let excess := if slownessFactor < e.config.slowThresholdStdDev then 0
      else slownessFactor-e.config.slowThresholdStdDev
    e.updateScore name (fun ps => ps.updateLatencyPenalty excess e.config.slowResponsePenalty)

/-- The latency part of `RecordEvent`. -/
def recordLatency (e : Engine) (name : String) (responseTime : ℤ) : Engine :=
  let e := { e with latencyTracker := e.latencyTracker.recordLatency name responseTime }
  (e.updateScore name (fun ps => ps.recordLatency responseTime)).updateLatencyPenalty name

/-- What `RecordEvent` does to the score of the provider by the type of the event. -/
def applyEvent (config : ScoringConfig) (type : ScoreEventType) (ps : ProviderScore) :
    ProviderScore :=
  match type with
  | .healthCheckFailed => ps.addHealthPenalty config.healthCheckFailPenalty config.maxPenalty
  | .healthCheck429 => ps.addRateLimitPenalty config.rateLimitPenalty config.maxPenalty
  | .healthCheckAuthFail => ps.addHealthPenalty config.authFailurePenalty config.maxPenalty
  | .operationAuthFail => ps.addHealthPenalty config.authFailurePenalty config.maxPenalty
  | .healthCheckTimeout => ps.addHealthPenalty config.timeoutPenalty config.maxPenalty
  | .operationFailed => ps.addErrorPenalty config.operationFailPenalty config.maxPenalty
  | .rateLimited => ps.addRateLimitPenalty config.rateLimitPenalty config.maxPenalty
  | .operationSuccess => ps.recordSuccess config.successBonus
  | .slowResponse => ps

/-- `RecordEvent`. A disabled engine and an unknown provider change nothing. -/
def recordEvent (e : Engine) (event : ScoreEvent) : Engine :=
  if e.config.enabled && (e.scores event.provider).isSome then
    let e := if 0 < event.responseTime then e.recordLatency event.provider event.responseTime
      else e
    e.updateScore event.provider (applyEvent e.config event.type)
  else e

def getEffectiveScore (e : Engine) (name : String) : ℚ :=
  match e.scores name with
  | some ps => ps.effectiveScore
  | none => 0

/-- `GetSortedProviders`, where `order` is the one in which the map of the scores is gone
through. An entry without a score is passed over. -/
def getSortedProviders (e : Engine) (order : List String) : List String :=
  let providers := order.filterMap (fun name =>
    (e.scores name).map (fun score => (name,score.effectiveScore)))
  (Lib.exchangeSort (fun p q => decide (p.2 < q.2)) providers).map Prod.fst

end Engine

instance : ScoringEngine Engine where
  registerProvider := Engine.registerProvider
  recordEvent := Engine.recordEvent
  getEffectiveScore := Engine.getEffectiveScore

end ChainKit
