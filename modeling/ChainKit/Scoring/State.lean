import ChainKit.Lib.Keyed
import ChainKit.Scoring.Decay
import ChainKit.Scoring.History
import ChainKit.Scoring.Latency
import ChainKit.Scoring.Store.Penalties

/-! The engine with all that a score consists of: its name, its times and the ring of its
penalties, the cached statistics, and the goroutines that append to the penalty store. Without
these it is the engine that only scores, and every operation of one is that operation of the
other. -/
namespace ChainKit
open Lib

structure FullConfig extends ScoringConfig where
  penaltyHistorySize : ℤ

def FullConfig.validate (c : FullConfig) : FullConfig :=
  { c with toScoringConfig := c.toScoringConfig.validate }

/-- `ProviderScore` as it is; the times are those of the last changes. -/
structure ScoreRecord extends ProviderScore where
  name : String
  lastUpdated : ℤ
  lastHealthCheck : ℤ
  lastOperation : ℤ
  history : PenaltyHistory

/-- `NewProviderScore`. -/
def newScoreRecord (name : String) (priority latencyWindowSize historySize now : ℤ) :
    ScoreRecord where
  toProviderScore := newProviderScore priority latencyWindowSize
  name := name
  lastUpdated := now
  lastHealthCheck := 0
  lastOperation := 0
  history := newPenaltyHistory historySize

namespace ScoreRecord

def note (ps : ScoreRecord) (now : ℤ) (r : Recorded) : ScoreRecord :=
  { ps with lastUpdated := now, history := ps.history.add ⟨now,r,0⟩ }

def addHealthPenalty (ps : ScoreRecord) (maxPenalty : ℚ) (now : ℤ) (r : Recorded) : ScoreRecord :=
  { ps with
    toProviderScore := ps.toProviderScore.addHealthPenalty r.amount maxPenalty
    lastHealthCheck := now }.note now r

def addRateLimitPenalty (ps : ScoreRecord) (maxPenalty : ℚ) (now : ℤ) (r : Recorded) :
    ScoreRecord :=
  { ps with
    toProviderScore := ps.toProviderScore.addRateLimitPenalty r.amount maxPenalty }.note now r

def addErrorPenalty (ps : ScoreRecord) (maxPenalty : ℚ) (now : ℤ) (r : Recorded) : ScoreRecord :=
  { ps with
    toProviderScore := ps.toProviderScore.addErrorPenalty r.amount maxPenalty
    lastOperation := now }.note now r

/-- The method for the category of the penalty; the one for latency is not called in this way. -/
def addPenalty (ps : ScoreRecord) (maxPenalty : ℚ) (now : ℤ) (r : Recorded) : ScoreRecord :=
  match r.category with
  | .health => ps.addHealthPenalty maxPenalty now r
  | .rateLimit => ps.addRateLimitPenalty maxPenalty now r
  | .error => ps.addErrorPenalty maxPenalty now r
  | .latency => ps

/-- `RecordSuccess`, which reads the clock twice. -/
def recordSuccess (ps : ScoreRecord) (successBonus : ℚ) (operation updated : ℤ) : ScoreRecord :=
  { ps with
    toProviderScore := ps.toProviderScore.recordSuccess successBonus
    lastOperation := operation
    lastUpdated := updated }

def recordLatency (ps : ScoreRecord) (latency : ℤ) : ScoreRecord :=
  { ps with toProviderScore := ps.toProviderScore.recordLatency latency }

/-- `UpdateLatencyPenalty`, where `r` has the product of the two factors as its amount. -/
def updateLatencyPenalty (ps : ScoreRecord) (slownessFactor penaltyPerStdDev : ℚ) (now : ℤ)
    (r : Recorded) : ScoreRecord :=
  let ps := { ps with
    toProviderScore := ps.toProviderScore.updateLatencyPenalty slownessFactor penaltyPerStdDev
    lastUpdated := now }
  if 0 < r.amount ∧ r.reason ≠ "" then ps.note now r else ps

def applyDecay (ps : ScoreRecord) (decayRate : ℚ) (now : ℤ) : ScoreRecord :=
  { ps with toProviderScore := ps.toProviderScore.applyDecay decayRate, lastUpdated := now }

end ScoreRecord

/-- The part of `Reset` that is about the numbers of a score. -/
def ProviderScore.reset (ps : ProviderScore) : ProviderScore :=
  { ps with
    healthPenalty := 0
    latencyPenalty := 0
    errorPenalty := 0
    rateLimitPenalty := 0
    totalOperations := 0
    successfulOps := 0
    failedOps := 0
    recentLatencies := [] }

/-- The part of `Reset` for one score. The new ring has the size of the old one. -/
def ScoreRecord.reset (ps : ScoreRecord) (now : ℤ) : ScoreRecord :=
  { ps with
    toProviderScore := ps.toProviderScore.reset
    lastUpdated := now
    history := newPenaltyHistory ps.history.size }

/-- `%.1f`, with halves to the even digit. -/
def formatTenths (q : ℚ) : String :=
  let scaled := |q| * 10
  let low := ⌊scaled⌋.toNat
  let n := if scaled-low < 1/2 ∨ scaled-low = 1/2 ∧ low % 2 = 0 then low else low+1
  (if q < 0 then "-" else "") ++ toString (n/10) ++ "." ++ toString (n%10)

def latencyReason (globalStats providerStats : FullStats) : String :=
  let ratio : ℚ := if 0 < globalStats.p95 then (providerStats.p95 : ℚ)/globalStats.p95 else 0
  let milliseconds (d : ℤ) : ℤ := if 0 < d then d.tdiv Duration.millisecond else 0
  formatTenths ratio ++ "x slower than peers (provider P95: " ++
    toString (milliseconds providerStats.p95) ++ "ms, global P95: " ++
    toString (milliseconds globalStats.p95) ++ "ms)"

/-- The penalty of an event. Metadata is kept for operations only. -/
def eventPenalty (config : ScoringConfig) (event : ScoreEvent) : Option Penalty :=
  match event.type with
  | .healthCheckFailed => some
    { category := .health, reason := "health check failed"
      amount := config.healthCheckFailPenalty }
  | .healthCheck429 => some
    { category := .rateLimit, reason := "rate limit during health check (HTTP 429)"
      amount := config.rateLimitPenalty }
  | .healthCheckAuthFail => some
    { category := .health, reason := "authentication failure (HTTP 401/403)"
      amount := config.authFailurePenalty }
  | .operationAuthFail => some
    { category := .health, reason := "operation authentication failure"
      amount := config.authFailurePenalty, metadata := event.metadata }
  | .healthCheckTimeout => some
    { category := .health, reason := "health check timed out", amount := config.timeoutPenalty }
  | .operationFailed => some
    { category := .error, reason := (event.error.map GoError.error).getD "operation failed"
      amount := config.operationFailPenalty, metadata := event.metadata }
  | .rateLimited => some
    { category := .rateLimit, reason := "rate limited (HTTP 429)"
      amount := config.rateLimitPenalty, metadata := event.metadata }
  | .operationSuccess => none
  | .slowResponse => none

/-- What can be called on an engine, and the step of its decay manager. -/
inductive EngineOp
  | register (name : String) (priority : ℤ)
  | unregister (name : String)
  | record (event : ScoreEvent)
  | decay
  | reset

namespace Engine

def unregisterProvider (e : Engine) (name : String) : Engine :=
  { e with scores := Function.update e.scores name none }

/-- `applyDecay` of the manager, whose configuration is that of the engine unless it is updated. -/
def applyDecay (e : Engine) : Engine :=
  { e with scores := fun name => (e.scores name).map (·.applyDecay e.config.decayRate) }

def reset (e : Engine) : Engine :=
  { e with
    scores := fun name => (e.scores name).map ProviderScore.reset
    latencyTracker := ⟨[],e.latencyTracker.windowSize⟩ }

@[simp] theorem updateScore_id (e : Engine) (name : String) : e.updateScore name id = e := by
  rw [updateScore,Option.map_id,id_eq,Function.update_eq_self]

def exec (e : Engine) : EngineOp → Engine
  | .register name priority => e.registerProvider name priority
  | .unregister name => e.unregisterProvider name
  | .record event => e.recordEvent event
  | .decay => e.applyDecay
  | .reset => e.reset

def run (e : Engine) (ops : List EngineOp) : Engine := ops.foldl exec e

/-- How far a provider is above the threshold, in standard deviations. -/
def excess (e : Engine) (name : String) : ℚ :=
  let slownessFactor := e.latencyTracker.getProviderSlownessFactor name
  if slownessFactor < e.config.slowThresholdStdDev then 0
  else slownessFactor-e.config.slowThresholdStdDev

def Comparable (e : Engine) : Prop :=
  e.config.minSamplesForLatencyComparison ≤ e.latencyTracker.getGlobalStats.sampleCount

instance (e : Engine) : Decidable e.Comparable := inferInstanceAs (Decidable (_ ≤ _))

theorem updateLatencyPenalty_eq (e : Engine) (name : String) : e.updateLatencyPenalty name =
    if e.Comparable then
      e.updateScore name (·.updateLatencyPenalty (e.excess name) e.config.slowResponsePenalty)
    else e := by
  by_cases hfew : (e.latencyTracker.getGlobalStats.sampleCount : ℤ) <
      e.config.minSamplesForLatencyComparison
  · have hnot : ¬e.Comparable := not_le.mpr hfew
    rw [updateLatencyPenalty,if_pos hfew,if_neg hnot]
  · have henough : e.Comparable := not_lt.mp hfew
    rw [updateLatencyPenalty,if_neg hfew,if_pos henough]
    rfl

def sampled (e : Engine) (name : String) (responseTime : ℤ) : Engine :=
  { e with latencyTracker := e.latencyTracker.recordLatency name responseTime }

theorem latencyTracker_recordLatency (e : Engine) (name : String) (responseTime : ℤ) :
    (e.recordLatency name responseTime).latencyTracker =
      e.latencyTracker.recordLatency name responseTime := by
  unfold recordLatency
  simp only [updateLatencyPenalty_eq]
  split_ifs <;> rfl

structure Measures (e : Engine) (event : ScoreEvent) : Prop where
  known : (e.config.enabled && (e.scores event.provider).isSome) = true
  measured : 0 < event.responseTime
  comparable : (e.sampled event.provider event.responseTime).Comparable

def All (P : ProviderScore → Prop) (e : Engine) : Prop := ∀ name, ∀ ps ∈ e.scores name, P ps

section
variable {P : ProviderScore → Prop} {e : Engine} {f : ProviderScore → ProviderScore}

theorem all_new (config : ScoringConfig) : (new config).All P := by
  intro name ps hps
  cases hps

theorem all_registerProvider (h : e.All P) {priority : ℤ}
    (hnew : P (newProviderScore priority e.config.latencyWindowSize)) (name : String) :
    (e.registerProvider name priority).All P := by
  unfold registerProvider
  split
  · exact h
  · intro other ps hps
    by_cases hother : other = name
    · subst hother
      simp only [Function.update_self,Option.mem_def,Option.some.injEq] at hps
      rw [← hps]
      exact hnew
    · simp only [Function.update_of_ne hother] at hps
      exact h other ps hps

theorem all_unregisterProvider (h : e.All P) (name : String) :
    (e.unregisterProvider name).All P := by
  intro other ps hps
  by_cases hother : other = name
  · subst hother
    simp [unregisterProvider] at hps
  · simp only [unregisterProvider,Function.update_of_ne hother] at hps
    exact h other ps hps

theorem all_updateScore (h : e.All P) (hf : ∀ ps, P ps → P (f ps)) (name : String) :
    (e.updateScore name f).All P := by
  intro other ps hps
  by_cases hother : other = name
  · subst hother
    simp only [updateScore,Function.update_self,Option.mem_def,Option.map_eq_some_iff] at hps
    obtain ⟨old,hold,rfl⟩ := hps
    exact hf old (h other old hold)
  · simp only [updateScore,Function.update_of_ne hother] at hps
    exact h other ps hps

theorem all_map (h : e.All P) (hf : ∀ ps, P ps → P (f ps)) (tracker : LatencyTracker) :
    All P ⟨e.config,fun name => (e.scores name).map f,tracker⟩ := by
  intro name ps hps
  obtain ⟨old,hold,rfl⟩ := Option.map_eq_some_iff.mp hps
  exact hf old (h name old hold)

/-- An event keeps a property of the scores that a sample, the new latency penalty and the type
of the event keep. -/
theorem all_recordEvent (h : e.All P) (event : ScoreEvent)
    (hlatency : ∀ ps, P ps → P (ps.recordLatency event.responseTime))
    (hslow : e.Measures event → ∀ ps, P ps →
      P (ps.updateLatencyPenalty ((e.sampled event.provider event.responseTime).excess
        event.provider) e.config.slowResponsePenalty))
    (hevent : ∀ ps, P ps → P (applyEvent e.config event.type ps)) :
    (e.recordEvent event).All P := by
  have hsampled : All P (((e.sampled event.provider event.responseTime).updateScore
      event.provider (·.recordLatency event.responseTime))) :=
    all_updateScore (e := e.sampled event.provider event.responseTime) h hlatency event.provider
  have hconfig : (e.recordLatency event.provider event.responseTime).config = e.config := by
    rw [recordLatency,updateLatencyPenalty_eq]
    split_ifs <;> rfl
  unfold recordEvent
  split_ifs with hon hpositive
  · have hrecorded : All P (e.recordLatency event.provider event.responseTime) := by
      rw [recordLatency,updateLatencyPenalty_eq]
      split_ifs with henough
      · exact all_updateScore hsampled (hslow ⟨hon,hpositive,henough⟩) event.provider
      · exact hsampled
    simp only [hconfig]
    exact all_updateScore hrecorded hevent event.provider
  · exact all_updateScore h hevent event.provider
  · exact h

end

@[simp] theorem exec_config (e : Engine) (op : EngineOp) : (e.exec op).config = e.config := by
  cases op with
  | register name priority =>
    simp only [exec,registerProvider]
    split <;> rfl
  | record event =>
    simp only [exec,recordEvent,recordLatency,updateLatencyPenalty]
    split_ifs <;> rfl
  | _ => rfl

@[simp] theorem run_config (e : Engine) (ops : List EngineOp) :
    (e.run ops).config = e.config := by
  induction ops generalizing e with
  | nil => rfl
  | cons op ops ih => exact (ih (e.exec op)).trans (exec_config e op)

end Engine

/-- `scores` has every score under its name, `appends` are the records of the goroutines of
`persistPenalty` that have not run yet, and `recorded` numbers the penalties. -/
structure FullEngine where
  config : FullConfig
  scores : KeyedMap ScoreRecord.name
  latencyTracker : CachedTracker
  hasPenaltyStore : Bool
  appends : List (Store.PenaltyRecordData Recorded)
  recorded : ℕ

namespace FullEngine

/-- `NewEngine` up to the loading of the scores. -/
def new (config : FullConfig) (hasPenaltyStore : Bool) : FullEngine where
  config := config.validate
  scores := .empty
  latencyTracker := .new config.validate.latencyWindowSize
  hasPenaltyStore := hasPenaltyStore
  appends := []
  recorded := 0

def registerProvider (e : FullEngine) (now : ℤ) (name : String) (priority : ℤ) : FullEngine :=
  match e.scores.get name with
  | some _ => e
  | none =>
    { e with
      scores := e.scores.set (newScoreRecord name priority e.config.latencyWindowSize
        e.config.penaltyHistorySize now) }

def unregisterProvider (e : FullEngine) (name : String) : FullEngine :=
  { e with scores := e.scores.delete name }

def updateScore (e : FullEngine) (name : String) (f : ScoreRecord → ScoreRecord) : FullEngine :=
  { e with scores := e.scores.modify name f }

def persistPenalty (e : FullEngine) (name : String) (r : Recorded) (ts : ℤ) : FullEngine :=
  if e.hasPenaltyStore then { e with appends := e.appends ++ [⟨name,ts,r⟩] } else e

/-- A penalty of an event: into the score, and into the store. -/
def penalize (e : FullEngine) (name : String) (p : Penalty) (now ts : ℤ) : FullEngine :=
  ({ e with recorded := e.recorded+1 }.updateScore name
    fun ps => ps.addPenalty e.config.maxPenalty now ⟨p,e.recorded⟩).persistPenalty
      name ⟨p,e.recorded⟩ ts

/-- The end of `updateLatencyPenalty`. -/
def setLatencyPenalty (e : FullEngine) (now : ℕ → ℤ) (name : String) (slownessFactor : ℚ)
    (reason : String) : FullEngine :=
  let r : Recorded :=
    { category := .latency, reason := reason
      amount := slownessFactor*e.config.slowResponsePenalty, serial := e.recorded }
  let e := { e with recorded := e.recorded+1 }.updateScore name
    fun ps => ps.updateLatencyPenalty slownessFactor e.config.slowResponsePenalty (now 0) r
  if 0 < slownessFactor ∧ reason ≠ "" then e.persistPenalty name r (now 1) else e

def updateLatencyPenalty (e : FullEngine) (now : ℕ → ℤ) (name : String) : FullEngine :=
  let (globalStats,tracker) := e.latencyTracker.getGlobalStats
  let e := { e with latencyTracker := tracker }
  if (globalStats.sampleCount : ℤ) < e.config.minSamplesForLatencyComparison then e
  else
    let providerStats := e.latencyTracker.getProviderStats name
    let (slownessFactor,tracker) := e.latencyTracker.getProviderSlownessFactor name
    let e := { e with latencyTracker := tracker }
    if slownessFactor < e.config.slowThresholdStdDev then e.setLatencyPenalty now name 0 ""
    else e.setLatencyPenalty now name (slownessFactor-e.config.slowThresholdStdDev)
      (latencyReason globalStats providerStats)

/-- The latency part of `RecordEvent`. -/
def recordLatency (e : FullEngine) (now : ℕ → ℤ) (name : String) (responseTime : ℤ) :
    FullEngine :=
  let e := { e with latencyTracker := e.latencyTracker.recordLatency name responseTime }
  (e.updateScore name (·.recordLatency responseTime)).updateLatencyPenalty now name

/-- What `RecordEvent` does by the type of the event. -/
def applyEvent (e : FullEngine) (now : ℕ → ℤ) (event : ScoreEvent) : FullEngine :=
  let ts := if event.timestamp = 0 then now 2 else event.timestamp
  match eventPenalty e.config.toScoringConfig event with
  | some p => e.penalize event.provider p (now 3) ts
  | none =>
    if event.type = .operationSuccess then
      e.updateScore event.provider (·.recordSuccess e.config.successBonus (now 3) (now 4))
    else e

/-- `RecordEvent`. The clock is read up to five times. -/
def recordEvent (e : FullEngine) (now : ℕ → ℤ) (event : ScoreEvent) : FullEngine :=
  if e.config.enabled && (e.scores.get event.provider).isSome then
    let e := if 0 < event.responseTime then e.recordLatency now event.provider event.responseTime
      else e
    e.applyEvent now event
  else e

/-- `applyDecay` of the manager. -/
def applyDecay (e : FullEngine) (now : ℤ) : FullEngine :=
  { e with scores := e.scores.modifyAll (·.applyDecay e.config.decayRate now) }

def reset (e : FullEngine) (now : ℤ) : FullEngine :=
  { e with
    scores := e.scores.modifyAll (·.reset now)
    latencyTracker := e.latencyTracker.reset }

/-- `GetPenaltyHistory`, which finds nothing for an unknown provider. -/
def getPenaltyHistory (e : FullEngine) (pow : ℚ → ℚ → ℚ) (now : ℤ) (name : String)
    (q : HistoryQuery) : Option (List PenaltyRecord) :=
  (e.scores.get name).map fun ps => q.collect
    (fun ts => computeDecayFactor pow now ts e.config.decayRate e.config.decayInterval) []
    ps.history.snapshot.reverse

def getEffectiveScore (e : FullEngine) (name : String) : ℚ :=
  match e.scores.get name with
  | some ps => ps.effectiveScore
  | none => 0

/-- An operation with its readings of the clock. -/
def exec (e : FullEngine) (now : ℕ → ℤ) : EngineOp → FullEngine
  | .register name priority => e.registerProvider (now 0) name priority
  | .unregister name => e.unregisterProvider name
  | .record event => e.recordEvent now event
  | .decay => e.applyDecay (now 0)
  | .reset => e.reset (now 0)

def run (e : FullEngine) (steps : List (EngineOp × (ℕ → ℤ))) : FullEngine :=
  steps.foldl (fun e s => e.exec s.2 s.1) e

def toEngine (e : FullEngine) : Engine where
  config := e.config.toScoringConfig
  scores := fun name => (e.scores.get name).map ScoreRecord.toProviderScore
  latencyTracker := e.latencyTracker.toLatencyTracker

section
variable (e : FullEngine)

theorem toEngine_new (config : FullConfig) (hasPenaltyStore : Bool) :
    (new config hasPenaltyStore).toEngine = .new config.toScoringConfig := by
  simp [toEngine,new,Engine.new,KeyedMap.empty,KeyedMap.get,FullConfig.validate,
    CachedTracker.new,CachedTracker.dirty]

theorem get_registerProvider (now : ℤ) (name : String) (p : ℤ) (other : String) :
    (e.registerProvider now name p).scores.get other = if other = name then
      (e.scores.get name).or (some (newScoreRecord name p e.config.latencyWindowSize
        e.config.penaltyHistorySize now)) else e.scores.get other := by
  unfold registerProvider
  cases hget : e.scores.get name with
  | some ps =>
    split_ifs with hother
    · rw [hother,hget]
      rfl
    · rfl
  | none =>
    simp only [KeyedMap.get_set]
    split_ifs with hother
    · subst hother
      simp [newScoreRecord]
    · rw [Function.update_of_ne (by simpa [newScoreRecord] using hother)]

theorem toEngine_registerProvider (now : ℤ) (name : String) (priority : ℤ) :
    (e.registerProvider now name priority).toEngine =
      e.toEngine.registerProvider name priority := by
  unfold registerProvider Engine.registerProvider
  cases hget : e.scores.get name with
  | some ps => simp [toEngine,hget]
  | none =>
    simp only [toEngine,hget,Option.map_none,KeyedMap.get_set,newScoreRecord]
    congr 1
    funext other
    by_cases hother : other = name
    · subst hother
      simp
    · simp [hother]

theorem toEngine_unregisterProvider (name : String) :
    (e.unregisterProvider name).toEngine = e.toEngine.unregisterProvider name := by
  simp only [toEngine,unregisterProvider,Engine.unregisterProvider,KeyedMap.get_delete]
  congr 1
  funext other
  by_cases hother : other = name
  · subst hother
    simp
  · simp [hother]

theorem toEngine_updateScore (name : String) {f : ScoreRecord → ScoreRecord}
    {g : ProviderScore → ProviderScore} (hname : ∀ ps, (f ps).name = ps.name)
    (hf : ∀ ps, (f ps).toProviderScore = g ps.toProviderScore) :
    (e.updateScore name f).toEngine = e.toEngine.updateScore name g := by
  simp only [toEngine,updateScore,Engine.updateScore,KeyedMap.get_modify _ _ hname]
  congr 1
  funext other
  by_cases hother : other = name
  · subst hother
    simp [Function.comp_def,hf]
  · simp [hother]

@[simp] theorem toEngine_persistPenalty (name : String) (r : Recorded) (ts : ℤ) :
    (e.persistPenalty name r ts).toEngine = e.toEngine := by
  unfold persistPenalty
  split_ifs <;> rfl

theorem name_addPenalty (ps : ScoreRecord) (maxPenalty : ℚ) (now : ℤ) (r : Recorded) :
    (ps.addPenalty maxPenalty now r).name = ps.name := by
  unfold ScoreRecord.addPenalty
  split <;> rfl

theorem name_updateLatencyPenalty (ps : ScoreRecord) (slownessFactor penaltyPerStdDev : ℚ)
    (now : ℤ) (r : Recorded) :
    (ps.updateLatencyPenalty slownessFactor penaltyPerStdDev now r).name = ps.name := by
  unfold ScoreRecord.updateLatencyPenalty
  simp only
  split_ifs <;> rfl

theorem toProviderScore_updateLatencyPenalty (ps : ScoreRecord)
    (slownessFactor penaltyPerStdDev : ℚ) (now : ℤ) (r : Recorded) :
    (ps.updateLatencyPenalty slownessFactor penaltyPerStdDev now r).toProviderScore =
      ps.toProviderScore.updateLatencyPenalty slownessFactor penaltyPerStdDev := by
  unfold ScoreRecord.updateLatencyPenalty
  simp only
  split_ifs <;> rfl

theorem toEngine_setLatencyPenalty (now : ℕ → ℤ) (name : String) (slownessFactor : ℚ)
    (reason : String) : (e.setLatencyPenalty now name slownessFactor reason).toEngine =
      e.toEngine.updateScore name
        (·.updateLatencyPenalty slownessFactor e.config.slowResponsePenalty) := by
  have hscore (r : Recorded) : ({ e with recorded := e.recorded+1 }.updateScore name fun ps =>
      ps.updateLatencyPenalty slownessFactor e.config.slowResponsePenalty (now 0) r).toEngine =
        e.toEngine.updateScore name
          (·.updateLatencyPenalty slownessFactor e.config.slowResponsePenalty) :=
    toEngine_updateScore _ name (fun ps => name_updateLatencyPenalty ps _ _ _ _)
      (fun ps => toProviderScore_updateLatencyPenalty ps _ _ _ _)
  unfold setLatencyPenalty
  simp only
  split_ifs
  · rw [toEngine_persistPenalty,hscore]
  · exact hscore _

theorem toEngine_updateLatencyPenalty (now : ℕ → ℤ) (name : String) :
    (e.updateLatencyPenalty now name).toEngine = e.toEngine.updateLatencyPenalty name := by
  obtain ⟨hstats,htracker⟩ := e.latencyTracker.getGlobalStats_eq
  obtain ⟨hslow,htracker'⟩ :=
    e.latencyTracker.getGlobalStats.2.getProviderSlownessFactor_eq name
  rw [htracker] at hslow htracker'
  have hcount : e.latencyTracker.getGlobalStats.1.sampleCount =
      e.toEngine.latencyTracker.getGlobalStats.sampleCount :=
    congrArg LatencyStats.sampleCount hstats
  have hfactor : (e.latencyTracker.getGlobalStats.2.getProviderSlownessFactor name).1 =
      e.toEngine.latencyTracker.getProviderSlownessFactor name := hslow
  have hsame (tracker : CachedTracker)
      (h : tracker.toLatencyTracker = e.latencyTracker.toLatencyTracker) :
      { e with latencyTracker := tracker }.toEngine = e.toEngine := by simp [toEngine,h]
  have hconfig : e.toEngine.config = e.config.toScoringConfig := rfl
  unfold updateLatencyPenalty Engine.updateLatencyPenalty
  simp only [hcount,hfactor,hconfig]
  split_ifs with hfew hslower
  · exact hsame _ htracker
  · rw [toEngine_setLatencyPenalty,hsame _ htracker']
  · rw [toEngine_setLatencyPenalty,hsame _ htracker']

theorem toEngine_recordLatency (now : ℕ → ℤ) (name : String) (responseTime : ℤ) :
    (e.recordLatency now name responseTime).toEngine =
      e.toEngine.recordLatency name responseTime := by
  unfold recordLatency Engine.recordLatency
  simp only
  rw [toEngine_updateLatencyPenalty]
  congr 1
  exact toEngine_updateScore _ name (fun _ => rfl) (fun _ => rfl)

theorem applyEvent_penalty (config : ScoringConfig) (event : ScoreEvent) (ps : ScoreRecord) :
    match eventPenalty config event with
    | some p => ∀ now serial,
      (ps.addPenalty config.maxPenalty now ⟨p,serial⟩).toProviderScore =
        Engine.applyEvent config event.type ps.toProviderScore
    | none => Engine.applyEvent config event.type ps.toProviderScore =
      if event.type = .operationSuccess then ps.toProviderScore.recordSuccess config.successBonus
      else ps.toProviderScore := by
  unfold eventPenalty
  cases event.type <;> first | rfl | exact fun _ _ => rfl

theorem toEngine_applyEvent (now : ℕ → ℤ) (event : ScoreEvent) :
    (e.applyEvent now event).toEngine =
      e.toEngine.updateScore event.provider (Engine.applyEvent e.toEngine.config event.type) := by
  have htable := applyEvent_penalty e.config.toScoringConfig event
  unfold applyEvent
  cases hpenalty : eventPenalty e.config.toScoringConfig event with
  | some p =>
    simp only [hpenalty] at htable
    simp only [penalize,toEngine_persistPenalty]
    exact toEngine_updateScore _ event.provider (fun ps => name_addPenalty ps _ _ _)
      (fun ps => htable ps _ _)
  | none =>
    simp only [hpenalty] at htable
    simp only
    split_ifs with hsuccess
    · refine toEngine_updateScore e event.provider (fun _ => rfl) ?_
      intro ps
      rw [show e.toEngine.config = e.config.toScoringConfig from rfl,htable,if_pos hsuccess]
      rfl
    · have hsame : Engine.applyEvent e.toEngine.config event.type = id := by
        cases htype : event.type with
        | slowResponse => rfl
        | operationSuccess => exact absurd htype hsuccess
        | _ => simp [eventPenalty,htype] at hpenalty
      rw [hsame,Engine.updateScore_id]

theorem toEngine_recordEvent (now : ℕ → ℤ) (event : ScoreEvent) :
    (e.recordEvent now event).toEngine = e.toEngine.recordEvent event := by
  have hknown : (e.toEngine.scores event.provider).isSome =
      (e.scores.get event.provider).isSome := by simp [toEngine]
  unfold recordEvent Engine.recordEvent
  rw [hknown]
  have henabled : e.toEngine.config.enabled = e.config.enabled := rfl
  rw [henabled]
  split_ifs with hon hlatency
  · simp only [toEngine_applyEvent,toEngine_recordLatency]
  · exact toEngine_applyEvent e now event
  · rfl

theorem toEngine_modifyAll {f : ScoreRecord → ScoreRecord} {g : ProviderScore → ProviderScore}
    (hname : ∀ ps, (f ps).name = ps.name) (hf : ∀ ps, (f ps).toProviderScore = g ps.toProviderScore)
    (name : String) : ((e.scores.modifyAll f).get name).map ScoreRecord.toProviderScore =
      (e.toEngine.scores name).map g := by
  rw [KeyedMap.get_modifyAll _ hname,toEngine,Option.map_map,Option.map_map]
  congr 1
  funext ps
  exact hf ps

theorem toEngine_applyDecay (now : ℤ) : (e.applyDecay now).toEngine = e.toEngine.applyDecay := by
  unfold Engine.applyDecay
  rw [← funext (toEngine_modifyAll e (f := (·.applyDecay e.config.decayRate now))
    (fun _ => rfl) (fun _ => rfl))]
  rfl

theorem toEngine_reset (now : ℤ) : (e.reset now).toEngine = e.toEngine.reset := by
  unfold Engine.reset
  rw [← funext (toEngine_modifyAll e (f := (·.reset now)) (fun _ => rfl) (fun _ => rfl))]
  rfl

/-- Every operation of the engine is one of the engine that only scores. -/
theorem toEngine_exec (now : ℕ → ℤ) (op : EngineOp) :
    (e.exec now op).toEngine = e.toEngine.exec op := by
  cases op with
  | register name priority => exact toEngine_registerProvider e (now 0) name priority
  | unregister name => exact toEngine_unregisterProvider e name
  | record event => exact toEngine_recordEvent e now event
  | decay => exact toEngine_applyDecay e (now 0)
  | reset => exact toEngine_reset e (now 0)

theorem toEngine_run (steps : List (EngineOp × (ℕ → ℤ))) :
    (e.run steps).toEngine = e.toEngine.run (steps.map Prod.fst) := by
  induction steps generalizing e with
  | nil => rfl
  | cons s steps ih =>
    calc (e.run (s :: steps)).toEngine = ((e.exec s.2 s.1).run steps).toEngine := rfl
      _ = (e.exec s.2 s.1).toEngine.run (steps.map Prod.fst) := ih _
      _ = e.toEngine.run ((s :: steps).map Prod.fst) := by rw [toEngine_exec]; rfl

theorem all_toEngine (P : ProviderScore → Prop) : e.toEngine.All P ↔
    ∀ name, ∀ ps ∈ e.scores.get name, P ps.toProviderScore := by
  simp [Engine.All,toEngine]

theorem getEffectiveScore_toEngine (name : String) :
    e.toEngine.getEffectiveScore name = e.getEffectiveScore name := by
  unfold Engine.getEffectiveScore getEffectiveScore
  cases hget : e.scores.get name with
  | none => simp [toEngine,hget]
  | some ps => simp [toEngine,hget]

end
end FullEngine
end ChainKit
