import ChainKit.Scoring.State
import ChainKit.Scoring.Store.Hybrid

/-! What the engine writes to its store, and what it reads back: the scores by their names and
the latency samples. -/
namespace ChainKit
open Lib

structure ScoreFields where
  baseScore : ℚ
  healthPenalty : ℚ
  latencyPenalty : ℚ
  errorPenalty : ℚ
  rateLimitPenalty : ℚ
  totalOperations : ℕ
  successfulOps : ℕ
  failedOps : ℕ
  lastUpdated : ℤ
  lastHealthCheck : ℤ
  lastOperation : ℤ
  recentLatencies : List ℤ
  deriving DecidableEq

abbrev ScoreData := Store.ProviderScoreData ScoreFields

/-- `LatencyStatsData`, with the map as a list without a repeated key. -/
structure LatencyStatsData where
  providerSamples : List (String × List ℤ)
  lastUpdated : ℤ
  nodup : (providerSamples.map Prod.fst).Nodup

/-- `MemoryStore`, which copies what it is given. -/
structure MemoryStore where
  scores : Store.ScoreMap ScoreFields
  latency : Option LatencyStatsData

namespace MemoryStore

/-- `NewMemoryStore`. -/
def empty : MemoryStore := ⟨.empty,none⟩

/-- `SetScores`, which skips data without a name. -/
def setScores (m : MemoryStore) (data : List ScoreData) : MemoryStore :=
  { m with scores := m.scores.setAll (data.filter (·.name ≠ "")) }

def getAllScores (m : MemoryStore) : List ScoreData := m.scores.getAll

def setLatencyStats (m : MemoryStore) (data : LatencyStatsData) : MemoryStore :=
  { m with latency := some data }

end MemoryStore

namespace ScoreRecord

/-- `ToStoreData`. The priority and the ring are not stored. -/
def toStoreData (ps : ScoreRecord) : ScoreData where
  name := ps.name
  fields :=
    { baseScore := ps.baseScore
      healthPenalty := ps.healthPenalty
      latencyPenalty := ps.latencyPenalty
      errorPenalty := ps.errorPenalty
      rateLimitPenalty := ps.rateLimitPenalty
      totalOperations := ps.totalOperations
      successfulOps := ps.successfulOps
      failedOps := ps.failedOps
      lastUpdated := ps.lastUpdated
      lastHealthCheck := ps.lastHealthCheck
      lastOperation := ps.lastOperation
      recentLatencies := ps.recentLatencies }

def fromStoreData (latencyWindowSize historySize : ℤ) (data : ScoreData) : ScoreRecord where
  priority := 0
  baseScore := data.fields.baseScore
  healthPenalty := data.fields.healthPenalty
  latencyPenalty := data.fields.latencyPenalty
  errorPenalty := data.fields.errorPenalty
  rateLimitPenalty := data.fields.rateLimitPenalty
  totalOperations := data.fields.totalOperations
  successfulOps := data.fields.successfulOps
  failedOps := data.fields.failedOps
  recentLatencies := data.fields.recentLatencies
  latencyWindowSize := latencyWindowSize
  name := data.name
  lastUpdated := data.fields.lastUpdated
  lastHealthCheck := data.fields.lastHealthCheck
  lastOperation := data.fields.lastOperation
  history := newPenaltyHistory historySize

/-- `ProviderScoreStats`. -/
structure Stats where
  name : String
  priority : ℤ
  baseScore : ℚ
  effectiveScore : ℚ
  healthPenalty : ℚ
  latencyPenalty : ℚ
  errorPenalty : ℚ
  rateLimitPenalty : ℚ
  totalOperations : ℕ
  successfulOps : ℕ
  failedOps : ℕ
  successRate : ℚ
  averageLatency : ℤ
  lastUpdated : ℤ
  recentPenalties : List PenaltyRecord

/-- `GetStats`, where the effective score may be negative. -/
def getStats (ps : ScoreRecord) : Stats where
  name := ps.name
  priority := ps.priority
  baseScore := ps.baseScore
  effectiveScore :=
    ps.baseScore-ps.healthPenalty-ps.latencyPenalty-ps.errorPenalty-ps.rateLimitPenalty
  healthPenalty := ps.healthPenalty
  latencyPenalty := ps.latencyPenalty
  errorPenalty := ps.errorPenalty
  rateLimitPenalty := ps.rateLimitPenalty
  totalOperations := ps.totalOperations
  successfulOps := ps.successfulOps
  failedOps := ps.failedOps
  successRate := if 0 < ps.totalOperations then (ps.successfulOps : ℚ)/ps.totalOperations else 0
  averageLatency := if ps.recentLatencies = [] then 0
    else ps.recentLatencies.sum.tdiv ps.recentLatencies.length
  lastUpdated := ps.lastUpdated
  recentPenalties := ps.history.snapshot

end ScoreRecord

theorem LatencyTracker.nodup_sampled {l : List (String × List ℤ)} (h : (l.map Prod.fst).Nodup) :
    ((sampled l).map Prod.fst).Nodup := h.sublist (List.filter_sublist.map _)

/-- `LatencyTrackerToStoreData`. -/
def CachedTracker.toStoreData (lt : CachedTracker) (now : ℤ) : LatencyStatsData where
  providerSamples := LatencyTracker.sampled lt.samples
  lastUpdated := now
  nodup := LatencyTracker.nodup_sampled lt.nodup

/-- `LatencyTrackerFromStoreData`. -/
def CachedTracker.fromStoreData (data : LatencyStatsData) (windowSize : ℤ) : CachedTracker :=
  dirty ⟨LatencyTracker.sampled data.providerSamples,(LatencyTracker.new windowSize).windowSize⟩
    (LatencyTracker.nodup_sampled data.nodup) none

/-- The answers of a store to `loadFromStoreUnsafe`. An entry may be nil. -/
structure StoreReply where
  scores : Except GoError (List (Option ScoreData))
  latency : Except GoError (Option LatencyStatsData)

/-- A `MemoryStore` does not fail. -/
def MemoryStore.reply (m : MemoryStore) : StoreReply where
  scores := .ok (m.getAllScores.map some)
  latency := .ok m.latency

/-- The errors of the two writes of `SaveToStore`; a write that fails has no effect. -/
structure SaveFaults where
  scores : Option GoError := none
  latency : Option GoError := none
  deriving DecidableEq

namespace FullEngine

def loaded (config : FullConfig) (data : List (Option ScoreData)) : List ScoreRecord :=
  ((data.filterMap id).filter (·.name ≠ "")).map
    (ScoreRecord.fromStoreData config.latencyWindowSize config.penaltyHistorySize)

def loadFromStore (e : FullEngine) (reply : StoreReply) : Except GoError Unit × FullEngine :=
  match reply.scores with
  | .error err => (.error (.wrap "failed to load scores from store: " err ""),e)
  | .ok data =>
    let e := { e with scores := e.scores.setAll (loaded e.config data) }
    match reply.latency with
    | .error err => (.error (.wrap "failed to load latency stats from store: " err ""),e)
    | .ok none => (.ok (),e)
    | .ok (some latencyData) =>
      (.ok (),{ e with
        latencyTracker := .fromStoreData latencyData e.config.latencyWindowSize })

def saveToStore (e : FullEngine) (now : ℤ) (faults : SaveFaults) (m : MemoryStore) :
    Except GoError Unit × MemoryStore :=
  match faults.scores with
  | some err => (.error (.wrap "failed to save scores to store: " err ""),m)
  | none =>
    let m := m.setScores (e.scores.getAll.map ScoreRecord.toStoreData)
    match faults.latency with
    | some err => (.error (.wrap "failed to save latency stats to store: " err ""),m)
    | none => (.ok (),m.setLatencyStats (e.latencyTracker.toStoreData now))

/-- `NewEngine` on a store. -/
def newEngine (config : FullConfig) (hasPenaltyStore : Bool) (m : MemoryStore) : FullEngine :=
  ((new config hasPenaltyStore).loadFromStore m.reply).2

def getProviderStats (e : FullEngine) (name : String) : Option ScoreRecord.Stats :=
  (e.scores.get name).map ScoreRecord.getStats

section
variable (e : FullEngine) (m : MemoryStore)

theorem config_load (reply : StoreReply) : (e.loadFromStore reply).2.config = e.config := by
  unfold loadFromStore
  split
  · rfl
  · split <;> rfl

theorem scores_load (reply : StoreReply) : (e.loadFromStore reply).2.scores =
    match reply.scores.toOption with
    | none => e.scores
    | some data => e.scores.setAll (loaded e.config data) := by
  unfold loadFromStore
  cases reply.scores with
  | error err => rfl
  | ok data =>
    simp only [Except.toOption]
    split <;> rfl

/-- What a load makes of the scores: those of the store replace those in memory. -/
theorem get_load (name : String) : (e.loadFromStore m.reply).2.scores.get name =
    if name ≠ "" then ((m.scores.get name).map (ScoreRecord.fromStoreData
      e.config.latencyWindowSize e.config.penaltyHistorySize)).or (e.scores.get name)
    else e.scores.get name := by
  have hscores : (e.loadFromStore m.reply).2.scores =
      e.scores.setAll (loaded e.config (m.getAllScores.map some)) := by
    unfold loadFromStore MemoryStore.reply
    cases m.latency <;> rfl
  have hloaded : loaded e.config (m.getAllScores.map some) =
      (m.scores.getAll.filter fun d => decide (d.name ≠ "")).map (ScoreRecord.fromStoreData
        e.config.latencyWindowSize e.config.penaltyHistorySize) := by
    simp [loaded,MemoryStore.getAllScores,List.filterMap_map]
  rw [hscores,hloaded]
  have himage := KeyedMap.get_setAll_image e.scores m.scores (f := ScoreRecord.fromStoreData
    e.config.latencyWindowSize e.config.penaltyHistorySize) (fun _ => rfl)
    (fun name => decide (name ≠ "")) name
  simpa only [decide_eq_true_eq] using himage

/-- What a save makes of the store: the scores in memory replace those of the store, and nothing
is removed. -/
theorem get_save (now : ℤ) {faults : SaveFaults} (hfaults : faults.scores = none) (name : String) :
    (e.saveToStore now faults m).2.scores.get name =
      if name ≠ "" then ((e.scores.get name).map ScoreRecord.toStoreData).or (m.scores.get name)
      else m.scores.get name := by
  have hscores : (e.saveToStore now faults m).2.scores =
      m.scores.setAll ((e.scores.getAll.map ScoreRecord.toStoreData).filter (·.name ≠ "")) := by
    unfold saveToStore
    rw [hfaults]
    cases faults.latency <;> rfl
  have himage := KeyedMap.get_setAll_image m.scores e.scores (f := ScoreRecord.toStoreData)
    (fun _ => rfl) (fun name => decide (name ≠ "")) name
  rw [hscores,List.filter_map]
  simp only [decide_eq_true_eq] at himage
  exact himage

end
end FullEngine
end ChainKit
