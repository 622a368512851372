import ChainKit.Scoring.Persistence

/-! What the ring of a provider holds over a run of the engine: the last of the penalties that
were applied to it since it was registered or reset, from which `GetPenaltyHistory` answers. -/
namespace ChainKit
open Lib

theorem latencyReason_ne (globalStats providerStats : FullStats) :
    latencyReason globalStats providerStats ≠ "" := by
  unfold latencyReason
  simp [String.append_eq_empty_iff]

namespace FullEngine

/-- The penalty of a provider that is above the threshold by `excess` standard deviations. -/
def latencyPenalty (e : FullEngine) (excess : ℚ) (reason : String) : Recorded where
  category := .latency
  reason := reason
  amount := excess*e.config.slowResponsePenalty
  serial := e.recorded

/-- The record of a latency penalty, which is left if the provider is slower than the threshold
by an amount above zero. -/
def latencyRecord (e : FullEngine) (now : ℤ) (name : String) : Option PenaltyRecord :=
  let (globalStats,tracker) := e.latencyTracker.getGlobalStats
  let excess := (tracker.getProviderSlownessFactor name).1-e.config.slowThresholdStdDev
  let r := e.latencyPenalty excess (latencyReason globalStats (tracker.getProviderStats name))
  if e.config.minSamplesForLatencyComparison ≤ globalStats.sampleCount ∧ 0 ≤ excess ∧ 0 < r.amount
  then some ⟨now,r,0⟩ else none

/-- The engine that an event finds after its response time has been taken in. -/
def measured (e : FullEngine) (now : ℕ → ℤ) (event : ScoreEvent) : FullEngine :=
  if 0 < event.responseTime then e.recordLatency now event.provider event.responseTime else e

def sampled (e : FullEngine) (name : String) (responseTime : ℤ) : FullEngine :=
  { e with latencyTracker := e.latencyTracker.recordLatency name responseTime }

/-- The penalties that an event applies, one for its response time and one for its type. -/
def penalties (e : FullEngine) (now : ℕ → ℤ) (event : ScoreEvent) : List PenaltyRecord :=
  if e.config.enabled then
    (if 0 < event.responseTime then
      ((e.sampled event.provider event.responseTime).latencyRecord (now 0) event.provider).toList
    else []) ++
    ((eventPenalty e.config.toScoringConfig event).map fun p =>
      ⟨now 3,⟨p,(e.measured now event).recorded⟩,0⟩).toList
  else []

/-- The penalties of a provider up to an operation, from those before it. -/
def logStep (e : FullEngine) (name : String) (log : List PenaltyRecord) (now : ℕ → ℤ) :
    EngineOp → List PenaltyRecord
  | .register other _ => if other = name ∧ e.scores.get name = none then [] else log
  | .unregister other => if other = name then [] else log
  | .record event => if event.provider = name then log ++ e.penalties now event else log
  | .decay => log
  | .reset => []

/-- The penalties applied to a provider since it was registered or reset. -/
def penaltyLog (e : FullEngine) (name : String) (log : List PenaltyRecord) :
    List (EngineOp × (ℕ → ℤ)) → List PenaltyRecord
  | [] => log
  | s :: steps => (e.exec s.2 s.1).penaltyLog name (e.logStep name log s.2 s.1) steps

def ring (e : FullEngine) (name : String) : Option PenaltyHistory :=
  (e.scores.get name).map ScoreRecord.history

/-- The ring of one provider gets the records, the others stay. -/
def Adds (name : String) (rs : List PenaltyRecord) (e e' : FullEngine) : Prop :=
  e'.config = e.config ∧
    ∀ other, e'.ring other = if other = name then (e.ring name).map (·.addAll rs) else e.ring other

section
variable {e e' e'' : FullEngine} {name : String} {rs rs' : List PenaltyRecord}

theorem adds_of_scores (hconfig : e'.config = e.config) (h : e'.scores = e.scores) :
    Adds name [] e e' := by
  refine ⟨hconfig,fun other => ?_⟩
  have hid : (fun h : PenaltyHistory => h.addAll []) = id := rfl
  rw [ring,h,hid,Option.map_id]
  split_ifs with hother
  · rw [hother]
    rfl
  · rfl

theorem adds_of_unknown (h : e.scores.get name = none) : Adds name rs e e := by
  refine ⟨rfl,fun other => ?_⟩
  split_ifs with hother
  · rw [hother,ring,h]
    rfl
  · rfl

theorem Adds.trans (h : Adds name rs e e') (h' : Adds name rs' e' e'') :
    Adds name (rs ++ rs') e e'' := by
  refine ⟨h'.1.trans h.1,fun other => ?_⟩
  rw [h'.2 other,h.2 other,h.2 name,if_pos rfl]
  split_ifs
  · simp [RingBuffer.addAll,Function.comp_def]
  · rfl

theorem adds_updateScore {f : ScoreRecord → ScoreRecord} (hname : ∀ ps, (f ps).name = ps.name)
    (hf : ∀ ps, (f ps).history = ps.history.addAll rs) : Adds name rs e (e.updateScore name f) := by
  refine ⟨rfl,fun other => ?_⟩
  simp only [ring,updateScore,KeyedMap.get_modify _ _ hname]
  split_ifs with hother
  · subst hother
    simp [Function.comp_def,hf]
  · rw [Function.update_of_ne hother]

theorem adds_persistPenalty (r : Recorded) (ts : ℤ) :
    Adds name [] e (e.persistPenalty name r ts) := by
  unfold persistPenalty
  split_ifs <;> exact adds_of_scores rfl rfl

theorem eventPenalty_category {config : ScoringConfig} {event : ScoreEvent} {p : Penalty}
    (h : eventPenalty config event = some p) : p.category ≠ .latency := by
  unfold eventPenalty at h
  split at h <;> cases h <;> exact PenaltyCategory.noConfusion

theorem history_addPenalty (ps : ScoreRecord) (maxPenalty : ℚ) (now : ℤ) {r : Recorded}
    (h : r.category ≠ .latency) :
    (ps.addPenalty maxPenalty now r).history = ps.history.addAll [⟨now,r,0⟩] := by
  unfold ScoreRecord.addPenalty
  split
  · rfl
  · rfl
  · rfl
  · contradiction

theorem adds_applyEvent (now : ℕ → ℤ) (event : ScoreEvent) :
    Adds event.provider ((eventPenalty e.config.toScoringConfig event).map fun p =>
      (⟨now 3,⟨p,e.recorded⟩,0⟩ : PenaltyRecord)).toList e (e.applyEvent now event) := by
  unfold applyEvent
  cases hpenalty : eventPenalty e.config.toScoringConfig event with
  | some p =>
    have hadd : Adds event.provider [⟨now 3,⟨p,e.recorded⟩,0⟩] { e with recorded := e.recorded+1 }
        ({ e with recorded := e.recorded+1 }.updateScore event.provider
          fun ps => ps.addPenalty e.config.maxPenalty (now 3) ⟨p,e.recorded⟩) :=
      adds_updateScore (fun ps => name_addPenalty ps _ _ _)
        (fun ps => history_addPenalty ps _ _ (eventPenalty_category hpenalty))
    exact hadd.trans (adds_persistPenalty _ _)
  | none =>
    simp only [Option.map_none,Option.toList_none]
    split_ifs
    · exact adds_updateScore (fun _ => rfl) (fun _ => rfl)
    · exact adds_of_scores rfl rfl

theorem history_updateLatencyPenalty (ps : ScoreRecord) (slownessFactor penaltyPerStdDev : ℚ)
    (now : ℤ) (r : Recorded) :
    (ps.updateLatencyPenalty slownessFactor penaltyPerStdDev now r).history =
      ps.history.addAll (if 0 < r.amount ∧ r.reason ≠ "" then [⟨now,r,0⟩] else []) := by
  unfold ScoreRecord.updateLatencyPenalty
  simp only
  split_ifs <;> rfl

theorem adds_setLatencyPenalty (now : ℕ → ℤ) (excess : ℚ) (reason : String) :
    Adds name (if 0 < (e.latencyPenalty excess reason).amount ∧ reason ≠ "" then
      [⟨now 0,e.latencyPenalty excess reason,0⟩] else []) e
        (e.setLatencyPenalty now name excess reason) := by
  have hadd : Adds name (if 0 < (e.latencyPenalty excess reason).amount ∧ reason ≠ "" then
      [⟨now 0,e.latencyPenalty excess reason,0⟩] else []) { e with recorded := e.recorded+1 }
        ({ e with recorded := e.recorded+1 }.updateScore name fun ps => ps.updateLatencyPenalty
          excess e.config.slowResponsePenalty (now 0) (e.latencyPenalty excess reason)) :=
    adds_updateScore (fun ps => name_updateLatencyPenalty ps _ _ _ _)
      (fun ps => history_updateLatencyPenalty ps _ _ _ _)
  have hsame : Adds name [] e { e with recorded := e.recorded+1 } := adds_of_scores rfl rfl
  rw [setLatencyPenalty]
  by_cases hslow : 0 < excess ∧ reason ≠ ""
  · rw [if_pos hslow]
    have hpersist := hadd.trans (adds_persistPenalty (e.latencyPenalty excess reason) (now 1))
    rw [List.append_nil] at hpersist
    exact hsame.trans hpersist
  · rw [if_neg hslow]
    exact hsame.trans hadd

theorem adds_updateLatencyPenalty (now : ℕ → ℤ) :
    Adds name (e.latencyRecord (now 0) name).toList e (e.updateLatencyPenalty now name) := by
  have hset (tracker : CachedTracker) (excess : ℚ) (reason : String) :
      Adds name (if 0 < (e.latencyPenalty excess reason).amount ∧ reason ≠ "" then
        [⟨now 0,e.latencyPenalty excess reason,0⟩] else []) e
          ({ e with latencyTracker := tracker }.setLatencyPenalty now name excess reason) :=
    adds_setLatencyPenalty (e := { e with latencyTracker := tracker }) now excess reason
  unfold updateLatencyPenalty latencyRecord
  obtain ⟨globalStats,tracker⟩ := e.latencyTracker.getGlobalStats
  simp only
  obtain ⟨slownessFactor,tracker'⟩ := tracker.getProviderSlownessFactor name
  have hslow := hset tracker' (slownessFactor-e.config.slowThresholdStdDev)
    (latencyReason globalStats (tracker.getProviderStats name))
  by_cases hfew : (globalStats.sampleCount : ℤ) < e.config.minSamplesForLatencyComparison
  · rw [if_pos hfew,if_neg (fun h => absurd hfew (not_lt.mpr h.1))]
    exact adds_of_scores rfl rfl
  · rw [if_neg hfew]
    split_ifs with hrecord hslower hslower
    · exact absurd hslower (not_lt.mpr (sub_nonneg.mp hrecord.2.1))
    · rw [if_pos ⟨hrecord.2.2,latencyReason_ne _ _⟩] at hslow
      exact hslow
    · simpa using hset tracker' 0 ""
    · rw [if_neg (fun h => hrecord
        ⟨not_lt.mp hfew,sub_nonneg.mpr (not_lt.mp hslower),h.1⟩)] at hslow
      exact hslow

theorem adds_measured (now : ℕ → ℤ) (event : ScoreEvent) :
    Adds event.provider (if 0 < event.responseTime then
      ((e.sampled event.provider event.responseTime).latencyRecord (now 0) event.provider).toList
    else []) e (e.measured now event) := by
  unfold measured
  split_ifs
  · have hsample : Adds event.provider [] e ((e.sampled event.provider
        event.responseTime).updateScore event.provider (·.recordLatency event.responseTime)) :=
      (adds_of_scores rfl rfl).trans (adds_updateScore (fun _ => rfl) (fun _ => rfl))
    exact hsample.trans (adds_updateLatencyPenalty now)
  · exact adds_of_scores rfl rfl

theorem adds_recordEvent (now : ℕ → ℤ) (event : ScoreEvent) :
    Adds event.provider (e.penalties now event) e (e.recordEvent now event) := by
  have hmeasured := adds_measured (e := e) now event
  unfold recordEvent penalties
  by_cases henabled : e.config.enabled = true
  · rw [if_pos henabled]
    cases hget : e.scores.get event.provider with
    | none =>
      rw [Option.isSome_none,Bool.and_false,if_neg Bool.false_ne_true]
      exact adds_of_unknown hget
    | some ps =>
      rw [henabled,Option.isSome_some,Bool.true_and,if_pos rfl,← hmeasured.1]
      exact hmeasured.trans (adds_applyEvent now event)
  · simp only [henabled,Bool.false_and,Bool.false_eq_true,if_false]
    exact adds_of_scores rfl rfl

end

theorem size_newPenaltyHistory (size : ℤ) : (newPenaltyHistory size).size = historyCapacity size :=
  RingBuffer.size_new _ _ _

theorem holds_newPenaltyHistory (size : ℤ) : (newPenaltyHistory size).Holds [] :=
  RingBuffer.holds_new _ _ _

theorem historyCapacity_size (h : PenaltyHistory) : historyCapacity h.size = h.size := by
  have hpos : 0 < h.size := Nat.zero_lt_of_lt h.bound
  rw [historyCapacity,if_neg (by omega),Int.toNat_natCast]

/-- The ring of the provider, if it is registered, has the last of the penalties. -/
structure Remembers (size : ℤ) (name : String) (e : FullEngine) (log : List PenaltyRecord) :
    Prop where
  inForce : e.config.penaltyHistorySize = size
  ring : ∀ h, e.ring name = some h → h.size = historyCapacity size ∧ h.Holds log

section
variable {size : ℤ} {e : FullEngine} {name : String} {log : List PenaltyRecord}

theorem remembers_new (config : FullConfig) (hasPenaltyStore : Bool) (name : String) :
    Remembers config.penaltyHistorySize name (new config hasPenaltyStore) [] := by
  refine ⟨rfl,fun h hring => ?_⟩
  simp [FullEngine.ring,new] at hring

theorem Remembers.registerProvider (h : Remembers size name e log) (now : ℤ) (other : String)
    (priority : ℤ) : Remembers size name (e.registerProvider now other priority)
      (if other = name ∧ e.scores.get name = none then [] else log) := by
  have hconfig : (e.registerProvider now other priority).config = e.config := by
    unfold FullEngine.registerProvider
    split <;> rfl
  refine ⟨hconfig ▸ h.inForce,fun history hring => ?_⟩
  rw [FullEngine.ring,get_registerProvider] at hring
  by_cases hother : name = other
  · subst hother
    rw [if_pos rfl] at hring
    cases hget : e.scores.get name with
    | none =>
      rw [hget] at hring
      cases hring
      rw [if_pos ⟨rfl,rfl⟩,← h.inForce]
      exact ⟨size_newPenaltyHistory _,holds_newPenaltyHistory _⟩
    | some ps =>
      rw [hget] at hring
      rw [if_neg (fun hnew => Option.some_ne_none ps hnew.2)]
      apply h.ring
      rw [FullEngine.ring,hget]
      exact hring
  · rw [if_neg hother] at hring
    rw [if_neg (fun hnew => hother hnew.1.symm)]
    exact h.ring history hring

theorem Remembers.unregisterProvider (h : Remembers size name e log) (other : String) :
    Remembers size name (e.unregisterProvider other) (if other = name then [] else log) := by
  refine ⟨h.inForce,fun history hring => ?_⟩
  simp only [FullEngine.ring,FullEngine.unregisterProvider,KeyedMap.get_delete] at hring
  by_cases hother : name = other
  · subst hother
    simp at hring
  · rw [Function.update_of_ne hother] at hring
    rw [if_neg (Ne.symm hother)]
    exact h.ring history hring

theorem Remembers.recordEvent (h : Remembers size name e log) (now : ℕ → ℤ) (event : ScoreEvent) :
    Remembers size name (e.recordEvent now event)
      (if event.provider = name then log ++ e.penalties now event else log) := by
  obtain ⟨hconfig,hrings⟩ := adds_recordEvent (e := e) now event
  refine ⟨hconfig ▸ h.inForce,fun history hring => ?_⟩
  rw [hrings name] at hring
  by_cases hprovider : name = event.provider
  · subst hprovider
    rw [if_pos rfl] at hring
    obtain ⟨old,hold,rfl⟩ := Option.map_eq_some_iff.mp hring
    obtain ⟨hsize,hlog⟩ := h.ring old hold
    rw [if_pos rfl]
    exact ⟨(old.size_addAll _).trans hsize,hlog.addAll _⟩
  · rw [if_neg hprovider] at hring
    rw [if_neg (Ne.symm hprovider)]
    exact h.ring history hring

theorem ring_modifyAll (e : FullEngine) (name : String) {f : ScoreRecord → ScoreRecord}
    {g : PenaltyHistory → PenaltyHistory}
    (hname : ∀ ps, (f ps).name = ps.name) (hf : ∀ ps, (f ps).history = g ps.history) :
    ((e.scores.modifyAll f).get name).map ScoreRecord.history = (e.ring name).map g := by
  rw [KeyedMap.get_modifyAll _ hname,FullEngine.ring,Option.map_map,Option.map_map]
  congr 1
  funext ps
  exact hf ps

theorem Remembers.exec (h : Remembers size name e log) (now : ℕ → ℤ) (op : EngineOp) :
    Remembers size name (e.exec now op) (e.logStep name log now op) := by
  cases op with
  | register other priority => exact h.registerProvider (now 0) other priority
  | unregister other => exact h.unregisterProvider other
  | record event => exact h.recordEvent now event
  | decay =>
    refine ⟨h.inForce,fun history hring => h.ring history ?_⟩
    have hsame := ring_modifyAll e name (f := (·.applyDecay e.config.decayRate (now 0)))
      (g := id) (fun _ => rfl) (fun _ => rfl)
    rw [Option.map_id] at hsame
    exact hsame.symm.trans hring
  | reset =>
    refine ⟨h.inForce,fun history hring => ?_⟩
    have hclear := ring_modifyAll e name (f := (·.reset (now 0)))
      (g := fun old => newPenaltyHistory old.size) (fun _ => rfl) (fun _ => rfl)
    obtain ⟨old,hold,rfl⟩ := Option.map_eq_some_iff.mp (hclear.symm.trans hring)
    have hsize : (newPenaltyHistory old.size).size = historyCapacity size := by
      rw [size_newPenaltyHistory,historyCapacity_size,(h.ring old hold).1]
    exact ⟨hsize,holds_newPenaltyHistory _⟩

theorem Remembers.run (h : Remembers size name e log) (steps : List (EngineOp × (ℕ → ℤ))) :
    Remembers size name (e.run steps) (e.penaltyLog name log steps) := by
  induction steps generalizing e log with
  | nil => exact h
  | cons s steps ih => exact ih (h.exec s.2 s.1)

end

/-- The penalties that a registered provider reports are the last of those applied to it since it
was registered or reset, and a query finds the newest of them that pass its filters. -/
theorem penaltyHistory_query (config : FullConfig) (hasPenaltyStore : Bool)
    (steps : List (EngineOp × (ℕ → ℤ))) (name : String)
    (hregistered : (((new config hasPenaltyStore).run steps).scores.get name).isSome = true) :
    let e := (new config hasPenaltyStore).run steps
    let kept := newest (historyCapacity config.penaltyHistorySize)
      ((new config hasPenaltyStore).penaltyLog name [] steps)
    (e.getProviderStats name).map ScoreRecord.Stats.recentPenalties = some kept ∧
      ∀ pow now limit since category, e.getPenaltyHistory pow now name ⟨limit,since,category⟩ =
        some (((kept.reverse.filter fun r => (since = 0 ∨ since ≤ r.timestamp) ∧
            ∀ c ∈ category, r.penalty.category = c).take
          (min (if limit ≤ 0 then 50 else limit.toNat) 200)).map (HistoryQuery.filled fun ts =>
            computeDecayFactor pow now ts e.config.decayRate e.config.decayInterval)) := by
  intro e kept
  obtain ⟨ps,hget⟩ := Option.isSome_iff_exists.mp hregistered
  have hremembers := (remembers_new config hasPenaltyStore name).run steps
  obtain ⟨hsize,hlog⟩ := hremembers.ring ps.history (by rw [ring,hget]; rfl)
  have hkept : ps.history.snapshot = kept := by rw [hlog,hsize]
  constructor
  · rw [getProviderStats,hget]
    exact congrArg some hkept
  · intro pow now limit since category
    have hpasses : (HistoryQuery.mk limit since category).passes = fun r => decide
        ((since = 0 ∨ since ≤ r.timestamp) ∧ ∀ c ∈ category, r.penalty.category = c) := by
      funext r
      cases category <;> simp [HistoryQuery.passes,eq_comm]
    rw [getPenaltyHistory,hget,Option.map_some,hkept,HistoryQuery.collect_eq,hpasses]
    rfl

/-- One failure before a reset and three after it. -/
def failuresAroundReset : List (EngineOp × (ℕ → ℤ)) :=
  [(.register "a" 1,fun _ => 1),
    (.record { type := .operationFailed, provider := "a", timestamp := 2 },fun _ => 2),
    (.reset,fun _ => 3),
    (.record { type := .operationFailed, provider := "a", timestamp := 4 },fun _ => 4),
    (.record { type := .rateLimited, provider := "a", timestamp := 5 },fun _ => 5),
    (.record { type := .operationFailed, provider := "a", timestamp := 6 },fun _ => 6)]

theorem penaltyHistory_query_afterReset :
    (((new ⟨defaultScoringConfig,2⟩ false).run failuresAroundReset).scores.get "a").isSome = true ∧
      (((new ⟨defaultScoringConfig,2⟩ false).run failuresAroundReset).getProviderStats "a").map
        ScoreRecord.Stats.recentPenalties = some (newest 2
          ((new ⟨defaultScoringConfig,2⟩ false).penaltyLog "a" [] failuresAroundReset)) ∧
      ((new ⟨defaultScoringConfig,2⟩ false).penaltyLog "a" [] failuresAroundReset).map
        PenaltyRecord.timestamp = [4,5,6] := by
  have hregistered :
      (((new ⟨defaultScoringConfig,2⟩ false).run failuresAroundReset).scores.get "a").isSome =
        true := by decide +kernel
  exact ⟨hregistered,(penaltyHistory_query ⟨defaultScoringConfig,2⟩ false failuresAroundReset "a"
    hregistered).1,by decide +kernel⟩

end FullEngine
end ChainKit
