import ChainKit.Scoring.Bounds
import ChainKit.Scoring.Persistence

/-! The effective score that is reported and the one that is used for the selection. The second is
cut off at zero and the first is not. -/
namespace ChainKit
open Lib

/-- The penalties of the events are not negative. The one for slowness may be anything, because
`UpdateLatencyPenalty` cuts it off. -/
structure ScoringConfig.Weighted (config : ScoringConfig) : Prop where
  healthCheckFail : 0 ≤ config.healthCheckFailPenalty
  rateLimit : 0 ≤ config.rateLimitPenalty
  authFailure : 0 ≤ config.authFailurePenalty
  operationFail : 0 ≤ config.operationFailPenalty
  timeout : 0 ≤ config.timeoutPenalty
  maxPenalty : 0 ≤ config.maxPenalty

theorem ScoringConfig.validate_decayRate (config : ScoringConfig) :
    0 ≤ config.validate.decayRate ∧ config.validate.decayRate ≤ 1 := by
  simp only [ScoringConfig.validate]
  split_ifs with h
  · norm_num
  · rw [not_or,not_lt,not_lt] at h
    exact h

section
variable {maxPenalty penalty current : ℚ}

theorem addPenalty_nonneg (hmax : 0 ≤ maxPenalty) (hpenalty : 0 ≤ penalty) (h : 0 ≤ current) :
    0 ≤ addPenalty maxPenalty current penalty := by
  unfold addPenalty
  split_ifs
  · exact hmax
  · exact add_nonneg h hpenalty

theorem applyBonus_nonneg (bonus : ℚ) (h : 0 ≤ current) : 0 ≤ applyBonus bonus current :=
  (inRange_applyBonus bonus h ⟨h,le_rfl⟩).1

theorem decayPenalty_nonneg {rate : ℚ} (hrate : 0 ≤ rate ∧ rate ≤ 1) (h : 0 ≤ current) :
    0 ≤ decayPenalty rate current :=
  (inRange_decayPenalty hrate h ⟨h,le_rfl⟩).1

end

theorem baseScore_nonneg (priority : ℤ) : 0 ≤ baseScore priority := by
  unfold baseScore
  simp only
  split_ifs with h
  · norm_num
  · linarith

namespace ProviderScore

structure Sound (ps : ProviderScore) : Prop where
  base : 0 ≤ ps.baseScore
  health : 0 ≤ ps.healthPenalty
  rateLimit : 0 ≤ ps.rateLimitPenalty
  error : 0 ≤ ps.errorPenalty
  latency : 0 ≤ ps.latencyPenalty

theorem sound_new (priority window : ℤ) : (newProviderScore priority window).Sound :=
  ⟨baseScore_nonneg priority,le_rfl,le_rfl,le_rfl,le_rfl⟩

variable {ps : ProviderScore}

theorem Sound.applyEvent (h : ps.Sound) {config : ScoringConfig} (hconfig : config.Weighted)
    (type : ScoreEventType) : (Engine.applyEvent config type ps).Sound := by
  have hmax := hconfig.maxPenalty
  cases type with
  | healthCheckFailed =>
    exact { h with health := addPenalty_nonneg hmax hconfig.healthCheckFail h.health }
  | healthCheck429 =>
    exact { h with rateLimit := addPenalty_nonneg hmax hconfig.rateLimit h.rateLimit }
  | healthCheckAuthFail =>
    exact { h with health := addPenalty_nonneg hmax hconfig.authFailure h.health }
  | healthCheckTimeout =>
    exact { h with health := addPenalty_nonneg hmax hconfig.timeout h.health }
  | operationFailed =>
    exact { h with error := addPenalty_nonneg hmax hconfig.operationFail h.error }
  | operationAuthFail =>
    exact { h with health := addPenalty_nonneg hmax hconfig.authFailure h.health }
  | operationSuccess => exact { h with error := applyBonus_nonneg _ h.error }
  | slowResponse => exact h
  | rateLimited =>
    exact { h with rateLimit := addPenalty_nonneg hmax hconfig.rateLimit h.rateLimit }

theorem Sound.updateLatencyPenalty (h : ps.Sound) (slownessFactor penaltyPerStdDev : ℚ) :
    (ps.updateLatencyPenalty slownessFactor penaltyPerStdDev).Sound := by
  refine { h with latency := ?_ }
  simp only [ProviderScore.updateLatencyPenalty]
  split_ifs with hnegative
  · exact le_rfl
  · exact not_lt.mp hnegative

theorem Sound.effectiveScore (h : ps.Sound) :
    0 ≤ ps.effectiveScore ∧ ps.effectiveScore ≤ ps.baseScore := by
  rw [effectiveScore_eq]
  refine ⟨le_max_left _ _,max_le h.base ?_⟩
  linarith [h.health,h.rateLimit,h.error,h.latency]

end ProviderScore

theorem Engine.all_sound_exec {e : Engine} (hconfig : e.config.Weighted)
    (hrate : 0 ≤ e.config.decayRate ∧ e.config.decayRate ≤ 1) (h : e.All ProviderScore.Sound)
    (op : EngineOp) : (e.exec op).All ProviderScore.Sound := by
  cases op with
  | register name priority => exact all_registerProvider h (ProviderScore.sound_new _ _) name
  | unregister name => exact all_unregisterProvider h name
  | record event =>
    exact all_recordEvent h event (fun _ hps => { hps with })
      (fun _ _ hps => hps.updateLatencyPenalty _ _) (fun _ hps => hps.applyEvent hconfig event.type)
  | decay =>
    refine all_map (f := (·.applyDecay e.config.decayRate)) h ?_ _
    intro ps hps
    exact ⟨hps.base,decayPenalty_nonneg hrate hps.health,decayPenalty_nonneg hrate hps.rateLimit,
      decayPenalty_nonneg hrate hps.error,hps.latency⟩
  | reset =>
    exact all_map (f := ProviderScore.reset) h
      (fun _ hps => ⟨hps.base,le_rfl,le_rfl,le_rfl,le_rfl⟩) _

namespace FullEngine

/-- What can be reached with weights that are not negative. A store that is loaded has what such
engines have saved, each entry from an engine of its own; the latency samples may be anything, and
either read may fail. -/
inductive Reachable : FullEngine → Prop
  | new (config : FullConfig) (hasPenaltyStore : Bool)
      (hconfig : config.toScoringConfig.Weighted) : Reachable (.new config hasPenaltyStore)
  | exec {e : FullEngine} (h : Reachable e) (now : ℕ → ℤ) (op : EngineOp) :
      Reachable (e.exec now op)
  | load {e : FullEngine} (h : Reachable e) (reply : StoreReply) (source : ScoreData → FullEngine)
      (hsource : ∀ data ∈ reply.scores.toOption, ∀ d, some d ∈ data → Reachable (source d))
      (hsaved : ∀ data ∈ reply.scores.toOption, ∀ d, some d ∈ data →
        ∃ ps ∈ (source d).scores.getAll, d = ps.toStoreData) :
      Reachable (e.loadFromStore reply).2

/-- The configuration is one of those and the scores are sound. -/
structure Healthy (e : FullEngine) : Prop where
  weighted : e.config.toScoringConfig.Weighted
  rate : 0 ≤ e.config.decayRate ∧ e.config.decayRate ≤ 1
  scores : ∀ name, ∀ ps ∈ e.scores.get name, ps.toProviderScore.Sound

section
variable {e : FullEngine}

theorem healthy_new {config : FullConfig} (hconfig : config.toScoringConfig.Weighted)
    (hasPenaltyStore : Bool) : (new config hasPenaltyStore).Healthy := by
  refine ⟨{ hconfig with },config.toScoringConfig.validate_decayRate,fun name ps hps => ?_⟩
  simp [new] at hps

theorem Healthy.exec (h : e.Healthy) (now : ℕ → ℤ) (op : EngineOp) : (e.exec now op).Healthy := by
  have hengine := toEngine_exec e now op
  have hconfig : (e.exec now op).config.toScoringConfig = e.config.toScoringConfig :=
    (congrArg Engine.config hengine).trans (Engine.exec_config _ op)
  refine ⟨by rw [hconfig]; exact h.weighted,by rw [hconfig]; exact h.rate,?_⟩
  rw [← all_toEngine,hengine]
  exact Engine.all_sound_exec h.weighted h.rate ((all_toEngine e _).mpr h.scores) op

/-- A load brings in what sound scores have left in the store. -/
theorem Healthy.load (h : e.Healthy) {reply : StoreReply}
    (hsaved : ∀ data ∈ reply.scores.toOption, ∀ d, some d ∈ data →
      ∃ ps : ScoreRecord, ps.toProviderScore.Sound ∧ d = ps.toStoreData) :
    (e.loadFromStore reply).2.Healthy := by
  refine ⟨by rw [config_load]; exact h.weighted,by rw [config_load]; exact h.rate,?_⟩
  intro name ps hps
  rw [scores_load] at hps
  cases hreply : reply.scores.toOption with
  | none =>
    rw [hreply] at hps
    exact h.scores name ps hps
  | some data =>
    rw [hreply] at hps
    rcases KeyedMap.mem_of_get_setAll hps with hmem | hold
    · simp only [loaded,List.mem_map,List.mem_filter,List.mem_filterMap,id_eq] at hmem
      obtain ⟨d,⟨⟨_,hd,rfl⟩,_⟩,rfl⟩ := hmem
      obtain ⟨old,hold,rfl⟩ := hsaved data hreply d hd
      exact { hold with }
    · exact h.scores name ps hold

theorem Reachable.healthy (h : Reachable e) : e.Healthy := by
  induction h with
  | new config hasPenaltyStore hconfig => exact healthy_new hconfig hasPenaltyStore
  | exec h now op ih => exact ih.exec now op
  | load h reply source hsource hsaved ih ihsource =>
    refine ih.load (fun data hdata d hd => ?_)
    obtain ⟨ps,hps,hd'⟩ := hsaved data hdata d hd
    exact ⟨ps,(ihsource data hdata d hd).scores ps.name ps (KeyedMap.get_of_mem_getAll hps),hd'⟩

end

/-- In every state that can be reached, the score used for the selection is between zero and the
base score, and the reported one is the same if and only if the penalties do not exceed the base
score. -/
theorem reported_iff {e : FullEngine} (h : Reachable e) {name : String}
    {stats : ScoreRecord.Stats} (hstats : e.getProviderStats name = some stats) :
    (stats.effectiveScore = e.getEffectiveScore name ∧
      (0 ≤ stats.effectiveScore ∧ stats.effectiveScore ≤ stats.baseScore) ∧
      (0 ≤ e.getEffectiveScore name ∧ e.getEffectiveScore name ≤ stats.baseScore) ↔
        stats.healthPenalty+stats.latencyPenalty+stats.errorPenalty+stats.rateLimitPenalty ≤
          stats.baseScore) ∧
    0 ≤ e.getEffectiveScore name ∧ e.getEffectiveScore name ≤ stats.baseScore := by
  obtain ⟨ps,hps,rfl⟩ := Option.map_eq_some_iff.mp hstats
  have hsound := h.healthy.scores name ps hps
  have hused : e.getEffectiveScore name = ps.effectiveScore := by rw [getEffectiveScore,hps]
  have hrange := hsound.effectiveScore
  rw [hused]
  refine ⟨⟨?_,?_⟩,hrange⟩
  · rintro ⟨_,⟨hreported,_⟩,_⟩
    simp only [ScoreRecord.getStats] at hreported ⊢
    linarith
  · intro hle
    simp only [ScoreRecord.getStats] at hle ⊢
    have heq : ps.baseScore-ps.healthPenalty-ps.latencyPenalty-ps.errorPenalty-
        ps.rateLimitPenalty = ps.effectiveScore := by
      rw [ProviderScore.effectiveScore_eq,max_eq_right (by linarith)]
    rw [heq]
    exact ⟨rfl,hrange,hrange⟩

/-- The provider of lowest priority, with the base score 10, and its events. -/
def lowest (types : List ScoreEventType) : FullEngine :=
  (new ⟨defaultScoringConfig,50⟩ false).run ((.register "a" 10,fun _ => 1) ::
    types.map fun type => (.record { type := type, provider := "a", timestamp := 2 },fun _ => 2))

theorem reachable_run {e : FullEngine} (h : Reachable e) (steps : List (EngineOp × (ℕ → ℤ))) :
    Reachable (e.run steps) := by
  induction steps generalizing e with
  | nil => exact h
  | cons s steps ih => exact ih (h.exec s.2 s.1)

theorem reachable_lowest (types : List ScoreEventType) : Reachable (lowest types) :=
  reachable_run (.new _ _ (by constructor <;> decide +kernel)) _

theorem reported_iff_failed : ∃ stats,
    (lowest [.operationFailed]).getProviderStats "a" = some stats ∧
    stats.effectiveScore = 7 ∧
    stats.effectiveScore = (lowest [.operationFailed]).getEffectiveScore "a" := by
  have hget : ((lowest [.operationFailed]).getProviderStats "a").map (fun stats =>
      (stats.effectiveScore,stats.healthPenalty+stats.latencyPenalty+stats.errorPenalty+
        stats.rateLimitPenalty,stats.baseScore)) = some (7,3,10) := by decide +kernel
  obtain ⟨stats,hstats,hnumbers⟩ := Option.map_eq_some_iff.mp hget
  simp only [Prod.mk.injEq] at hnumbers
  obtain ⟨hreported,hpenalties,hbase⟩ := hnumbers
  refine ⟨stats,hstats,hreported,((reported_iff (reachable_lowest _) hstats).1.mpr ?_).1⟩
  rw [hpenalties,hbase]
  norm_num

/-- One authentication failure: the reported score is -40, and the one used is 0. -/
theorem reported_negative : Reachable (lowest [.operationAuthFail]) ∧
    ((lowest [.operationAuthFail]).getProviderStats "a").map (·.effectiveScore) = some (-40) ∧
    (lowest [.operationAuthFail]).getEffectiveScore "a" = 0 :=
  ⟨reachable_lowest _,by decide +kernel,by decide +kernel⟩

end FullEngine
end ChainKit
