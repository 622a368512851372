import ChainKit.Lib.Deviation
import ChainKit.Scoring.State

/-! The bounds of the penalties. Three of the four are cut off at the maximum; the one for
latency is a distance from the mean in standard deviations. Nothing cuts it off, but few samples
do not allow a large one. -/
namespace ChainKit
open Lib

/-- The penalties and thresholds are not negative, and the decay rate is a rate. -/
structure ScoringConfig.Sane (config : ScoringConfig) : Prop where
  healthCheckFail : 0 ≤ config.healthCheckFailPenalty
  rateLimit : 0 ≤ config.rateLimitPenalty
  authFailure : 0 ≤ config.authFailurePenalty
  slowResponse : 0 ≤ config.slowResponsePenalty
  operationFail : 0 ≤ config.operationFailPenalty
  timeout : 0 ≤ config.timeoutPenalty
  slowThreshold : 0 ≤ config.slowThresholdStdDev
  minSamples : 0 ≤ config.minSamplesForLatencyComparison
  maxPenalty : 0 ≤ config.maxPenalty
  decayRate : 0 ≤ config.decayRate ∧ config.decayRate ≤ 1

def InRange (maxPenalty penalty : ℚ) : Prop := 0 ≤ penalty ∧ penalty ≤ maxPenalty

section
variable {maxPenalty penalty current : ℚ}

theorem inRange_zero (h : 0 ≤ maxPenalty) : InRange maxPenalty 0 := ⟨le_rfl,h⟩

theorem inRange_addPenalty (hmax : 0 ≤ maxPenalty) (hpenalty : 0 ≤ penalty)
    (h : InRange maxPenalty current) :
    InRange maxPenalty (addPenalty maxPenalty current penalty) := by
  unfold addPenalty
  split_ifs with hover
  · exact ⟨hmax,le_rfl⟩
  · exact ⟨add_nonneg h.1 hpenalty,not_lt.mp hover⟩

theorem inRange_applyBonus (bonus : ℚ) (hmax : 0 ≤ maxPenalty) (h : InRange maxPenalty current) :
    InRange maxPenalty (applyBonus bonus current) := by
  unfold applyBonus
  split_ifs with hbonus hnegative
  · exact inRange_zero hmax
  · exact ⟨not_lt.mp hnegative,by linarith [h.2]⟩
  · exact h

theorem inRange_decayPenalty {rate : ℚ} (hrate : 0 ≤ rate ∧ rate ≤ 1) (hmax : 0 ≤ maxPenalty)
    (h : InRange maxPenalty current) : InRange maxPenalty (decayPenalty rate current) := by
  unfold decayPenalty
  split_ifs with hsmall
  · exact inRange_zero hmax
  · refine ⟨mul_nonneg h.1 (by linarith [hrate.2]),?_⟩
    calc current*(1-rate) ≤ current*1 := mul_le_mul_of_nonneg_left (by linarith [hrate.1]) h.1
      _ ≤ maxPenalty := by rw [mul_one]; exact h.2

end

namespace ProviderScore

theorem effectiveScore_eq (ps : ProviderScore) : ps.effectiveScore =
    max 0 (ps.baseScore-ps.healthPenalty-ps.latencyPenalty-ps.errorPenalty-
      ps.rateLimitPenalty) := by
  simp only [effectiveScore]
  split_ifs with hnegative
  · exact (max_eq_left hnegative.le).symm
  · exact (max_eq_right (not_lt.mp hnegative)).symm

structure Bounded (maxPenalty : ℚ) (ps : ProviderScore) : Prop where
  health : InRange maxPenalty ps.healthPenalty
  rateLimit : InRange maxPenalty ps.rateLimitPenalty
  error : InRange maxPenalty ps.errorPenalty
  latency : InRange maxPenalty ps.latencyPenalty

/-- What always holds: the latency penalty has no upper bound. -/
structure Capped (maxPenalty : ℚ) (ps : ProviderScore) : Prop where
  health : InRange maxPenalty ps.healthPenalty
  rateLimit : InRange maxPenalty ps.rateLimitPenalty
  error : InRange maxPenalty ps.errorPenalty
  latency : 0 ≤ ps.latencyPenalty

theorem Capped.bounded_iff {maxPenalty : ℚ} {ps : ProviderScore} (h : ps.Capped maxPenalty) :
    ps.Bounded maxPenalty ↔ ps.latencyPenalty ≤ maxPenalty := by
  constructor
  · intro hps
    exact hps.latency.2
  · intro hle
    exact ⟨h.health,h.rateLimit,h.error,h.latency,hle⟩

theorem capped_applyEvent {config : ScoringConfig} (hconfig : config.Sane) (type : ScoreEventType)
    {ps : ProviderScore} (h : ps.Capped config.maxPenalty) :
    (Engine.applyEvent config type ps).Capped config.maxPenalty := by
  have hmax := hconfig.maxPenalty
  cases type with
  | healthCheckFailed =>
    exact { h with health := inRange_addPenalty hmax hconfig.healthCheckFail h.health }
  | healthCheck429 =>
    exact { h with rateLimit := inRange_addPenalty hmax hconfig.rateLimit h.rateLimit }
  | healthCheckAuthFail =>
    exact { h with health := inRange_addPenalty hmax hconfig.authFailure h.health }
  | healthCheckTimeout =>
    exact { h with health := inRange_addPenalty hmax hconfig.timeout h.health }
  | operationFailed =>
    exact { h with error := inRange_addPenalty hmax hconfig.operationFail h.error }
  | operationAuthFail =>
    exact { h with health := inRange_addPenalty hmax hconfig.authFailure h.health }
  | operationSuccess => exact { h with error := inRange_applyBonus _ hmax h.error }
  | slowResponse => exact h
  | rateLimited =>
    exact { h with rateLimit := inRange_addPenalty hmax hconfig.rateLimit h.rateLimit }

end ProviderScore

theorem ScoringConfig.Sane.validate {config : ScoringConfig} (h : config.Sane) :
    config.validate.Sane := by
  have hrate : config.validate.decayRate = config.decayRate := by
    simp only [ScoringConfig.validate]
    rw [if_neg]
    rintro (hlow | hhigh)
    · exact absurd h.decayRate.1 (not_le.mpr hlow)
    · exact absurd h.decayRate.2 (not_le.mpr hhigh)
  exact { h with decayRate := by rw [hrate]; exact h.decayRate }

theorem mem_of_mem_pushSample {windowSize sample x : ℤ} {samples : List ℤ}
    (h : x ∈ pushSample windowSize samples sample) : x ∈ samples ++ [sample] := by
  unfold pushSample at h
  simp only at h
  split_ifs at h
  · exact List.mem_of_mem_drop h
  · exact h

namespace LatencyTracker

theorem providerSamples_sublist (lt : LatencyTracker) (provider : String) :
    (lt.providerSamples provider).Sublist (lt.samples.flatMap Prod.snd) := by
  unfold providerSamples
  cases hlookup : lt.samples.lookup provider with
  | none => simp
  | some own =>
    obtain ⟨before,after,hsamples,_⟩ := List.lookup_eq_some_iff.mp hlookup
    rw [hsamples,List.flatMap_append,List.flatMap_cons]
    exact (List.sublist_append_left own _).trans (List.sublist_append_right _ _)

theorem stdDev_nonneg (lt : LatencyTracker) : 0 ≤ lt.getGlobalStats.stdDev := by
  unfold getGlobalStats calculateStats
  split_ifs
  · exact le_rfl
  · exact Int.natCast_nonneg _

/-- The largest deviation that the samples allow. The standard deviation is rounded down, which is
the reason for the four. -/
theorem sq_deviation_le (lt : LatencyTracker) {provider : String}
    (hpos : ∀ x ∈ lt.providerSamples provider, 0 < x) (hown : lt.providerSamples provider ≠ [])
    (hspread : 0 < lt.getGlobalStats.stdDev)
    (habove : 0 ≤ (lt.providerSamples provider).sum.tdiv (lt.providerSamples provider).length-
      lt.getGlobalStats.mean) :
    (lt.providerSamples provider).length*((lt.providerSamples provider).sum.tdiv
        (lt.providerSamples provider).length-lt.getGlobalStats.mean)^2 ≤
      4*lt.getGlobalStats.sampleCount*lt.getGlobalStats.stdDev^2 := by
  have hsub := lt.providerSamples_sublist provider
  set own := lt.providerSamples provider
  set all := lt.samples.flatMap Prod.snd with hall
  have hne : all ≠ [] := fun hnil => hown (List.sublist_nil.mp (hnil ▸ hsub))
  have hstats : lt.getGlobalStats = calculateStats all := rfl
  simp only [hstats,calculateStats,if_neg hne] at hspread habove ⊢
  set mean := all.sum.tdiv all.length
  set dev := Nat.sqrt ((all.map fun s => (s-mean).natAbs^2).sum/all.length)
  have hsum : (own.length : ℤ)*(mean+(own.sum.tdiv own.length-mean)) ≤ own.sum := by
    rw [add_sub_cancel,Int.tdiv_eq_ediv_of_nonneg
      (List.sum_nonneg fun x hx => (hpos x hx).le)]
    exact Int.mul_ediv_self_le (by exact_mod_cast (List.length_pos_iff.mpr hown).ne')
  calc _ ≤ (all.length : ℤ)*(dev+1)^2 := (deviation_lt hsub hown habove hsum).le
    _ ≤ all.length*(2*dev)^2 := by gcongr; linarith
    _ = _ := by ring

end LatencyTracker

namespace Engine
variable {e : Engine}

/-- Whatever happens, only the latency penalty may get above the maximum. -/
theorem all_capped_exec (hconfig : e.config.Sane)
    (h : e.All (ProviderScore.Capped e.config.maxPenalty)) (op : EngineOp) :
    (e.exec op).All (ProviderScore.Capped e.config.maxPenalty) := by
  have hmax := hconfig.maxPenalty
  have hzero := inRange_zero hmax
  cases op with
  | register name priority =>
    exact all_registerProvider h ⟨hzero,hzero,hzero,le_rfl⟩ name
  | unregister name => exact all_unregisterProvider h name
  | record event =>
    refine all_recordEvent h event (fun ps hps => ⟨hps.health,hps.rateLimit,hps.error,hps.latency⟩)
      ?_ (fun ps => ProviderScore.capped_applyEvent hconfig event.type)
    intro _ ps hps
    refine ⟨hps.health,hps.rateLimit,hps.error,?_⟩
    simp only [ProviderScore.updateLatencyPenalty]
    split_ifs with hnegative
    · exact le_rfl
    · exact not_lt.mp hnegative
  | decay =>
    refine all_map (f := (·.applyDecay e.config.decayRate)) h ?_ _
    intro ps hps
    exact ⟨inRange_decayPenalty hconfig.decayRate hmax hps.health,
      inRange_decayPenalty hconfig.decayRate hmax hps.rateLimit,
      inRange_decayPenalty hconfig.decayRate hmax hps.error,hps.latency⟩
  | reset => exact all_map (f := ProviderScore.reset) h (fun _ _ => ⟨hzero,hzero,hzero,le_rfl⟩) _

theorem latencyPenalty_applyEvent (config : ScoringConfig) (type : ScoreEventType)
    (ps : ProviderScore) : (applyEvent config type ps).latencyPenalty = ps.latencyPenalty := by
  cases type <;> rfl

def SamplesPositive (e : Engine) : Prop :=
  ∀ name, ∀ x ∈ e.latencyTracker.providerSamples name, 0 < x

theorem samplesPositive_new (config : ScoringConfig) : (new config).SamplesPositive := by
  intro name x hx
  cases hx

theorem SamplesPositive.sampled (h : e.SamplesPositive) (name : String) {responseTime : ℤ}
    (hpos : 0 < responseTime) : (e.sampled name responseTime).SamplesPositive := by
  intro other x hx
  simp only [Engine.sampled,LatencyTracker.providerSamples_recordLatency] at hx
  split_ifs at hx with hother
  · rcases List.mem_append.mp (mem_of_mem_pushSample hx) with hold | hnew
    · exact h name x hold
    · exact (List.mem_singleton.mp hnew) ▸ hpos
  · exact h other x hx

theorem SamplesPositive.exec (h : e.SamplesPositive) (op : EngineOp) :
    (e.exec op).SamplesPositive := by
  cases op with
  | register name priority =>
    simp only [Engine.exec,registerProvider]
    split <;> exact h
  | record event =>
    simp only [Engine.exec,recordEvent]
    split_ifs with hon hpos
    · intro name x hx
      refine h.sampled event.provider hpos name x ?_
      rw [Engine.sampled,← latencyTracker_recordLatency]
      exact hx
    · exact h
    · exact h
  | reset =>
    intro name x hx
    cases hx
  | _ => exact h

/-- How many samples there may be, by the share that the provider has in them: the penalty for
the largest deviation that they allow is not above the maximum. -/
def FewSamples (e : Engine) (name : String) : Prop :=
  4*e.latencyTracker.getGlobalStats.sampleCount*e.config.slowResponsePenalty^2 ≤
    (e.latencyTracker.providerSamples name).length*
      (e.config.maxPenalty+e.config.slowThresholdStdDev*e.config.slowResponsePenalty)^2

instance (e : Engine) (name : String) : Decidable (e.FewSamples name) :=
  inferInstanceAs (Decidable (_ ≤ _))

instance (e : Engine) (event : ScoreEvent) : Decidable (e.Measures event) :=
  decidable_of_iff ((e.config.enabled && (e.scores event.provider).isSome) = true ∧
    0 < event.responseTime ∧ (e.sampled event.provider event.responseTime).Comparable)
    ⟨fun h => ⟨h.1,h.2.1,h.2.2⟩,fun h => ⟨h.known,h.measured,h.comparable⟩⟩

/-- An event that leads to a new latency penalty leaves few samples. -/
def ComparesFew (e : Engine) : EngineOp → Prop
  | .record event => e.Measures event →
      (e.sampled event.provider event.responseTime).FewSamples event.provider
  | _ => True

instance (e : Engine) (op : EngineOp) : Decidable (e.ComparesFew op) := by
  unfold ComparesFew
  cases op <;> infer_instance

/-- With few samples the distance from the mean, weighted, is not above the maximum and the
weighted threshold. -/
theorem FewSamples.slowness_le {name : String} (h : e.FewSamples name) (hconfig : e.config.Sane)
    (hpos : e.SamplesPositive) :
    e.latencyTracker.getProviderSlownessFactor name*e.config.slowResponsePenalty ≤
      e.config.maxPenalty+e.config.slowThresholdStdDev*e.config.slowResponsePenalty := by
  have hslow := hconfig.slowResponse
  have hbound : 0 ≤
      e.config.maxPenalty+e.config.slowThresholdStdDev*e.config.slowResponsePenalty :=
    add_nonneg hconfig.maxPenalty (mul_nonneg hconfig.slowThreshold hslow)
  unfold FewSamples at h
  have hdeviation := e.latencyTracker.sq_deviation_le (hpos name)
  unfold LatencyTracker.getProviderSlownessFactor
  set own := e.latencyTracker.providerSamples name
  set stats := e.latencyTracker.getGlobalStats
  simp only
  split_ifs with hown hflat
  · simpa using hbound
  · simpa using hbound
  · set x := own.sum.tdiv own.length-stats.mean
    have hspread : 0 < stats.stdDev := e.latencyTracker.stdDev_nonneg.lt_of_ne' hflat
    have hdev : (0 : ℚ) < stats.stdDev := by exact_mod_cast hspread
    rw [div_mul_eq_mul_div,div_le_iff₀ hdev]
    rcases le_or_gt x 0 with hbelow | habove
    · exact (mul_nonpos_of_nonpos_of_nonneg (by exact_mod_cast hbelow) hslow).trans
        (mul_nonneg hbound hdev.le)
    · have hlen : (0 : ℚ) < own.length := by exact_mod_cast List.length_pos_iff.mpr hown
      have hx : (own.length : ℚ)*x^2 ≤ 4*stats.sampleCount*stats.stdDev^2 := by
        exact_mod_cast hdeviation hown hspread habove.le
      refine le_of_sq_le_sq ?_ (mul_nonneg hbound hdev.le)
      refine le_of_mul_le_mul_left ?_ hlen
      calc (own.length : ℚ)*(x*e.config.slowResponsePenalty)^2
          = own.length*x^2*e.config.slowResponsePenalty^2 := by ring
        _ ≤ 4*stats.sampleCount*stats.stdDev^2*e.config.slowResponsePenalty^2 :=
          mul_le_mul_of_nonneg_right hx (sq_nonneg _)
        _ = 4*stats.sampleCount*e.config.slowResponsePenalty^2*stats.stdDev^2 := by ring
        _ ≤ _ := mul_le_mul_of_nonneg_right h (sq_nonneg _)
        _ = _ := by ring

theorem FewSamples.excess_le {name : String} (h : e.FewSamples name) (hconfig : e.config.Sane)
    (hpos : e.SamplesPositive) :
    e.excess name*e.config.slowResponsePenalty ≤ e.config.maxPenalty := by
  unfold excess
  simp only
  split_ifs
  · rw [zero_mul]
    exact hconfig.maxPenalty
  · linarith [h.slowness_le hconfig hpos]

theorem all_latency_exec (hconfig : e.config.Sane) (hpos : e.SamplesPositive)
    (h : e.All (·.latencyPenalty ≤ e.config.maxPenalty)) (op : EngineOp)
    (hop : e.ComparesFew op) :
    (e.exec op).All (·.latencyPenalty ≤ e.config.maxPenalty) := by
  have hmax := hconfig.maxPenalty
  cases op with
  | register name priority => exact all_registerProvider h hmax name
  | unregister name => exact all_unregisterProvider h name
  | record event =>
    refine all_recordEvent h event (fun _ hps => hps) ?_ ?_
    · intro hmeasures ps _
      simp only [ProviderScore.updateLatencyPenalty]
      split_ifs with hnegative
      · exact hmax
      · exact (hop hmeasures).excess_le hconfig
          (hpos.sampled event.provider hmeasures.measured)
    · intro ps hps
      rw [latencyPenalty_applyEvent]
      exact hps
  | decay => exact all_map (f := (·.applyDecay e.config.decayRate)) h (fun _ hps => hps) _
  | reset => exact all_map (f := ProviderScore.reset) h (fun _ _ => hmax) _

variable {config : ScoringConfig}

theorem all_capped_run (hconfig : config.Sane) (ops : List EngineOp) :
    ((new config).run ops).All (ProviderScore.Capped config.maxPenalty) := by
  refine foldl_invariant (I := All (ProviderScore.Capped config.maxPenalty)) (all_new config) ?_
  intro before op after _ h
  have hrun : (before.foldl exec (new config)).config = config.validate :=
    run_config (new config) before
  have hsane : (before.foldl exec (new config)).config.Sane := by
    rw [hrun]
    exact hconfig.validate
  have hmax : (before.foldl exec (new config)).config.maxPenalty = config.maxPenalty := by
    rw [hrun]
    rfl
  have hexec := all_capped_exec hsane (by rw [hmax]; exact h) op
  rw [hmax] at hexec
  exact hexec

/-- All four categories are in range after a run all of whose comparisons are between few
samples. -/
theorem all_bounded_run (hconfig : config.Sane) (ops : List EngineOp)
    (hfew : ∀ before op after, ops = before ++ op :: after →
      ((new config).run before).ComparesFew op) :
    ((new config).run ops).All (ProviderScore.Bounded config.maxPenalty) := by
  have hlatency : ((new config).run ops).SamplesPositive ∧
      ((new config).run ops).All (·.latencyPenalty ≤ config.maxPenalty) := by
    refine foldl_invariant
      (I := fun e : Engine =>
        e.SamplesPositive ∧ e.All (·.latencyPenalty ≤ config.maxPenalty))
      ⟨samplesPositive_new config,all_new config⟩ ?_
    rintro before op after rfl ⟨hpos,hbefore⟩
    refine ⟨hpos.exec op,?_⟩
    have hrun : (before.foldl exec (new config)).config = config.validate :=
      run_config (new config) before
    have hmax : (before.foldl exec (new config)).config.maxPenalty = config.maxPenalty := by
      rw [hrun]
      rfl
    have hexec := all_latency_exec (by rw [hrun]; exact hconfig.validate) hpos
      (by rw [hmax]; exact hbefore) op (hfew before op after rfl)
    rw [hmax] at hexec
    exact hexec
  intro name ps hps
  exact (all_capped_run hconfig ops name ps hps).bounded_iff.mpr (hlatency.2 name ps hps)

end Engine

namespace FullEngine

/-- The four penalties stay between zero and the maximum in every run in which each comparison is
between so few samples that the largest deviation they allow costs no more than the maximum. -/
theorem penalties_bounded (config : FullConfig) (hconfig : config.toScoringConfig.Sane)
    (hasPenaltyStore : Bool) (steps : List (EngineOp × (ℕ → ℤ)))
    (hfew : ∀ before s after, steps = before ++ s :: after →
      ((new config hasPenaltyStore).run before).toEngine.ComparesFew s.1) :
    ∀ name, ∀ ps ∈ ((new config hasPenaltyStore).run steps).scores.get name,
      ps.toProviderScore.Bounded config.maxPenalty := by
  simp only [← all_toEngine,toEngine_run,toEngine_new] at hfew ⊢
  refine Engine.all_bounded_run hconfig (steps.map Prod.fst) ?_
  intro before op after hsplit
  obtain ⟨before,rest,rfl,rfl,hrest⟩ := List.map_eq_append_iff.mp hsplit
  obtain ⟨s,after,rfl,rfl,_⟩ := List.map_eq_cons_iff.mp hrest
  exact hfew before s after rfl

def plainConfig : FullConfig := ⟨defaultScoringConfig,50⟩

theorem sane_plainConfig : plainConfig.toScoringConfig.Sane := by
  constructor <;> decide +kernel

/-- Nine fast answers of one provider, and one slow answer of another. -/
def slowSteps : List (EngineOp × (ℕ → ℤ)) :=
  [(.register "a" 1,fun _ => 1),(.register "b" 2,fun _ => 1)] ++
    List.replicate 9
      (.record { type := .slowResponse, provider := "a", timestamp := 2, responseTime := 1 },
        fun _ => 2) ++
    [(.record { type := .slowResponse, provider := "b", timestamp := 3, responseTime := 11 },
      fun _ => 3)]

/-- The slow provider is measured and gets a penalty for two deviations above the threshold. -/
theorem penalties_bounded_measured : plainConfig.toScoringConfig.Sane ∧
    (((new plainConfig true).run slowSteps).scores.get "b").map (·.latencyPenalty) = some 4 ∧
    ∀ name, ∀ ps ∈ ((new plainConfig true).run slowSteps).scores.get name,
      ps.toProviderScore.Bounded plainConfig.maxPenalty := by
  refine ⟨sane_plainConfig,by decide +kernel,
    penalties_bounded plainConfig sane_plainConfig true slowSteps ?_⟩
  have halong : Along (fun e s => exec e s.2 s.1) (fun e s => e.toEngine.ComparesFew s.1)
      (new plainConfig true) slowSteps := by decide +kernel
  exact along_iff.mp halong

/-- Each slow deviation costs more than the maximum. -/
def steepConfig : FullConfig := ⟨{ defaultScoringConfig with slowResponsePenalty := 100 },50⟩

theorem sane_steepConfig : steepConfig.toScoringConfig.Sane := by
  constructor <;> decide +kernel

/-- The slow provider gets a latency penalty of 200 where 90 is the maximum. -/
theorem not_bounded_slow : steepConfig.toScoringConfig.Sane ∧ steepConfig.maxPenalty = 90 ∧
    (((new steepConfig false).run slowSteps).scores.get "b").map
      (fun ps => ps.latencyPenalty) = some 200 := by
  refine ⟨sane_steepConfig,rfl,?_⟩
  decide +kernel

end FullEngine
end ChainKit
