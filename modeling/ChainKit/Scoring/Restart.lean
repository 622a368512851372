import ChainKit.Scoring.Alike
import ChainKit.Scoring.Reload

/-! An engine that is built on the store of another one behaves like it from then on. -/
namespace ChainKit
open Lib

namespace LatencyTracker

theorem providerSamples_sampled {l : List (String × List ℤ)} (h : (l.map Prod.fst).Nodup)
    (provider : String) : ((sampled l).lookup provider).getD [] = (l.lookup provider).getD [] := by
  induction l with
  | nil => rfl
  | cons s l ih =>
    obtain ⟨hnot,hrest⟩ := List.nodup_cons.mp h
    obtain ⟨name,samples⟩ := s
    have ih := ih hrest
    rw [sampled] at ih ⊢
    by_cases hsamples : samples = []
    · subst hsamples
      rw [List.filter_cons_of_neg (by simp),ih]
      by_cases hname : provider = name
      · subst hname
        have hnone : l.lookup provider = none := by
          rw [← Option.not_isSome_iff_eq_none,lookup_isSome]
          exact hnot
        simp [hnone]
      · have hbeq : (provider == name) = false := by simpa using hname
        simp only [List.lookup_cons,hbeq]
    · rw [List.filter_cons_of_pos (by simpa using hsamples)]
      by_cases hname : provider = name
      · simp [hname]
      · have hbeq : (provider == name) = false := by simpa using hname
        simp only [List.lookup_cons,hbeq]
        exact ih

end LatencyTracker

namespace Engine

/-- The configuration in force reached the scores and the tracker, and every provider has a
name. -/
structure Proper (config : ScoringConfig) (e : Engine) : Prop where
  inForce : e.config = config
  nameless : e.scores "" = none
  window : e.All (·.latencyWindowSize = config.latencyWindowSize)
  tracker : e.latencyTracker.windowSize = config.latencyWindowSize

end Engine

/-- The operations of the run before the save. -/
def EngineOp.Lasting : EngineOp → Prop
  | .register name _ => name ≠ ""
  | .unregister _ => False
  | .record _ => True
  | .decay => True
  | .reset => True

namespace Engine

theorem recordEvent_nameless {e : Engine} (h : e.scores "" = none) (event : ScoreEvent) :
    (e.recordEvent event).scores "" = none := by
  have hupdate {e : Engine} (h : e.scores "" = none) (name : String)
      (f : ProviderScore → ProviderScore) : (e.updateScore name f).scores "" = none := by
    by_cases hname : name = ""
    · subst hname
      simp [updateScore,h]
    · simp [updateScore,Ne.symm hname,h]
  unfold recordEvent recordLatency
  simp only [updateLatencyPenalty_eq]
  split_ifs
  · exact hupdate (hupdate (hupdate h _ _) _ _) _ _
  · exact hupdate (hupdate h _ _) _ _
  · exact hupdate h _ _
  · exact h

theorem recordEvent_window (e : Engine) (event : ScoreEvent) :
    (e.recordEvent event).latencyTracker.windowSize = e.latencyTracker.windowSize := by
  unfold recordEvent recordLatency
  simp only [updateLatencyPenalty_eq]
  split_ifs <;> rfl

theorem exec_window (e : Engine) (op : EngineOp) :
    (e.exec op).latencyTracker.windowSize = e.latencyTracker.windowSize := by
  cases op with
  | register name priority =>
    simp only [Engine.exec,registerProvider]
    split <;> rfl
  | record event => exact recordEvent_window e event
  | _ => rfl

theorem all_window_exec {e : Engine} {size : ℤ} (hconfig : e.config.latencyWindowSize = size)
    (h : e.All (·.latencyWindowSize = size)) (op : EngineOp) :
    (e.exec op).All (·.latencyWindowSize = size) := by
  cases op with
  | register name priority => exact all_registerProvider h hconfig name
  | unregister name => exact all_unregisterProvider h name
  | record event =>
    refine all_recordEvent h event (fun _ hps => hps) (fun _ _ hps => hps) ?_
    intro ps hps
    cases htype : event.type <;> exact hps
  | decay => exact all_map (f := (·.applyDecay e.config.decayRate)) h (fun _ hps => hps) _
  | reset => exact all_map (f := ProviderScore.reset) h (fun _ hps => hps) _

theorem Proper.exec {config : ScoringConfig} {e : Engine} (h : e.Proper config) {op : EngineOp}
    (hop : op.Lasting) : (e.exec op).Proper config := by
  have hnameless : (e.exec op).scores "" = none := by
    cases op with
    | register name priority =>
      have hname : name ≠ "" := hop
      simp only [Engine.exec,registerProvider]
      split
      · exact h.nameless
      · simp [hname.symm,h.nameless]
    | unregister name => exact hop.elim
    | record event => exact recordEvent_nameless h.nameless event
    | decay => simp [Engine.exec,applyDecay,h.nameless]
    | reset => simp [Engine.exec,reset,h.nameless]
  exact ⟨(exec_config e op).trans h.inForce,hnameless,
    all_window_exec (congrArg ScoringConfig.latencyWindowSize h.inForce) h.window op,
    (exec_window e op).trans h.tracker⟩

theorem Proper.run {config : ScoringConfig} {e : Engine} (h : e.Proper config)
    {ops : List EngineOp} (hops : ∀ op ∈ ops, op.Lasting) : (e.run ops).Proper config := by
  apply foldl_invariant h
  rintro before op after rfl hbefore
  exact hbefore.exec (hops op (by simp))

theorem validate_window (config : ScoringConfig) : 10 ≤ config.validate.latencyWindowSize := by
  unfold ScoringConfig.validate
  simp only
  split_ifs <;> omega

theorem window_new {windowSize : ℤ} (h : 10 ≤ windowSize) :
    (LatencyTracker.new windowSize).windowSize = windowSize := by
  rw [LatencyTracker.new,if_neg (by omega)]

theorem proper_new (config : ScoringConfig) : (Engine.new config).Proper config.validate :=
  ⟨rfl,rfl,all_new config,window_new (validate_window config)⟩

end Engine

structure Observation where
  effectiveScore : ℚ
  baseScore : ℚ
  healthPenalty : ℚ
  latencyPenalty : ℚ
  errorPenalty : ℚ
  rateLimitPenalty : ℚ
  totalOperations : ℕ
  successfulOps : ℕ
  failedOps : ℕ
  recentLatencies : List ℤ

def ProviderScore.observe (ps : ProviderScore) : Observation where
  effectiveScore := ps.effectiveScore
  baseScore := ps.baseScore
  healthPenalty := ps.healthPenalty
  latencyPenalty := ps.latencyPenalty
  errorPenalty := ps.errorPenalty
  rateLimitPenalty := ps.rateLimitPenalty
  totalOperations := ps.totalOperations
  successfulOps := ps.successfulOps
  failedOps := ps.failedOps
  recentLatencies := ps.recentLatencies

theorem Engine.Alike.observe {e e' : Engine} (h : e.Alike e') (name : String) :
    (e.scores name).map ProviderScore.observe = (e'.scores name).map ProviderScore.observe := by
  have hunranked : ProviderScore.observe = ProviderScore.observe ∘ ProviderScore.unranked := rfl
  rw [hunranked,← Option.map_map,← Option.map_map,h.scores]

namespace FullEngine

/-- The score of a provider, and its samples in the tracker. -/
def observe (e : FullEngine) (name : String) : Option Observation × List ℤ :=
  ((e.scores.get name).map (fun ps => ps.toProviderScore.observe),
    e.latencyTracker.providerSamples name)

theorem toEngine_newEngine_empty (config : FullConfig) (hasPenaltyStore : Bool) :
    (newEngine config hasPenaltyStore .empty).toEngine = .new config.toScoringConfig := by
  rw [← toEngine_new config hasPenaltyStore]
  rfl

/-- An engine and the one that is built on what it saves. -/
theorem alike_newEngine {config : FullConfig} {e : FullEngine}
    (h : e.toEngine.Proper config.validate.toScoringConfig) (hasPenaltyStore : Bool) (now : ℤ) :
    e.toEngine.Alike
      (newEngine config hasPenaltyStore (e.saveToStore now {} .empty).2).toEngine := by
  have hconfig := config_load (new config hasPenaltyStore) (e.saveToStore now {} .empty).2.reply
  refine ⟨?_,?_,⟨?_,?_⟩,e.latencyTracker.nodup,CachedTracker.nodup _⟩
  · rw [h.inForce]
    exact (congrArg FullConfig.toScoringConfig hconfig).symm
  · intro name
    have hget := get_load (new config hasPenaltyStore) (e.saveToStore now {} .empty).2 name
    rw [get_save e .empty _ rfl] at hget
    simp only [toEngine,newEngine,hget]
    by_cases hname : name = ""
    · subst hname
      have hnone : (e.scores.get "").map ScoreRecord.toProviderScore = none := h.nameless
      rw [hnone]
      simp [new]
    · cases hps : e.scores.get name with
      | none => simp [new,hname,MemoryStore.empty]
      | some ps =>
        have hwindow : ps.latencyWindowSize = config.validate.latencyWindowSize :=
          h.window name ps.toProviderScore (by simp [toEngine,hps])
        simp [new,hname,ScoreRecord.fromStoreData,ScoreRecord.toStoreData,
          ProviderScore.unranked,hwindow]
  · rw [h.tracker]
    exact (Engine.window_new (Engine.validate_window config.toScoringConfig)).symm
  · intro provider
    calc e.latencyTracker.providerSamples provider =
        ((LatencyTracker.sampled e.latencyTracker.samples).lookup provider).getD [] :=
          (LatencyTracker.providerSamples_sampled e.latencyTracker.nodup provider).symm
      _ = ((LatencyTracker.sampled (LatencyTracker.sampled e.latencyTracker.samples)).lookup
          provider).getD [] := (LatencyTracker.providerSamples_sampled
            (LatencyTracker.nodup_sampled e.latencyTracker.nodup) provider).symm
      _ = _ := rfl

/-- A restart does not show: what is observed of every provider is the same, whatever the
engines are called with afterwards and whatever the clock reads in either run. -/
theorem restart_transparent (config : FullConfig) (hasPenaltyStore : Bool)
    (before : List (EngineOp × (ℕ → ℤ))) (hbefore : ∀ s ∈ before, s.1.Lasting) (now : ℤ)
    (after : List (EngineOp × (ℕ → ℤ) × (ℕ → ℤ))) (name : String) :
    (((newEngine config hasPenaltyStore .empty).run before).run
        (after.map fun s => (s.1,s.2.1))).observe name =
      ((newEngine config hasPenaltyStore
        (((newEngine config hasPenaltyStore .empty).run before).saveToStore now {} .empty).2).run
          (after.map fun s => (s.1,s.2.2))).observe name := by
  have hproper : ((newEngine config hasPenaltyStore .empty).run before).toEngine.Proper
      config.validate.toScoringConfig := by
    rw [toEngine_run,toEngine_newEngine_empty]
    apply (Engine.proper_new config.toScoringConfig).run
    intro op hop
    obtain ⟨s,hs,rfl⟩ := List.mem_map.mp hop
    exact hbefore s hs
  have halike := (alike_newEngine hproper hasPenaltyStore now).run (after.map Prod.fst)
  have hsame (f : (ℕ → ℤ) × (ℕ → ℤ) → ℕ → ℤ) :
      (after.map fun s => (s.1,f s.2)).map Prod.fst = after.map Prod.fst := by
    rw [List.map_map]
    rfl
  have hobserve (e : FullEngine) : e.observe name =
      ((e.toEngine.scores name).map ProviderScore.observe,
        e.toEngine.latencyTracker.providerSamples name) := by
    simp [observe,toEngine,Function.comp_def]
  rw [hobserve,hobserve,toEngine_run _ (after.map fun s => (s.1,s.2.1)),
    toEngine_run _ (after.map fun s => (s.1,s.2.2)),hsame Prod.fst,hsame Prod.snd]
  exact Prod.ext (halike.observe name) (halike.tracker.samples name)

/-- A provider that has failed, and decays before and after the restart. -/
def exampleBefore : List (EngineOp × (ℕ → ℤ)) :=
  [(.register "a" 1,fun _ => 1),
    (.record { type := .operationFailed, provider := "a", timestamp := 2, responseTime := 7 },
      fun _ => 2),
    (.decay,fun _ => 3)]

def exampleAfter : List (EngineOp × (ℕ → ℤ) × (ℕ → ℤ)) :=
  [(.record { type := .healthCheckFailed, provider := "a", timestamp := 5 },fun _ => 5,fun _ => 9)]

theorem restart_transparent_failed :
    (∀ s ∈ exampleBefore, s.1.Lasting) ∧
      (((newEngine Deployment.exampleConfig false .empty).run exampleBefore).run
          (exampleAfter.map fun s => (s.1,s.2.1))).observe "a" =
        ((newEngine Deployment.exampleConfig false
          (((newEngine Deployment.exampleConfig false .empty).run exampleBefore).saveToStore
            4 {} .empty).2).run (exampleAfter.map fun s => (s.1,s.2.2))).observe "a" := by
  have hbefore : ∀ s ∈ exampleBefore, s.1.Lasting := by simp [exampleBefore,EngineOp.Lasting]
  exact ⟨hbefore,restart_transparent Deployment.exampleConfig false exampleBefore hbefore 4
    exampleAfter "a"⟩

end FullEngine
end ChainKit
