import ChainKit.Scoring.State

/-! Two engines that score alike go on to do so, whatever they are called with: nothing is
computed from a priority once a provider is registered, and the order in which the tracker has
the providers does not matter. -/
namespace ChainKit
open Lib

/-- A score without its priority, which is not stored and which nothing is computed from. -/
def ProviderScore.unranked (ps : ProviderScore) : ProviderScore := { ps with priority := 0 }

namespace Engine
variable {e e' : Engine}

/-- Two engines that score alike: only the priorities and the order of the samples differ. -/
structure Alike (e e' : Engine) : Prop where
  config : e.config = e'.config
  scores : ∀ name, (e.scores name).map ProviderScore.unranked =
    (e'.scores name).map ProviderScore.unranked
  tracker : e.latencyTracker.Same e'.latencyTracker
  nodup : (e.latencyTracker.samples.map Prod.fst).Nodup
  nodup' : (e'.latencyTracker.samples.map Prod.fst).Nodup

namespace Alike

theorem isSome (h : e.Alike e') (name : String) :
    (e.scores name).isSome = (e'.scores name).isSome := by
  rw [← Option.isSome_map (f := ProviderScore.unranked),h.scores,Option.isSome_map]

theorem map_scores (h : e.Alike e') {f : ProviderScore → ProviderScore}
    (hf : ∀ ps, (f ps).unranked = f ps.unranked) (name : String) :
    ((e.scores name).map f).map ProviderScore.unranked =
      ((e'.scores name).map f).map ProviderScore.unranked := by
  have hswap : ProviderScore.unranked ∘ f = f ∘ ProviderScore.unranked := funext hf
  rw [Option.map_map,Option.map_map,hswap,← Option.map_map,← Option.map_map,h.scores]

theorem updateScore (h : e.Alike e') (name : String) {f : ProviderScore → ProviderScore}
    (hf : ∀ ps, (f ps).unranked = f ps.unranked) :
    (e.updateScore name f).Alike (e'.updateScore name f) := by
  refine ⟨h.config,?_,h.tracker,h.nodup,h.nodup'⟩
  intro other
  by_cases hother : other = name
  · subst hother
    simp only [Engine.updateScore,Function.update_self]
    exact h.map_scores hf other
  · simp only [Engine.updateScore,Function.update_of_ne hother]
    exact h.scores other

theorem updateLatencyPenalty (h : e.Alike e') (name : String) :
    (e.updateLatencyPenalty name).Alike (e'.updateLatencyPenalty name) := by
  unfold Engine.updateLatencyPenalty
  rw [h.tracker.getGlobalStats h.nodup h.nodup',
    h.tracker.getProviderSlownessFactor h.nodup h.nodup',h.config]
  split_ifs
  · exact h
  · exact h.updateScore name (fun _ => rfl)

theorem recordLatency (h : e.Alike e') (name : String) (responseTime : ℤ) :
    (e.recordLatency name responseTime).Alike (e'.recordLatency name responseTime) := by
  have hsampled : Alike
      { e with latencyTracker := e.latencyTracker.recordLatency name responseTime }
      { e' with latencyTracker := e'.latencyTracker.recordLatency name responseTime } :=
    ⟨h.config,h.scores,h.tracker.recordLatency name responseTime,
      LatencyTracker.nodup_recordLatency h.nodup name responseTime,
      LatencyTracker.nodup_recordLatency h.nodup' name responseTime⟩
  exact (hsampled.updateScore name (f := (·.recordLatency responseTime))
    (fun _ => rfl)).updateLatencyPenalty name

theorem applyEvent_unranked (config : ScoringConfig) (type : ScoreEventType)
    (ps : ProviderScore) :
    (Engine.applyEvent config type ps).unranked = Engine.applyEvent config type ps.unranked := by
  cases type <;> rfl

theorem recordEvent (h : e.Alike e') (event : ScoreEvent) :
    (e.recordEvent event).Alike (e'.recordEvent event) := by
  unfold Engine.recordEvent
  rw [h.config,h.isSome]
  split_ifs with hon hlatency
  · have hrecorded := h.recordLatency event.provider event.responseTime
    simp only [hrecorded.config]
    exact hrecorded.updateScore event.provider (applyEvent_unranked _ _)
  · simp only [h.config]
    exact h.updateScore event.provider (applyEvent_unranked _ _)
  · exact h

theorem applyDecay (h : e.Alike e') : e.applyDecay.Alike e'.applyDecay := by
  refine ⟨h.config,?_,h.tracker,h.nodup,h.nodup'⟩
  intro name
  simp only [Engine.applyDecay,h.config]
  exact h.map_scores (f := (·.applyDecay e'.config.decayRate)) (fun _ => rfl) name

theorem registerProvider (h : e.Alike e') (name : String) (priority : ℤ) :
    (e.registerProvider name priority).Alike (e'.registerProvider name priority) := by
  have hknown := h.isSome name
  unfold Engine.registerProvider
  cases hname : e.scores name with
  | some ps =>
    obtain ⟨ps',hps'⟩ := Option.isSome_iff_exists.mp (hknown.symm.trans (by simp [hname]))
    simp only [hps']
    exact h
  | none =>
    have hnone : e'.scores name = none := by
      rw [← Option.isNone_iff_eq_none,← Option.not_isSome,← hknown,hname]
      rfl
    simp only [hnone,h.config]
    refine ⟨rfl,?_,h.tracker,h.nodup,h.nodup'⟩
    intro other
    by_cases hother : other = name
    · subst hother
      simp
    · simp only [Function.update_of_ne hother]
      exact h.scores other

theorem unregisterProvider (h : e.Alike e') (name : String) :
    (e.unregisterProvider name).Alike (e'.unregisterProvider name) := by
  refine ⟨h.config,?_,h.tracker,h.nodup,h.nodup'⟩
  intro other
  by_cases hother : other = name
  · subst hother
    simp [Engine.unregisterProvider]
  · simp only [Engine.unregisterProvider,Function.update_of_ne hother]
    exact h.scores other

theorem reset (h : e.Alike e') : e.reset.Alike e'.reset := by
  refine ⟨h.config,?_,⟨h.tracker.windowSize,fun _ => rfl⟩,by simp [Engine.reset],
    by simp [Engine.reset]⟩
  intro name
  exact h.map_scores (f := ProviderScore.reset) (fun _ => rfl) name

theorem exec (h : e.Alike e') (op : EngineOp) : (e.exec op).Alike (e'.exec op) := by
  cases op with
  | register name priority => exact h.registerProvider name priority
  | unregister name => exact h.unregisterProvider name
  | record event => exact h.recordEvent event
  | decay => exact h.applyDecay
  | reset => exact h.reset

theorem run (h : e.Alike e') (ops : List EngineOp) : (e.run ops).Alike (e'.run ops) := by
  induction ops generalizing e e' with
  | nil => exact h
  | cons op ops ih => exact ih (h.exec op)

theorem getEffectiveScore (h : e.Alike e') (name : String) :
    e.getEffectiveScore name = e'.getEffectiveScore name := by
  have hscore (e : Engine) : e.getEffectiveScore name =
      (((e.scores name).map ProviderScore.unranked).map ProviderScore.effectiveScore).getD 0 := by
    unfold Engine.getEffectiveScore
    cases e.scores name <;> rfl
  rw [hscore,hscore,h.scores]

end Alike
end Engine
end ChainKit
