import ChainKit.Scoring.Alike

/-! What is left of a provider that has been unregistered: its samples, which the latency tracker
keeps and compares the other providers with. -/
namespace ChainKit
open Lib

namespace LatencyTracker

theorem lookup_filter_ne (l : List (String × List ℤ)) (p other : String) :
    (l.filter (·.1 ≠ p)).lookup other = if other = p then none else l.lookup other := by
  induction l with
  | nil => simp
  | cons s l ih =>
    obtain ⟨name,samples⟩ := s
    by_cases hname : name = p
    · rw [List.filter_cons_of_neg (by simpa using hname),ih]
      split_ifs with hother
      · rfl
      · have hbeq : (other == name) = false := by
          rw [hname]
          simpa using hother
        simp only [List.lookup_cons,hbeq]
    · rw [List.filter_cons_of_pos (by simpa using hname)]
      by_cases hother : other = name
      · subst hother
        simp [hname]
      · have hbeq : (other == name) = false := by simpa using hother
        simp only [List.lookup_cons,hbeq]
        exact ih

/-- The tracker without the samples of a provider. -/
def forget (lt : LatencyTracker) (p : String) : LatencyTracker :=
  { lt with samples := lt.samples.filter (·.1 ≠ p) }

theorem nodup_forget {lt : LatencyTracker} (h : (lt.samples.map Prod.fst).Nodup) (p : String) :
    ((lt.forget p).samples.map Prod.fst).Nodup := h.sublist (List.filter_sublist.map _)

theorem same_forget {lt : LatencyTracker} {p : String} (h : lt.providerSamples p = []) :
    lt.Same (lt.forget p) := by
  refine ⟨rfl,?_⟩
  intro provider
  have hlookup := lookup_filter_ne lt.samples p provider
  by_cases hprovider : provider = p
  · subst hprovider
    rw [if_pos rfl] at hlookup
    rw [h,providerSamples,forget,hlookup]
    rfl
  · rw [if_neg hprovider] at hlookup
    rw [providerSamples,providerSamples,forget,hlookup]

end LatencyTracker

def EngineOp.Avoids (p : String) : EngineOp → Prop
  | .register name _ => name ≠ p
  | .unregister name => name ≠ p
  | .record event => event.provider ≠ p
  | .decay => True
  | .reset => True

namespace Engine

theorem providerSamples_exec {e : Engine} {p : String}
    (h : e.latencyTracker.providerSamples p = []) {op : EngineOp} (hop : op.Avoids p) :
    (e.exec op).latencyTracker.providerSamples p = [] := by
  cases op with
  | register name priority =>
    simp only [exec,registerProvider]
    split <;> exact h
  | unregister name => exact h
  | record event =>
    have hrecorded : (e.latencyTracker.recordLatency event.provider
        event.responseTime).providerSamples p = [] := by
      rw [LatencyTracker.providerSamples_recordLatency,if_neg (Ne.symm hop)]
      exact h
    simp only [exec,recordEvent,recordLatency,updateLatencyPenalty_eq]
    split_ifs
    · exact hrecorded
    · exact hrecorded
    · exact h
    · exact h
  | decay => exact h
  | reset => rfl

theorem providerSamples_run {e : Engine} {p : String}
    (h : e.latencyTracker.providerSamples p = []) {ops : List EngineOp}
    (hops : ∀ op ∈ ops, op.Avoids p) : (e.run ops).latencyTracker.providerSamples p = [] := by
  refine foldl_invariant (I := fun e : Engine => e.latencyTracker.providerSamples p = []) h ?_
  rintro before op after rfl hbefore
  exact providerSamples_exec hbefore (hops op (by simp))

end Engine

namespace FullEngine

/-- The engine as if the samples of a provider had never been taken. -/
def forget (e : FullEngine) (p : String) : FullEngine :=
  { e with
    latencyTracker := .dirty (e.latencyTracker.toLatencyTracker.forget p)
      (LatencyTracker.nodup_forget e.latencyTracker.nodup p) none }

/-- Once the provider is unregistered, the others score as if its samples were not there, and it
has no samples when it is registered again. -/
structure LeavesNoTrace (e : FullEngine) (p : String) : Prop where
  others : ∀ later : List (EngineOp × (ℕ → ℤ)), (∀ s ∈ later, s.1.Avoids p) → ∀ q, q ≠ p →
    ((e.unregisterProvider p).run later).getEffectiveScore q =
      (((e.unregisterProvider p).forget p).run later).getEffectiveScore q
  afresh : ∀ later : List (EngineOp × (ℕ → ℤ)), (∀ s ∈ later, s.1.Avoids p) → ∀ now priority,
    (((e.unregisterProvider p).run later).registerProvider now p
      priority).latencyTracker.providerSamples p = []

theorem tracker_registerProvider (e : FullEngine) (now : ℤ) (name : String) (priority : ℤ) :
    (e.registerProvider now name priority).latencyTracker = e.latencyTracker := by
  unfold registerProvider
  split <;> rfl

/-- An unregistered provider leaves no trace if and only if it has no samples in the tracker. -/
theorem leavesNoTrace_iff (e : FullEngine) (p : String) :
    e.LeavesNoTrace p ↔ e.latencyTracker.providerSamples p = [] := by
  constructor
  · intro h
    have hafresh := h.afresh [] (by simp) 0 0
    rw [tracker_registerProvider] at hafresh
    exact hafresh
  · intro h
    have hsame : (e.unregisterProvider p).toEngine.Alike
        ((e.unregisterProvider p).forget p).toEngine :=
      ⟨rfl,fun _ => rfl,LatencyTracker.same_forget h,e.latencyTracker.nodup,
        LatencyTracker.nodup_forget e.latencyTracker.nodup p⟩
    constructor
    · intro later _ q _
      rw [← getEffectiveScore_toEngine,← getEffectiveScore_toEngine,toEngine_run,toEngine_run]
      exact (hsame.run (later.map Prod.fst)).getEffectiveScore q
    · intro later hlater now priority
      have hops : ∀ op ∈ later.map Prod.fst, op.Avoids p := by
        intro op hop
        obtain ⟨s,hs,rfl⟩ := List.mem_map.mp hop
        exact hlater s hs
      have hrun := Engine.providerSamples_run (e := (e.unregisterProvider p).toEngine) h hops
      rw [← toEngine_run] at hrun
      rw [tracker_registerProvider]
      exact hrun

def fastSteps : List (EngineOp × (ℕ → ℤ)) :=
  [(.register "a" 1,fun _ => 1),(.register "b" 1,fun _ => 1)] ++
    List.replicate 9 (.record
      { type := .operationSuccess, provider := "a", timestamp := 2, responseTime := 1 },fun _ => 2)

def slowStep : EngineOp × (ℕ → ℤ) :=
  (.record { type := .operationSuccess, provider := "b", timestamp := 3, responseTime := 1000 },
    fun _ => 3)

/-- The other provider is found slow in comparison with the one that is gone, and that one has its
old samples when it is registered again. -/
theorem leaves_trace_fast :
    ((((new ⟨defaultScoringConfig,50⟩ false).run fastSteps).unregisterProvider "a").run
        [slowStep]).getEffectiveScore "b" ≠
      (((((new ⟨defaultScoringConfig,50⟩ false).run fastSteps).unregisterProvider "a").forget
        "a").run [slowStep]).getEffectiveScore "b" ∧
    ((((new ⟨defaultScoringConfig,50⟩ false).run fastSteps).unregisterProvider
      "a").registerProvider 4 "a" 1).latencyTracker.providerSamples "a" = List.replicate 9 1 := by
  constructor <;> decide +kernel

end FullEngine
end ChainKit
