import ChainKit.Lib.Schedule
import ChainKit.Scoring.Statistics

/-! The latency tracker under any number of goroutines. A locked section is one step. The
statistics over all providers are kept until a sample or a reset makes them stale, and they are
collected in whatever order the map of the samples is gone through. -/
namespace ChainKit
open Lib

/-- An order in which a map is gone through. -/
structure Iteration (α : Type) where
  order : List α → List α
  perm : ∀ l, (order l).Perm l

structure SharedTracker extends LatencyTracker where
  globalStats : Option CompleteStats
  statsDirty : Bool

namespace SharedTracker

/-- `NewLatencyTracker`. -/
def new (windowSize : ℤ) : SharedTracker where
  toLatencyTracker := .new windowSize
  globalStats := none
  statsDirty := true

def recordLatency (lt : SharedTracker) (provider : String) (latency : ℤ) : SharedTracker :=
  { lt with
    toLatencyTracker := lt.toLatencyTracker.recordLatency provider latency
    statsDirty := true }

/-- The part of `GetGlobalStats` that does not find its answer in the cache. The empty result is
not kept. -/
def calculate (lt : SharedTracker) (iteration : Iteration (String × List ℤ)) :
    CompleteStats × SharedTracker :=
  let allSamples := (iteration.order lt.samples).flatMap Prod.snd
  if allSamples = [] then ({},lt)
  else
    let stats := calculateCompleteStats allSamples
    (stats,{ lt with globalStats := some stats, statsDirty := false })

def getGlobalStats (lt : SharedTracker) (iteration : Iteration (String × List ℤ)) :
    CompleteStats × SharedTracker :=
  match lt.statsDirty,lt.globalStats with
  | false,some stats => (stats,lt)
  | _,_ => lt.calculate iteration

def reset (lt : SharedTracker) : SharedTracker where
  samples := []
  windowSize := lt.windowSize
  globalStats := none
  statsDirty := true

/-- `GetProviderSlownessFactor` from the call of `GetGlobalStats` on, with the samples that it has
copied before. -/
def slowness (lt : SharedTracker) (iteration : Iteration (String × List ℤ)) (samples : List ℤ) :
    ℚ × SharedTracker :=
  let (globalStats,lt) := lt.getGlobalStats iteration
  if globalStats.stdDev = 0 then (0,lt)
  else (((samples.sum.tdiv samples.length-globalStats.mean : ℤ) : ℚ)/globalStats.stdDev,lt)

def pooled (lt : SharedTracker) : List ℤ := lt.samples.flatMap Prod.snd

/-- Statistics that are not dirty are those of the samples. -/
def Fresh (lt : SharedTracker) : Prop :=
  lt.statsDirty = false → ∀ stats, lt.globalStats = some stats →
    stats = calculateCompleteStats lt.pooled

variable {lt : SharedTracker}

theorem fresh_of_dirty (h : lt.statsDirty = true) : lt.Fresh := by
  intro hclean
  rw [h] at hclean
  contradiction

theorem pooled_perm (lt : SharedTracker) (iteration : Iteration (String × List ℤ)) :
    ((iteration.order lt.samples).flatMap Prod.snd).Perm lt.pooled :=
  (iteration.perm lt.samples).flatMap_right _

/-- The answer is that of the samples, whatever the order, and the tracker stays fresh. -/
theorem getGlobalStats_spec (h : lt.Fresh) (iteration : Iteration (String × List ℤ)) :
    (lt.getGlobalStats iteration).1 = calculateCompleteStats lt.pooled ∧
      (lt.getGlobalStats iteration).2.toLatencyTracker = lt.toLatencyTracker ∧
      (lt.getGlobalStats iteration).2.Fresh := by
  have hperm := lt.pooled_perm iteration
  have hstats := calculateCompleteStats_perm hperm
  unfold getGlobalStats
  split
  · rename_i stats hclean hstats'
    exact ⟨h hclean stats hstats',rfl,h⟩
  · simp only [calculate]
    split_ifs with hnone
    · rw [hnone] at hstats
      exact ⟨hstats,rfl,h⟩
    · refine ⟨hstats,rfl,?_⟩
      intro _ stats hsome
      cases hsome
      exact hstats

/-- The tracker of the engine, which keeps the statistics that the engine reads. -/
structure Shows (lt : SharedTracker) (engineTracker : CachedTracker) : Prop where
  samples : engineTracker.toLatencyTracker = lt.toLatencyTracker
  stats : engineTracker.globalStats = lt.globalStats.map CompleteStats.toFullStats
  dirty : engineTracker.statsDirty = lt.statsDirty

theorem shows_new (windowSize : ℤ) : (new windowSize).Shows (.new windowSize) := ⟨rfl,rfl,rfl⟩

variable {engineTracker : CachedTracker}

theorem Shows.recordLatency (h : lt.Shows engineTracker) (provider : String) (latency : ℤ) :
    (lt.recordLatency provider latency).Shows (engineTracker.recordLatency provider latency) := by
  refine ⟨?_,h.stats,rfl⟩
  simp only [CachedTracker.recordLatency,CachedTracker.dirty,SharedTracker.recordLatency,h.samples]

theorem Shows.reset (h : lt.Shows engineTracker) : lt.reset.Shows engineTracker.reset := by
  refine ⟨?_,rfl,rfl⟩
  simp only [CachedTracker.reset,CachedTracker.dirty,SharedTracker.reset,h.samples]

theorem Shows.calculate (h : lt.Shows engineTracker) (iteration : Iteration (String × List ℤ)) :
    engineTracker.calculate.1 = (lt.calculate iteration).1.toFullStats ∧
      (lt.calculate iteration).2.Shows engineTracker.calculate.2 := by
  have hpooled : engineTracker.samples.flatMap Prod.snd = lt.pooled := by rw [h.samples,pooled]
  have hperm := lt.pooled_perm iteration
  have hnil : (iteration.order lt.samples).flatMap Prod.snd = [] ↔ lt.pooled = [] := by
    rw [← List.length_eq_zero_iff,← List.length_eq_zero_iff,hperm.length_eq]
  by_cases hnone : lt.pooled = []
  · have hengine : engineTracker.calculate = ({},engineTracker) := if_pos (hpooled.trans hnone)
    have hshared : lt.calculate iteration = ({},lt) := if_pos (hnil.mpr hnone)
    rw [hengine,hshared]
    exact ⟨rfl,h⟩
  · have hstats : (calculateCompleteStats ((iteration.order lt.samples).flatMap
        Prod.snd)).toFullStats = calculateFullStats (engineTracker.samples.flatMap Prod.snd) := by
      rw [calculateCompleteStats_perm hperm,calculateCompleteStats_toFullStats,hpooled]
    unfold CachedTracker.calculate SharedTracker.calculate
    simp only [if_neg (show engineTracker.samples.flatMap Prod.snd ≠ [] by rwa [hpooled]),
      if_neg (hnil.not.mpr hnone)]
    exact ⟨hstats.symm,h.samples,congrArg some hstats.symm,rfl⟩

theorem Shows.getGlobalStats (h : lt.Shows engineTracker)
    (iteration : Iteration (String × List ℤ)) :
    engineTracker.getGlobalStats.1 = (lt.getGlobalStats iteration).1.toFullStats ∧
      (lt.getGlobalStats iteration).2.Shows engineTracker.getGlobalStats.2 := by
  have hcalculate := h.calculate iteration
  unfold CachedTracker.getGlobalStats SharedTracker.getGlobalStats
  rw [h.dirty,h.stats]
  cases lt.statsDirty with
  | true => exact hcalculate
  | false =>
    cases lt.globalStats with
    | none => exact hcalculate
    | some stats => exact ⟨rfl,h⟩

end SharedTracker

/-- The tracker, and for each goroutine the samples that it has copied in
`GetProviderSlownessFactor` and not compared yet. -/
structure TrackerState (τ : Type) where
  tracker : SharedTracker
  copied : τ → Option (List ℤ)

/-- The locked sections. Those of `GetProviderSlownessFactor` are `copySamples` and `slowness`. -/
inductive TrackerAct (τ : Type)
  | recordLatency (provider : String) (latency : ℤ)
  | getGlobalStats (iteration : Iteration (String × List ℤ))
  | copySamples (t : τ) (provider : String)
  | slowness (t : τ) (iteration : Iteration (String × List ℤ))
  | reset

namespace TrackerState
variable {τ : Type} [DecidableEq τ]

def start (windowSize : ℤ) : TrackerState τ := ⟨.new windowSize,fun _ => none⟩

def step (s : TrackerState τ) : TrackerAct τ → TrackerState τ
  | .recordLatency provider latency =>
    { s with tracker := s.tracker.recordLatency provider latency }
  | .getGlobalStats iteration => { s with tracker := (s.tracker.getGlobalStats iteration).2 }
  | .copySamples t provider =>
    -- Without samples the factor is zero, and the statistics are not asked for.
    if s.tracker.providerSamples provider = [] then s
    else { s with copied := Function.update s.copied t (s.tracker.providerSamples provider) }
  | .slowness t iteration =>
    match s.copied t with
    | none => s
    | some samples =>
      { tracker := (s.tracker.slowness iteration samples).2
        copied := Function.update s.copied t none }
  | .reset => { s with tracker := s.tracker.reset }

def run (s : TrackerState τ) (acts : List (TrackerAct τ)) : TrackerState τ := acts.foldl step s

/-- What `GetGlobalStats` returns in a step, to its caller or to `GetProviderSlownessFactor`. -/
def returned (s : TrackerState τ) : TrackerAct τ → Option CompleteStats
  | .getGlobalStats iteration => some (s.tracker.getGlobalStats iteration).1
  | .slowness t iteration => (s.copied t).map fun _ => (s.tracker.getGlobalStats iteration).1
  | _ => none

variable {s : TrackerState τ}

theorem fresh_step (h : s.tracker.Fresh) (a : TrackerAct τ) : (s.step a).tracker.Fresh := by
  cases a with
  | recordLatency provider latency => exact SharedTracker.fresh_of_dirty rfl
  | getGlobalStats iteration => exact (SharedTracker.getGlobalStats_spec h iteration).2.2
  | copySamples t provider =>
    simp only [step]
    split_ifs
    · exact h
    · exact h
  | slowness t iteration =>
    have hstats := (SharedTracker.getGlobalStats_spec h iteration).2.2
    cases hcopied : s.copied t with
    | none =>
      simp only [step,hcopied]
      exact h
    | some samples =>
      simp only [step,hcopied,SharedTracker.slowness]
      split_ifs
      · exact hstats
      · exact hstats
  | reset => exact SharedTracker.fresh_of_dirty rfl

theorem fresh_run (windowSize : ℤ) (acts : List (TrackerAct τ)) :
    ((start windowSize).run acts : TrackerState τ).tracker.Fresh := by
  apply foldl_invariant (I := fun s : TrackerState τ => s.tracker.Fresh)
  · exact SharedTracker.fresh_of_dirty rfl
  · intro before a after _ h
    exact fresh_step h a

/-- What a section does to the tracker of the engine, where every call is one step. -/
def follow (s : TrackerState τ) (engineTracker : CachedTracker) : TrackerAct τ → CachedTracker
  | .recordLatency provider latency => engineTracker.recordLatency provider latency
  | .getGlobalStats _ => engineTracker.getGlobalStats.2
  | .copySamples _ _ => engineTracker
  | .slowness t _ =>
    match s.copied t with
    | none => engineTracker
    | some _ => engineTracker.getGlobalStats.2
  | .reset => engineTracker.reset

def stepBoth (p : TrackerState τ × CachedTracker) (a : TrackerAct τ) :
    TrackerState τ × CachedTracker := (p.1.step a,p.1.follow p.2 a)

theorem shows_step {engineTracker : CachedTracker} (h : s.tracker.Shows engineTracker)
    (a : TrackerAct τ) : (s.step a).tracker.Shows (s.follow engineTracker a) := by
  cases a with
  | recordLatency provider latency => exact h.recordLatency provider latency
  | getGlobalStats iteration => exact (h.getGlobalStats iteration).2
  | copySamples t provider =>
    simp only [step,follow]
    split_ifs
    · exact h
    · exact h
  | slowness t iteration =>
    have hstats := (h.getGlobalStats iteration).2
    cases hcopied : s.copied t with
    | none =>
      simp only [step,follow,hcopied]
      exact h
    | some samples =>
      simp only [step,follow,hcopied,SharedTracker.slowness]
      split_ifs
      · exact hstats
      · exact hstats
  | reset => exact h.reset

/-- The tracker of the engine shows the state of the shared one after every run. -/
theorem shows_run (windowSize : ℤ) (acts : List (TrackerAct τ)) :
    ((start windowSize).run acts : TrackerState τ).tracker.Shows
      (acts.foldl stepBoth (start windowSize,.new windowSize)).2 := by
  have hfirst (p : TrackerState τ × CachedTracker) : p.1.run acts = (acts.foldl stepBoth p).1 := by
    induction acts generalizing p with
    | nil => rfl
    | cons a acts ih => exact ih (stepBoth p a)
  rw [hfirst (start windowSize,.new windowSize)]
  apply foldl_invariant (I := fun p : TrackerState τ × CachedTracker => p.1.tracker.Shows p.2)
  · exact SharedTracker.shows_new windowSize
  · intro before a after _ h
    exact shows_step h a

/-- `GetGlobalStats` returns the statistics of the samples that the tracker holds when it is
called, taken in any order, and the empty ones when there are none, after whatever sequence of
locked sections of whichever goroutines. -/
theorem globalStats_never_stale (windowSize : ℤ) (acts : List (TrackerAct τ)) (a : TrackerAct τ)
    (stats : CompleteStats)
    (hstats : ((start windowSize).run acts).returned a = some stats) :
    (∀ samples : List ℤ, samples.Perm ((start windowSize).run acts).tracker.pooled →
      stats = calculateCompleteStats samples) ∧
    (((start windowSize).run acts).tracker.pooled = [] → stats = {}) := by
  have hfresh := fresh_run windowSize acts
  have hanswer : stats = calculateCompleteStats ((start windowSize).run acts).tracker.pooled := by
    cases a with
    | getGlobalStats iteration =>
      rw [returned,Option.some.injEq] at hstats
      rw [← hstats]
      exact (SharedTracker.getGlobalStats_spec hfresh iteration).1
    | slowness t iteration =>
      rw [returned,Option.map_eq_some_iff] at hstats
      obtain ⟨_,_,rfl⟩ := hstats
      exact (SharedTracker.getGlobalStats_spec hfresh iteration).1
    | _ => simp [returned] at hstats
  constructor
  · intro samples hperm
    rw [hanswer]
    exact (calculateCompleteStats_perm hperm).symm
  · intro hnone
    rw [hanswer,hnone]
    rfl

def backwards : Iteration (String × List ℤ) := ⟨List.reverse,List.reverse_perm⟩

/-- Two providers with one sample each, and a goroutine that compares one of them. -/
def compared : List (TrackerAct ℕ) :=
  [.recordLatency "a" 10,.copySamples 0 "a",.slowness 0 backwards,.recordLatency "b" 30]

theorem globalStats_never_stale_compared : ∃ stats,
    ((start 10).run compared).returned (.getGlobalStats backwards) = some stats ∧
      stats = calculateCompleteStats [10,30] ∧ stats.mean = 20 := by
  refine ⟨_,rfl,?_,by decide +kernel⟩
  exact (globalStats_never_stale 10 compared (.getGlobalStats backwards) _ rfl).1 [10,30]
    (by decide +kernel)

end TrackerState
end ChainKit
