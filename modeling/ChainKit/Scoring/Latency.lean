import ChainKit.Scoring.Engine

/-! The latency tracker as it is: the statistics over all providers are cached, and the engine
asks for them after every sample. -/
namespace ChainKit

/-- `percentile`, with linear interpolation. -/
def percentile (sorted : List ℤ) (p : ℕ) : ℤ :=
  if sorted = [] then 0
  else if p = 0 then sorted.getD 0 0
  else if 100 ≤ p then sorted.getD (sorted.length-1) 0
  else
    let rank : ℚ := (p : ℚ)/100*((sorted.length-1 : ℕ) : ℚ)
    let lowerIndex := ⌊rank⌋.toNat
    let upperIndex := ⌈rank⌉.toNat
    if lowerIndex = upperIndex then sorted.getD lowerIndex 0
    else
      let lower : ℚ := sorted.getD lowerIndex 0
      let upper : ℚ := sorted.getD upperIndex 0
      truncate (lower+(rank-lowerIndex)*(upper-lower))

/-- The statistics with the one percentile that the engine reads. -/
structure FullStats extends LatencyStats where
  p95 : ℤ := 0

def calculateFullStats (samples : List ℤ) : FullStats where
  toLatencyStats := calculateStats samples
  p95 := percentile (samples.insertionSort (· ≤ ·)) 95

theorem calculateStats_perm {l l' : List ℤ} (h : l.Perm l') :
    calculateStats l = calculateStats l' := by
  have hnil : l = [] ↔ l' = [] := by
    rw [← List.length_eq_zero_iff,← List.length_eq_zero_iff,h.length_eq]
  have hsquares (mean : ℤ) : (l.map (fun s => (s-mean).natAbs^2)).sum =
      (l'.map (fun s => (s-mean).natAbs^2)).sum := (h.map _).sum_eq
  simp only [calculateStats,hnil,h.sum_eq,h.length_eq,hsquares]

namespace LatencyTracker
variable {lt lt' : LatencyTracker}

theorem lookup_change (l : List (String × List ℤ)) (provider other : String)
    (f : List ℤ → List ℤ) :
    (l.map (fun s => if s.1 = provider then (s.1,f s.2) else s)).lookup other =
      (l.lookup other).map (if other = provider then f else id) := by
  induction l with
  | nil => rfl
  | cons s l ih =>
    obtain ⟨name,samples⟩ := s
    by_cases hother : other = name
    · subst hother
      by_cases hprovider : other = provider
      · simp [hprovider]
      · simp [hprovider]
    · have hbeq : (other == name) = false := by simpa using hother
      by_cases hprovider : name = provider
      · simp only [List.map_cons,if_pos hprovider,List.lookup_cons,hbeq]
        exact ih
      · simp only [List.map_cons,if_neg hprovider,List.lookup_cons,hbeq]
        exact ih

theorem lookup_isSome {l : List (String × List ℤ)} {provider : String} :
    (l.lookup provider).isSome = true ↔ provider ∈ l.map Prod.fst := by
  induction l with
  | nil => simp
  | cons s l ih =>
    obtain ⟨name,samples⟩ := s
    by_cases h : provider = name
    · simp [h]
    · have hbeq : (provider == name) = false := by simpa using h
      simp only [List.lookup_cons,hbeq,List.map_cons,List.mem_cons,h,false_or]
      exact ih

theorem providerSamples_recordLatency (lt : LatencyTracker) (provider : String) (latency : ℤ)
    (other : String) : (lt.recordLatency provider latency).providerSamples other =
      if other = provider then pushSample lt.windowSize (lt.providerSamples provider) latency
      else lt.providerSamples other := by
  unfold recordLatency providerSamples
  split_ifs with hknown hother hother
  · subst hother
    obtain ⟨samples,hsamples⟩ := Option.isSome_iff_exists.mp hknown
    rw [lookup_change lt.samples other other (pushSample lt.windowSize · latency)]
    simp [hsamples]
  · rw [lookup_change lt.samples provider other (pushSample lt.windowSize · latency)]
    simp [hother]
  · subst hother
    rw [Bool.not_eq_true,Option.isSome_eq_false_iff,Option.isNone_iff_eq_none] at hknown
    simp [List.lookup_append,hknown]
  · have hbeq : (other == provider) = false := by simpa using hother
    simp [List.lookup_append,List.lookup_cons,hbeq]

theorem nodup_recordLatency (h : (lt.samples.map Prod.fst).Nodup) (provider : String)
    (latency : ℤ) : ((lt.recordLatency provider latency).samples.map Prod.fst).Nodup := by
  unfold recordLatency
  simp only
  split_ifs with hknown
  · have hkeys : (lt.samples.map fun s => if s.1 = provider then
        (s.1,pushSample lt.windowSize s.2 latency) else s).map Prod.fst =
          lt.samples.map Prod.fst := by
      rw [List.map_map]
      apply List.map_congr_left
      intro s _
      simp only [Function.comp_apply]
      split_ifs <;> rfl
    rw [hkeys]
    exact h
  · rw [lookup_isSome] at hknown
    rw [List.map_append,List.nodup_append]
    refine ⟨h,by simp,?_⟩
    rintro name hname _ hnew rfl
    simp only [List.map_cons,List.map_nil,List.mem_singleton] at hnew
    exact hknown (hnew ▸ hname)

/-- The two trackers have the same samples of every provider, in whatever order they keep the
providers. -/
structure Same (lt lt' : LatencyTracker) : Prop where
  windowSize : lt.windowSize = lt'.windowSize
  samples : ∀ provider, lt.providerSamples provider = lt'.providerSamples provider

theorem Same.recordLatency (h : lt.Same lt') (provider : String) (latency : ℤ) :
    (lt.recordLatency provider latency).Same (lt'.recordLatency provider latency) := by
  refine ⟨h.windowSize,?_⟩
  intro other
  simp only [providerSamples_recordLatency,h.windowSize,h.samples]

def sampled (l : List (String × List ℤ)) : List (String × List ℤ) := l.filter (·.2 ≠ [])

theorem flatMap_sampled (l : List (String × List ℤ)) :
    (sampled l).flatMap Prod.snd = l.flatMap Prod.snd := by
  induction l with
  | nil => rfl
  | cons s l ih =>
    rw [sampled] at ih ⊢
    by_cases hs : s.2 = []
    · rw [List.filter_cons_of_neg (by simpa using hs),ih,List.flatMap_cons,hs,List.nil_append]
    · rw [List.filter_cons_of_pos (by simpa using hs),List.flatMap_cons,ih,List.flatMap_cons]

theorem mem_of_lookup {l : List (String × List ℤ)} (h : (l.map Prod.fst).Nodup) {provider : String}
    {samples : List ℤ} : (provider,samples) ∈ l ↔ l.lookup provider = some samples := by
  induction l with
  | nil => simp
  | cons s l ih =>
    obtain ⟨hnot,hrest⟩ := List.nodup_cons.mp h
    obtain ⟨name,window⟩ := s
    by_cases hname : provider = name
    · subst hname
      have hmem : (provider,samples) ∉ l := fun hmem => hnot (List.mem_map.mpr ⟨_,hmem,rfl⟩)
      simp [hmem,eq_comm]
    · have hbeq : (provider == name) = false := by simpa using hname
      simp [List.lookup_cons,hbeq,hname,ih hrest]

theorem Same.pooled_perm (h : lt.Same lt') (hnodup : (lt.samples.map Prod.fst).Nodup)
    (hnodup' : (lt'.samples.map Prod.fst).Nodup) :
    (lt.samples.flatMap Prod.snd).Perm (lt'.samples.flatMap Prod.snd) := by
  have hfiltered (l : List (String × List ℤ)) (hl : (l.map Prod.fst).Nodup) :
      (sampled l).Nodup := (List.Nodup.of_map Prod.fst hl).filter _
  have hmem (lt : LatencyTracker) (hlt : (lt.samples.map Prod.fst).Nodup)
      (s : String × List ℤ) : s ∈ sampled lt.samples ↔ s.2 ≠ [] ∧ lt.providerSamples s.1 = s.2 := by
    rw [sampled,List.mem_filter,mem_of_lookup hlt,providerSamples,decide_eq_true_eq]
    cases hlookup : lt.samples.lookup s.1 with
    | none => simp [eq_comm]
    | some samples => simp [and_comm]
  rw [← flatMap_sampled lt.samples,← flatMap_sampled lt'.samples]
  apply List.Perm.flatMap_right
  rw [List.perm_ext_iff_of_nodup (hfiltered _ hnodup) (hfiltered _ hnodup')]
  intro s
  rw [hmem lt hnodup,hmem lt' hnodup',h.samples]

theorem Same.getGlobalStats (h : lt.Same lt') (hnodup : (lt.samples.map Prod.fst).Nodup)
    (hnodup' : (lt'.samples.map Prod.fst).Nodup) : lt.getGlobalStats = lt'.getGlobalStats :=
  calculateStats_perm (h.pooled_perm hnodup hnodup')

theorem Same.getProviderSlownessFactor (h : lt.Same lt')
    (hnodup : (lt.samples.map Prod.fst).Nodup) (hnodup' : (lt'.samples.map Prod.fst).Nodup)
    (provider : String) :
    lt.getProviderSlownessFactor provider = lt'.getProviderSlownessFactor provider := by
  simp only [LatencyTracker.getProviderSlownessFactor,h.samples,h.getGlobalStats hnodup hnodup']

end LatencyTracker

/-- A tracker whose cached statistics, unless they are dirty, are those of its samples. -/
structure CachedTracker extends LatencyTracker where
  globalStats : Option FullStats
  statsDirty : Bool
  nodup : (samples.map Prod.fst).Nodup
  cached : statsDirty = false → ∀ stats, globalStats = some stats →
    stats = calculateFullStats (samples.flatMap Prod.snd)

namespace CachedTracker

def dirty (lt : LatencyTracker) (hnodup : (lt.samples.map Prod.fst).Nodup)
    (globalStats : Option FullStats) : CachedTracker where
  toLatencyTracker := lt
  globalStats := globalStats
  statsDirty := true
  nodup := hnodup
  cached := by simp

/-- `NewLatencyTracker`. -/
def new (windowSize : ℤ) : CachedTracker :=
  dirty (.new windowSize) (by simp [LatencyTracker.new]) none

def recordLatency (lt : CachedTracker) (provider : String) (latency : ℤ) : CachedTracker :=
  dirty (lt.toLatencyTracker.recordLatency provider latency)
    (LatencyTracker.nodup_recordLatency lt.nodup provider latency) lt.globalStats

/-- The part of `GetGlobalStats` that does not find its answer in the cache. -/
def calculate (lt : CachedTracker) : FullStats × CachedTracker :=
  if lt.samples.flatMap Prod.snd = [] then ({},lt)
  else
    let stats := calculateFullStats (lt.samples.flatMap Prod.snd)
    (stats,{ lt with
      globalStats := some stats
      statsDirty := false
      cached := by
        intro _ stats' h
        cases h
        rfl })

def getGlobalStats (lt : CachedTracker) : FullStats × CachedTracker :=
  match lt.statsDirty,lt.globalStats with
  | false,some stats => (stats,lt)
  | _,_ => lt.calculate

/-- `Reset`, which keeps the size of the window. -/
def reset (lt : CachedTracker) : CachedTracker := dirty ⟨[],lt.windowSize⟩ (by simp) none

def getProviderStats (lt : CachedTracker) (provider : String) : FullStats :=
  if lt.providerSamples provider = [] then {} else calculateFullStats (lt.providerSamples provider)

/-- `GetProviderSlownessFactor`. The samples are read first, and the statistics asked for if there
are any. -/
def getProviderSlownessFactor (lt : CachedTracker) (provider : String) : ℚ × CachedTracker :=
  let samples := lt.providerSamples provider
  if samples = [] then (0,lt)
  else
    let (globalStats,lt) := lt.getGlobalStats
    if globalStats.stdDev = 0 then (0,lt)
    else (((samples.sum.tdiv samples.length-globalStats.mean : ℤ) : ℚ)/globalStats.stdDev,lt)

variable (lt : CachedTracker)

/-- The cache does not show: it is asked for the statistics, and gives those of the samples. -/
theorem getGlobalStats_eq : lt.getGlobalStats.1.toLatencyStats =
      lt.toLatencyTracker.getGlobalStats ∧
    lt.getGlobalStats.2.toLatencyTracker = lt.toLatencyTracker := by
  have hcalculate : lt.calculate.1.toLatencyStats = lt.toLatencyTracker.getGlobalStats ∧
      lt.calculate.2.toLatencyTracker = lt.toLatencyTracker := by
    unfold calculate
    split_ifs with hnone
    · exact ⟨by simp [LatencyTracker.getGlobalStats,hnone,calculateStats],rfl⟩
    · exact ⟨rfl,rfl⟩
  unfold getGlobalStats
  split
  · rename_i stats hclean hstats
    rw [lt.cached hclean stats hstats]
    exact ⟨rfl,rfl⟩
  · exact hcalculate

theorem getProviderSlownessFactor_eq (provider : String) :
    (lt.getProviderSlownessFactor provider).1 =
      lt.toLatencyTracker.getProviderSlownessFactor provider ∧
    (lt.getProviderSlownessFactor provider).2.toLatencyTracker = lt.toLatencyTracker := by
  obtain ⟨hstats,htracker⟩ := lt.getGlobalStats_eq
  unfold getProviderSlownessFactor LatencyTracker.getProviderSlownessFactor
  simp only [← hstats]
  split_ifs
  · exact ⟨rfl,rfl⟩
  · exact ⟨rfl,htracker⟩
  · exact ⟨rfl,htracker⟩

end CachedTracker
end ChainKit
