import ChainKit.Lib.Interpolation
import ChainKit.Scoring.Latency

/-! The statistics of the latency samples with all their fields. The samples are put in order by a
bubble sort, and a percentile is interpolated between its two neighbours. -/
namespace ChainKit
open Lib

def sortDurations (durations : List ℤ) : List ℤ := bubbleSort durations

/-- `LatencyStats`, without the time of the calculation. -/
structure CompleteStats extends FullStats where
  min : ℤ := 0
  max : ℤ := 0
  p50 : ℤ := 0
  p75 : ℤ := 0
  p90 : ℤ := 0
  p99 : ℤ := 0

/-- `calculateStats`, with all that it returns. -/
def calculateCompleteStats (samples : List ℤ) : CompleteStats :=
  if samples = [] then {} else
    let sorted := sortDurations samples
    { toLatencyStats := calculateStats samples
      min := sorted.getD 0 0
      max := sorted.getD (sorted.length-1) 0
      p50 := percentile sorted 50
      p75 := percentile sorted 75
      p90 := percentile sorted 90
      p95 := percentile sorted 95
      p99 := percentile sorted 99 }

theorem sortDurations_eq_insertionSort (samples : List ℤ) :
    sortDurations samples = samples.insertionSort (· ≤ ·) :=
  ((bubbleSort_perm samples).trans (List.perm_insertionSort _ samples).symm).eq_of_pairwise'
    (bubbleSort_sorted samples) (List.pairwise_insertionSort _ samples)

theorem sortDurations_congr {l l' : List ℤ} (h : l.Perm l') : sortDurations l = sortDurations l' :=
  (((bubbleSort_perm l).trans h).trans (bubbleSort_perm l').symm).eq_of_pairwise'
    (bubbleSort_sorted l) (bubbleSort_sorted l')

theorem calculateCompleteStats_toFullStats (samples : List ℤ) :
    (calculateCompleteStats samples).toFullStats = calculateFullStats samples := by
  unfold calculateCompleteStats
  split_ifs with hnone
  · subst hnone
    rfl
  · simp only [calculateFullStats,sortDurations_eq_insertionSort]

/-- The statistics are those of a multiset of samples. -/
theorem calculateCompleteStats_perm {l l' : List ℤ} (h : l.Perm l') :
    calculateCompleteStats l = calculateCompleteStats l' := by
  have hnil : l = [] ↔ l' = [] := by
    rw [← List.length_eq_zero_iff,← List.length_eq_zero_iff,h.length_eq]
  simp only [calculateCompleteStats,hnil,calculateStats_perm h,sortDurations_congr h]

/-- The position of a percentile among the samples in order. -/
def rank (sorted : List ℤ) (p : ℕ) : ℚ := (p : ℚ)/100*((sorted.length-1 : ℕ) : ℚ)

section
variable {sorted : List ℤ}

theorem rank_nonneg (p : ℕ) : 0 ≤ rank sorted p := by
  unfold rank
  positivity

theorem rank_mono {p q : ℕ} (h : p ≤ q) : rank sorted p ≤ rank sorted q := by
  unfold rank
  gcongr

theorem rank_le {p : ℕ} (h : p ≤ 100) : rank sorted p ≤ ((sorted.length-1 : ℕ) : ℚ) := by
  have hp : (p : ℚ)/100 ≤ 1 := by
    rw [div_le_one (by norm_num)]
    exact_mod_cast h
  exact mul_le_of_le_one_left (by positivity) hp

/-- A percentile is interpolated and truncated, at the ends as well. -/
theorem percentile_eq (hne : sorted ≠ []) {p : ℕ} (hp : p ≤ 100) :
    percentile sorted p =
      truncate (interpolate (fun i => ((sorted.getD i 0 : ℤ) : ℚ)) (rank sorted p)) := by
  unfold percentile
  rw [if_neg hne]
  split_ifs with hzero hfull
  · have hrank : rank sorted p = ((0 : ℕ) : ℚ) := by simp [rank,hzero]
    rw [hrank,interpolate_natCast,truncate_intCast]
  · have hrank : rank sorted p = ((sorted.length-1 : ℕ) : ℚ) := by
      rw [rank,le_antisymm hp hfull]
      norm_num
    rw [hrank,interpolate_natCast,truncate_intCast]
  · have hrank : (p : ℚ)/100*((sorted.length-1 : ℕ) : ℚ) = rank sorted p := rfl
    simp only [hrank,Int.floor_toNat,Int.ceil_toNat]
    split_ifs with hsame
    · obtain ⟨k,hk⟩ : ∃ k : ℕ, rank sorted p = k :=
        ⟨_,eq_floor_of_ceil_le (rank_nonneg p) hsame.ge⟩
      rw [hk,interpolate_natCast,truncate_intCast,Nat.floor_natCast]
    · rfl

theorem monotoneOn_getD (hsorted : sorted.Pairwise (· ≤ ·)) :
    MonotoneOn (fun i => ((sorted.getD i 0 : ℤ) : ℚ)) (Set.Iic (sorted.length-1)) := by
  intro i hi j hj hij
  simp only [Set.mem_Iic] at hi hj
  rcases Nat.eq_zero_or_pos sorted.length with hzero | hpos
  · have hsame : i = j := by omega
    rw [hsame]
  · simp only [List.getD_eq_getElem _ _ (show i < sorted.length by omega),
      List.getD_eq_getElem _ _ (show j < sorted.length by omega)]
    rcases hij.eq_or_lt with rfl | hlt
    · exact le_rfl
    · exact_mod_cast List.pairwise_iff_getElem.mp hsorted i j (by omega) (by omega) hlt

theorem ends_of_sorted (hsorted : sorted.Pairwise (· ≤ ·)) {x : ℤ} (hx : x ∈ sorted) :
    sorted.getD 0 0 ≤ x ∧ x ≤ sorted.getD (sorted.length-1) 0 := by
  obtain ⟨i,hi,rfl⟩ := List.getElem_of_mem hx
  have hmono := monotoneOn_getD hsorted
  have hlow := hmono (Set.mem_Iic.mpr (Nat.zero_le _)) (Set.mem_Iic.mpr (by omega)) (Nat.zero_le i)
  have hhigh := hmono (Set.mem_Iic.mpr (by omega)) (Set.mem_Iic.mpr le_rfl)
    (show i ≤ sorted.length-1 by omega)
  simp only [List.getD_eq_getElem sorted 0 hi,Int.cast_le] at hlow hhigh
  exact ⟨hlow,hhigh⟩

theorem ends_mem (hne : sorted ≠ []) :
    sorted.getD 0 0 ∈ sorted ∧ sorted.getD (sorted.length-1) 0 ∈ sorted := by
  have hpos := List.length_pos_iff.mpr hne
  rw [List.getD_eq_getElem _ _ hpos,List.getD_eq_getElem _ _ (by omega)]
  exact ⟨List.getElem_mem _,List.getElem_mem _⟩

theorem percentile_mono (hne : sorted ≠ []) (hsorted : sorted.Pairwise (· ≤ ·)) {p q : ℕ}
    (hpq : p ≤ q) (hq : q ≤ 100) : percentile sorted p ≤ percentile sorted q := by
  rw [percentile_eq hne (hpq.trans hq),percentile_eq hne hq]
  exact truncate_mono (interpolate_mono (monotoneOn_getD hsorted) (rank_nonneg p) (rank_mono hpq)
    (rank_le hq))

theorem percentile_between (hne : sorted ≠ []) (hsorted : sorted.Pairwise (· ≤ ·)) {p : ℕ}
    (hp : p ≤ 100) : sorted.getD ⌊rank sorted p⌋₊ 0 ≤ percentile sorted p ∧
      percentile sorted p ≤ sorted.getD ⌈rank sorted p⌉₊ 0 := by
  obtain ⟨hlower,hupper⟩ := interpolate_between (monotoneOn_getD hsorted) (rank_nonneg p)
    (rank_le hp)
  have hlower' := truncate_mono hlower
  have hupper' := truncate_mono hupper
  rw [truncate_intCast] at hlower' hupper'
  rw [percentile_eq hne hp]
  exact ⟨hlower',hupper'⟩

end

theorem tdiv_between (sum : ℤ) {low high : ℤ} {n : ℕ} (hn : 0 < n) (hlow : n*low ≤ sum)
    (hhigh : sum ≤ n*high) : low ≤ sum.tdiv n ∧ sum.tdiv n ≤ high := by
  have hn' : (0 : ℤ) < n := by exact_mod_cast hn
  rcases le_total 0 sum with hsum | hsum
  · rw [Int.tdiv_eq_ediv_of_nonneg hsum]
    constructor
    · rw [Int.le_ediv_iff_mul_le hn']
      linarith
    · apply Int.ediv_le_of_le_mul hn'
      linarith
  · have hneg : sum.tdiv n = -((-sum)/n) := by
      rw [← Int.tdiv_eq_ediv_of_nonneg (by omega),Int.neg_tdiv,neg_neg]
    rw [hneg]
    constructor
    · rw [le_neg]
      apply Int.ediv_le_of_le_mul hn'
      linarith
    · rw [neg_le,Int.le_ediv_iff_mul_le hn']
      linarith

/-- What is known of the order of the statistics of some samples. -/
structure CompleteStats.Ordered (samples : List ℤ) (stats : CompleteStats) : Prop where
  min_mem : stats.min ∈ samples
  min_least : ∀ s ∈ samples, stats.min ≤ s
  max_mem : stats.max ∈ samples
  max_greatest : ∀ s ∈ samples, s ≤ stats.max
  min_mean : stats.min ≤ stats.mean
  mean_max : stats.mean ≤ stats.max
  min_p50 : stats.min ≤ stats.p50
  p50_p75 : stats.p50 ≤ stats.p75
  p75_p90 : stats.p75 ≤ stats.p90
  p90_p95 : stats.p90 ≤ stats.p95
  p95_p99 : stats.p95 ≤ stats.p99
  p99_max : stats.p99 ≤ stats.max

theorem calculateCompleteStats_ordered {samples : List ℤ} (hne : samples ≠ []) :
    (calculateCompleteStats samples).Ordered samples := by
  have hperm : (sortDurations samples).Perm samples := bubbleSort_perm samples
  have hsorted : (sortDurations samples).Pairwise (· ≤ ·) := bubbleSort_sorted samples
  have hne' : sortDurations samples ≠ [] := by
    intro h
    rw [h] at hperm
    exact hne hperm.nil_eq.symm
  have hbounds : ∀ s ∈ samples, (sortDurations samples).getD 0 0 ≤ s ∧
      s ≤ (sortDurations samples).getD ((sortDurations samples).length-1) 0 :=
    fun s hs => ends_of_sorted hsorted (hperm.symm.subset hs)
  obtain ⟨hfirst,hlast⟩ := ends_mem hne'
  have hmin : percentile (sortDurations samples) 0 = (sortDurations samples).getD 0 0 := by
    simp [percentile,hne']
  have hmax : percentile (sortDurations samples) 100 =
      (sortDurations samples).getD ((sortDurations samples).length-1) 0 := by
    simp [percentile,hne']
  have hmean := tdiv_between samples.sum (List.length_pos_iff.mpr hne)
    (by simpa using List.card_nsmul_le_sum samples _ fun s hs => (hbounds s hs).1)
    (by simpa using List.sum_le_card_nsmul samples _ fun s hs => (hbounds s hs).2)
  have hmono {p q : ℕ} (hpq : p ≤ q) (hq : q ≤ 100) := percentile_mono hne' hsorted hpq hq
  simp only [calculateCompleteStats,if_neg hne]
  refine
    { min_mem := hperm.subset hfirst
      min_least := fun s hs => (hbounds s hs).1
      max_mem := hperm.subset hlast
      max_greatest := fun s hs => (hbounds s hs).2
      min_mean := ?_
      mean_max := ?_
      min_p50 := ?_
      p50_p75 := hmono (by decide) (by decide)
      p75_p90 := hmono (by decide) (by decide)
      p90_p95 := hmono (by decide) (by decide)
      p95_p99 := hmono (by decide) (by decide)
      p99_max := ?_ }
  · simp only [calculateStats,if_neg hne]
    exact hmean.1
  · simp only [calculateStats,if_neg hne]
    exact hmean.2
  · rw [← hmin]
    exact hmono (by decide) (by decide)
  · rw [← hmax]
    exact hmono (by decide) (by decide)

/-- The statistics of samples are in order, with the least and the greatest sample at the ends. The
percentiles of a list in order ascend, and each lies between its two neighbours in the list. -/
theorem latencyStats_ordered :
    (∀ samples : List ℤ, samples ≠ [] → (calculateCompleteStats samples).Ordered samples) ∧
    ∀ sorted : List ℤ, sorted ≠ [] → sorted.Pairwise (· ≤ ·) →
      (∀ p q : ℕ, p ≤ q → q ≤ 100 → percentile sorted p ≤ percentile sorted q) ∧
      ∀ p : ℕ, p ≤ 100 →
        sorted.getD ⌊(p : ℚ)/100*((sorted.length-1 : ℕ) : ℚ)⌋₊ 0 ≤ percentile sorted p ∧
        percentile sorted p ≤ sorted.getD ⌈(p : ℚ)/100*((sorted.length-1 : ℕ) : ℚ)⌉₊ 0 := by
  refine ⟨fun samples hne => calculateCompleteStats_ordered hne,?_⟩
  intro sorted hne hsorted
  exact ⟨fun p q hpq hq => percentile_mono hne hsorted hpq hq,
    fun p hp => percentile_between hne hsorted hp⟩

theorem latencyStats_ordered_three :
    (calculateCompleteStats [30,10,20]).Ordered [30,10,20] ∧
      percentile [10,20,30] 50 ≤ percentile [10,20,30] 90 :=
  ⟨latencyStats_ordered.1 [30,10,20] (by decide),
    (latencyStats_ordered.2 [10,20,30] (by decide) (by decide)).1 50 90 (by decide) (by decide)⟩

end ChainKit
