import ChainKit.Scoring.Bounds

/-! The decay of the penalties step by step: nothing gets worse, and after finitely many steps the
penalties that decay are gone. -/
namespace ChainKit
open Lib

section
variable {rate penalty : ℚ}

theorem decayPenalty_inRange (hrate : 0 ≤ rate ∧ rate ≤ 1) (h : 0 ≤ penalty) :
    InRange penalty (decayPenalty rate penalty) := inRange_decayPenalty hrate h ⟨h,le_rfl⟩

@[simp] theorem decayPenalty_zero (rate : ℚ) : decayPenalty rate 0 = 0 := by
  simp [decayPenalty]

theorem decayPenalty_of_small (hrate : 0 ≤ rate) (h : 0 ≤ penalty) (hsmall : penalty < 1/100) :
    decayPenalty rate penalty = 0 := by
  have hle : penalty*(1-rate) ≤ penalty := mul_le_of_le_one_right h (by linarith)
  rw [decayPenalty,if_pos (hle.trans_lt hsmall)]

/-- After `n` steps a penalty has decayed geometrically, or is gone. -/
theorem iterate_decayPenalty_le (hrate : 0 ≤ rate ∧ rate ≤ 1) (h : 0 ≤ penalty) (n : ℕ) :
    0 ≤ (decayPenalty rate)^[n] penalty ∧
      (decayPenalty rate)^[n] penalty ≤ penalty*(1-rate)^n := by
  have hfactor : 0 ≤ 1-rate := by linarith [hrate.2]
  induction n with
  | zero => simpa using h
  | succ n ih =>
    rw [Function.iterate_succ_apply']
    refine ⟨(decayPenalty_inRange hrate ih.1).1,?_⟩
    unfold decayPenalty
    split_ifs with hsmall
    · exact mul_nonneg h (pow_nonneg hfactor _)
    · calc (decayPenalty rate)^[n] penalty*(1-rate) ≤ penalty*(1-rate)^n*(1-rate) :=
            mul_le_mul_of_nonneg_right ih.2 hfactor
        _ = penalty*(1-rate)^(n+1) := by ring

theorem iterate_decayPenalty_of_le {m n : ℕ} (hm : (decayPenalty rate)^[m] penalty = 0)
    (hmn : m ≤ n) : (decayPenalty rate)^[n] penalty = 0 := by
  induction n,hmn using Nat.le_induction with
  | base => exact hm
  | succ n _ ih => rw [Function.iterate_succ_apply',ih,decayPenalty_zero]

theorem exists_iterate_decayPenalty_eq_zero (hrate : 0 < rate ∧ rate ≤ 1) (h : 0 ≤ penalty) :
    ∃ m, ∀ n, m ≤ n → (decayPenalty rate)^[n] penalty = 0 := by
  have hrate' : 0 ≤ rate ∧ rate ≤ 1 := ⟨hrate.1.le,hrate.2⟩
  have hbound : 0 < 1/(100*(penalty+1)) := by positivity
  obtain ⟨m,hm⟩ := exists_pow_lt_of_lt_one hbound (show 1-rate < 1 by linarith [hrate.1])
  obtain ⟨hnonneg,hle⟩ := iterate_decayPenalty_le hrate' h m
  have hpow : 0 ≤ (1-rate)^m := pow_nonneg (by linarith [hrate.2]) m
  have hsmall : penalty*(1-rate)^m < 1/100 := by
    calc penalty*(1-rate)^m ≤ (penalty+1)*(1-rate)^m :=
          mul_le_mul_of_nonneg_right (by linarith) hpow
      _ < (penalty+1)*(1/(100*(penalty+1))) := mul_lt_mul_of_pos_left hm (by linarith)
      _ = 1/100 := by field_simp
  refine ⟨m+1,fun n hn => iterate_decayPenalty_of_le ?_ hn⟩
  rw [Function.iterate_succ_apply']
  exact decayPenalty_of_small hrate'.1 hnonneg (hle.trans_lt hsmall)

end

namespace ScoreRecord

structure NonNegative (ps : ScoreRecord) : Prop where
  health : 0 ≤ ps.healthPenalty
  rateLimit : 0 ≤ ps.rateLimitPenalty
  error : 0 ≤ ps.errorPenalty

structure Recovers (before after : ScoreRecord) : Prop where
  nonNegative : after.NonNegative
  health : after.healthPenalty ≤ before.healthPenalty
  rateLimit : after.rateLimitPenalty ≤ before.rateLimitPenalty
  error : after.errorPenalty ≤ before.errorPenalty
  latency : after.latencyPenalty = before.latencyPenalty
  baseScore : after.baseScore = before.baseScore
  totalOperations : after.totalOperations = before.totalOperations
  successfulOps : after.successfulOps = before.successfulOps
  failedOps : after.failedOps = before.failedOps
  effectiveScore : before.effectiveScore ≤ after.effectiveScore

structure Recovered (ps : ScoreRecord) : Prop where
  health : ps.healthPenalty = 0
  rateLimit : ps.rateLimitPenalty = 0
  error : ps.errorPenalty = 0

def decayed (ps : ScoreRecord) (rate : ℚ) (now : ℕ → ℤ) : ℕ → ScoreRecord
  | 0 => ps
  | n+1 => (decayed ps rate now n).applyDecay rate (now n)

variable {ps : ScoreRecord} {rate : ℚ}

theorem recovers_applyDecay (hrate : 0 ≤ rate ∧ rate ≤ 1) (h : ps.NonNegative) (now : ℤ) :
    ps.Recovers (ps.applyDecay rate now) := by
  have hhealth := decayPenalty_inRange hrate h.health
  have hlimit := decayPenalty_inRange hrate h.rateLimit
  have herror := decayPenalty_inRange hrate h.error
  refine ⟨⟨hhealth.1,hlimit.1,herror.1⟩,hhealth.2,hlimit.2,herror.2,rfl,rfl,rfl,rfl,rfl,?_⟩
  simp only [ProviderScore.effectiveScore_eq,applyDecay,ProviderScore.applyDecay]
  apply max_le_max_left
  linarith [hhealth.2,hlimit.2,herror.2]

theorem decayed_penalties (ps : ScoreRecord) (rate : ℚ) (now : ℕ → ℤ) (n : ℕ) :
    (ps.decayed rate now n).healthPenalty = (decayPenalty rate)^[n] ps.healthPenalty ∧
      (ps.decayed rate now n).rateLimitPenalty = (decayPenalty rate)^[n] ps.rateLimitPenalty ∧
      (ps.decayed rate now n).errorPenalty = (decayPenalty rate)^[n] ps.errorPenalty := by
  induction n with
  | zero => exact ⟨rfl,rfl,rfl⟩
  | succ n ih =>
    obtain ⟨hhealth,hlimit,herror⟩ := ih
    simp only [Function.iterate_succ_apply',← hhealth,← hlimit,← herror]
    exact ⟨rfl,rfl,rfl⟩

theorem nonNegative_decayed (hrate : 0 ≤ rate ∧ rate ≤ 1) (h : ps.NonNegative) (now : ℕ → ℤ)
    (n : ℕ) : (ps.decayed rate now n).NonNegative := by
  induction n with
  | zero => exact h
  | succ n ih => exact (recovers_applyDecay hrate ih (now n)).nonNegative

theorem exists_recovered (hrate : 0 < rate ∧ rate ≤ 1) (h : ps.NonNegative) :
    ∃ m, ∀ n, m ≤ n → ∀ now, (ps.decayed rate now n).Recovered := by
  obtain ⟨i,hi⟩ := exists_iterate_decayPenalty_eq_zero hrate h.health
  obtain ⟨j,hj⟩ := exists_iterate_decayPenalty_eq_zero hrate h.rateLimit
  obtain ⟨k,hk⟩ := exists_iterate_decayPenalty_eq_zero hrate h.error
  refine ⟨max i (max j k),?_⟩
  intro n hn now
  obtain ⟨hhealth,hlimit,herror⟩ := decayed_penalties ps rate now n
  refine ⟨?_,?_,?_⟩
  · rw [hhealth,hi n (by omega)]
  · rw [hlimit,hj n (by omega)]
  · rw [herror,hk n (by omega)]

end ScoreRecord

namespace FullEngine

def decays (e : FullEngine) (now : ℕ → ℤ) : ℕ → FullEngine
  | 0 => e
  | n+1 => (e.decays now n).applyDecay (now n)

theorem config_decays (e : FullEngine) (now : ℕ → ℤ) (n : ℕ) :
    (e.decays now n).config = e.config := by
  induction n with
  | zero => rfl
  | succ n ih => exact ih

theorem get_decays (e : FullEngine) (now : ℕ → ℤ) (n : ℕ) (name : String) :
    (e.decays now n).scores.get name =
      (e.scores.get name).map (·.decayed e.config.decayRate now n) := by
  induction n with
  | zero => exact Option.map_id'.symm
  | succ n ih =>
    have hname (ps : ScoreRecord) :
        (ps.applyDecay e.config.decayRate (now n)).name = ps.name := rfl
    simp only [decays,applyDecay,config_decays,KeyedMap.get_modifyAll _ hname,ih,Option.map_map]
    rfl

/-- Every decay of an engine lowers the penalties of a provider without making them negative,
leaves the rest of its numbers alone and does not lower its effective score, and after finitely
many decays the penalties that decay are zero. -/
theorem decay_recovers (e : FullEngine)
    (hrate : 0 < e.config.decayRate ∧ e.config.decayRate ≤ 1) {name : String} {ps : ScoreRecord}
    (hps : e.scores.get name = some ps) (hnonNegative : ps.NonNegative) :
    (∀ now n, (e.decays now n).scores.get name = some (ps.decayed e.config.decayRate now n)) ∧
    (∀ now n, (ps.decayed e.config.decayRate now n).Recovers
      (ps.decayed e.config.decayRate now (n+1))) ∧
    ∃ m, ∀ n, m ≤ n → ∀ now, (ps.decayed e.config.decayRate now n).Recovered := by
  have hrate' : 0 ≤ e.config.decayRate ∧ e.config.decayRate ≤ 1 := ⟨hrate.1.le,hrate.2⟩
  refine ⟨?_,?_,ScoreRecord.exists_recovered hrate hnonNegative⟩
  · intro now n
    rw [get_decays,hps,Option.map_some]
  · intro now n
    exact ScoreRecord.recovers_applyDecay hrate'
      (ScoreRecord.nonNegative_decayed hrate' hnonNegative now n) (now n)

def failedOnce : FullEngine := (new ⟨defaultScoringConfig,50⟩ false).run
  [(.register "a" 1,fun _ => 1),
    (.record { type := .operationFailed, provider := "a", timestamp := 2 },fun _ => 2)]

theorem failedOnce_score : ∃ ps, failedOnce.scores.get "a" = some ps ∧ ps.healthPenalty = 0 ∧
    ps.rateLimitPenalty = 0 ∧ ps.errorPenalty = 3 := by
  have hget : (failedOnce.scores.get "a").map (fun ps =>
      (ps.healthPenalty,ps.rateLimitPenalty,ps.errorPenalty)) = some (0,0,3) := by decide +kernel
  obtain ⟨ps,hps,hpenalties⟩ := Option.map_eq_some_iff.mp hget
  simp only [Prod.mk.injEq] at hpenalties
  exact ⟨ps,hps,hpenalties⟩

theorem decay_recovers_failedOnce : ∃ ps, failedOnce.scores.get "a" = some ps ∧
    ps.errorPenalty = 3 ∧ ∃ m, ∀ n, m ≤ n → ∀ now, (ps.decayed (1/10) now n).Recovered := by
  obtain ⟨ps,hps,hhealth,hlimit,herror⟩ := failedOnce_score
  have hrate : failedOnce.config.decayRate = 1/10 := by decide +kernel
  have hrecovers := decay_recovers failedOnce (by rw [hrate]; norm_num) hps
    ⟨by rw [hhealth],by rw [hlimit],by rw [herror]; norm_num⟩
  rw [hrate] at hrecovers
  exact ⟨ps,hps,herror,hrecovers.2.2⟩

end FullEngine
end ChainKit
