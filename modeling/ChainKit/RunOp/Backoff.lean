import ChainKit.Config

/-! The wait before a retry (`retryDelay`): exponential backoff with a cap, then the jitter. The
delay is converted to `int64` for the comparison with the cap and for the result. -/
namespace ChainKit

/-- `time.Duration` of a float: the fraction is dropped, and a value out of range becomes the least
`int64`, as on amd64. -/
def toDuration (q : ℚ) : ℤ := if -2^63 ≤ truncate q ∧ truncate q < 2^63 then truncate q else -2^63

theorem toDuration_of_fits {q : ℚ} (h0 : 0 ≤ q) (h : q < 2^63) : toDuration q = ⌊q⌋ := by
  have hnonneg : 0 ≤ ⌊q⌋ := Int.floor_nonneg.mpr h0
  have hlt : ⌊q⌋ < 2^63 := Int.floor_lt.mpr (by exact_mod_cast h)
  rw [toDuration,truncate_of_nonneg h0,if_pos ⟨by omega,hlt⟩]

theorem toDuration_of_overflow {q : ℚ} (h : 2^63 ≤ q) : toDuration q = -2^63 := by
  have hge : 2^63 ≤ ⌊q⌋ := Int.le_floor.mpr (by exact_mod_cast h)
  rw [toDuration,truncate_of_nonneg (by linarith),if_neg (by omega)]

/-- What is beyond a bound is converted to a longer duration, or it does not fit and becomes
negative. -/
theorem toDuration_of_beyond {bound : ℤ} {q : ℚ} (hbound : 0 < bound) (h : bound+1 ≤ q) :
    bound < toDuration q ∨ toDuration q < 0 := by
  rcases lt_or_ge q (2^63) with hlt | hge
  · have hpos : (0 : ℚ) < bound := by exact_mod_cast hbound
    rw [toDuration_of_fits (by linarith) hlt]
    exact .inl (Int.add_one_le_iff.mp (Int.le_floor.mpr (by exact_mod_cast h)))
  · rw [toDuration_of_overflow hge]
    exact .inr (by norm_num)

namespace RetryPolicy
variable (policy : RetryPolicy)

/-- The uncapped delay before the given attempt, where attempt 1 is the first retry. -/
def backoff (attempt : ℤ) : ℚ := policy.initialDelay*policy.backoffMultiplier^(attempt-1)

/-- The delay after the cap, lines 358-361. The comparison is made on the converted delay. -/
def cappedDelay (attempt : ℤ) : ℚ :=
  let delay := policy.backoff attempt
  if 0 < policy.maxDelay ∧ policy.maxDelay < toDuration delay then policy.maxDelay else delay

/-- `retryDelay`, in exact arithmetic and with the draw of `rand.Float64`. -/
def retryDelay (attempt : ℤ) (draw : ℚ) : ℤ :=
  let delay := policy.cappedDelay attempt
  toDuration (if policy.jitter then delay*(1+1/5*draw) else delay)

variable {policy} {attempt : ℤ} {draw : ℚ}

theorem backoff_nonneg (hi : 0 < policy.initialDelay) (hmul : 1 ≤ policy.backoffMultiplier) :
    0 ≤ policy.backoff attempt := by
  have hi' : (0 : ℚ) ≤ policy.initialDelay := by exact_mod_cast hi.le
  exact mul_nonneg hi' (zpow_nonneg (by linarith) _)

/-- A backoff that fits is capped from one nanosecond above `MaxDelay` on, since the comparison
drops the fraction. -/
theorem cappedDelay_eq (hi : 0 < policy.initialDelay) (hmul : 1 ≤ policy.backoffMultiplier)
    (hmax : 0 < policy.maxDelay) (hfits : policy.backoff attempt < 2^63) :
    policy.cappedDelay attempt =
      if (policy.maxDelay+1 : ℚ) ≤ policy.backoff attempt then (policy.maxDelay : ℚ)
      else policy.backoff attempt := by
  have hcap : policy.maxDelay < ⌊policy.backoff attempt⌋ ↔
      (policy.maxDelay+1 : ℚ) ≤ policy.backoff attempt := by
    rw [← Int.add_one_le_iff,Int.le_floor]
    push_cast
    rfl
  simp only [cappedDelay,hmax,true_and,toDuration_of_fits (backoff_nonneg hi hmul) hfits,hcap]

theorem cappedDelay_bounds (hi : 0 < policy.initialDelay) (hmul : 1 ≤ policy.backoffMultiplier)
    (hmax : 0 < policy.maxDelay) (hfits : policy.backoff attempt < 2^63) :
    min (policy.backoff attempt) policy.maxDelay ≤ policy.cappedDelay attempt ∧
      policy.cappedDelay attempt < policy.maxDelay+1 := by
  rw [cappedDelay_eq hi hmul hmax hfits]
  split_ifs with h
  · exact ⟨min_le_right _ _,by linarith⟩
  · exact ⟨min_le_left _ _,not_le.mp h⟩

theorem min_backoff_nonneg (hi : 0 < policy.initialDelay) (hmul : 1 ≤ policy.backoffMultiplier)
    (hmax : 0 < policy.maxDelay) : 0 ≤ min (policy.backoff attempt) (policy.maxDelay : ℚ) :=
  le_min (backoff_nonneg hi hmul) (by exact_mod_cast hmax.le)

theorem cappedDelay_room_iff (hi : 0 < policy.initialDelay) (hmul : 1 ≤ policy.backoffMultiplier)
    (hmax : 0 < policy.maxDelay) (hfits : policy.backoff attempt < 2^63) :
    policy.cappedDelay attempt*(6/5) ≤ policy.maxDelay+1 ↔
      policy.backoff attempt*(6/5) ≤ policy.maxDelay+1 ∨
        (policy.maxDelay+1 ≤ policy.backoff attempt ∧ policy.maxDelay ≤ 5) := by
  have hmax' : (0 : ℚ) < policy.maxDelay := by exact_mod_cast hmax
  have hfive : policy.maxDelay ≤ 5 ↔ (policy.maxDelay : ℚ) ≤ 5 := by
    constructor
    · intro h
      exact_mod_cast h
    · intro h
      exact_mod_cast h
  rw [cappedDelay_eq hi hmul hmax hfits,hfive]
  split_ifs with hcap
  · constructor
    · intro h
      exact Or.inr ⟨hcap,by linarith⟩
    · rintro (h | ⟨-,h⟩)
      · linarith
      · linarith
  · constructor
    · exact Or.inl
    · rintro (h | ⟨h,-⟩)
      · exact h
      · exact absurd h hcap

theorem retryDelay_eq : policy.retryDelay attempt draw =
    toDuration (policy.cappedDelay attempt*(if policy.jitter then 1+1/5*draw else 1)) := by
  unfold retryDelay
  split_ifs <;> simp

/-- A backoff that does not fit is not capped either, and the delay is the least `int64`. -/
theorem retryDelay_of_overflow (hmax : 0 < policy.maxDelay)
    (hover : 2^63 ≤ policy.backoff attempt) : policy.retryDelay attempt 0 = -2^63 := by
  have huncapped : policy.cappedDelay attempt = policy.backoff attempt := by
    rw [cappedDelay,toDuration_of_overflow hover,if_neg (by omega)]
  rw [retryDelay_eq,huncapped,mul_zero,add_zero,ite_self,mul_one,toDuration_of_overflow hover]

/-- Without room for a fifth more, some draw leads beyond the bound. -/
theorem exists_draw_beyond (hhigh : policy.cappedDelay attempt < policy.maxDelay+1)
    (hmax : 0 < policy.maxDelay) (hroom : policy.maxDelay+1 < policy.cappedDelay attempt*(6/5)) :
    ∃ draw : ℚ, 0 ≤ draw ∧ draw < 1 ∧
      policy.maxDelay+1 ≤ policy.cappedDelay attempt*(1+1/5*draw) := by
  have hmax' : (0 : ℚ) < policy.maxDelay := by exact_mod_cast hmax
  have hpos : 0 < policy.cappedDelay attempt := by linarith
  -- a factor short of 6/5 that already leads beyond `MaxDelay + 1`
  have hratio : (policy.maxDelay+1)/policy.cappedDelay attempt < 6/5 := by
    rw [div_lt_iff₀ hpos]
    linarith
  obtain ⟨factor,hfactor,hlt⟩ := exists_between hratio
  have hone : 1 < factor := by
    refine lt_trans ?_ hfactor
    rw [lt_div_iff₀ hpos]
    linarith
  refine ⟨5*(factor-1),by linarith,by linarith,?_⟩
  rw [show 1+1/5*(5*(factor-1)) = factor by ring]
  rw [div_lt_iff₀ hpos,mul_comm] at hfactor
  exact hfactor.le

theorem jittered_lt (hnonneg : 0 ≤ policy.cappedDelay attempt)
    (hhigh : policy.cappedDelay attempt < policy.maxDelay+1) (hmax : 0 < policy.maxDelay)
    (hroom : policy.jitter = false ∨ policy.cappedDelay attempt*(6/5) ≤ policy.maxDelay+1)
    (h1 : draw < 1) :
    policy.cappedDelay attempt*(if policy.jitter then 1+1/5*draw else 1) < policy.maxDelay+1 := by
  have hmax' : (0 : ℚ) < policy.maxDelay := by exact_mod_cast hmax
  split_ifs with hj
  · have hfifth := hroom.resolve_left (by simp [hj])
    rcases hnonneg.eq_or_lt with hzero | hpos
    · rw [← hzero]
      linarith
    · calc
        policy.cappedDelay attempt*(1+1/5*draw) < policy.cappedDelay attempt*(6/5) :=
          mul_lt_mul_of_pos_left (by linarith) hpos
        _ ≤ policy.maxDelay+1 := hfifth
  · rw [mul_one]
    exact hhigh

theorem retryDelay_mem_of_room (hi : 0 < policy.initialDelay)
    (hmul : 1 ≤ policy.backoffMultiplier) (hmax : 0 < policy.maxDelay)
    (hrange : policy.maxDelay < 2^63) (hfits : policy.backoff attempt < 2^63)
    (hroom : policy.jitter = false ∨ policy.cappedDelay attempt*(6/5) ≤ policy.maxDelay+1)
    (h0 : 0 ≤ draw) (h1 : draw < 1) :
    ⌊min (policy.backoff attempt) (policy.maxDelay : ℚ)⌋ ≤ policy.retryDelay attempt draw ∧
      policy.retryDelay attempt draw ≤ policy.maxDelay := by
  obtain ⟨hlow,hhigh⟩ := cappedDelay_bounds hi hmul hmax hfits
  have hnonneg : 0 ≤ policy.cappedDelay attempt := (min_backoff_nonneg hi hmul hmax).trans hlow
  have hgrows : policy.cappedDelay attempt ≤
      policy.cappedDelay attempt*(if policy.jitter then 1+1/5*draw else 1) := by
    split_ifs
    · exact le_mul_of_one_le_right hnonneg (by linarith)
    · rw [mul_one]
  have hlt := jittered_lt hnonneg hhigh hmax hroom h1
  have hrange' : (policy.maxDelay+1 : ℚ) ≤ 2^63 := by exact_mod_cast hrange
  rw [retryDelay_eq,toDuration_of_fits (hnonneg.trans hgrows) (hlt.trans_le hrange')]
  refine ⟨Int.floor_le_floor (hlow.trans hgrows),?_⟩
  apply Int.lt_add_one_iff.mp
  rw [Int.floor_lt]
  push_cast
  exact hlt

end RetryPolicy

/-- A delay is at least the capped exponential backoff and at most `MaxDelay` for all draws if and
only if the backoff is an `int64`, and there is no jitter, or the backoff leaves room for a fifth
more, or it is capped and a fifth of `MaxDelay` is lost in the conversion. -/
theorem retryDelay_le_maxDelay_iff (policy : RetryPolicy) (hi : 0 < policy.initialDelay)
    (hle : policy.initialDelay ≤ policy.maxDelay) (hrange : policy.maxDelay < 2^63)
    (hmul : 1 ≤ policy.backoffMultiplier) (attempt : ℤ) :
    (∀ draw : ℚ, 0 ≤ draw → draw < 1 →
      ⌊min (policy.initialDelay*policy.backoffMultiplier^(attempt-1)) (policy.maxDelay : ℚ)⌋ ≤
        policy.retryDelay attempt draw ∧ policy.retryDelay attempt draw ≤ policy.maxDelay) ↔
    policy.initialDelay*policy.backoffMultiplier^(attempt-1) < 2^63 ∧
      (policy.jitter = false ∨
        policy.initialDelay*policy.backoffMultiplier^(attempt-1)*(6/5) ≤ policy.maxDelay+1 ∨
        (policy.maxDelay+1 ≤ policy.initialDelay*policy.backoffMultiplier^(attempt-1) ∧
          policy.maxDelay ≤ 5)) := by
  have hmax : 0 < policy.maxDelay := lt_of_lt_of_le hi hle
  have hbackoff : policy.initialDelay*policy.backoffMultiplier^(attempt-1) =
    policy.backoff attempt := rfl
  rw [hbackoff]
  have hnonneg : 0 ≤ ⌊min (policy.backoff attempt) (policy.maxDelay : ℚ)⌋ :=
    Int.floor_nonneg.mpr (RetryPolicy.min_backoff_nonneg hi hmul hmax)
  constructor
  · intro h
    have hfits : policy.backoff attempt < 2^63 := by
      by_contra hover
      have hlow := (h 0 le_rfl one_pos).1
      rw [RetryPolicy.retryDelay_of_overflow hmax (not_lt.mp hover)] at hlow
      omega
    refine ⟨hfits,?_⟩
    rw [← RetryPolicy.cappedDelay_room_iff hi hmul hmax hfits]
    by_contra hnot
    rw [not_or,not_le,Bool.not_eq_false] at hnot
    obtain ⟨draw,h0,h1,hbeyond⟩ := RetryPolicy.exists_draw_beyond
      (RetryPolicy.cappedDelay_bounds hi hmul hmax hfits).2 hmax hnot.2
    have hboth := h draw h0 h1
    rw [RetryPolicy.retryDelay_eq,hnot.1,if_pos rfl] at hboth
    have hout := toDuration_of_beyond hmax hbeyond
    omega
  · rintro ⟨hfits,hroom⟩ draw h0 h1
    rw [← RetryPolicy.cappedDelay_room_iff hi hmul hmax hfits] at hroom
    exact RetryPolicy.retryDelay_mem_of_room hi hmul hmax hrange hfits hroom h0 h1

/-- The default policy: the third retry is far from the cap. -/
theorem retryDelay_le_maxDelay_default :
    400*Duration.millisecond ≤
        (defaultChainConfig .balanceFetchers).retryPolicy.retryDelay 3 (99/100) ∧
      (defaultChainConfig .balanceFetchers).retryPolicy.retryDelay 3 (99/100) ≤
        (defaultChainConfig .balanceFetchers).retryPolicy.maxDelay := by
  have hboth := (retryDelay_le_maxDelay_iff (defaultChainConfig .balanceFetchers).retryPolicy
    (by decide) (by decide) (by decide) (by norm_num [defaultChainConfig]) 3).mpr ⟨by
      norm_num [defaultChainConfig,Duration.millisecond],.inr (.inl (by
        norm_num [defaultChainConfig,Duration.millisecond,Duration.second]))⟩ (99/100)
    (by norm_num) (by norm_num)
  refine ⟨le_trans (le_of_eq ?_) hboth.1,hboth.2⟩
  norm_num [defaultChainConfig,Duration.millisecond,Duration.second]

/-- The default policy with its delay at the cap: half of the jitter leads half a second beyond
`MaxDelay`. Without jitter the thirty-eighth delay does not fit. -/
theorem retryDelay_beyond_maxDelay :
    (defaultChainConfig .balanceFetchers).retryPolicy.retryDelay 7 (1/2) =
        (defaultChainConfig .balanceFetchers).retryPolicy.maxDelay+500*Duration.millisecond ∧
      { (defaultChainConfig .balanceFetchers).retryPolicy with jitter := false }.retryDelay 38 0 =
        -2^63 := by
  decide +kernel

end ChainKit
