import ChainKit.Errors

/-! The configuration of a provider chain, field by field as the source declares it.
An instant is an integer, the nanoseconds since the zero `time.Time`, and so is a duration. -/
namespace ChainKit

namespace Duration
def millisecond : ℤ := 1000000
def second : ℤ := 1000*millisecond
def minute : ℤ := 60*second
end Duration

/-- A duration from a float, rounded towards zero. -/
def truncate (q : ℚ) : ℤ := q.num.tdiv q.den

theorem truncate_of_nonneg {q : ℚ} (h : 0 ≤ q) : truncate q = ⌊q⌋ := by
  rw [truncate,Int.tdiv_eq_ediv_of_nonneg (Rat.num_nonneg.mpr h),Rat.floor_def']

theorem truncate_neg (q : ℚ) : truncate (-q) = -truncate q := by
  rw [truncate,truncate,Rat.neg_num,Rat.neg_den,Int.neg_tdiv]

theorem truncate_of_nonpos {q : ℚ} (h : q ≤ 0) : truncate q = ⌈q⌉ := by
  have hneg := truncate_neg (-q)
  rw [neg_neg,truncate_of_nonneg (neg_nonneg.mpr h),Int.floor_neg,neg_neg] at hneg
  exact hneg

@[simp] theorem truncate_intCast (n : ℤ) : truncate n = n := by simp [truncate]

theorem truncate_mono : Monotone truncate := by
  intro q r h
  rcases le_total 0 q with hq | hq
  · rw [truncate_of_nonneg hq,truncate_of_nonneg (hq.trans h)]
    exact Int.floor_le_floor h
  rw [truncate_of_nonpos hq]
  rcases le_total 0 r with hr | hr
  · rw [truncate_of_nonneg hr]
    exact (Int.ceil_nonpos.mpr hq).trans (Int.floor_nonneg.mpr hr)
  · rw [truncate_of_nonpos hr]
    exact Int.ceil_le_ceil h

/-- The chain types that name a role. -/
inductive ProviderChainType
  | addressGenerators | addressValidators | feeEstimators | feeRecommenders
  | txBroadcasters | utxoFetchers | txAssemblers | txSizers | txSigners
  | txStatusFetchers | balanceFetchers | rateFetchers | historicalRateFetchers
  deriving DecidableEq, Repr

def ProviderChainType.string : ProviderChainType → String
  | .addressGenerators => "AddressGenerators"
  | .addressValidators => "AddressValidators"
  | .feeEstimators => "FeeEstimators"
  | .feeRecommenders => "FeeRecommenders"
  | .txBroadcasters => "TxBroadcasters"
  | .utxoFetchers => "UTXOFetchers"
  | .txAssemblers => "TxAssemblers"
  | .txSizers => "TxSizers"
  | .txSigners => "TxSigners"
  | .txStatusFetchers => "TxStatusFetchers"
  | .balanceFetchers => "BalanceFetchers"
  | .rateFetchers => "RateFetchers"
  | .historicalRateFetchers => "HistoricalRateFetchers"

/-- The five known strategies; `other` is any further string a configuration may carry. -/
inductive SelectionStrategy
  | priorityOnly
  | roundRobin
  | random
  | leastLoaded
  | adaptive
  | other (text : String)
  deriving DecidableEq, Repr

def SelectionStrategy.string : SelectionStrategy → String
  | .priorityOnly => "priority_only"
  | .roundRobin => "round_robin"
  | .random => "random"
  | .leastLoaded => "least_loaded"
  | .adaptive => "adaptive"
  | .other text => text

def SelectionStrategy.isValid : SelectionStrategy → Bool
  | .other _ => false
  | _ => true

structure RetryPolicy where
  enabled : Bool
  maxAttempts : ℤ
  initialDelay : ℤ
  maxDelay : ℤ
  backoffMultiplier : ℚ
  jitter : Bool
  deriving DecidableEq

structure RateLimitConfig where
  enabled : Bool
  maxRequests : ℤ
  window : ℤ
  burstSize : ℤ
  deriving DecidableEq

structure CircuitBreakerConfig where
  enabled : Bool
  failureThreshold : ℤ
  successThreshold : ℤ
  timeout : ℤ
  halfOpenMaxCalls : ℤ
  recoveryWindowDuration : ℤ
  deriving DecidableEq

structure HealthCheckConfig where
  enabled : Bool
  interval : ℤ
  timeout : ℤ
  unhealthyThreshold : ℤ
  healthyThreshold : ℤ
  deriving DecidableEq

structure ChainConfig where
  name : String
  retryPolicy : RetryPolicy
  circuitBreaker : CircuitBreakerConfig
  rateLimit : RateLimitConfig
  timeout : ℤ
  maxConcurrency : ℤ
  healthCheck : HealthCheckConfig
  selectionStrategy : SelectionStrategy
  deriving DecidableEq

open Duration in
def defaultChainConfig (chainType : ProviderChainType) : ChainConfig where
  name := chainType.string
  retryPolicy :=
    { enabled := true, maxAttempts := 3, initialDelay := 100*millisecond, maxDelay := 5*second,
      backoffMultiplier := 2, jitter := true }
  circuitBreaker :=
    { enabled := true, failureThreshold := 5, successThreshold := 3, timeout := 30*second,
      halfOpenMaxCalls := 3, recoveryWindowDuration := 60*second }
  timeout := 30*second
  maxConcurrency := 10
  healthCheck :=
    { enabled := false, interval := 60*second, timeout := 5*second,
      unhealthyThreshold := 3, healthyThreshold := 2 }
  rateLimit := { enabled := false, maxRequests := 100, window := minute, burstSize := 0 }
  selectionStrategy := .priorityOnly

def strictConfig : ChainConfig :=
  { defaultChainConfig .balanceFetchers with
    circuitBreaker := { (defaultChainConfig .balanceFetchers).circuitBreaker with
      failureThreshold := 1 } }

def noRetryConfig : ChainConfig :=
  { defaultChainConfig .balanceFetchers with
    retryPolicy := { (defaultChainConfig .balanceFetchers).retryPolicy with enabled := false } }

/-- The number of invocations one provider gets in a call: lines 322-325 of `attemptWithRetry`. -/
def RetryPolicy.attempts (policy : RetryPolicy) : ℕ :=
  if policy.enabled && decide (1 < policy.maxAttempts) then policy.maxAttempts.toNat else 1

theorem RetryPolicy.attempts_pos (policy : RetryPolicy) : 0 < policy.attempts := by
  unfold RetryPolicy.attempts
  split_ifs with h
  · simp only [Bool.and_eq_true,decide_eq_true_eq] at h
    omega
  · exact Nat.one_pos

end ChainKit
