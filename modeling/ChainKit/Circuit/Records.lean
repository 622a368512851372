import ChainKit.Circuit.History
import ChainKit.Lib.TrailingRun

/-! The legacy tracker of a provider after a history. It is kept whether or not the circuit
breaker is enabled, and no other entry has a say in it, so its fields can be told from the
records of the provider alone. -/
namespace ChainKit
open Lib
variable {ι ε : Type}

namespace TrackingOp

def IsRecord : TrackingOp → Prop
  | .check _ => False
  | _ => True

instance : (op : TrackingOp) → Decidable op.IsRecord
  | .check _ => inferInstanceAs (Decidable False)
  | .success _ _ _ => inferInstanceAs (Decidable True)
  | .failure _ _ _ _ => inferInstanceAs (Decidable True)

def isSuccess : TrackingOp → Bool
  | .success _ _ _ => true
  | _ => false

def isAuthFailure : TrackingOp → Bool
  | .failure _ err _ _ => err.isAuth
  | _ => false

def isGenericFailure (op : TrackingOp) : Bool := op.isFailure && !op.isAuthFailure

def authsSinceSuccess (ops : List TrackingOp) : ℕ :=
  (ops.reverse.takeWhile (fun op => !op.isSuccess)).countP isAuthFailure

def failedAt : TrackingOp → Option ℤ
  | .failure _ _ _ now => some now
  | _ => none

def lastFailureAt (ops : List TrackingOp) : ℤ := (ops.filterMap failedAt).getLast?.getD 0

@[simp] theorem authsSinceSuccess_nil : authsSinceSuccess [] = 0 := rfl

@[simp] theorem authsSinceSuccess_success (ops : List TrackingOp)
    (closedAt requestAt scoredAt : ℤ) :
    authsSinceSuccess (ops ++ [.success closedAt requestAt scoredAt]) = 0 := by
  simp [authsSinceSuccess,isSuccess]

theorem authsSinceSuccess_failure (ops : List TrackingOp) (metadata : Option OperationMetadata)
    (err : GoError) (responseTime now : ℤ) :
    authsSinceSuccess (ops ++ [.failure metadata err responseTime now]) =
      authsSinceSuccess ops+err.isAuth.toNat := by
  simp only [authsSinceSuccess,List.reverse_append,List.reverse_singleton,List.singleton_append]
  rw [List.takeWhile_cons_of_pos (by simp [isSuccess]),List.countP_cons]
  cases h : err.isAuth <;> simp [isAuthFailure,h]

@[simp] theorem lastFailureAt_success (ops : List TrackingOp) (closedAt requestAt scoredAt : ℤ) :
    lastFailureAt (ops ++ [.success closedAt requestAt scoredAt]) = lastFailureAt ops := by
  simp [lastFailureAt,failedAt]

@[simp] theorem lastFailureAt_failure (ops : List TrackingOp)
    (metadata : Option OperationMetadata) (err : GoError) (responseTime now : ℤ) :
    lastFailureAt (ops ++ [.failure metadata err responseTime now]) = now := by
  simp [lastFailureAt,failedAt]

end TrackingOp

namespace FailureInfo
open TrackingOp
variable (config : CircuitBreakerConfig)

def track (failure : FailureInfo) : TrackingOp → FailureInfo
  | .check now =>
    if failure.isTemporarilyDown ∧ config.timeout ≤ now-failure.lastFailureTime then failure.resume
    else failure
  | .success _ _ _ => failure.recordSuccess
  | .failure _ err _ now =>
    { failure.recordFailure config now with
      consecutiveAuthFailures := failure.consecutiveAuthFailures+err.isAuth.toNat }

def trackAll (failure : FailureInfo) (ops : List TrackingOp) : FailureInfo :=
  ops.foldl (fun failure op => failure.track config op) failure

@[simp] theorem trackAll_concat (failure : FailureInfo) (ops : List TrackingOp) (op : TrackingOp) :
    failure.trackAll config (ops ++ [op]) = (failure.trackAll config ops).track config op := by
  simp [trackAll]

structure Tells (ops : List TrackingOp) (failure : FailureInfo) : Prop where
  failures : failure.consecutiveFailures = trailingRun (ops.map isFailure)
  auths : failure.consecutiveAuthFailures = authsSinceSuccess ops
  down : failure.isTemporarilyDown = true ↔ 0 < trailingRun (ops.map isFailure) ∧
    config.failureThreshold ≤ (trailingRun (ops.map isFailure) : ℕ)
  last : failure.lastFailureTime = lastFailureAt ops

variable {config} {ops : List TrackingOp} {failure : FailureInfo}

theorem Tells.success (h : failure.Tells config ops) (closedAt requestAt scoredAt : ℤ) :
    failure.recordSuccess.Tells config (ops ++ [.success closedAt requestAt scoredAt]) where
  failures := by simp [recordSuccess,isFailure]
  auths := by simp [recordSuccess]
  down := by simp [recordSuccess,isFailure]
  last := by simp [recordSuccess,h.last]

theorem Tells.fail (h : failure.Tells config ops) (metadata : Option OperationMetadata)
    (err : GoError) (responseTime now : ℤ) :
    (failure.track config (.failure metadata err responseTime now)).Tells config
      (ops ++ [.failure metadata err responseTime now]) where
  failures := by simp [track,recordFailure,isFailure,h.failures]
  auths := by simp [track,authsSinceSuccess_failure,h.auths]
  down := by
    -- the run only grows by a failure, so a mark that was set stays right
    have hd := h.down
    simp only [track,recordFailure,Bool.or_eq_true,decide_eq_true_eq,List.map_append,List.map_cons,
      List.map_nil,isFailure,trailingRun_mark,hd,h.failures]
    omega
  last := by simp [track,recordFailure]

theorem trackAll_tells (config : CircuitBreakerConfig) (ops : List TrackingOp)
    (hops : ∀ op ∈ ops, op.IsRecord) :
    (({} : FailureInfo).trackAll config ops).Tells config ops := by
  induction ops using List.reverseRecOn with
  | nil => exact ⟨rfl,rfl,by simp [trackAll],rfl⟩
  | append_singleton ops op ih =>
    have h := ih (fun o ho => hops o (List.mem_append_left _ ho))
    rw [trackAll_concat]
    cases op with
    | check now => exact absurd (hops (.check now) (by simp)) id
    | success closedAt requestAt scoredAt => exact h.success closedAt requestAt scoredAt
    | failure metadata err responseTime now => exact h.fail metadata err responseTime now

end FailureInfo

namespace Breaker
variable (config : CircuitBreakerConfig)

theorem track_failure (b : Breaker) (op : TrackingOp) :
    (b.track config op).failure = b.failure.track config op := by
  cases op with
  | check now =>
    have hdown : b.coolingDown config now = true ↔ b.failure.isTemporarilyDown = true ∧
        now-b.failure.lastFailureTime < config.timeout := by simp [coolingDown]
    simp only [track,FailureInfo.track]
    cases hc : b.coolingDown config now with
    | true =>
      obtain ⟨-,ht⟩ := hdown.mp hc
      rw [check_of_coolingDown hc,if_neg (fun h => absurd h.2 (not_le.mpr ht))]
    | false =>
      have hresumed : (b.check config now).2.failure = b.resumed := by
        simp only [check,hc,Bool.false_eq_true,if_false]
        cases b.circuit.state with
        | opened =>
          simp only
          split_ifs <;> rfl
        | halfOpen => rfl
        | closed => rfl
      rw [hresumed,resumed]
      have hpast : b.failure.isTemporarilyDown = true →
          config.timeout ≤ now-b.failure.lastFailureTime := by
        intro hd
        by_contra ht
        rw [hdown.mpr ⟨hd,not_le.mp ht⟩] at hc
        cases hc
      split_ifs with hd h h
      · rfl
      · exact absurd ⟨hd,hpast hd⟩ h
      · exact absurd h.1 hd
      · rfl
  | success closedAt requestAt scoredAt => rfl
  | failure metadata err responseTime now =>
    simp only [track,FailureInfo.track]
    cases err.isAuth <;> rfl

theorem trackAll_failure (b : Breaker) (ops : List TrackingOp) :
    (b.trackAll config ops).failure = b.failure.trackAll config ops := by
  induction ops generalizing b with
  | nil => rfl
  | cons op ops ih =>
    have hnext := ih (b.track config op)
    rw [track_failure] at hnext
    exact hnext

end Breaker

namespace ProviderManager
variable [ScoringEngine ε] {pm : ProviderManager ι ε} {name : String} {failure : FailureInfo}

theorem track_failure (h : (pm.states name).failure = some failure) (op : TrackingOp) :
    ((pm.track name op).states name).failure =
      some (failure.track pm.config.circuitBreaker op) := by
  cases op with
  | check now =>
    simp only [track,isProviderAvailable,updateState_states_self,ProviderState.check,
      ProviderState.isProviderAvailable_failure,ProviderState.checkFailure,h,FailureInfo.track]
    split_ifs <;> simp_all
  | success closedAt requestAt scoredAt =>
    simp [track,recordSuccess,ProviderState.recordSuccess,h,FailureInfo.track]
  | failure metadata err responseTime now =>
    simp only [track,recordFailureWithError]
    split_ifs with ha
    · simp only [handleAuthFailure,updateState_states_self,scoreFailure,recordEvent_states,
        recordEvent_config,updateFailureState,updateState_config,ProviderState.updateFailureState,
        ProviderState.handleAuthFailure,h,FailureInfo.track,ha,Bool.toNat_true]
      split_ifs <;> rfl
    · simp [scoreFailure,updateFailureState,ProviderState.updateFailureState,h,FailureInfo.track,ha,
        FailureInfo.recordFailure]

theorem trackAll_failure (h : (pm.states name).failure = some failure) (ops : List TrackingOp) :
    ((pm.trackAll name ops).states name).failure =
      some (failure.trackAll pm.config.circuitBreaker ops) := by
  induction ops generalizing pm failure with
  | nil => exact h
  | cons op ops ih =>
    have hnext := ih (track_failure h op)
    rw [track_config] at hnext
    exact hnext

end ProviderManager
end ChainKit
