import ChainKit.Circuit.History
import ChainKit.Lib.TrailingRun

/-! When a circuit opens: the counters of both trackers are the trailing run of failures. -/
namespace ChainKit
open Lib
variable {ι ε : Type}

namespace Breaker
variable (config : CircuitBreakerConfig)

/-- What both trackers hold after a history with the failures marked. -/
structure Agrees (k : ℕ) (marks : List Bool) (b : Breaker) : Prop where
  circuitFailures : b.circuit.consecutiveFailures = trailingRun marks
  legacyFailures : b.failure.consecutiveFailures = trailingRun marks
  notHalfOpen : b.circuit.state ≠ .halfOpen
  opened : b.circuit.state = .opened ↔ List.replicate k true <:+: marks
  down : b.failure.isTemporarilyDown = true ↔ k ≤ trailingRun marks

theorem agrees_initial {k : ℕ} (hk : 1 ≤ k) (changedAt : ℤ) :
    (initial changedAt).Agrees k [] where
  circuitFailures := rfl
  legacyFailures := rfl
  notHalfOpen := by simp [initial]
  opened := by
    have : k ≠ 0 := by omega
    simp [initial,this]
  down := by
    have : ¬k ≤ 0 := by omega
    simp [initial,this]

theorem Agrees.success {k : ℕ} (hk : 1 ≤ k) {marks : List Bool} {b : Breaker}
    (h : b.Agrees k marks) (now : ℤ) : (b.success config now).Agrees k (marks ++ [false]) where
  circuitFailures := by simp
  legacyFailures := by simp [Breaker.success,FailureInfo.recordSuccess]
  notHalfOpen := by
    rw [success_state_of_not_halfOpen config h.notHalfOpen]
    exact h.notHalfOpen
  opened := by
    rw [success_state_of_not_halfOpen config h.notHalfOpen,h.opened,replicate_infix_unmarked hk]
  down := by
    have : ¬k ≤ 0 := by omega
    simp [Breaker.success,FailureInfo.recordSuccess,this]

theorem Agrees.fail {k : ℕ} (hF : config.failureThreshold = k) {marks : List Bool} {b : Breaker}
    (h : b.Agrees k marks) (now : ℤ) : (b.fail config now).Agrees k (marks ++ [true]) where
  circuitFailures := by simp [h.circuitFailures]
  legacyFailures := by simp [Breaker.fail,FailureInfo.recordFailure,h.legacyFailures]
  notHalfOpen := by
    rw [fail_state]
    split_ifs
    · simp
    · exact h.notHalfOpen
  opened := by
    have ht : config.failureThreshold ≤ (b.circuit.consecutiveFailures+1 : ℕ) ↔
        k ≤ trailingRun (marks ++ [true]) := by
      rw [hF,h.circuitFailures,trailingRun_mark]
      exact Int.ofNat_le
    rw [fail_state,replicate_infix_snoc,← ht,← h.opened]
    split_ifs with hle
    · exact iff_of_true rfl (Or.inl hle)
    · exact ⟨Or.inr,fun h' => h'.resolve_left hle⟩
  down := by
    have ht : config.failureThreshold ≤ (b.failure.consecutiveFailures+1 : ℕ) ↔
        k ≤ trailingRun marks+1 := by
      rw [hF,h.legacyFailures]
      exact Int.ofNat_le
    have hd := h.down
    simp only [Breaker.fail,FailureInfo.recordFailure,Bool.or_eq_true,decide_eq_true_eq,
      trailingRun_mark,ht,hd]
    omega

/-- Both trackers agree with every history of successes and failures without auth errors. -/
theorem trackAll_agrees {k : ℕ} (hk : 1 ≤ k) (hF : config.failureThreshold = k)
    (changedAt : ℤ) (ops : List TrackingOp) (hops : ∀ op ∈ ops, op.IsGenericRecord) :
    ((initial changedAt).trackAll config ops).Agrees k (ops.map TrackingOp.isFailure) := by
  induction ops using List.reverseRecOn with
  | nil => exact agrees_initial hk changedAt
  | append_singleton ops op ih =>
    have h := ih (fun o ho => hops o (List.mem_append_left _ ho))
    have hop := hops op (by simp)
    rw [trackAll_append,trackAll_singleton,List.map_append]
    cases op with
    | check now => exact absurd hop id
    | success closedAt requestAt scoredAt => exact h.success config hk closedAt
    | failure metadata err responseTime now =>
      have ha : err.isAuth = false := hop
      simp only [track,ha,Bool.false_eq_true,if_false]
      exact h.fail config hF now

end Breaker

/-- After any history of successes and generic failures of a provider that was just added,
the circuit is open exactly when the history has `FailureThreshold` failures in a row
somewhere, while both counters and the temporary mark speak of its end. -/
theorem opened_iff_consecutive_failures [ScoringEngine ε] (pm : ProviderManager ι ε)
    (slice : PrioritySort ι) (provider : ι) (priority : ℤ) (name : String)
    (changedAt checkedAt refilledAt : ℤ) (k : ℕ) (hk : 1 ≤ k)
    (he : pm.config.circuitBreaker.enabled = true)
    (hF : pm.config.circuitBreaker.failureThreshold = k)
    (ops : List TrackingOp) (hops : ∀ op ∈ ops, op.IsGenericRecord) :
    ∃ failure cs,
      (((pm.addProvider slice (some provider) priority name changedAt checkedAt
        refilledAt).trackAll name ops).states name).failure = some failure ∧
      (((pm.addProvider slice (some provider) priority name changedAt checkedAt
        refilledAt).trackAll name ops).states name).circuit = some cs ∧
      (cs.state = .opened ↔ List.replicate k true <:+: ops.map TrackingOp.isFailure) ∧
      cs.consecutiveFailures = trailingRun (ops.map TrackingOp.isFailure) ∧
      failure.consecutiveFailures = trailingRun (ops.map TrackingOp.isFailure) ∧
      (failure.isTemporarilyDown = true ↔
        k ≤ trailingRun (ops.map TrackingOp.isFailure)) := by
  obtain ⟨-,hc⟩ := ProviderManager.added_carries pm slice provider priority name changedAt checkedAt
    refilledAt he ops
  have ha := Breaker.trackAll_agrees pm.config.circuitBreaker hk hF changedAt ops hops
  exact ⟨_,_,hc.1,hc.2,ha.opened,ha.circuitFailures,ha.legacyFailures,ha.down⟩

open TrackingOp in
theorem opened_after_five_failures :
    ∃ failure cs,
      (((ProviderManager.single (defaultChainConfig .balanceFetchers) "a").trackAll "a"
        (List.replicate 5 (failAt 0) ++ [successAt 1])).states "a").failure = some failure ∧
      (((ProviderManager.single (defaultChainConfig .balanceFetchers) "a").trackAll "a"
        (List.replicate 5 (failAt 0) ++ [successAt 1])).states "a").circuit = some cs ∧
      (cs.state = .opened ↔ List.replicate 5 true <:+:
        (List.replicate 5 (failAt 0) ++ [successAt 1]).map isFailure) ∧
      cs.consecutiveFailures =
        trailingRun ((List.replicate 5 (failAt 0) ++ [successAt 1]).map isFailure) ∧
      failure.consecutiveFailures =
        trailingRun ((List.replicate 5 (failAt 0) ++ [successAt 1]).map isFailure) ∧
      (failure.isTemporarilyDown = true ↔
        5 ≤ trailingRun ((List.replicate 5 (failAt 0) ++ [successAt 1]).map isFailure)) :=
  opened_iff_consecutive_failures (.empty (fun _ => 0) (defaultChainConfig .balanceFetchers))
    .insertion () 1 "a" 0 0 0 5 (by decide) rfl rfl _
    (by
      intro op hop
      simp only [List.mem_append,List.mem_replicate,List.mem_singleton] at hop
      rcases hop with ⟨-,rfl⟩ | rfl
      · rfl
      · trivial)

end ChainKit
