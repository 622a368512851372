import ChainKit.Circuit.Records
import ChainKit.Registration

/-! A chain whose circuit breaker is disabled. The legacy tracker is still kept and still asked: it
takes its threshold and its cooldown from the settings of the circuit breaker. -/
namespace ChainKit
open Lib TrackingOp
variable {ι ε : Type}

def ownOps (name : String) (ops : List (String × TrackingOp)) : List TrackingOp :=
  (ops.filter (fun op => op.1 = name)).map Prod.snd

@[simp] theorem ownOps_cons_self (name : String) (op : TrackingOp)
    (ops : List (String × TrackingOp)) :
    ownOps name ((name,op) :: ops) = op :: ownOps name ops := by
  simp [ownOps]

theorem ownOps_cons_of_ne {name other : String} (hn : other ≠ name) (op : TrackingOp)
    (ops : List (String × TrackingOp)) : ownOps name ((other,op) :: ops) = ownOps name ops := by
  simp [ownOps,hn]

theorem ownOps_records {ops : List (String × TrackingOp)} (hops : ∀ op ∈ ops, op.2.IsRecord)
    (name : String) : ∀ op ∈ ownOps name ops, op.IsRecord := by
  intro op hop
  obtain ⟨o,ho,rfl⟩ := List.mem_map.mp hop
  exact hops o (List.mem_filter.mp ho).1

/-- The records of a provider end in as many failures as the threshold asks for, and the timeout
has not passed since the last of them. -/
def InCooldown (config : CircuitBreakerConfig) (ops : List TrackingOp) (now : ℤ) : Prop :=
  0 < trailingRun (ops.map isFailure) ∧
    config.failureThreshold ≤ (trailingRun (ops.map isFailure) : ℕ) ∧
    now-lastFailureAt ops < config.timeout

instance (config : CircuitBreakerConfig) (ops : List TrackingOp) (now : ℤ) :
    Decidable (InCooldown config ops now) := inferInstanceAs (Decidable (_ ∧ _ ∧ _))

theorem ProviderState.isProviderAvailable_disabled {config : ChainConfig}
    (hc : config.circuitBreaker.enabled = false) (hh : config.healthCheck.enabled = false)
    (hr : config.rateLimit.enabled = false) {st : ProviderState} {failure : FailureInfo}
    (hf : st.failure = some failure) (now : ℤ) :
    (st.isProviderAvailable config now).1 = .ok (!(failure.isTemporarilyDown &&
      decide (now-failure.lastFailureTime < config.circuitBreaker.timeout))) := by
  simp only [isProviderAvailable,gate,checkFailure,hf]
  cases hd : failure.isTemporarilyDown with
  | false => simp [checkCircuit,checkHealth,checkRateLimit,hc,hh,hr]
  | true =>
    rcases lt_or_ge (now-failure.lastFailureTime) config.circuitBreaker.timeout with ht | ht
    · simp [ht,not_le.mpr ht]
    · simp [ht,not_lt.mpr ht,checkCircuit,checkHealth,checkRateLimit,hc,hh,hr]

namespace ProviderManager

theorem registerMany_failure (slice : PrioritySort ι) (pm : ProviderManager ι ε)
    (hpm : ∀ p ∈ pm.providers, (pm.states p.name).failure = some {})
    (regs : List (Registration ι)) :
    ∀ p ∈ (pm.registerMany slice regs).providers,
      ((pm.registerMany slice regs).states p.name).failure = some {} := by
  induction regs generalizing pm with
  | nil => exact hpm
  | cons reg regs ih =>
    apply ih (pm.register slice reg)
    intro p hp
    have hmem := (register_perm slice pm reg).subset hp
    cases hprovider : reg.provider with
    | none =>
      simp only [register,addProvider,hprovider] at hp ⊢
      exact hpm p hp
    | some provider =>
      simp only [register,addProvider,hprovider]
      by_cases hn : p.name = reg.name
      · rw [hn,Function.update_self]
        rfl
      · rw [Function.update_of_ne hn]
        simp only [Registration.entry,hprovider,Option.map_some,Option.toList_some,
          List.mem_append,List.mem_singleton] at hmem
        rcases hmem with hmem | rfl
        · exact hpm p hmem
        · exact absurd rfl hn

variable [ScoringEngine ε]

def trackEach (pm : ProviderManager ι ε) (ops : List (String × TrackingOp)) :
    ProviderManager ι ε :=
  ops.foldl (fun pm op => pm.track op.1 op.2) pm

theorem track_states_of_ne (pm : ProviderManager ι ε) {name other : String} (hn : other ≠ name)
    (op : TrackingOp) : (pm.track name op).states other = pm.states other := by
  cases op with
  | check now => simp [track,isProviderAvailable,hn]
  | success closedAt requestAt scoredAt => simp [track,recordSuccess,hn]
  | failure metadata err responseTime now =>
    simp only [track,recordFailureWithError]
    split_ifs
    · simp [handleAuthFailure,scoreFailure,updateFailureState,hn]
    · simp [scoreFailure,updateFailureState,hn]

theorem trackEach_config (pm : ProviderManager ι ε) (ops : List (String × TrackingOp)) :
    (pm.trackEach ops).config = pm.config := by
  induction ops generalizing pm with
  | nil => rfl
  | cons op ops ih => exact (ih (pm.track op.1 op.2)).trans (pm.track_config op.1 op.2)

/-- The tracker of a provider follows the operations that are on it. -/
theorem trackEach_failure {pm : ProviderManager ι ε} {name : String} {failure : FailureInfo}
    (h : (pm.states name).failure = some failure) (ops : List (String × TrackingOp)) :
    ((pm.trackEach ops).states name).failure =
      some (failure.trackAll pm.config.circuitBreaker (ownOps name ops)) := by
  induction ops generalizing pm failure with
  | nil => exact h
  | cons op ops ih =>
    obtain ⟨other,op⟩ := op
    by_cases hn : other = name
    · subst hn
      have hnext := ih (track_failure h op)
      rw [track_config] at hnext
      rw [ownOps_cons_self]
      exact hnext
    · have hsame : ((pm.track other op).states name).failure = some failure := by
        rw [track_states_of_ne pm (Ne.symm hn),h]
      have hnext := ih hsame
      rw [track_config] at hnext
      rw [ownOps_cons_of_ne hn]
      exact hnext

end ProviderManager

/-- With the circuit breaker, the health check and the rate limit disabled, a registered provider
is available at a time exactly when it is not in the cooldown of the legacy tracker. -/
theorem disabled_available_iff [ScoringEngine ε] (draw : ℕ → ℕ) (config : ChainConfig)
    (hc : config.circuitBreaker.enabled = false) (hh : config.healthCheck.enabled = false)
    (hr : config.rateLimit.enabled = false) (slice : PrioritySort ι)
    (regs : List (Registration ι)) (ops : List (String × TrackingOp))
    (hops : ∀ op ∈ ops, op.2.IsRecord) (p : ProviderConfig ι)
    (hp : p ∈ ((ProviderManager.empty draw config : ProviderManager ι ε).registerMany slice
      regs).providers) (now : ℤ) :
    ((((ProviderManager.empty draw config : ProviderManager ι ε).registerMany slice regs).trackEach
      ops).isProviderAvailable p.name now).1 =
        .ok (decide (¬InCooldown config.circuitBreaker (ownOps p.name ops) now)) := by
  have hconfig : ((ProviderManager.empty draw config : ProviderManager ι ε).registerMany slice
      regs).config = config := (ProviderManager.registerMany_frame slice _ regs).1
  have hfailure := ProviderManager.trackEach_failure (ProviderManager.registerMany_failure slice
    (ProviderManager.empty draw config : ProviderManager ι ε) (by simp [ProviderManager.empty])
    regs p hp) ops
  rw [hconfig] at hfailure
  have htells := FailureInfo.trackAll_tells config.circuitBreaker (ownOps p.name ops)
    (ownOps_records hops p.name)
  have hcool : ((({} : FailureInfo).trackAll config.circuitBreaker
      (ownOps p.name ops)).isTemporarilyDown &&
        decide (now-lastFailureAt (ownOps p.name ops) < config.circuitBreaker.timeout)) =
      decide (InCooldown config.circuitBreaker (ownOps p.name ops) now) := by
    rw [Bool.eq_iff_iff,Bool.and_eq_true,htells.down,decide_eq_true_eq,decide_eq_true_eq,InCooldown,
      and_assoc]
  simp only [ProviderManager.isProviderAvailable,ProviderManager.trackEach_config,hconfig]
  rw [ProviderState.isProviderAvailable_disabled hc hh hr hfailure,htells.last,hcool,decide_not]

def noBreakerConfig : ChainConfig :=
  { defaultChainConfig .balanceFetchers with
    circuitBreaker := { (defaultChainConfig .balanceFetchers).circuitBreaker with
      enabled := false } }

/-- Four failures are one fewer than the threshold. -/
theorem disabled_available_iff_four :
    ((((ProviderManager.empty (fun _ => 0) noBreakerConfig :
      ProviderManager Unit Unit).registerMany .insertion [⟨some (),1,"a",0,0,0⟩]).trackEach
        (List.replicate 4 ("a",failAt 0))).isProviderAvailable "a" 0).1 = .ok true :=
  disabled_available_iff (fun _ => 0) noBreakerConfig rfl rfl rfl .insertion
    [⟨some (),1,"a",0,0,0⟩] (List.replicate 4 ("a",failAt 0)) (by decide) ⟨(),1,"a"⟩ (by decide) 0

/-- After five failures in a row the provider is held back, though the circuit breaker is
disabled and nothing else is enabled. -/
theorem disabled_unavailable :
    ((((ProviderManager.empty (fun _ => 0) noBreakerConfig :
      ProviderManager Unit Unit).registerMany .insertion [⟨some (),1,"a",0,0,0⟩]).trackEach
        (List.replicate 5 ("a",failAt 0))).isProviderAvailable "a" 0).1 = .ok false ∧
      noBreakerConfig.circuitBreaker.enabled = false ∧
      noBreakerConfig.healthCheck.enabled = false ∧ noBreakerConfig.rateLimit.enabled = false :=
  ⟨rfl,rfl,rfl,rfl⟩

end ChainKit
