import ChainKit.Circuit.Opening

/-! Whether a provider can be locked out for good. A half-open circuit counts its failed
calls but has no transition on time, so a circuit that uses up its half-open calls without
reaching the failure threshold refuses the provider forever. -/
namespace ChainKit
variable {ι ε : Type}

namespace Breaker
variable {config : CircuitBreakerConfig}

/-- The half-open circuit admits calls, and its failures stay below the failure threshold. -/
def Probing (config : CircuitBreakerConfig) (b : Breaker) : Prop :=
  b.circuit.state = .halfOpen →
    b.circuit.halfOpenCalls ≤ b.circuit.consecutiveFailures ∧
      (b.circuit.halfOpenCalls : ℤ) < config.failureThreshold

theorem probing_check (hF : 1 ≤ config.failureThreshold) {b : Breaker} (h : b.Probing config)
    (now : ℤ) : (b.check config now).2.Probing config := by
  rcases check_circuit config now b with hc | ⟨-,hc⟩
  · intro hs
    rw [hc] at hs ⊢
    exact h hs
  · intro _
    rw [hc]
    simp only [CircuitState.probe,Nat.zero_le,true_and,Nat.cast_zero]
    omega

theorem probing_fail {b : Breaker} (h : b.Probing config) (now : ℤ) :
    (b.fail config now).Probing config := by
  intro hs
  rw [fail_state] at hs
  split_ifs at hs with ht
  obtain ⟨hle,hlt⟩ := h hs
  simp only [fail,CircuitState.recordFailure,hs,if_true,ht,if_false]
  push_cast at ht ⊢
  omega

theorem probing_authFail {b : Breaker} (h : b.Probing config) (now : ℤ) :
    (b.authFail now).Probing config := by
  intro hs
  simp only [authFail] at hs ⊢
  split_ifs at hs ⊢
  · exact h hs
  · simp [CircuitState.trip] at hs

theorem probing_success
    (hcond : config.failureThreshold = 1 ∨ config.successThreshold = 1) {b : Breaker}
    (h : b.Probing config) (now : ℤ) : (b.success config now).Probing config := by
  intro hs
  have hb : b.circuit.state = .halfOpen := by
    by_contra hn
    rw [success_state_of_not_halfOpen config hn] at hs
    exact hn hs
  obtain ⟨hle,hlt⟩ := h hb
  simp only [success,CircuitState.recordSuccess,hb,true_and] at hs ⊢
  split_ifs at hs ⊢ with ht
  simp only
  push_cast at ht
  rcases hcond with h1 | h1 <;> omega

theorem probing_track (hF : 1 ≤ config.failureThreshold)
    (hcond : config.failureThreshold = 1 ∨ config.successThreshold = 1) (b : Breaker)
    (op : TrackingOp) (h : b.Probing config) : (b.track config op).Probing config := by
  cases op with
  | check now => exact probing_check hF h now
  | success closedAt requestAt scoredAt => exact probing_success hcond h closedAt
  | failure metadata err responseTime now =>
    simp only [track]
    split_ifs
    · exact probing_authFail (probing_fail h now) now
    · exact probing_fail h now

/-- Unless the half-open circuit is exhausted, every late enough check passes. -/
theorem check_eventually {b : Breaker}
    (h : b.circuit.state = .halfOpen →
      (b.circuit.halfOpenCalls : ℤ) < config.halfOpenMaxCalls) :
    ∃ t, ∀ now, t ≤ now → (b.check config now).1 = true := by
  refine ⟨max (b.failure.lastFailureTime+config.timeout)
    (b.circuit.lastStateChange+b.openTimeout config),fun now hnow => ?_⟩
  have hw : b.coolingDown config now = false := by
    have : ¬now-b.failure.lastFailureTime < config.timeout := by omega
    simp [coolingDown,this]
  cases hs : b.circuit.state with
  | closed => rw [check_of_closed hw hs]
  | halfOpen => simpa [check_of_halfOpen hw hs] using h hs
  | opened => rw [check_of_elapsed hw hs (by omega)]

/-- A half-open circuit that no failure has marked down and that has made `n` failed calls. -/
structure Stalled (n : ℕ) (b : Breaker) : Prop where
  halfOpen : b.circuit.state = .halfOpen
  calls : b.circuit.halfOpenCalls = n
  up : b.failure.isTemporarilyDown = false

theorem Stalled.refuses {n : ℕ} {b : Breaker} (h : b.Stalled n)
    (hn : config.halfOpenMaxCalls ≤ n) (now : ℤ) : (b.check config now).1 = false := by
  have hw : b.coolingDown config now = false := by simp [coolingDown,h.up]
  rw [check_of_halfOpen hw h.halfOpen,h.calls]
  simpa using hn

theorem Stalled.fail {n : ℕ} {b : Breaker} (h : b.Stalled n) (now : ℤ)
    (hc : ((b.circuit.consecutiveFailures+1 : ℕ) : ℤ) < config.failureThreshold)
    (hf : ((b.failure.consecutiveFailures+1 : ℕ) : ℤ) < config.failureThreshold) :
    (b.fail config now).Stalled (n+1) where
  halfOpen := by rw [fail_state,if_neg (not_le.mpr hc)]; exact h.halfOpen
  calls := by
    simp only [Breaker.fail,CircuitState.recordFailure,h.halfOpen,if_true,if_neg (not_le.mpr hc)]
    rw [h.calls]
  up := by
    simp only [Breaker.fail,FailureInfo.recordFailure,h.up,Bool.false_or,decide_eq_false_iff_not]
    exact not_le.mpr hf

theorem Stalled.success {n : ℕ} {b : Breaker} (h : b.Stalled n) (now : ℤ)
    (hs : ((b.circuit.consecutiveSuccesses+1 : ℕ) : ℤ) < config.successThreshold) :
    (b.success config now).Stalled n := by
  have hn : ¬(b.circuit.state = .halfOpen ∧
      config.successThreshold ≤ ((b.circuit.consecutiveSuccesses+1 : ℕ) : ℤ)) := by
    rintro ⟨-,hle⟩
    omega
  refine ⟨?_,?_,rfl⟩
  · simp only [Breaker.success,CircuitState.recordSuccess,if_neg hn]
    exact h.halfOpen
  · simp only [Breaker.success,CircuitState.recordSuccess,if_neg hn]
    exact h.calls

open TrackingOp

/-- Failures and successes in turn use up half-open calls without end. -/
theorem stalled_turns (hF : 2 ≤ config.failureThreshold) (hS : 2 ≤ config.successThreshold)
    (t : ℤ) {b : Breaker} (h : b.Stalled 0) (hc : b.circuit.consecutiveFailures = 0)
    (hf : b.failure.consecutiveFailures = 0) (n : ℕ) :
    (b.trackAll config (List.replicate n [failAt t,successAt t]).flatten).Stalled n ∧
      (b.trackAll config (List.replicate n [failAt t,successAt t]).flatten
        ).circuit.consecutiveFailures = 0 ∧
      (b.trackAll config (List.replicate n [failAt t,successAt t]).flatten
        ).failure.consecutiveFailures = 0 := by
  induction n with
  | zero => exact ⟨h,hc,hf⟩
  | succ n ih =>
    rw [List.replicate_succ',List.flatten_append,trackAll_append]
    generalize b.trackAll config (List.replicate n [failAt t,successAt t]).flatten = b' at ih
    obtain ⟨hb,hc',hf'⟩ := ih
    have hfail : (b'.fail config t).Stalled (n+1) :=
      hb.fail t (by rw [hc']; omega) (by rw [hf']; omega)
    refine ⟨?_,?_,rfl⟩
    · exact hfail.success t (by rw [fail_consecutiveSuccesses]; omega)
    · exact success_consecutiveFailures config t _

theorem stalled_failures (t : ℤ) {b : Breaker} (h : b.Stalled 0)
    (hc : b.circuit.consecutiveFailures = 0) (hf : b.failure.consecutiveFailures = 0) (n : ℕ)
    (hn : (n : ℤ) < config.failureThreshold) :
    (b.trackAll config (List.replicate n (failAt t))).Stalled n ∧
      (b.trackAll config (List.replicate n (failAt t))).circuit.consecutiveFailures = n ∧
      (b.trackAll config (List.replicate n (failAt t))).failure.consecutiveFailures = n := by
  induction n with
  | zero => exact ⟨h,hc,hf⟩
  | succ n ih =>
    have ih' := ih (by push_cast at hn; omega)
    rw [List.replicate_succ',trackAll_append,trackAll_singleton,track_failAt]
    generalize b.trackAll config (List.replicate n (failAt t)) = b' at ih'
    obtain ⟨hb,hc',hf'⟩ := ih'
    refine ⟨hb.fail t (by rw [hc']; exact hn) (by rw [hf']; exact hn),?_,?_⟩
    · rw [fail_consecutiveFailures,hc']
    · simp [fail,FailureInfo.recordFailure,hf']

/-- Enough failures, a success that arrives while the circuit is open, and the check after
the timeout leave a half-open circuit whose failure counters start from zero. -/
theorem stalled_zero {k : ℕ} (hk : 1 ≤ k) (hF : config.failureThreshold = k) {changedAt t t' : ℤ}
    (hc : changedAt ≤ t) (ht : config.timeout ≤ t'-t) {b : Breaker}
    (hb : b = (initial changedAt).trackAll config
      (List.replicate k (failAt t) ++ [successAt t] ++ [.check t'])) :
    b.Stalled 0 ∧ b.circuit.consecutiveFailures = 0 ∧ b.failure.consecutiveFailures = 0 := by
  have hops : ∀ op ∈ List.replicate k (failAt t) ++ [successAt t], op.IsGenericRecord := by
    intro op hop
    simp only [List.mem_append,List.mem_replicate,List.mem_singleton] at hop
    rcases hop with ⟨-,rfl⟩ | rfl
    · rfl
    · trivial
  have hagrees := trackAll_agrees config hk hF changedAt _ hops
  have hchange : ((initial changedAt).trackAll config
      (List.replicate k (failAt t) ++ [successAt t])).circuit.lastStateChange ≤ t := by
    apply trackAll_lastStateChange_le hc
    intro u hu
    simp only [List.flatMap_append,List.mem_append,List.mem_flatMap,List.mem_replicate,
      List.mem_singleton] at hu
    rcases hu with ⟨op,⟨-,rfl⟩,hu⟩ | ⟨op,rfl,hu⟩
    · simp [failAt,TrackingOp.times] at hu; omega
    · simp [successAt,TrackingOp.times] at hu; omega
  have hopened := hagrees.opened.mpr (by
    rw [List.map_append,List.map_replicate]
    exact List.infix_append' [] _ _)
  have hcircuit := hagrees.circuitFailures
  rw [List.map_append,show [successAt t].map TrackingOp.isFailure = [false] from rfl,
    Lib.trailingRun_unmarked] at hcircuit
  rw [trackAll_append,trackAll_singleton] at hb
  have hlast : ∃ b' : Breaker, (initial changedAt).trackAll config
      (List.replicate k (failAt t) ++ [successAt t]) = b'.success config t := by
    rw [trackAll_append,trackAll_singleton]
    exact ⟨_,rfl⟩
  obtain ⟨b',hb'⟩ := hlast
  rw [hb'] at hb hopened hcircuit hchange
  have hw : (b'.success config t).coolingDown config t' = false := rfl
  have htime : (b'.success config t).openTimeout config = config.timeout := rfl
  have hcheck := check_of_elapsed hw hopened (by rw [htime]; omega)
  rw [show b = ((b'.success config t).check config t').2 from hb,hcheck]
  exact ⟨⟨rfl,rfl,rfl⟩,hcircuit,rfl⟩

/-- Outside the safe settings some history exhausts the half-open calls. -/
theorem exists_stalled (hF : 2 ≤ config.failureThreshold) (hH : 1 ≤ config.halfOpenMaxCalls)
    (hcond : 2 ≤ config.successThreshold ∨ config.halfOpenMaxCalls < config.failureThreshold)
    (start changedAt : ℤ) :
    ∃ ops, Chronological start ops ∧
      ((initial changedAt).trackAll config ops).Stalled config.halfOpenMaxCalls.toNat := by
  obtain ⟨k,hk⟩ := Int.eq_ofNat_of_zero_le (show 0 ≤ config.failureThreshold by omega)
  obtain ⟨n,hn⟩ := Int.eq_ofNat_of_zero_le (show 0 ≤ config.halfOpenMaxCalls by omega)
  let t := max start changedAt
  let t' := t+max config.timeout 0
  obtain ⟨hstalled,hc,hf⟩ := stalled_zero (by omega) hk (le_max_right start changedAt)
    (show config.timeout ≤ t'-t by omega) rfl
  have hfirst : ∀ u ∈ (List.replicate k (failAt t) ++ [successAt t]).flatMap TrackingOp.times,
      u = t := by
    intro u hu
    simp only [List.flatMap_append,List.mem_append,List.mem_flatMap,List.mem_replicate,
      List.mem_singleton] at hu
    rcases hu with ⟨op,⟨-,rfl⟩,hu⟩ | ⟨op,rfl,hu⟩
    · simpa [failAt,TrackingOp.times] using hu
    · simpa [successAt,TrackingOp.times] using hu
  rw [hn,Int.toNat_natCast]
  rcases hcond with hS | hlt
  · have hend := (stalled_turns hF hS t' hstalled hc hf n).1
    rw [← trackAll_append,List.append_assoc] at hend
    refine ⟨_,chronological_append (le_max_left start changedAt) (show t ≤ t' by omega)
      hfirst ?_,hend⟩
    intro u hu
    simp only [List.flatMap_append,List.mem_append,List.mem_flatMap,List.mem_flatten,
      List.mem_replicate,List.mem_singleton] at hu
    rcases hu with ⟨op,rfl,hu⟩ | ⟨op,⟨l,⟨-,rfl⟩,hop⟩,hu⟩
    · simpa [TrackingOp.times] using hu
    · simp only [List.mem_cons,List.not_mem_nil,or_false] at hop
      rcases hop with rfl | rfl
      · simpa [failAt,TrackingOp.times] using hu
      · simpa [successAt,TrackingOp.times] using hu
  · have hend := (stalled_failures t' hstalled hc hf n
      (show (n : ℤ) < config.failureThreshold by omega)).1
    rw [← trackAll_append,List.append_assoc] at hend
    refine ⟨_,chronological_append (le_max_left start changedAt) (show t ≤ t' by omega)
      hfirst ?_,hend⟩
    intro u hu
    simp only [List.flatMap_append,List.mem_append,List.mem_flatMap,List.mem_replicate,
      List.mem_singleton] at hu
    rcases hu with ⟨op,rfl,hu⟩ | ⟨op,⟨-,rfl⟩,hu⟩
    · simpa [TrackingOp.times] using hu
    · simpa [failAt,TrackingOp.times] using hu

end Breaker

/-- No history locks a provider out for good exactly when every failure opens the circuit,
or one success closes it and the half-open calls outlast the failure threshold. -/
theorem never_locked_out_iff [ScoringEngine ε] (pm : ProviderManager ι ε)
    (slice : PrioritySort ι) (provider : ι) (priority : ℤ) (name : String)
    (changedAt checkedAt refilledAt : ℤ)
    (he : pm.config.circuitBreaker.enabled = true)
    (hh : pm.config.healthCheck.enabled = false) (hr : pm.config.rateLimit.enabled = false)
    (hF : 1 ≤ pm.config.circuitBreaker.failureThreshold)
    (hS : 1 ≤ pm.config.circuitBreaker.successThreshold)
    (hH : 1 ≤ pm.config.circuitBreaker.halfOpenMaxCalls) :
    (∀ ops, Chronological refilledAt ops →
      ∃ t, Until ops t ∧ ∃ now, t ≤ now ∧
        (((pm.addProvider slice (some provider) priority name changedAt checkedAt
          refilledAt).trackAll name ops).isProviderAvailable name now).1 = .ok true) ↔
    (pm.config.circuitBreaker.failureThreshold = 1 ∨
      (pm.config.circuitBreaker.successThreshold = 1 ∧
        pm.config.circuitBreaker.failureThreshold ≤
          pm.config.circuitBreaker.halfOpenMaxCalls)) := by
  set config := pm.config.circuitBreaker with hconfig
  have havail : ∀ ops now,
      (((pm.addProvider slice (some provider) priority name changedAt checkedAt
        refilledAt).trackAll name ops).isProviderAvailable name now).1 =
      .ok (((Breaker.initial changedAt).trackAll config ops).check config now).1 := by
    intro ops now
    obtain ⟨hpm,hc⟩ := ProviderManager.added_carries pm slice provider priority name changedAt
      checkedAt refilledAt he ops
    simp only [ProviderManager.isProviderAvailable,hpm]
    exact hc.available_iff he hh hr now
  constructor
  · intro h
    by_contra hcond
    obtain ⟨ops,hops,hstalled⟩ := Breaker.exists_stalled
      (show 2 ≤ config.failureThreshold by omega) hH (by omega) refilledAt changedAt
    obtain ⟨t,-,now,-,hnow⟩ := h ops hops
    rw [havail,hstalled.refuses (by omega) now] at hnow
    simp at hnow
  · intro hcond ops _
    have hprobing : ((Breaker.initial changedAt).trackAll config ops).Probing config := by
      apply Breaker.trackAll_invariant
      · intro b op hb
        exact Breaker.probing_track hF (by omega) b op hb
      · intro hs
        simp [Breaker.initial] at hs
    have hadmits : ((Breaker.initial changedAt).trackAll config ops).circuit.state = .halfOpen →
        (((Breaker.initial changedAt).trackAll config ops).circuit.halfOpenCalls : ℤ) <
          config.halfOpenMaxCalls := by
      intro hs
      have := (hprobing hs).2
      omega
    obtain ⟨t₀,ht₀⟩ := Breaker.check_eventually hadmits
    obtain ⟨t₁,ht₁⟩ := exists_until ops
    refine ⟨t₁,ht₁,max t₀ t₁,le_max_right _ _,?_⟩
    rw [havail,ht₀ _ (le_max_left _ _)]

theorem never_locked_out_strict :
    strictConfig.circuitBreaker.failureThreshold = 1 ∧
      ∀ ops, Chronological 0 ops → ∃ t, Until ops t ∧ ∃ now, t ≤ now ∧
        (((ProviderManager.single strictConfig "a").trackAll "a" ops).isProviderAvailable "a"
          now).1 = .ok true := by
  refine ⟨rfl,?_⟩
  apply (never_locked_out_iff (.empty (fun _ => 0) strictConfig) .insertion () 1 "a" 0 0 0 rfl rfl
    rfl (by decide) (by decide) (by decide)).mpr
  exact Or.inl rfl

open TrackingOp Duration in
/-- With the default configuration: five failures open the circuit, a success arrives after
the timeout, and three more failures use up the half-open calls. -/
def lockOutHistory : List TrackingOp :=
  List.replicate 5 (failAt 0) ++
    [.check (30*second),successAt (30*second)] ++ List.replicate 3 (failAt (30*second))

/-- From then on every check is refused, at any time. -/
theorem lockOutHistory_refused :
    Chronological 0 lockOutHistory ∧
      ∀ now, (((ProviderManager.single (defaultChainConfig .balanceFetchers) "a").trackAll "a"
        lockOutHistory).isProviderAvailable "a" now).1 = .ok false := by
  refine ⟨by unfold Chronological; decide,fun now => ?_⟩
  obtain ⟨hpm,hc⟩ := ProviderManager.added_carries (ε := Unit)
    (.empty (fun _ => 0) (defaultChainConfig .balanceFetchers)) .insertion () 1 "a" 0 0 0 rfl
    lockOutHistory
  have hstalled : ((Breaker.initial 0).trackAll (defaultChainConfig .balanceFetchers).circuitBreaker
      lockOutHistory).Stalled 3 := ⟨by decide,by decide,by decide⟩
  have he : (defaultChainConfig .balanceFetchers).circuitBreaker.enabled = true := rfl
  have havail := hc.available_iff he rfl rfl now
  have hrefused : (((Breaker.initial 0).trackAll
      (defaultChainConfig .balanceFetchers).circuitBreaker lockOutHistory).check
      (defaultChainConfig .balanceFetchers).circuitBreaker now).1 = false :=
    hstalled.refuses (by decide) now
  exact havail.trans (congrArg Except.ok hrefused)

end ChainKit
