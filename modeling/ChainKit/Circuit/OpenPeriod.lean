import ChainKit.Circuit.History

/-! How long an open circuit keeps its provider out. The timeout of an open circuit is
replaced by the auth-failure timeout, not extended to it, so a longer configured timeout is
cut short unless the legacy tracker holds the provider back at every failure. -/
namespace ChainKit
variable {ι ε : Type}

namespace Breaker
variable {config : CircuitBreakerConfig}

/-- The auth-failure timeout cannot release an open circuit early. -/
def Guarded (config : CircuitBreakerConfig) (b : Breaker) : Prop :=
  config.timeout ≤ authFailureCircuitTimeout ∨
    b.failure.consecutiveAuthFailures < authFailureCircuitThreshold ∨
    (b.failure.isTemporarilyDown = true ∧
      b.circuit.lastStateChange ≤ b.failure.lastFailureTime)

def KeepsTimeout (config : CircuitBreakerConfig) : Prop :=
  config.timeout ≤ authFailureCircuitTimeout ∨ config.failureThreshold ≤ 1

theorem fail_cooldown (hF : config.failureThreshold ≤ 1) (b : Breaker) (now : ℤ) :
    (b.fail config now).failure.isTemporarilyDown = true ∧
      (b.fail config now).circuit.lastStateChange = now := by
  have hlegacy : config.failureThreshold ≤ ((b.failure.consecutiveFailures+1 : ℕ) : ℤ) := by omega
  have hcircuit : config.failureThreshold ≤ ((b.circuit.consecutiveFailures+1 : ℕ) : ℤ) := by omega
  constructor
  · simp only [fail,FailureInfo.recordFailure,decide_eq_true hlegacy,Bool.or_true]
  · simp only [fail,CircuitState.recordFailure]
    split_ifs <;> rfl

theorem guarded_fail (hk : KeepsTimeout config) (b : Breaker) (now : ℤ) :
    (b.fail config now).Guarded config := by
  rcases hk with ht | hF
  · exact Or.inl ht
  · obtain ⟨hd,hl⟩ := fail_cooldown hF b now
    exact Or.inr (Or.inr ⟨hd,hl.le⟩)

theorem guarded_authFail (hk : KeepsTimeout config) (b : Breaker) (now : ℤ) :
    ((b.fail config now).authFail now).Guarded config := by
  rcases hk with ht | hF
  · exact Or.inl ht
  · obtain ⟨hd,hl⟩ := fail_cooldown hF b now
    refine Or.inr (Or.inr ⟨hd,?_⟩)
    simp only [authFail]
    split_ifs
    · exact hl.le
    · exact le_rfl

/-- An open circuit whose last change is not before `t`. -/
structure Held (config : CircuitBreakerConfig) (t : ℤ) (b : Breaker) : Prop where
  opened : b.circuit.state = .opened
  since : t ≤ b.circuit.lastStateChange
  guarded : b.Guarded config

theorem Held.check {t now : ℤ} {b : Breaker} (h : b.Held config t)
    (hnow : now < t+config.timeout) :
    (b.check config now).1 = false ∧ (b.check config now).2.Held config t := by
  have hsince := h.since
  cases hw : b.coolingDown config now with
  | true =>
    rw [check_of_coolingDown hw]
    exact ⟨rfl,h⟩
  | false =>
    have hshort : config.timeout ≤ authFailureCircuitTimeout ∨
        b.failure.consecutiveAuthFailures < authFailureCircuitThreshold := by
      rcases h.guarded with hg | hg | ⟨hd,hl⟩
      · exact Or.inl hg
      · exact Or.inr hg
      · simp only [coolingDown,hd,Bool.true_and,decide_eq_false_iff_not,not_lt] at hw
        omega
    have hwait : now-b.circuit.lastStateChange < b.openTimeout config := by
      unfold openTimeout
      split_ifs with hauth
      · rcases hshort with hs | hs <;> omega
      · omega
    rw [check_of_waiting hw h.opened hwait]
    refine ⟨rfl,h.opened,h.since,?_⟩
    rcases hshort with hs | hs
    · exact Or.inl hs
    · exact Or.inr (Or.inl (by simpa using hs))

/-- Nothing that is recorded before the time releases a held circuit. -/
theorem Held.track (hk : KeepsTimeout config) {t : ℤ} {b : Breaker} (h : b.Held config t)
    {op : TrackingOp} (hop : ∀ u ∈ op.times, t ≤ u ∧ u < t+config.timeout) :
    (b.track config op).Held config t := by
  cases op with
  | check now => exact (h.check (hop now (by simp [TrackingOp.times])).2).2
  | success closedAt requestAt scoredAt =>
    have hn : b.circuit.state ≠ .halfOpen := by simp [h.opened]
    refine ⟨?_,?_,Or.inr (Or.inl (by
      simp [Breaker.track,success,FailureInfo.recordSuccess,authFailureCircuitThreshold]))⟩
    · simp only [Breaker.track]
      rw [success_state_of_not_halfOpen config hn]
      exact h.opened
    · simp only [Breaker.track,success,CircuitState.recordSuccess,hn,false_and,if_false]
      exact h.since
  | failure metadata err responseTime now =>
    have hnow := (hop now (by simp [TrackingOp.times])).1
    have hfail : (b.fail config now).Held config t := by
      refine ⟨?_,?_,guarded_fail hk b now⟩
      · rw [fail_state]
        split_ifs
        · rfl
        · exact h.opened
      · have hsince := h.since
        simp only [fail,CircuitState.recordFailure]
        split_ifs <;> simp only <;> omega
    simp only [Breaker.track]
    split_ifs
    · refine ⟨?_,?_,guarded_authFail hk b now⟩
      · simp only [authFail]
        split_ifs
        · exact hfail.opened
        · rfl
      · simp only [authFail]
        split_ifs
        · exact hfail.since
        · exact hnow
    · exact hfail

theorem Held.trackAll (hk : KeepsTimeout config) {t : ℤ} {b : Breaker} (h : b.Held config t)
    {ops : List TrackingOp}
    (hops : ∀ u ∈ ops.flatMap TrackingOp.times, t ≤ u ∧ u < t+config.timeout) :
    (b.trackAll config ops).Held config t := by
  induction ops using List.reverseRecOn with
  | nil => exact h
  | append_singleton ops op ih =>
    simp only [List.flatMap_append,List.mem_append] at hops
    rw [trackAll_append,trackAll_singleton]
    apply (ih (fun u hu => hops u (Or.inl hu))).track hk
    intro u hu
    exact hops u (Or.inr (by simpa using hu))

theorem trackAll_guarded (hk : KeepsTimeout config) (changedAt : ℤ) (ops : List TrackingOp) :
    ((initial changedAt).trackAll config ops).circuit.state = .opened →
      ((initial changedAt).trackAll config ops).Guarded config := by
  refine trackAll_invariant
    (I := fun b => b.circuit.state = .opened → b.Guarded config) ?_ ?_ ops
  · intro b op h
    cases op with
    | check now =>
      intro hs
      simp only [track] at hs ⊢
      rcases check_circuit config now b with hc | ⟨-,hc⟩
      · rw [hc] at hs
        cases hw : b.coolingDown config now with
        | true =>
          rw [check_of_coolingDown hw]
          exact h hs
        | false =>
          have ht : now-b.circuit.lastStateChange < b.openTimeout config := by
            by_contra hn
            rw [check_of_elapsed hw hs (not_lt.mp hn)] at hc
            rw [← hc] at hs
            simp [CircuitState.probe] at hs
          rw [check_of_waiting hw hs ht]
          rcases h hs with hg | hg | ⟨hd,hl⟩
          · exact Or.inl hg
          · exact Or.inr (Or.inl (by simpa using hg))
          · unfold openTimeout at ht
            simp only [coolingDown,hd,Bool.true_and,decide_eq_false_iff_not,not_lt] at hw
            split_ifs at ht with hauth
            · exact Or.inl (by omega)
            · exact Or.inr (Or.inl (by simpa using hauth))
      · rw [hc] at hs
        simp [CircuitState.probe] at hs
    | success closedAt requestAt scoredAt =>
      intro _
      exact Or.inr (Or.inl (by
        simp [track,success,FailureInfo.recordSuccess,authFailureCircuitThreshold]))
    | failure metadata err responseTime now =>
      intro _
      simp only [track]
      split_ifs
      · exact guarded_authFail hk b now
      · exact guarded_fail hk b now
  · intro hs
    simp [initial] at hs

theorem openTimeout_of_authFailures (config : CircuitBreakerConfig) {b : Breaker}
    (h : b.failure.consecutiveAuthFailures = 3) :
    b.openTimeout config = authFailureCircuitTimeout := by
  simp [openTimeout,h,authFailureCircuitThreshold]

open TrackingOp in
theorem three_authFailures (config : CircuitBreakerConfig) (changedAt t : ℤ) :
    ((initial changedAt).trackAll config
      (List.replicate 3 (authFailAt t))).circuit.state = .opened ∧
    ((initial changedAt).trackAll config
      (List.replicate 3 (authFailAt t))).circuit.lastStateChange = t ∧
    ((initial changedAt).trackAll config
      (List.replicate 3 (authFailAt t))).failure.consecutiveAuthFailures = 3 ∧
    ((initial changedAt).trackAll config
      (List.replicate 3 (authFailAt t))).failure.lastFailureTime = t ∧
    ((initial changedAt).trackAll config
      (List.replicate 3 (authFailAt t))).failure.isTemporarilyDown =
        decide (config.failureThreshold ≤ 3) := by
  refine ⟨rfl,rfl,rfl,rfl,?_⟩
  apply Bool.eq_iff_iff.mpr
  simp only [trackAll,List.replicate,List.foldl_cons,List.foldl_nil,track_authFailAt,fail,authFail,
    FailureInfo.recordFailure,initial,Bool.or_eq_true,decide_eq_true_eq]
  push_cast
  constructor
  · rintro (((h | h) | h) | h)
    · simp at h
    all_goals omega
  · intro h
    exact Or.inr (by omega)

/-- An auth failure of the half-open call opens the circuit again, while one failure does not
start the cooldown of the first tracker. -/
theorem reopened_by_authFail {b : Breaker} (hcount : b.failure.consecutiveAuthFailures = 3)
    (hF : 1 < config.failureThreshold) (t : ℤ) {b' : Breaker}
    (hb' : b' = ((Breaker.mk b.failure.resume (b.circuit.probe t)).fail config t).authFail t) :
    b'.circuit.state = .opened ∧ b'.circuit.lastStateChange = t ∧
      b'.openTimeout config = authFailureCircuitTimeout ∧
      ∀ now, b'.coolingDown config now = false := by
  have h1 : ¬config.failureThreshold ≤ 1 := by omega
  subst hb'
  refine ⟨?_,?_,?_,?_⟩
  · simp [authFail,fail,FailureInfo.recordFailure,FailureInfo.resume,hcount,CircuitState.trip,
      authFailureCircuitThreshold]
  · simp [authFail,fail,FailureInfo.recordFailure,FailureInfo.resume,hcount,CircuitState.trip,
      authFailureCircuitThreshold]
  · simp [openTimeout,authFail,fail,FailureInfo.recordFailure,FailureInfo.resume,hcount,
      authFailureCircuitThreshold]
  · intro now
    simp [coolingDown,authFail,fail,FailureInfo.recordFailure,FailureInfo.resume,h1]

/-- A history that ends with an open circuit, and a moment before the end of its timeout at
which the provider passes. -/
structure ReleasedEarly (config : CircuitBreakerConfig) (start : ℤ) (ops : List TrackingOp)
    (now : ℤ) : Prop where
  chronological : Chronological start ops
  upTo : Until ops now
  opened : ((initial start).trackAll config ops).circuit.state = .opened
  early : now < ((initial start).trackAll config ops).circuit.lastStateChange+config.timeout
  passes : (((initial start).trackAll config ops).check config now).1 = true

open TrackingOp in
theorem times_authFailures (t : ℤ) :
    ∀ u ∈ (List.replicate 3 (authFailAt t)).flatMap TrackingOp.times, u = t := by
  simp [authFailAt,TrackingOp.times]

open TrackingOp in
theorem released_after_authFailures (ht : authFailureCircuitTimeout < config.timeout)
    (hF : 3 < config.failureThreshold) (start : ℤ) :
    ReleasedEarly config start (List.replicate 3 (authFailAt start))
      (start+authFailureCircuitTimeout) := by
  have hauth : 0 < authFailureCircuitTimeout := by decide
  obtain ⟨hopened,hlast,hcount,-,hdown⟩ := three_authFailures config start start
  refine ⟨?_,?_,hopened,?_,?_⟩
  · have hchron : Chronological start (List.replicate 3 (authFailAt start) ++ []) :=
      chronological_append le_rfl (le_refl start) (times_authFailures start) (by simp)
    simpa using hchron
  · intro u hu
    rw [times_authFailures start u hu]
    omega
  · rw [hlast]
    omega
  · generalize (initial start).trackAll config (List.replicate 3 (authFailAt start)) = b
      at hopened hlast hcount hdown
    have hwait := openTimeout_of_authFailures config hcount
    have hcool : b.coolingDown config (start+authFailureCircuitTimeout) = false := by
      simp [coolingDown,hdown,hF]
    rw [check_of_elapsed hcool hopened (by rw [hwait,hlast]; omega)]

open TrackingOp in
/-- With a lower threshold the cooldown is over at the end of the timeout; the check then
clears the first tracker and the next auth failure opens the circuit again. -/
theorem released_after_reopening (ht : authFailureCircuitTimeout < config.timeout)
    (hF : 1 < config.failureThreshold) (hF' : config.failureThreshold ≤ 3) (start : ℤ) :
    ReleasedEarly config start
      (List.replicate 3 (authFailAt start) ++
        [.check (start+config.timeout),authFailAt (start+config.timeout)])
      (start+config.timeout+authFailureCircuitTimeout) := by
  have hauth : 0 < authFailureCircuitTimeout := by decide
  obtain ⟨hopened,hlast,hcount,hfailed,hdown⟩ := three_authFailures config start start
  generalize hb : (initial start).trackAll config (List.replicate 3 (authFailAt start)) = b
    at hopened hlast hcount hfailed hdown
  generalize hb' : (initial start).trackAll config (List.replicate 3 (authFailAt start) ++
    [.check (start+config.timeout),authFailAt (start+config.timeout)]) = b'
  have hend : b' = ((Breaker.mk b.failure.resume (b.circuit.probe (start+config.timeout))).fail
      config (start+config.timeout)).authFail (start+config.timeout) := by
    have hcool : b.coolingDown config (start+config.timeout) = false := by
      simp [coolingDown,hfailed]
    have hwait := openTimeout_of_authFailures config hcount
    have hcheck := check_of_elapsed hcool hopened (by rw [hwait,hlast]; omega)
    have hresumed : b.resumed = b.failure.resume := by simp [resumed,hdown,hF']
    rw [← hb',trackAll_append,hb]
    simp only [trackAll,List.foldl_cons,List.foldl_nil,track_authFailAt]
    simp only [track,hcheck,hresumed]
  obtain ⟨hopened',hlast',hwait',hcool'⟩ := reopened_by_authFail hcount hF _ hend
  refine ⟨?_,?_,?_,?_,?_⟩
  · apply chronological_append le_rfl (show start ≤ start+config.timeout by omega)
      (times_authFailures start)
    simp [authFailAt,TrackingOp.times]
  · intro u hu
    rw [List.flatMap_append,List.mem_append] at hu
    rcases hu with hu | hu
    · have := times_authFailures start u hu
      omega
    · simp [authFailAt,TrackingOp.times] at hu
      omega
  · rw [hb']
    exact hopened'
  · rw [hb',hlast']
    omega
  · rw [hb',check_of_elapsed (hcool' _) hopened' (by rw [hwait',hlast']; omega)]

/-- Outside these settings some history ends with an open circuit that lets the provider
pass before its timeout is over. -/
theorem exists_released (hk : ¬KeepsTimeout config) (start : ℤ) :
    ∃ ops now, ReleasedEarly config start ops now := by
  obtain ⟨ht,hF⟩ := not_or.mp hk
  rw [not_le] at ht hF
  by_cases h3 : config.failureThreshold ≤ 3
  · exact ⟨_,_,released_after_reopening ht hF h3 start⟩
  · exact ⟨_,_,released_after_authFailures ht (not_le.mp h3) start⟩

end Breaker

/-- In every state in which the provider's circuit is open, the checks before the end of the
configured timeout fail, whatever is recorded until then. -/
def StaysOut [ScoringEngine ε] (pm : ProviderManager ι ε) (name : String) (start : ℤ) : Prop :=
  ∀ ops ops' cs now, Chronological start (ops ++ ops') → Until (ops ++ ops') now →
    ((pm.trackAll name ops).states name).circuit = some cs → cs.state = .opened →
    now < cs.lastStateChange+pm.config.circuitBreaker.timeout →
    ((pm.trackAll name (ops ++ ops')).isProviderAvailable name now).1 = .ok false

theorem Chronological.le_of_append {start : ℤ} {ops ops' : List TrackingOp}
    (h : Chronological start (ops ++ ops')) {u v : ℤ}
    (hu : u ∈ start :: ops.flatMap TrackingOp.times)
    (hv : v ∈ ops'.flatMap TrackingOp.times) : u ≤ v := by
  rw [Chronological,List.flatMap_append,← List.cons_append,List.pairwise_append] at h
  exact h.2.2 u hu v hv

namespace ProviderManager
variable [ScoringEngine ε] (pm : ProviderManager ι ε) (slice : PrioritySort ι) (provider : ι)
  (priority : ℤ) (name : String) (changedAt checkedAt refilledAt : ℤ)

theorem added_staysOut (he : pm.config.circuitBreaker.enabled = true)
    (hk : Breaker.KeepsTimeout pm.config.circuitBreaker) :
    StaysOut (pm.addProvider slice (some provider) priority name changedAt checkedAt refilledAt)
      name changedAt := by
  intro ops ops' cs now hchron huntil hcs hopened hnow
  obtain ⟨-,hfirst⟩ := added_carries pm slice provider priority name changedAt checkedAt
    refilledAt he ops
  obtain ⟨hpm,hall⟩ := added_carries pm slice provider priority name changedAt checkedAt
    refilledAt he (ops ++ ops')
  rw [Breaker.trackAll_append] at hall
  have hcs' := hcs.symm.trans hfirst.2
  simp only [Option.some.injEq] at hcs'
  subst hcs'
  generalize hb : (Breaker.initial changedAt).trackAll pm.config.circuitBreaker ops = b at *
  have hheld : b.Held pm.config.circuitBreaker b.circuit.lastStateChange :=
    ⟨hopened,le_rfl,hb ▸ Breaker.trackAll_guarded hk changedAt ops (hb ▸ hopened)⟩
  have hlast : (b.trackAll pm.config.circuitBreaker ops').Held pm.config.circuitBreaker
      b.circuit.lastStateChange := by
    refine hheld.trackAll hk (fun u hu => ⟨?_,?_⟩)
    · rw [← hb]
      apply Breaker.trackAll_lastStateChange_le
      · exact hchron.le_of_append List.mem_cons_self hu
      · intro v hv
        exact hchron.le_of_append (List.mem_cons_of_mem _ hv) hu
    · have := huntil u (by rw [List.flatMap_append]; exact List.mem_append_right _ hu)
      exact lt_of_le_of_lt this hnow
  have hrefused := (hlast.check hnow).1
  simp only [isProviderAvailable,hpm]
  simp only [ProviderState.isProviderAvailable,(hall.gate he now).2.1,hrefused,Bool.false_and,
    Bool.false_eq_true,if_false]

theorem keepsTimeout_of_staysOut (he : pm.config.circuitBreaker.enabled = true)
    (hh : pm.config.healthCheck.enabled = false) (hr : pm.config.rateLimit.enabled = false)
    (h : StaysOut (pm.addProvider slice (some provider) priority name changedAt checkedAt
      refilledAt) name changedAt) : Breaker.KeepsTimeout pm.config.circuitBreaker := by
  by_contra hk
  obtain ⟨ops,now,hrel⟩ := Breaker.exists_released hk changedAt
  obtain ⟨hpm,hc⟩ := added_carries pm slice provider priority name changedAt checkedAt
    refilledAt he ops
  have hfalse := h ops [] _ now (by simpa using hrel.chronological) (by simpa using hrel.upTo)
    hc.2 hrel.opened hrel.early
  simp only [List.append_nil,isProviderAvailable,hpm,hc.available_iff he hh hr,hrel.passes]
    at hfalse
  simp at hfalse

end ProviderManager

/-- An open circuit keeps its provider out for the whole configured timeout if that is no
longer than the auth-failure timeout or one failure opens the circuit. Where nothing but the
circuit refuses providers, it does so in no other setting. -/
theorem stays_out_iff_keepsTimeout [ScoringEngine ε] (pm : ProviderManager ι ε)
    (slice : PrioritySort ι) (provider : ι) (priority : ℤ) (name : String)
    (changedAt checkedAt refilledAt : ℤ) (he : pm.config.circuitBreaker.enabled = true) :
    (Breaker.KeepsTimeout pm.config.circuitBreaker →
      StaysOut (pm.addProvider slice (some provider) priority name changedAt checkedAt
        refilledAt) name changedAt) ∧
    (pm.config.healthCheck.enabled = false → pm.config.rateLimit.enabled = false →
      StaysOut (pm.addProvider slice (some provider) priority name changedAt checkedAt
        refilledAt) name changedAt → Breaker.KeepsTimeout pm.config.circuitBreaker) :=
  ⟨pm.added_staysOut slice provider priority name changedAt checkedAt refilledAt he,
    fun hh hr => pm.keepsTimeout_of_staysOut slice provider priority name changedAt checkedAt
      refilledAt he hh hr⟩

theorem stays_out_default :
    StaysOut (ProviderManager.single (defaultChainConfig .balanceFetchers) "a") "a" 0 ∧
      Breaker.KeepsTimeout (defaultChainConfig .balanceFetchers).circuitBreaker := by
  obtain ⟨h,h'⟩ := stays_out_iff_keepsTimeout (ε := Unit)
    (.empty (fun _ => 0) (defaultChainConfig .balanceFetchers)) .insertion () 1 "a" 0 0 0 rfl
  have hout := h (Or.inl (by decide))
  exact ⟨hout,h' rfl rfl hout⟩

def halfHourConfig : ChainConfig :=
  { defaultChainConfig .balanceFetchers with
    circuitBreaker := { (defaultChainConfig .balanceFetchers).circuitBreaker with
      timeout := 30*Duration.minute } }

/-- Three auth failures open the circuit, and ten minutes later the provider is available
again, twenty minutes before the timeout. -/
theorem halfHour_released_early :
    ¬StaysOut (ProviderManager.single halfHourConfig "a") "a" 0 := by
  intro h
  have hfalse := h (List.replicate 3 (.authFailAt 0)) [] _ (10*Duration.minute)
    (by unfold Chronological; decide) (by unfold Until; decide) rfl rfl (by decide)
  exact absurd hfalse (by decide)

end ChainKit
