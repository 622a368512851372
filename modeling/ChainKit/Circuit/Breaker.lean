import ChainKit.Manager

/-! The two failure trackers of a provider as one machine. With the circuit breaker enabled
the legacy tracker and the circuit evolve without regard to health and rate limit, so the
results about circuits are proved on this pair and carried over to the full entries. -/
namespace ChainKit

structure Breaker where
  failure : FailureInfo
  circuit : CircuitState
  deriving DecidableEq

namespace Breaker
variable (config : CircuitBreakerConfig)

/-- The pair that `addProvider` installs. -/
def initial (changedAt : ℤ) : Breaker := ⟨{},{ state := .closed, lastStateChange := changedAt }⟩

def coolingDown (now : ℤ) (b : Breaker) : Bool :=
  b.failure.isTemporarilyDown && decide (now-b.failure.lastFailureTime < config.timeout)

def openTimeout (b : Breaker) : ℤ :=
  if authFailureCircuitThreshold ≤ b.failure.consecutiveAuthFailures then authFailureCircuitTimeout
  else config.timeout

/-- The legacy tracker after a check that it let pass. -/
def resumed (b : Breaker) : FailureInfo :=
  if b.failure.isTemporarilyDown then b.failure.resume else b.failure

/-- Whether a check gets past both trackers, and the pair it leaves. -/
def check (now : ℤ) (b : Breaker) : Bool × Breaker :=
  if b.coolingDown config now then (false,b)
  else match b.circuit.state with
    | .opened =>
      if b.openTimeout config ≤ now-b.circuit.lastStateChange then
        (true,⟨b.resumed,b.circuit.probe now⟩)
      else (false,⟨b.resumed,b.circuit⟩)
    | .halfOpen =>
      (decide ((b.circuit.halfOpenCalls : ℤ) < config.halfOpenMaxCalls),⟨b.resumed,b.circuit⟩)
    | .closed => (true,⟨b.resumed,b.circuit⟩)

def success (now : ℤ) (b : Breaker) : Breaker :=
  ⟨b.failure.recordSuccess,b.circuit.recordSuccess config now⟩

def fail (now : ℤ) (b : Breaker) : Breaker :=
  ⟨b.failure.recordFailure config now,b.circuit.recordFailure config now⟩

def authFail (now : ℤ) (b : Breaker) : Breaker :=
  ⟨{ b.failure with consecutiveAuthFailures := b.failure.consecutiveAuthFailures+1 },
    if b.failure.consecutiveAuthFailures+1 < authFailureCircuitThreshold then b.circuit
    else b.circuit.trip now⟩

@[simp] theorem resumed_consecutiveAuthFailures (b : Breaker) :
    b.resumed.consecutiveAuthFailures = b.failure.consecutiveAuthFailures := by
  unfold resumed FailureInfo.resume
  split_ifs <;> rfl

section
variable {config : CircuitBreakerConfig} {now : ℤ} {b : Breaker}

theorem check_of_coolingDown (h : b.coolingDown config now = true) :
    b.check config now = (false,b) := by simp [check,h]

theorem check_of_closed (h : b.coolingDown config now = false) (hs : b.circuit.state = .closed) :
    b.check config now = (true,⟨b.resumed,b.circuit⟩) := by simp [check,h,hs]

theorem check_of_halfOpen (h : b.coolingDown config now = false)
    (hs : b.circuit.state = .halfOpen) :
    b.check config now =
      (decide ((b.circuit.halfOpenCalls : ℤ) < config.halfOpenMaxCalls),
        ⟨b.resumed,b.circuit⟩) := by simp [check,h,hs]

theorem check_of_waiting (h : b.coolingDown config now = false) (hs : b.circuit.state = .opened)
    (ht : now-b.circuit.lastStateChange < b.openTimeout config) :
    b.check config now = (false,⟨b.resumed,b.circuit⟩) := by
  simp [check,h,hs,not_le.mpr ht]

theorem check_of_elapsed (h : b.coolingDown config now = false) (hs : b.circuit.state = .opened)
    (ht : b.openTimeout config ≤ now-b.circuit.lastStateChange) :
    b.check config now = (true,⟨b.resumed,b.circuit.probe now⟩) := by
  simp [check,h,hs,ht]

theorem check_circuit (config : CircuitBreakerConfig) (now : ℤ) (b : Breaker) :
    (b.check config now).2.circuit = b.circuit ∨
      (b.circuit.state = .opened ∧ (b.check config now).2.circuit = b.circuit.probe now) := by
  cases hc : b.coolingDown config now with
  | true => rw [check_of_coolingDown hc]; exact Or.inl rfl
  | false =>
    cases hs : b.circuit.state with
    | closed => rw [check_of_closed hc hs]; exact Or.inl rfl
    | halfOpen => rw [check_of_halfOpen hc hs]; exact Or.inl rfl
    | opened =>
      rcases lt_or_ge (now-b.circuit.lastStateChange) (b.openTimeout config) with ht | ht
      · rw [check_of_waiting hc hs ht]; exact Or.inl rfl
      · rw [check_of_elapsed hc hs ht]; exact Or.inr ⟨rfl,rfl⟩

theorem check_not_opened (h : (b.check config now).1 = true) :
    (b.check config now).2.circuit.state ≠ .opened := by
  cases hc : b.coolingDown config now with
  | true => simp [check_of_coolingDown hc] at h
  | false =>
    cases hs : b.circuit.state with
    | closed => simp [check_of_closed hc hs,hs]
    | halfOpen => simp [check_of_halfOpen hc hs,hs]
    | opened =>
      rcases lt_or_ge (now-b.circuit.lastStateChange) (b.openTimeout config) with ht | ht
      · simp [check_of_waiting hc hs ht] at h
      · simp [check_of_elapsed hc hs ht,CircuitState.probe]

def checked (config : CircuitBreakerConfig) (now : ℤ) (b : Breaker) : Breaker :=
  (b.check config now).2

@[simp] theorem checked_consecutiveAuthFailures :
    (b.checked config now).failure.consecutiveAuthFailures =
      b.failure.consecutiveAuthFailures := by
  cases hc : b.coolingDown config now with
  | true => rw [checked,check_of_coolingDown hc]
  | false =>
    simp only [checked,check,hc]
    cases b.circuit.state <;> simp
    split_ifs <;> simp

@[simp] theorem checked_consecutiveFailures :
    (b.checked config now).circuit.consecutiveFailures = b.circuit.consecutiveFailures := by
  rcases check_circuit config now b with h | ⟨-,h⟩
  · rw [checked,h]
  · rw [checked,h]
    rfl

theorem checked_not_opened (h : b.circuit.state ≠ .opened) :
    (b.checked config now).circuit.state ≠ .opened := by
  rcases check_circuit config now b with hc | ⟨ho,-⟩
  · rw [checked,hc]
    exact h
  · exact absurd ho h

theorem iterate_checked (k : ℕ) :
    ((checked config now)^[k] b).circuit.consecutiveFailures = b.circuit.consecutiveFailures ∧
    ((checked config now)^[k] b).failure.consecutiveAuthFailures =
      b.failure.consecutiveAuthFailures ∧
    (b.circuit.state ≠ .opened → ((checked config now)^[k] b).circuit.state ≠ .opened) := by
  induction k with
  | zero => exact ⟨rfl,rfl,id⟩
  | succ k ih =>
    obtain ⟨hf,ha,ho⟩ := ih
    rw [Function.iterate_succ_apply']
    refine ⟨?_,?_,fun h => checked_not_opened (ho h)⟩
    · rw [checked_consecutiveFailures,hf]
    · rw [checked_consecutiveAuthFailures,ha]

end

theorem success_state_of_not_halfOpen {now : ℤ} {b : Breaker}
    (h : b.circuit.state ≠ .halfOpen) :
    (b.success config now).circuit.state = b.circuit.state := by
  simp [success,CircuitState.recordSuccess,h]

@[simp] theorem success_consecutiveFailures (now : ℤ) (b : Breaker) :
    (b.success config now).circuit.consecutiveFailures = 0 := by
  simp only [success,CircuitState.recordSuccess]
  split_ifs <;> rfl

@[simp] theorem success_consecutiveSuccesses (now : ℤ) (b : Breaker) :
    (b.success config now).circuit.consecutiveSuccesses = b.circuit.consecutiveSuccesses+1 := by
  simp only [success,CircuitState.recordSuccess]
  split_ifs <;> rfl

@[simp] theorem fail_consecutiveFailures (now : ℤ) (b : Breaker) :
    (b.fail config now).circuit.consecutiveFailures = b.circuit.consecutiveFailures+1 := by
  simp only [fail,CircuitState.recordFailure]
  split_ifs <;> rfl

@[simp] theorem fail_consecutiveSuccesses (now : ℤ) (b : Breaker) :
    (b.fail config now).circuit.consecutiveSuccesses = 0 := by
  simp only [fail,CircuitState.recordFailure]
  split_ifs <;> rfl

theorem fail_state (now : ℤ) (b : Breaker) :
    (b.fail config now).circuit.state =
      if config.failureThreshold ≤ (b.circuit.consecutiveFailures+1 : ℕ) then .opened
      else b.circuit.state := by
  simp only [fail,CircuitState.recordFailure]
  split_ifs <;> simp_all

@[simp] theorem authFail_consecutiveFailures (now : ℤ) (b : Breaker) :
    (b.authFail now).circuit.consecutiveFailures = b.circuit.consecutiveFailures := by
  simp only [authFail]
  split_ifs <;> rfl

@[simp] theorem authFail_consecutiveSuccesses (now : ℤ) (b : Breaker) :
    (b.authFail now).circuit.consecutiveSuccesses = b.circuit.consecutiveSuccesses := by
  simp only [authFail]
  split_ifs <;> rfl

end Breaker

namespace ProviderState

/-- The entry carries the pair `b` in its failure and circuit maps. -/
def Carries (st : ProviderState) (b : Breaker) : Prop :=
  st.failure = some b.failure ∧ st.circuit = some b.circuit

theorem Tracked.carries {st : ProviderState} (h : st.Tracked) : ∃ b, st.Carries b := by
  obtain ⟨failure,hf⟩ := Option.isSome_iff_exists.mp h.1
  obtain ⟨cs,hc⟩ := Option.isSome_iff_exists.mp h.2.1
  exact ⟨⟨failure,cs⟩,hf,hc⟩

theorem Carries.unique {st : ProviderState} {b b' : Breaker} (h : st.Carries b)
    (h' : st.Carries b') : b = b' := by
  cases b with
  | mk failure circuit =>
    cases b' with
    | mk failure' circuit' =>
      have hf := h.1.symm.trans h'.1
      have hc := h.2.symm.trans h'.2
      simp only [Option.some.injEq] at hf hc
      rw [hf,hc]

theorem fresh_carries (burstSize : ℤ) (changedAt checkedAt refilledAt : ℤ) :
    (fresh burstSize changedAt checkedAt refilledAt).Carries (Breaker.initial changedAt) :=
  ⟨rfl,rfl⟩

variable {st : ProviderState} {b : Breaker} {config : ChainConfig}

/-- The first two checks of `isProviderAvailable` are the check of the pair. -/
theorem Carries.gate (h : st.Carries b) (he : config.circuitBreaker.enabled = true) (now : ℤ) :
    (st.gate config now).2.Carries (b.check config.circuitBreaker now).2 ∧
      (st.gate config now).1 =
        ((b.check config.circuitBreaker now).1 && st.checkHealth config) ∧
      (st.gate config now).2.rateLimit = st.rateLimit := by
  obtain ⟨failure,circuit,health,rateLimit⟩ := st
  obtain ⟨hf,hc⟩ := h
  simp only at hf hc
  subst hf hc
  cases hd : b.failure.isTemporarilyDown with
  | false =>
    cases hs : b.circuit.state <;>
      simp [ProviderState.gate,checkFailure,checkCircuit,openTimeout,Breaker.check,
        Breaker.coolingDown,Breaker.resumed,Breaker.openTimeout,checkHealth,Carries,he,hd,hs]
    split_ifs <;> simp
  | true =>
    by_cases hw : config.circuitBreaker.timeout ≤ now-b.failure.lastFailureTime
    · cases hs : b.circuit.state <;>
        simp [ProviderState.gate,checkFailure,checkCircuit,openTimeout,Breaker.check,
          Breaker.coolingDown,Breaker.resumed,Breaker.openTimeout,checkHealth,Carries,
          FailureInfo.resume,he,hd,hs,hw,not_lt.mpr hw]
      split_ifs <;> simp
    · simp [ProviderState.gate,checkFailure,Breaker.check,Breaker.coolingDown,Carries,hd,hw,
        not_le.mp hw]

theorem checkRateLimit_carries (h : st.Carries b) (now : ℤ) :
    (st.checkRateLimit config now).2.Carries b := by
  unfold checkRateLimit
  split_ifs
  · split
    · exact h
    · exact h
  · exact h

theorem Carries.check (h : st.Carries b) (he : config.circuitBreaker.enabled = true) (now : ℤ) :
    (st.check config now).Carries (b.check config.circuitBreaker now).2 := by
  have hg := (h.gate he now).1
  simp only [ProviderState.check,isProviderAvailable]
  split_ifs
  · exact checkRateLimit_carries hg now
  · exact hg

theorem Carries.iterate_check (h : st.Carries b) (he : config.circuitBreaker.enabled = true)
    (now : ℤ) (k : ℕ) :
    ((ProviderState.check config now)^[k] st).Carries
      ((Breaker.checked config.circuitBreaker now)^[k] b) := by
  induction k with
  | zero => exact h
  | succ k ih =>
    rw [Function.iterate_succ_apply',Function.iterate_succ_apply']
    exact ih.check he now

theorem Carries.of_available (h : st.Carries b) (he : config.circuitBreaker.enabled = true)
    {now : ℤ} (ha : (st.isProviderAvailable config now).1 = .ok true) :
    (b.check config.circuitBreaker now).1 = true := by
  simp only [isProviderAvailable,(h.gate he now).2.1] at ha
  split_ifs at ha with hb
  · exact (Bool.and_eq_true _ _ ▸ hb).1
  · simp at ha

/-- Without health checks and rate limit the pair decides alone. -/
theorem Carries.available_iff (h : st.Carries b) (he : config.circuitBreaker.enabled = true)
    (hh : config.healthCheck.enabled = false) (hr : config.rateLimit.enabled = false)
    (now : ℤ) :
    (st.isProviderAvailable config now).1 = .ok (b.check config.circuitBreaker now).1 := by
  have hg := (h.gate he now).2.1
  cases hb : (b.check config.circuitBreaker now).1 <;>
    simp [isProviderAvailable,hg,hb,checkHealth,checkRateLimit,hh,hr]

theorem Carries.recordSuccess (h : st.Carries b) (he : config.circuitBreaker.enabled = true)
    (closedAt requestAt : ℤ) :
    (st.recordSuccess config closedAt requestAt).Carries
      (b.success config.circuitBreaker closedAt) := by
  simp [ProviderState.recordSuccess,Carries,Breaker.success,h.1,h.2,he]

theorem Carries.updateFailureState (h : st.Carries b)
    (he : config.circuitBreaker.enabled = true) (now : ℤ) :
    (st.updateFailureState config now).Carries (b.fail config.circuitBreaker now) := by
  simp [ProviderState.updateFailureState,Carries,Breaker.fail,h.1,h.2,he]

theorem Carries.handleAuthFailure (h : st.Carries b)
    (he : config.circuitBreaker.enabled = true) (now : ℤ) :
    (st.handleAuthFailure config now).Carries (b.authFail now) := by
  obtain ⟨hf,hc⟩ := h
  simp only [ProviderState.handleAuthFailure,hf,Breaker.authFail,he,if_true]
  split_ifs <;> simp [Carries,hc]

end ProviderState
end ChainKit
