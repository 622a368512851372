import ChainKit.RateLimit

/-! What the manager keeps about one provider, and how each of its operations moves it.
The source keeps four maps keyed by the provider's name. `ProviderState` is the entry of
all four at one name, with `none` where a map has no entry. -/
namespace ChainKit

/-- Three consecutive auth failures open the circuit at once. -/
def authFailureCircuitThreshold : ℕ := 3

def authFailureCircuitTimeout : ℤ := 10*Duration.minute

structure FailureInfo where
  consecutiveFailures : ℕ := 0
  lastFailureTime : ℤ := 0
  isTemporarilyDown : Bool := false
  totalFailures : ℕ := 0
  totalSuccesses : ℕ := 0
  retryCount : ℕ := 0
  consecutiveAuthFailures : ℕ := 0
  deriving DecidableEq

/-- "CLOSED", "OPEN" and "HALF_OPEN". -/
inductive CircuitStatus
  | closed
  | opened
  | halfOpen
  deriving DecidableEq, Repr

structure CircuitState where
  state : CircuitStatus
  lastStateChange : ℤ
  consecutiveFailures : ℕ := 0
  consecutiveSuccesses : ℕ := 0
  halfOpenCalls : ℕ := 0
  lastFailureTime : ℤ := 0
  deriving DecidableEq

structure HealthState where
  isHealthy : Bool
  lastHealthCheck : ℤ
  deriving DecidableEq

structure ProviderState where
  failure : Option FailureInfo := none
  circuit : Option CircuitState := none
  health : Option HealthState := none
  rateLimit : Option RateLimitState := none
  deriving DecidableEq

namespace FailureInfo

/-- `recordSuccess`, lines 444-448. -/
def recordSuccess (failure : FailureInfo) : FailureInfo :=
  { failure with
    consecutiveFailures := 0
    isTemporarilyDown := false
    totalSuccesses := failure.totalSuccesses+1
    retryCount := 0
    consecutiveAuthFailures := 0 }

/-- `updateFailureState`, lines 492-499. -/
def recordFailure (failure : FailureInfo) (config : CircuitBreakerConfig) (now : ℤ) :
    FailureInfo :=
  { failure with
    consecutiveFailures := failure.consecutiveFailures+1
    lastFailureTime := now
    totalFailures := failure.totalFailures+1
    isTemporarilyDown := failure.isTemporarilyDown ||
      decide (config.failureThreshold ≤ (failure.consecutiveFailures+1 : ℕ)) }

/-- The cooldown of the legacy tracker has passed, lines 376-377. -/
def resume (failure : FailureInfo) : FailureInfo :=
  { failure with isTemporarilyDown := false, consecutiveFailures := 0 }

end FailureInfo

namespace CircuitState

/-- `recordSuccess`, lines 454-462. -/
def recordSuccess (cs : CircuitState) (config : CircuitBreakerConfig) (now : ℤ) :
    CircuitState :=
  let cs := { cs with
    consecutiveFailures := 0
    consecutiveSuccesses := cs.consecutiveSuccesses+1 }
  if cs.state = .halfOpen ∧ config.successThreshold ≤ (cs.consecutiveSuccesses : ℤ) then
    { cs with state := .closed, lastStateChange := now, halfOpenCalls := 0 }
  else cs

/-- `updateFailureState`, lines 512-524. -/
def recordFailure (cs : CircuitState) (config : CircuitBreakerConfig) (now : ℤ) :
    CircuitState :=
  let cs := { cs with
    consecutiveFailures := cs.consecutiveFailures+1
    consecutiveSuccesses := 0
    lastFailureTime := now }
  let cs := if cs.state = .halfOpen then { cs with halfOpenCalls := cs.halfOpenCalls+1 } else cs
  if config.failureThreshold ≤ (cs.consecutiveFailures : ℤ) then
    { cs with state := .opened, lastStateChange := now }
  else cs

/-- `handleAuthFailure`, lines 749-750. -/
def trip (cs : CircuitState) (now : ℤ) : CircuitState :=
  { cs with state := .opened, lastStateChange := now }

/-- `isProviderAvailable`, lines 401-403. -/
def probe (cs : CircuitState) (now : ℤ) : CircuitState :=
  { cs with state := .halfOpen, lastStateChange := now, halfOpenCalls := 0 }

end CircuitState

namespace ProviderState

/-- The entries that `addProvider` installs, with the three clock readings it takes. -/
def fresh (burstSize : ℤ) (changedAt checkedAt refilledAt : ℤ) : ProviderState where
  failure := some {}
  circuit := some { state := .closed, lastStateChange := changedAt }
  health := some { isHealthy := true, lastHealthCheck := checkedAt }
  rateLimit := some (newRateLimitState burstSize refilledAt)

/-- The legacy failure tracker of `isProviderAvailable`, lines 372-382: whether the check
goes on, and the entry it leaves. -/
def checkFailure (st : ProviderState) (config : ChainConfig) (now : ℤ) :
    Bool × ProviderState :=
  match st.failure with
  | some failure =>
    if failure.isTemporarilyDown then
      if config.circuitBreaker.timeout ≤ now-failure.lastFailureTime then
        (true,{ st with failure := some failure.resume })
      else (false,st)
    else (true,st)
  | none => (true,st)

/-- The time an open circuit has to wait, lines 390-397. -/
def openTimeout (st : ProviderState) (config : ChainConfig) : ℤ :=
  match st.failure with
  | some failure =>
    if authFailureCircuitThreshold ≤ failure.consecutiveAuthFailures then authFailureCircuitTimeout
    else config.circuitBreaker.timeout
  | none => config.circuitBreaker.timeout

/-- The circuit breaker of `isProviderAvailable`, lines 385-414. -/
def checkCircuit (st : ProviderState) (config : ChainConfig) (now : ℤ) :
    Bool × ProviderState :=
  if config.circuitBreaker.enabled then
    match st.circuit with
    | some cs =>
      match cs.state with
      | .opened =>
        if st.openTimeout config ≤ now-cs.lastStateChange then
          (true,{ st with circuit := some (cs.probe now) })
        else (false,st)
      | .halfOpen => (decide ((cs.halfOpenCalls : ℤ) < config.circuitBreaker.halfOpenMaxCalls),st)
      | .closed => (true,st)
    | none => (true,st)
  else (true,st)

/-- The health check of `isProviderAvailable`, lines 417-423. -/
def checkHealth (st : ProviderState) (config : ChainConfig) : Bool :=
  if config.healthCheck.enabled then
    match st.health with
    | some hs => hs.isHealthy
    | none => true
  else true

/-- The rate limit of `isProviderAvailable`, lines 426-432. -/
def checkRateLimit (st : ProviderState) (config : ChainConfig) (now : ℤ) :
    Except Panic Bool × ProviderState :=
  if config.rateLimit.enabled then
    match st.rateLimit with
    | some rls =>
      let r := rls.canMakeRequest config.rateLimit now
      (r.1,{ st with rateLimit := some r.2 })
    | none => (.ok true,st)
  else (.ok true,st)

/-- The three checks that come before the rate limit. -/
def gate (st : ProviderState) (config : ChainConfig) (now : ℤ) : Bool × ProviderState :=
  let legacy := st.checkFailure config now
  if legacy.1 then
    let circuit := legacy.2.checkCircuit config now
    (circuit.1 && circuit.2.checkHealth config,circuit.2)
  else legacy

/-- `isProviderAvailable` at the entry of one provider. -/
def isProviderAvailable (st : ProviderState) (config : ChainConfig) (now : ℤ) :
    Except Panic Bool × ProviderState :=
  let g := st.gate config now
  if g.1 then g.2.checkRateLimit config now else (.ok false,g.2)

/-- `recordSuccess` at the entry of one provider, with the clock readings at lines 460 and 469. -/
def recordSuccess (st : ProviderState) (config : ChainConfig) (closedAt requestAt : ℤ) :
    ProviderState :=
  { st with
    failure := st.failure.map FailureInfo.recordSuccess
    circuit := if config.circuitBreaker.enabled then
        st.circuit.map (fun cs => cs.recordSuccess config.circuitBreaker closedAt)
      else st.circuit
    rateLimit := if config.rateLimit.enabled then
        st.rateLimit.map (fun rls => rls.recordRequest config.rateLimit requestAt)
      else st.rateLimit }

/-- `updateFailureState` at the entry of one provider. An unknown name gets a new entry. -/
def updateFailureState (st : ProviderState) (config : ChainConfig) (now : ℤ) : ProviderState :=
  { st with
    failure := match st.failure with
      | some failure => some (failure.recordFailure config.circuitBreaker now)
      | none => some { consecutiveFailures := 1, lastFailureTime := now, totalFailures := 1 }
    circuit := if config.circuitBreaker.enabled then
        st.circuit.map (fun cs => cs.recordFailure config.circuitBreaker now)
      else st.circuit }

/-- `handleAuthFailure` at the entry of one provider. -/
def handleAuthFailure (st : ProviderState) (config : ChainConfig) (now : ℤ) : ProviderState :=
  match st.failure with
  | none => st
  | some failure =>
    let failure := { failure with
      consecutiveAuthFailures := failure.consecutiveAuthFailures+1 }
    let st := { st with failure := some failure }
    if failure.consecutiveAuthFailures < authFailureCircuitThreshold then st
    else if config.circuitBreaker.enabled then
      { st with circuit := st.circuit.map (fun cs => cs.trip now) }
    else st

@[simp] theorem checkFailure_rateLimit (st : ProviderState) (config : ChainConfig) (now : ℤ) :
    (st.checkFailure config now).2.rateLimit = st.rateLimit := by
  unfold checkFailure
  split
  · split_ifs <;> rfl
  · rfl

theorem checkCircuit_kept (st : ProviderState) (config : ChainConfig) (now : ℤ) :
    ∃ circuit, (st.checkCircuit config now).2 = { st with circuit := circuit } := by
  unfold checkCircuit
  split_ifs
  · split
    · split
      · split_ifs
        · exact ⟨_,rfl⟩
        · exact ⟨st.circuit,rfl⟩
      · exact ⟨st.circuit,rfl⟩
      · exact ⟨st.circuit,rfl⟩
    · exact ⟨st.circuit,rfl⟩
  · exact ⟨st.circuit,rfl⟩

@[simp] theorem checkCircuit_rateLimit (st : ProviderState) (config : ChainConfig) (now : ℤ) :
    (st.checkCircuit config now).2.rateLimit = st.rateLimit := by
  obtain ⟨circuit,h⟩ := st.checkCircuit_kept config now
  rw [h]

@[simp] theorem checkCircuit_failure (st : ProviderState) (config : ChainConfig) (now : ℤ) :
    (st.checkCircuit config now).2.failure = st.failure := by
  obtain ⟨circuit,h⟩ := st.checkCircuit_kept config now
  rw [h]

@[simp] theorem checkCircuit_health (st : ProviderState) (config : ChainConfig) (now : ℤ) :
    (st.checkCircuit config now).2.health = st.health := by
  obtain ⟨circuit,h⟩ := st.checkCircuit_kept config now
  rw [h]

@[simp] theorem gate_rateLimit (st : ProviderState) (config : ChainConfig) (now : ℤ) :
    (st.gate config now).2.rateLimit = st.rateLimit := by
  simp only [gate]
  split_ifs <;> simp

@[simp] theorem checkRateLimit_failure (st : ProviderState) (config : ChainConfig) (now : ℤ) :
    (st.checkRateLimit config now).2.failure = st.failure := by
  unfold checkRateLimit
  split_ifs
  · split <;> rfl
  · rfl

/-- Only the first of the checks touches the legacy tracker. -/
theorem isProviderAvailable_failure (st : ProviderState) (config : ChainConfig) (now : ℤ) :
    (st.isProviderAvailable config now).2.failure = (st.checkFailure config now).2.failure := by
  have hgate : (st.gate config now).2.failure = (st.checkFailure config now).2.failure := by
    simp only [gate]
    split_ifs
    · rw [checkCircuit_failure]
    · rfl
  simp only [isProviderAvailable]
  split_ifs
  · rw [checkRateLimit_failure,hgate]
  · exact hgate

theorem isProviderAvailable_rateLimit {st : ProviderState} {config : ChainConfig}
    (hr : config.rateLimit.enabled = true) {rls : RateLimitState}
    (h : st.rateLimit = some rls) (now : ℤ) :
    ((st.isProviderAvailable config now).1 =
      if (st.gate config now).1 then (rls.canMakeRequest config.rateLimit now).1
      else .ok false) ∧
    (st.isProviderAvailable config now).2.rateLimit =
      some (if (st.gate config now).1 then (rls.canMakeRequest config.rateLimit now).2
        else rls) := by
  have hg : (st.gate config now).2.rateLimit = some rls := by rw [gate_rateLimit,h]
  simp only [isProviderAvailable]
  split_ifs
  · simp [checkRateLimit,hr,h]
  · exact ⟨rfl,hg⟩

@[simp] theorem updateFailureState_rateLimit (st : ProviderState) (config : ChainConfig)
    (now : ℤ) : (st.updateFailureState config now).rateLimit = st.rateLimit := rfl

@[simp] theorem handleAuthFailure_rateLimit (st : ProviderState) (config : ChainConfig)
    (now : ℤ) : (st.handleAuthFailure config now).rateLimit = st.rateLimit := by
  unfold handleAuthFailure
  split
  · rfl
  · simp only
    split_ifs <;> rfl

/-- Every map has an entry at the provider's name. -/
def Tracked (st : ProviderState) : Prop :=
  st.failure.isSome ∧ st.circuit.isSome ∧ st.health.isSome ∧ st.rateLimit.isSome

instance (st : ProviderState) : Decidable st.Tracked :=
  inferInstanceAs (Decidable (_ ∧ _ ∧ _ ∧ _))

theorem fresh_tracked (burstSize : ℤ) (changedAt checkedAt refilledAt : ℤ) :
    (fresh burstSize changedAt checkedAt refilledAt).Tracked := by
  simp [Tracked,fresh]

theorem checkFailure_tracked {st : ProviderState} (config : ChainConfig) (now : ℤ)
    (h : st.Tracked) : (st.checkFailure config now).2.Tracked := by
  unfold checkFailure
  split
  · split_ifs
    · exact ⟨rfl,h.2⟩
    · exact h
    · exact h
  · exact h

theorem checkCircuit_tracked {st : ProviderState} (config : ChainConfig) (now : ℤ)
    (h : st.Tracked) : (st.checkCircuit config now).2.Tracked := by
  unfold checkCircuit
  split_ifs
  · split
    · split
      · split_ifs
        · exact ⟨h.1,rfl,h.2.2⟩
        · exact h
      · exact h
      · exact h
    · exact h
  · exact h

theorem checkRateLimit_tracked {st : ProviderState} (config : ChainConfig) (now : ℤ)
    (h : st.Tracked) : (st.checkRateLimit config now).2.Tracked := by
  unfold checkRateLimit
  split_ifs
  · split
    · exact ⟨h.1,h.2.1,h.2.2.1,rfl⟩
    · exact h
  · exact h

theorem gate_tracked {st : ProviderState} (config : ChainConfig) (now : ℤ)
    (h : st.Tracked) : (st.gate config now).2.Tracked := by
  simp only [gate]
  split_ifs
  · exact checkCircuit_tracked config now (checkFailure_tracked config now h)
  · exact checkFailure_tracked config now h

theorem isProviderAvailable_tracked {st : ProviderState} (config : ChainConfig) (now : ℤ)
    (h : st.Tracked) : (st.isProviderAvailable config now).2.Tracked := by
  simp only [isProviderAvailable]
  split_ifs
  · exact checkRateLimit_tracked config now (gate_tracked config now h)
  · exact gate_tracked config now h

theorem recordSuccess_tracked {st : ProviderState} (config : ChainConfig) (closedAt requestAt : ℤ)
    (h : st.Tracked) : (st.recordSuccess config closedAt requestAt).Tracked := by
  obtain ⟨hf,hc,hh,hr⟩ := h
  refine ⟨?_,?_,hh,?_⟩
  · simpa [recordSuccess] using hf
  · unfold recordSuccess
    split_ifs <;> simpa using hc
  · unfold recordSuccess
    split_ifs <;> simpa using hr

theorem updateFailureState_tracked {st : ProviderState} (config : ChainConfig) (now : ℤ)
    (h : st.Tracked) : (st.updateFailureState config now).Tracked := by
  obtain ⟨hf,hc,hh,hr⟩ := h
  refine ⟨?_,?_,hh,hr⟩
  · unfold updateFailureState
    split <;> rfl
  · unfold updateFailureState
    split_ifs <;> simpa using hc

theorem handleAuthFailure_tracked {st : ProviderState} (config : ChainConfig) (now : ℤ)
    (h : st.Tracked) : (st.handleAuthFailure config now).Tracked := by
  obtain ⟨hf,hc,hh,hr⟩ := h
  unfold handleAuthFailure
  split
  · exact ⟨hf,hc,hh,hr⟩
  · simp only
    split_ifs
    · exact ⟨rfl,hc,hh,hr⟩
    · exact ⟨rfl,by simpa using hc,hh,hr⟩
    · exact ⟨rfl,hc,hh,hr⟩

end ProviderState
end ChainKit
