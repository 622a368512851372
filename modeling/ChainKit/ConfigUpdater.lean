import ChainKit.Builder
import ChainKit.Scoring.Decay

/-! The configuration of running providers, as `ConfigUpdater` reads and changes it. -/
namespace ChainKit
variable {ι ε : Type}

structure ScoringWeights where
  healthCheckFailPenalty : ℚ := 0
  rateLimitPenalty : ℚ := 0
  authFailurePenalty : ℚ := 0
  slowResponsePenalty : ℚ := 0
  operationFailPenalty : ℚ := 0
  timeoutPenalty : ℚ := 0
  successBonus : ℚ := 0
  maxPenalty : ℚ := 0
  decayInterval : ℤ := 0
  decayRate : ℚ := 0
  latencyWindowSize : ℤ := 0
  slowThresholdStdDev : ℚ := 0
  minSamplesForLatencyComparison : ℤ := 0
  deriving DecidableEq

def scoringConfigToWeights (c : ScoringConfig) : ScoringWeights where
  healthCheckFailPenalty := c.healthCheckFailPenalty
  rateLimitPenalty := c.rateLimitPenalty
  authFailurePenalty := c.authFailurePenalty
  slowResponsePenalty := c.slowResponsePenalty
  operationFailPenalty := c.operationFailPenalty
  timeoutPenalty := c.timeoutPenalty
  successBonus := c.successBonus
  maxPenalty := c.maxPenalty
  decayInterval := c.decayInterval
  decayRate := c.decayRate
  latencyWindowSize := c.latencyWindowSize
  slowThresholdStdDev := c.slowThresholdStdDev
  minSamplesForLatencyComparison := c.minSamplesForLatencyComparison

/-- `scoringWeightsToOptions`, as what the options do one after the other. `WithDecayRate` and
`WithLatencyWindow` bound their values. -/
def scoringWeightsToOptions (w : ScoringWeights) (c : ScoringConfig) : ScoringConfig :=
  { c with
    healthCheckFailPenalty := w.healthCheckFailPenalty
    rateLimitPenalty := w.rateLimitPenalty
    authFailurePenalty := w.authFailurePenalty
    slowResponsePenalty := w.slowResponsePenalty
    operationFailPenalty := w.operationFailPenalty
    timeoutPenalty := w.timeoutPenalty
    successBonus := w.successBonus
    maxPenalty := w.maxPenalty
    decayInterval := w.decayInterval
    decayRate := if w.decayRate < 0 then 0 else if 1 < w.decayRate then 1 else w.decayRate
    latencyWindowSize := if w.latencyWindowSize < 10 then 10 else w.latencyWindowSize
    slowThresholdStdDev := w.slowThresholdStdDev
    minSamplesForLatencyComparison := w.minSamplesForLatencyComparison }

/-- A `map[ProviderChainType]ChainConfig`. Its keys are any strings. -/
abbrev ChainMap := AList fun _ : String => ChainConfig

structure ConfigSnapshot where
  chains : ChainMap := ∅
  scoringEnabled : Bool := false
  scoringWeights : ScoringWeights := {}
  deriving DecidableEq

/-- The panics of an update: that of a manager, and that of `time.NewTicker`. -/
inductive UpdatePanic
  | manager (p : Panic)
  | tickerInterval
  deriving DecidableEq

namespace ProviderChainType

def all : List ProviderChainType :=
  [.addressGenerators,.addressValidators,.feeEstimators,.feeRecommenders,.txBroadcasters,
    .utxoFetchers,.txAssemblers,.txSizers,.txSigners,.txStatusFetchers,.balanceFetchers,
    .rateFetchers,.historicalRateFetchers]

def ofString (chain : String) : Option ProviderChainType := all.find? (·.string = chain)

@[simp] theorem ofString_string (t : ProviderChainType) : ofString t.string = some t := by
  cases t <;> decide

theorem string_of_ofString {chain : String} {t : ProviderChainType}
    (h : ofString chain = some t) : t.string = chain := by
  simpa using List.find?_some h

theorem mem_all (t : ProviderChainType) : t ∈ all := by
  cases t <;> decide

end ProviderChainType

/-- The fields of `*MixedProviders` that a configuration reaches. A manager may be nil, and the
scoring engine comes with its decay manager. -/
structure LiveProviders (ι ε : Type) where
  managers : ProviderChainType → Option (ProviderManager ι ε)
  scoringEngine : Option Decay.State

def MixedProviders.live (mp : MixedProviders ι ε) (scoringEngine : Option Decay.State) :
    LiveProviders ι ε := ⟨fun chainType => some (mp.chain chainType),scoringEngine⟩

namespace LiveProviders

/-- The manager of a chain, with the key under which it is found; `quote` is the verb `%q`. -/
def managerFor (m : LiveProviders ι ε) (quote : String → String) (chain : String) :
    Except GoError (ProviderChainType × ProviderManager ι ε) :=
  match ProviderChainType.ofString chain with
  | none => .error (.plain ("unknown provider chain: " ++ quote chain))
  | some t =>
    match m.managers t with
    | none =>
      .error (.wrap "" GoError.ErrProviderNotConfigured
        (": chain " ++ chain ++ " has no providers registered"))
    | some pm => .ok (t,pm)

/-- `UpdateChainConfig`: a panic, an error or nil. -/
def updateChainConfig (m : LiveProviders ι ε) (quote : String → String) (draw : ℕ → ℕ)
    (chain : String) (cfg : ChainConfig) :
    Except UpdatePanic (Option GoError) × LiveProviders ι ε :=
  match m.managerFor quote chain with
  | .error e => (.ok (some e),m)
  | .ok (t,pm) =>
    let m := { m with managers := Function.update m.managers t (pm.updateChainConfig draw cfg).2 }
    match (pm.updateChainConfig draw cfg).1 with
    | .error p => (.error (.manager p),m)
    | .ok _ => (.ok none,m)

/-- `SetSelectionStrategy`: an error or nil. -/
def setSelectionStrategy (m : LiveProviders ι ε) (quote : String → String) (draw : ℕ → ℕ)
    (chain : String) (strategy : SelectionStrategy) : Option GoError × LiveProviders ι ε :=
  match m.managerFor quote chain with
  | .error e => (some e,m)
  | .ok (t,pm) =>
    let m :=
      { m with managers := Function.update m.managers t (pm.setSelectionStrategy draw strategy).2 }
    match (pm.setSelectionStrategy draw strategy).1 with
    | .error e => (some e,m)
    | .ok _ => (none,m)

def setScoringWeights (m : LiveProviders ι ε) (w : ScoringWeights) :
    Except UpdatePanic (Option GoError) × LiveProviders ι ε :=
  match m.scoringEngine with
  | none => (.ok none,m)
  | some engine =>
    let engine := engine.updateConfig (scoringWeightsToOptions w)
    (if engine.panicked then .error .tickerInterval else .ok none,
      { m with scoringEngine := some engine })

def setScoringEnabled (m : LiveProviders ι ε) (enabled : Bool) : LiveProviders ι ε :=
  { m with scoringEngine := m.scoringEngine.map fun s =>
      { s with engine := { s.engine with config := { s.engine.config with enabled := enabled } } } }

def chainsCopy (m : LiveProviders ι ε) (keys : List ProviderChainType) : ChainMap :=
  keys.foldl (fun chains t =>
    match m.managers t with
    | none => chains
    | some pm => chains.insert t.string pm.config) ∅

def snapshot (m : LiveProviders ι ε) : ConfigSnapshot where
  chains := m.chainsCopy ProviderChainType.all
  scoringEnabled := (m.scoringEngine.map fun s => s.engine.config.enabled).getD false
  scoringWeights :=
    (m.scoringEngine.map fun s => scoringConfigToWeights s.engine.config).getD {}

def chainConfig (m : LiveProviders ι ε) (chain : String) : Option ChainConfig :=
  (ProviderChainType.ofString chain).bind fun t => (m.managers t).map (·.config)

@[simp] theorem chainConfig_string (m : LiveProviders ι ε) (t : ProviderChainType) :
    m.chainConfig t.string = (m.managers t).map (·.config) := by
  simp [chainConfig]

theorem managerFor_cases (m : LiveProviders ι ε) (quote : String → String) (chain : String) :
    (∃ e, m.managerFor quote chain = .error e ∧ m.chainConfig chain = none) ∨
      ∃ t pm, m.managerFor quote chain = .ok (t,pm) ∧ t.string = chain ∧
        m.managers t = some pm := by
  unfold managerFor chainConfig
  cases ht : ProviderChainType.ofString chain with
  | none => exact .inl ⟨_,rfl,rfl⟩
  | some t =>
    cases hpm : m.managers t with
    | none => exact .inl ⟨_,by simp only [hpm]; rfl,by simp [hpm]⟩
    | some pm =>
      exact .inr ⟨t,pm,by simp only [hpm],ProviderChainType.string_of_ofString ht,hpm⟩

theorem chainConfig_update (m : LiveProviders ι ε) (t : ProviderChainType)
    (pm : ProviderManager ι ε) (other : String) :
    { m with managers := Function.update m.managers t (some pm) }.chainConfig other =
      if other = t.string then some pm.config else m.chainConfig other := by
  split_ifs with hother
  · simp [hother]
  · simp only [chainConfig]
    cases hu : ProviderChainType.ofString other with
    | none => rfl
    | some u =>
      have hne : u ≠ t := by
        rintro rfl
        exact hother (ProviderChainType.string_of_ofString hu).symm
      simp [hne]

/-- `UpdateChainConfig` replaces the configuration of the chain if there is one, and fails if
there is none. -/
theorem updateChainConfig_spec (m : LiveProviders ι ε) (quote : String → String) (draw : ℕ → ℕ)
    (chain : String) (cfg : ChainConfig) :
    (∀ other, (m.updateChainConfig quote draw chain cfg).2.chainConfig other =
      if other = chain ∧ (m.chainConfig chain).isSome then some cfg else m.chainConfig other) ∧
    ∀ err, (m.updateChainConfig quote draw chain cfg).1 = .ok err →
      (err = none ↔ (m.chainConfig chain).isSome) := by
  unfold updateChainConfig
  obtain ⟨e,he,hnone⟩ | ⟨t,pm,hok,rfl,hpm⟩ := m.managerFor_cases quote chain
  · simp only [he,hnone]
    refine ⟨by simp,?_⟩
    intro err herr
    cases herr
    simp
  · have hsome : (m.chainConfig t.string).isSome = true := by simp [hpm]
    simp only [hok,hsome,and_true,iff_true]
    constructor
    · intro other
      split
      all_goals
        rw [chainConfig_update,ProviderManager.updateChainConfig_config]
    · intro err herr
      split at herr
      · cases herr
      · cases herr
        rfl

theorem lookup_chainsCopy (m : LiveProviders ι ε) (keys : List ProviderChainType)
    (chain : String) : (m.chainsCopy keys).lookup chain =
      if ∃ t ∈ keys, t.string = chain then m.chainConfig chain else none := by
  induction keys using List.reverseRecOn with
  | nil => simp [chainsCopy]
  | append_singleton keys t ih =>
    simp only [chainsCopy,List.foldl_append,List.foldl_cons,List.foldl_nil] at ih ⊢
    by_cases ht : t.string = chain
    · rw [if_pos ⟨t,by simp,ht⟩,← ht,chainConfig_string]
      cases hpm : m.managers t with
      | none =>
        rw [← ht,chainConfig_string,hpm] at ih
        simpa using ih
      | some pm => simp
    · have hmem : (∃ u ∈ keys ++ [t], u.string = chain) ↔ ∃ u ∈ keys, u.string = chain := by
        simp [ht,or_and_right,exists_or]
      simp only [hmem]
      rw [← ih]
      cases m.managers t with
      | none => rfl
      | some pm => exact AList.lookup_insert_ne (Ne.symm ht)

/-- `Snapshot` reports the configurations in force. -/
theorem lookup_snapshot (m : LiveProviders ι ε) (chain : String) :
    m.snapshot.chains.lookup chain = m.chainConfig chain := by
  rw [snapshot,lookup_chainsCopy]
  split_ifs with hknown
  · rfl
  · rw [chainConfig]
    cases ht : ProviderChainType.ofString chain with
    | none => rfl
    | some t =>
      exact absurd ⟨t,t.mem_all,ProviderChainType.string_of_ofString ht⟩ hknown

end LiveProviders
end ChainKit
