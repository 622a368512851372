import ChainKit.Registration

/-! The builder of a `MixedProviders`: thirteen managers, one for each role, that are filled by
the `With…Chain` methods and may come to share one scoring engine. -/
namespace ChainKit
variable {ι ε : Type}

/-- An element of the argument list of a `With…Chain` method, with the clock readings of its
registration. -/
structure ChainEntry (ι : Type) where
  provider : Option ι
  name : String
  priority : ℤ
  chainConfig : Option ChainConfig := none
  changedAt : ℤ := 0
  checkedAt : ℤ := 0
  refilledAt : ℤ := 0

/-- The surroundings of the builder: the sort of the library, the `Name` method of the
providers that have one, and the draws of random selectors. -/
structure BuilderEnv (ι : Type) where
  slice : PrioritySort ι
  nameOf : ι → Option String
  draw : ℕ → ℕ

def BuilderEnv.resolveName (env : BuilderEnv ι) (entry : ChainEntry ι) (provider : ι) : String :=
  if entry.name = "" then (env.nameOf provider).getD "unknown" else entry.name

/-- The loop that the `With…Chain` methods share. A nil provider is skipped, and only the first
chain configuration is applied. -/
def addEntries (env : BuilderEnv ι) :
    List (ChainEntry ι) → Bool → ProviderManager ι ε → Except Panic (ProviderManager ι ε)
  | [],_,pm => .ok pm
  | entry :: entries,chainConfigApplied,pm =>
    match entry.provider with
    | none => addEntries env entries chainConfigApplied pm
    | some provider =>
      let reg : Registration ι :=
        { provider := some provider
          priority := entry.priority
          name := env.resolveName entry provider
          changedAt := entry.changedAt
          checkedAt := entry.checkedAt
          refilledAt := entry.refilledAt }
      match entry.chainConfig,chainConfigApplied with
      | some config,false =>
        match pm.updateChainConfig env.draw config with
        | (.error panic,_) => .error panic
        | (.ok _,pm) => addEntries env entries true (pm.register env.slice reg)
      | _,_ => addEntries env entries chainConfigApplied (pm.register env.slice reg)

inductive BuilderCall (ι ε : Type)
  | withChain (chainType : ProviderChainType) (entries : List (ChainEntry ι))
  | withChainConfig (chainType : ProviderChainType) (config : ChainConfig)
  | withAdaptiveScoringEngine (address : ℕ) (engine : ε)

namespace BuilderCall
variable (entries : List (ChainEntry ι))

def withBalanceFetcherChain : BuilderCall ι ε := withChain .balanceFetchers entries
def withRateFetcherChain : BuilderCall ι ε := withChain .rateFetchers entries
def withHistoricalRateFetcherChain : BuilderCall ι ε := withChain .historicalRateFetchers entries
def withAddressGeneratorChain : BuilderCall ι ε := withChain .addressGenerators entries
def withFeeRecommenderChain : BuilderCall ι ε := withChain .feeRecommenders entries
def withFeeEstimatorChain : BuilderCall ι ε := withChain .feeEstimators entries
def withTxBroadcasterChain : BuilderCall ι ε := withChain .txBroadcasters entries
def withTxAssemblerChain : BuilderCall ι ε := withChain .txAssemblers entries
def withTxSizerChain : BuilderCall ι ε := withChain .txSizers entries
def withTxSignerChain : BuilderCall ι ε := withChain .txSigners entries
def withUTXOFetcherChain : BuilderCall ι ε := withChain .utxoFetchers entries
def withAddressValidatorChain : BuilderCall ι ε := withChain .addressValidators entries
def withTxStatusFetcherChain : BuilderCall ι ε := withChain .txStatusFetchers entries

end BuilderCall

structure MixedProvidersBuilder (ι ε : Type) where
  chains : ProviderChainType → ProviderManager ι ε
  scoringEngine : Option (ℕ × ε)

/-- The built client. Its managers share the engines by their addresses. -/
structure MixedProviders (ι ε : Type) where
  chains : ProviderChainType → ProviderManager ι ε
  engines : ℕ → Option ε

def MixedProviders.chain (mp : MixedProviders ι ε) (chainType : ProviderChainType) :
    ProviderManager ι ε := { mp.chains chainType with engines := mp.engines }

/-- The managers in the order in which `Build` visits them. -/
def buildOrder : List ProviderChainType :=
  [.addressGenerators,.addressValidators,.feeRecommenders,.feeEstimators,.txBroadcasters,
    .txAssemblers,.txSizers,.txSigners,.txStatusFetchers,.utxoFetchers,.balanceFetchers,
    .rateFetchers,.historicalRateFetchers]

namespace MixedProvidersBuilder

/-- `NewMixedProvidersBuilder`. -/
def new (env : BuilderEnv ι) : MixedProvidersBuilder ι ε where
  chains chainType := .empty env.draw (defaultChainConfig chainType)
  scoringEngine := none

theorem newProviderManager_new (env : BuilderEnv ι) (chainType : ProviderChainType) :
    ProviderManager.newProviderManager env.draw (defaultChainConfig chainType) =
      .ok ((new env : MixedProvidersBuilder ι ε).chains chainType) :=
  ProviderManager.newProviderManager_ok_iff.mpr ⟨by cases chainType <;> decide,rfl⟩

def setChain (b : MixedProvidersBuilder ι ε) (chainType : ProviderChainType)
    (pm : ProviderManager ι ε) : MixedProvidersBuilder ι ε :=
  { b with chains := Function.update b.chains chainType pm }

def apply (env : BuilderEnv ι) (b : MixedProvidersBuilder ι ε) :
    BuilderCall ι ε → Except Panic (MixedProvidersBuilder ι ε)
  | .withChain chainType entries =>
    match addEntries env entries false (b.chains chainType) with
    | .error panic => .error panic
    | .ok pm => .ok (b.setChain chainType pm)
  | .withChainConfig chainType config =>
    match (b.chains chainType).updateChainConfig env.draw config with
    | (.error panic,_) => .error panic
    | (.ok _,pm) => .ok (b.setChain chainType pm)
  | .withAdaptiveScoringEngine address engine =>
    .ok { b with scoringEngine := some (address,engine) }

def applyAll (env : BuilderEnv ι) :
    List (BuilderCall ι ε) → MixedProvidersBuilder ι ε → Except Panic (MixedProvidersBuilder ι ε)
  | [],b => .ok b
  | call :: calls,b =>
    match b.apply env call with
    | .error panic => .error panic
    | .ok b => applyAll env calls b

/-- The loop of `Build`: every manager gets the engine, which then knows its providers. -/
def attach [ScoringEngine ε] (address : ℕ) :
    List ProviderChainType → (ProviderChainType → ProviderManager ι ε) → ε →
      (ProviderChainType → ProviderManager ι ε) × ε
  | [],chains,engine => (chains,engine)
  | t :: ts,chains,engine =>
    attach address ts
      (Function.update chains t ((chains t).setScoringEngine (some (address,engine))))
      (ProviderManager.registerAll (chains t).providers engine)

def build [ScoringEngine ε] (b : MixedProvidersBuilder ι ε) : MixedProviders ι ε :=
  match b.scoringEngine with
  | none => ⟨b.chains,fun _ => none⟩
  | some (address,engine) =>
    let r := attach address buildOrder b.chains engine
    ⟨r.1,Function.update (fun _ => none) address (some r.2)⟩

end MixedProvidersBuilder

theorem mem_buildOrder (chainType : ProviderChainType) : chainType ∈ buildOrder := by
  cases chainType <;> decide

namespace ProviderManager

theorem updateChainConfig_providers (pm : ProviderManager ι ε) (draw : ℕ → ℕ)
    (config : ChainConfig) : (pm.updateChainConfig draw config).2.providers = pm.providers := by
  simp only [updateChainConfig]
  split_ifs <;> rfl

end ProviderManager

/-- What the methods of the builder keep of a manager: it holds after every registration, and
after every update that does not panic. -/
structure BuilderRule (env : BuilderEnv ι) (P : ProviderManager ι ε → Prop) : Prop where
  register : ∀ pm reg, P pm → P (pm.register env.slice reg)
  update : ∀ pm config u pm', pm.updateChainConfig env.draw config = (.ok u,pm') → P pm → P pm'

namespace BuilderRule
variable {env : BuilderEnv ι} {P : ProviderManager ι ε → Prop}

theorem addEntries (hP : BuilderRule env P) (entries : List (ChainEntry ι)) (applied : Bool)
    {pm pm' : ProviderManager ι ε} (h : addEntries env entries applied pm = .ok pm')
    (hpm : P pm) : P pm' := by
  induction entries generalizing applied pm with
  | nil =>
    cases h
    exact hpm
  | cons entry entries ih =>
    simp only [ChainKit.addEntries] at h
    split at h
    · exact ih _ h hpm
    · split at h
      · split at h
        · cases h
        · rename_i hupdate
          exact ih _ h (hP.register _ _ (hP.update _ _ _ _ hupdate hpm))
      · exact ih _ h (hP.register _ _ hpm)

theorem setChain {b : MixedProvidersBuilder ι ε} (hb : ∀ t, P (b.chains t))
    {pm : ProviderManager ι ε} (hpm : P pm) (chainType t : ProviderChainType) :
    P ((b.setChain chainType pm).chains t) := by
  by_cases ht : t = chainType
  · subst ht
    simpa [MixedProvidersBuilder.setChain] using hpm
  · simpa [MixedProvidersBuilder.setChain,ht] using hb t

theorem apply (hP : BuilderRule env P) {call : BuilderCall ι ε} {b b' : MixedProvidersBuilder ι ε}
    (h : b.apply env call = .ok b') (hb : ∀ t, P (b.chains t)) : ∀ t, P (b'.chains t) := by
  cases call with
  | withChain chainType entries =>
    simp only [MixedProvidersBuilder.apply] at h
    split at h
    · cases h
    · rename_i pm hpm
      cases h
      exact setChain hb (hP.addEntries entries false hpm (hb chainType)) chainType
  | withChainConfig chainType config =>
    simp only [MixedProvidersBuilder.apply] at h
    split at h
    · cases h
    · rename_i pm hpm
      cases h
      exact setChain hb (hP.update _ _ _ _ hpm (hb chainType)) chainType
  | withAdaptiveScoringEngine address engine =>
    cases h
    exact hb

theorem applyAll (hP : BuilderRule env P) (calls : List (BuilderCall ι ε))
    {b b' : MixedProvidersBuilder ι ε} (h : MixedProvidersBuilder.applyAll env calls b = .ok b')
    (hb : ∀ t, P (b.chains t)) : ∀ t, P (b'.chains t) := by
  induction calls generalizing b with
  | nil =>
    cases h
    exact hb
  | cons call calls ih =>
    simp only [MixedProvidersBuilder.applyAll] at h
    split at h
    · cases h
    · rename_i b₁ hcall
      exact ih h (hP.apply hcall hb)

end BuilderRule

namespace MixedProvidersBuilder

/-- Every chain of the builder is in the order of its priorities. -/
theorem applyAll_sorted (env : BuilderEnv ι) (calls : List (BuilderCall ι ε))
    {b b' : MixedProvidersBuilder ι ε} (h : applyAll env calls b = .ok b')
    (hb : ∀ t, (b.chains t).providers.Pairwise (fun p q => p.priority ≤ q.priority)) :
    ∀ t, (b'.chains t).providers.Pairwise (fun p q => p.priority ≤ q.priority) := by
  have hsorted : BuilderRule env fun pm : ProviderManager ι ε =>
      pm.providers.Pairwise (fun p q => p.priority ≤ q.priority) := by
    constructor
    · exact fun pm reg hpm => pm.register_sorted _ reg hpm
    · intro pm config u pm' hupdate hpm
      have hproviders := pm.updateChainConfig_providers env.draw config
      rw [hupdate] at hproviders
      rw [hproviders]
      exact hpm
  exact hsorted.applyAll calls h hb

end MixedProvidersBuilder
end ChainKit
