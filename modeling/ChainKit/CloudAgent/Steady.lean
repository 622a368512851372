import ChainKit.CloudAgent.Apply
import ChainKit.RunOp.Rules
import ChainKit.Scoring.Lifecycle
import ChainKit.Scoring.State

/-! What holds of the configuration in every state that providers can reach: the semaphores have
the capacity that is configured, and the engine and its decay manager share a configuration that
the bounds of the options leave alone. -/
namespace ChainKit
open Lib
variable {ι ε δ : Type}

/-- `Validate` and the bounds of the options have nothing to repair. -/
structure ScoringConfig.Valid (c : ScoringConfig) : Prop where
  decayRate : 0 ≤ c.decayRate ∧ c.decayRate ≤ 1
  latencyWindowSize : 10 ≤ c.latencyWindowSize
  decayInterval : 0 ≤ c.decayInterval

theorem ScoringConfig.valid_validate (c : ScoringConfig) : c.validate.Valid := by
  have hminute : 0 < Duration.minute := by decide
  refine ⟨?_,?_,?_⟩
  · simp only [validate]
    split_ifs with hrate
    · norm_num
    · rw [not_or,not_lt,not_lt] at hrate
      exact hrate
  · simp only [validate]
    split_ifs with hwindow
    · exact le_rfl
    · omega
  · simp only [validate]
    split_ifs with hinterval
    · omega
    · omega

def ScoringConfig.unswitched (c : ScoringConfig) : ScoringConfig := { c with enabled := false }

theorem ScoringConfig.Valid.newConfig_eq {s : Decay.State} (h : s.engine.config.Valid) :
    s.newConfig (scoringWeightsToOptions (scoringConfigToWeights s.engine.config)) =
      s.engine.config := by
  have hrate : ¬s.engine.config.decayRate < 0 := not_lt.mpr h.decayRate.1
  have hrate' : ¬1 < s.engine.config.decayRate := not_lt.mpr h.decayRate.2
  have hwindow : ¬s.engine.config.latencyWindowSize < 10 := not_lt.mpr h.latencyWindowSize
  have hinterval : ¬s.engine.config.decayInterval < 0 := not_lt.mpr h.decayInterval
  simp only [Decay.State.newConfig,scoringWeightsToOptions,scoringConfigToWeights,validate,hrate,
    hrate',hwindow,hinterval,if_false,or_self]

namespace Decay

/-- `Start` of the decay manager. -/
def State.resume (s : State) : State :=
  if s.running then s
  else { s with running := true, pc := .entering }.newTicker s.config.decayInterval

/-- The decay manager that `NewEngine` makes. -/
def idle (c : ScoringConfig) : State := (Lifecycle.init (Engine.new c)).manager

/-- The engine has a valid configuration, and the decay manager has a copy, apart from the
switch. -/
structure Steady (s : State) : Prop where
  alive : s.panicked = false
  valid : s.engine.config.Valid
  copied : s.config.unswitched = s.engine.config.unswitched

/-- The parts of the state that an update of the configuration is about. -/
structure SameConfig (s s' : State) : Prop where
  engine : s'.engine.config = s.engine.config
  manager : s'.config = s.config
  panicked : s'.panicked = s.panicked

theorem Steady.of_same {s s' : State} (hs : Steady s) (h : SameConfig s s') : Steady s' := by
  constructor
  · rw [h.panicked]
    exact hs.alive
  · rw [h.engine]
    exact hs.valid
  · rw [h.manager,h.engine]
    exact hs.copied

theorem Steady.interval_eq {s : State} (hs : Steady s) :
    s.config.decayInterval = s.engine.config.decayInterval := by
  have h := congrArg ScoringConfig.decayInterval hs.copied
  exact h

theorem steady_idle (c : ScoringConfig) : Steady (idle c) :=
  ⟨rfl,ScoringConfig.valid_validate c,rfl⟩

theorem sameConfig_stop (s : State) : SameConfig s s.stop := by
  unfold State.stop
  split_ifs
  · exact ⟨rfl,rfl,rfl⟩
  · exact ⟨rfl,rfl,rfl⟩

theorem sameConfig_loop (s : State) (pick : Branch) : SameConfig s (s.loop pick) := by
  unfold State.loop
  split
  · exact ⟨rfl,rfl,rfl⟩
  · cases pick with
    | done =>
      simp only [State.select]
      split_ifs
      · obtain ⟨hengine,hmanager,hpanicked⟩ := sameConfig_stop s
        exact ⟨hengine,hmanager,hpanicked⟩
      · exact ⟨rfl,rfl,rfl⟩
    | stop =>
      simp only [State.select]
      split_ifs
      · exact ⟨rfl,rfl,rfl⟩
      · exact ⟨rfl,rfl,rfl⟩
    | tick =>
      simp only [State.select]
      split_ifs
      · exact ⟨rfl,rfl,rfl⟩
      · exact ⟨rfl,rfl,rfl⟩
  · exact ⟨rfl,rfl,rfl⟩
  · exact ⟨rfl,rfl,rfl⟩

theorem newTicker_configs (s : State) (interval : ℤ) :
    (s.newTicker interval).engine = s.engine ∧ (s.newTicker interval).config = s.config := by
  unfold State.newTicker
  split_ifs
  · exact ⟨rfl,rfl⟩
  · exact ⟨rfl,rfl⟩

theorem updateConfig_configs (s : State) (opts : ScoringConfig → ScoringConfig) :
    (s.updateConfig opts).engine.config = s.newConfig opts ∧
      (s.updateConfig opts).config = s.newConfig opts := by
  simp only [State.updateConfig,State.updateManager]
  split_ifs
  · obtain ⟨hengine,hmanager⟩ := newTicker_configs
      { { s with engine := { s.engine with config := s.newConfig opts } } with
        config := s.newConfig opts }.stopTicker (s.newConfig opts).decayInterval
    rw [hengine,hmanager]
    exact ⟨rfl,rfl⟩
  · exact ⟨rfl,rfl⟩

theorem steady_update {s : State} (opts : ScoringConfig → ScoringConfig)
    (halive : (s.updateConfig opts).panicked = false) : Steady (s.updateConfig opts) := by
  obtain ⟨hengine,hmanager⟩ := updateConfig_configs s opts
  refine ⟨halive,?_,?_⟩
  · rw [hengine]
    exact ScoringConfig.valid_validate _
  · rw [hengine,hmanager]

theorem steady_step {s : State} (hs : Steady s) (a : Act) (halive : (step s a).panicked = false) :
    Steady (step s a) := by
  simp only [step,hs.alive,Bool.false_eq_true,if_false] at halive ⊢
  cases a with
  | update opts => exact steady_update opts halive
  | fire i => exact hs.of_same ⟨rfl,rfl,rfl⟩
  | stop => exact hs.of_same (sameConfig_stop s)
  | cancel => exact hs.of_same ⟨rfl,rfl,hs.alive.symm⟩
  | loop pick => exact hs.of_same (sameConfig_loop s pick)

theorem steady_resume {s : State} (hs : Steady s) (halive : s.resume.panicked = false) :
    Steady s.resume := by
  unfold State.resume at halive ⊢
  split_ifs at halive ⊢
  · exact hs
  · obtain ⟨hengine,hmanager⟩ := newTicker_configs
      { s with running := true, pc := .entering } s.config.decayInterval
    refine ⟨halive,?_,?_⟩
    · rw [hengine]
      exact hs.valid
    · rw [hengine,hmanager]
      exact hs.copied

theorem steady_enabled {s : State} (hs : Steady s) (enabled : Bool) :
    Steady { s with engine := { s.engine with
      config := { s.engine.config with enabled := enabled } } } :=
  ⟨hs.alive,⟨hs.valid.decayRate,hs.valid.latencyWindowSize,hs.valid.decayInterval⟩,hs.copied⟩

theorem steady_rescored {s : State} {snap : ConfigSnapshot}
    (halive : (s.updateConfig (scoringWeightsToOptions snap.scoringWeights)).panicked = false) :
    Steady (s.rescored snap) := steady_enabled (steady_update _ halive) snap.scoringEnabled

end Decay

namespace ProviderManager

def Fits (pm : ProviderManager ι ε) : Prop := pm.semaphore = pm.config.maxConcurrency

theorem fits_configured (pm : ProviderManager ι ε) (draw : ℕ → ℕ) (config : ChainConfig) :
    (pm.configured draw config).Fits := rfl

theorem fits_updateChainConfig {pm pm' : ProviderManager ι ε} {draw : ℕ → ℕ} {config : ChainConfig}
    {u : Unit} (h : pm.updateChainConfig draw config = (.ok u,pm')) : pm'.Fits := by
  by_cases hover : pm.Oversteps config
  · have hpanic := updateChainConfig_of_oversteps hover draw
    rw [h] at hpanic
    cases hpanic
  · rw [updateChainConfig_of_not_oversteps hover] at h
    cases h
    exact fits_configured pm draw config

theorem fits_register {pm : ProviderManager ι ε} (hpm : pm.Fits) (slice : PrioritySort ι)
    (reg : Registration ι) : (pm.register slice reg).Fits := by
  unfold register addProvider
  cases reg.provider with
  | none => exact hpm
  | some provider => exact hpm

theorem fits_setScoringEngine [ScoringEngine ε] {pm : ProviderManager ι ε} (hpm : pm.Fits)
    (engine : Option (ℕ × ε)) : (pm.setScoringEngine engine).Fits := by
  cases engine with
  | none => exact hpm
  | some engine => exact hpm

theorem fits_setSelectionStrategy {pm : ProviderManager ι ε} (hpm : pm.Fits) (draw : ℕ → ℕ)
    (strategy : SelectionStrategy) : (pm.setSelectionStrategy draw strategy).2.Fits := by
  unfold setSelectionStrategy
  split_ifs
  · exact hpm
  · split
    · exact hpm
    · exact hpm

end ProviderManager

theorem World.runOp_semaphore [ScoringEngine ε] (w : World ι ε δ) (host : Host)
    (call : Call ι δ) : (w.runOp host call).2.pm.semaphore = w.pm.semaphore := by
  apply World.runOp_keeps (I := fun w₀ => w₀.pm.semaphore = w.pm.semaphore)
  · exact fun _ h => h
  · exact fun _ _ h => h
  · intro p w₀ h
    rw [← h]
    simp only [attemptOnce]
    cases call.op w₀.invoked p.provider with
    | ok data => rfl
    | error err =>
      simp only [recordFailureWithError,ProviderManager.recordFailureWithError]
      split_ifs <;> rfl
  · exact fun _ _ h => h
  · exact fun _ h => h
  · rw [candidates_snd]
    simp only [World.getAvailableProviders,ProviderManager.getAvailableProviders]
    split <;> rfl

namespace MixedProvidersBuilder

theorem builderRule_fits (env : BuilderEnv ι) :
    BuilderRule env (ProviderManager.Fits : ProviderManager ι ε → Prop) where
  register := fun _ reg hpm => ProviderManager.fits_register hpm env.slice reg
  update := fun _ _ _ _ hupdate _ => ProviderManager.fits_updateChainConfig hupdate

theorem fits_attach [ScoringEngine ε] (address : ℕ) (order : List ProviderChainType)
    {chains : ProviderChainType → ProviderManager ι ε} (h : ∀ t, (chains t).Fits) (engine : ε)
    (t : ProviderChainType) : ((attach address order chains engine).1 t).Fits := by
  induction order generalizing chains engine with
  | nil => exact h t
  | cons u order ih =>
    rw [attach]
    apply ih
    intro v
    by_cases hv : v = u
    · subst hv
      rw [Function.update_self]
      exact ProviderManager.fits_setScoringEngine (h v) _
    · rw [Function.update_of_ne hv]
      exact h v

theorem fits_build [ScoringEngine ε] {b : MixedProvidersBuilder ι ε}
    (h : ∀ t, (b.chains t).Fits) (t : ProviderChainType) : (b.build.chain t).Fits := by
  have hchains : ∀ t, (b.build.chains t).Fits := by
    unfold build
    cases b.scoringEngine with
    | none => exact h
    | some engine => exact fits_attach engine.1 buildOrder h engine.2
  exact hchains t

end MixedProvidersBuilder

/-- What can be done with live providers: the methods of `ConfigUpdater`, the calls of the chains,
and what the engine does or has done to it. -/
inductive LiveOp (ι δ : Type)
  | updateChainConfig (draw : ℕ → ℕ) (chain : String) (config : ChainConfig)
  | setSelectionStrategy (draw : ℕ → ℕ) (chain : String) (strategy : SelectionStrategy)
  | setScoringWeights (w : ScoringWeights)
  | setScoringEnabled (enabled : Bool)
  | applySnapshot (t : CloudAgent.Tick) (snap : ConfigSnapshot)
  | runOp (chainType : ProviderChainType) (host : Host) (call : Call ι δ)
  | startScoring
  | decay (a : Decay.Act)
  | score (op : EngineOp)

namespace LiveProviders
variable (quote : String → String)

/-- Something happens to the engine, where there is one. -/
def onEngine (m : LiveProviders ι ε) (f : Decay.State → Decay.State) :
    Except UpdatePanic (LiveProviders ι ε) :=
  match m.scoringEngine with
  | none => .ok m
  | some s =>
    if (f s).panicked then .error .tickerInterval else .ok { m with scoringEngine := some (f s) }

def runOp [ScoringEngine ε] (m : LiveProviders ι ε) (chainType : ProviderChainType) (host : Host)
    (call : Call ι δ) : Except UpdatePanic (LiveProviders ι ε) :=
  match m.managers chainType with
  | none => .ok m
  | some pm =>
    match (World.start pm).runOp host call with
    | (.error panic,_) => .error (.manager panic)
    | (.ok _,w) => .ok { m with managers := Function.update m.managers chainType (some w.pm) }

/-- What an update leaves, unless it panics. -/
def returned (r : Except UpdatePanic (Option GoError) × LiveProviders ι ε) :
    Except UpdatePanic (LiveProviders ι ε) :=
  match r with
  | (.error panic,_) => .error panic
  | (.ok _,m) => .ok m

def exec [ScoringEngine ε] (m : LiveProviders ι ε) :
    LiveOp ι δ → Except UpdatePanic (LiveProviders ι ε)
  | .updateChainConfig draw chain config => returned (m.updateChainConfig quote draw chain config)
  | .setSelectionStrategy draw chain strategy =>
    .ok (m.setSelectionStrategy quote draw chain strategy).2
  | .setScoringWeights w => returned (m.setScoringWeights w)
  | .setScoringEnabled enabled => .ok (m.setScoringEnabled enabled)
  | .applySnapshot t snap => returned (CloudAgent.applySnapshot quote t m snap)
  | .runOp chainType host call => m.runOp chainType host call
  | .startScoring => m.onEngine Decay.State.resume
  | .decay a => m.onEngine (Decay.step · a)
  | .score op => m.onEngine fun s => { s with engine := s.engine.exec op }

/-- A run. A panic ends it. -/
def execAll [ScoringEngine ε] :
    List (LiveOp ι δ) → LiveProviders ι ε → Except UpdatePanic (LiveProviders ι ε)
  | [],m => .ok m
  | op :: ops,m =>
    match m.exec quote op with
    | .error panic => .error panic
    | .ok m => execAll ops m

structure Steady (m : LiveProviders ι ε) : Prop where
  fits : ∀ t pm, m.managers t = some pm → pm.Fits
  engine : ∀ s, m.scoringEngine = some s → Decay.Steady s

theorem Steady.alive {m : LiveProviders ι ε} (hm : m.Steady) : m.Alive :=
  fun s hs => (hm.engine s hs).alive

theorem Steady.update {m : LiveProviders ι ε} (hm : m.Steady) {t : ProviderChainType}
    {pm : ProviderManager ι ε} (hpm : pm.Fits) :
    Steady { m with managers := Function.update m.managers t (some pm) } := by
  refine ⟨?_,hm.engine⟩
  intro u pm' hpm'
  by_cases hu : u = t
  · subst hu
    simp only [Function.update_self,Option.some.injEq] at hpm'
    subst hpm'
    exact hpm
  · simp only [Function.update_of_ne hu] at hpm'
    exact hm.fits u pm' hpm'

theorem Steady.withChains {m : LiveProviders ι ε} (hm : m.Steady) (draw : ℕ → ℕ)
    (desired : String → Option ChainConfig) : (m.withChains draw desired).Steady := by
  refine ⟨?_,hm.engine⟩
  intro t pm' hpm'
  simp only [LiveProviders.withChains,Option.map_eq_some_iff] at hpm'
  obtain ⟨pm,hpm,rfl⟩ := hpm'
  cases desired t.string with
  | none => exact hm.fits t pm hpm
  | some config => exact ProviderManager.fits_configured pm draw config

theorem Steady.onEngine {m m' : LiveProviders ι ε} (hm : m.Steady) {f : Decay.State → Decay.State}
    (hf : ∀ s, Decay.Steady s → (f s).panicked = false → Decay.Steady (f s))
    (h : m.onEngine f = .ok m') : m'.Steady := by
  unfold LiveProviders.onEngine at h
  split at h
  · cases h
    exact hm
  · rename_i s hs
    split_ifs at h with hpanicked
    cases h
    refine ⟨hm.fits,?_⟩
    rintro s' ⟨⟩
    exact hf s (hm.engine s hs) (by simpa using hpanicked)

theorem Steady.updateChainConfig {m m' : LiveProviders ι ε} (hm : m.Steady) {draw : ℕ → ℕ}
    {chain : String} {config : ChainConfig}
    (h : returned (m.updateChainConfig quote draw chain config) = .ok m') : m'.Steady := by
  by_cases hover : m.Oversteps chain config
  · have hpanic := updateChainConfig_of_oversteps hover quote draw
    unfold returned at h
    split at h
    · cases h
    · rename_i heq
      rw [heq] at hpanic
      cases hpanic
  · obtain ⟨err,herr⟩ := updateChainConfig_of_not_oversteps hover quote draw
    rw [herr] at h
    cases h
    exact hm.withChains draw _

theorem Steady.setSelectionStrategy {m : LiveProviders ι ε} (hm : m.Steady) (draw : ℕ → ℕ)
    (chain : String) (strategy : SelectionStrategy) :
    (m.setSelectionStrategy quote draw chain strategy).2.Steady := by
  unfold LiveProviders.setSelectionStrategy
  obtain ⟨e,he,-⟩ | ⟨t,pm,hok,-,hpm⟩ := m.managerFor_cases quote chain
  · simp only [he]
    exact hm
  · simp only [hok]
    have hfits := ProviderManager.fits_setSelectionStrategy (hm.fits t pm hpm) draw strategy
    split
    · exact hm.update hfits
    · exact hm.update hfits

theorem Steady.setScoringEnabled {m : LiveProviders ι ε} (hm : m.Steady) (enabled : Bool) :
    (m.setScoringEnabled enabled).Steady := by
  refine ⟨hm.fits,?_⟩
  intro s' hs'
  simp only [LiveProviders.setScoringEnabled,Option.map_eq_some_iff] at hs'
  obtain ⟨s,hs,rfl⟩ := hs'
  exact Decay.steady_enabled (hm.engine s hs) enabled

theorem setScoringWeights_eq (m : LiveProviders ι ε) (w : ScoringWeights) :
    returned (m.setScoringWeights w) = m.onEngine (·.updateConfig (scoringWeightsToOptions w)) := by
  unfold LiveProviders.setScoringWeights LiveProviders.onEngine
  cases m.scoringEngine with
  | none => rfl
  | some s =>
    simp only
    split_ifs <;> rfl

theorem Steady.runOp [ScoringEngine ε] {m m' : LiveProviders ι ε} (hm : m.Steady)
    {chainType : ProviderChainType} {host : Host} {call : Call ι δ}
    (h : m.runOp chainType host call = .ok m') : m'.Steady := by
  unfold LiveProviders.runOp at h
  split at h
  · cases h
    exact hm
  · rename_i pm hpm
    split at h
    · cases h
    · rename_i r w hrun
      cases h
      have hsemaphore := World.runOp_semaphore (World.start pm) host call
      have hconfig := (World.runOp_frame (World.start pm) host call).1
      rw [hrun] at hsemaphore hconfig
      apply hm.update
      rw [ProviderManager.Fits,hsemaphore,hconfig]
      exact hm.fits chainType pm hpm

theorem Steady.applied {m : LiveProviders ι ε} (hm : m.Steady) (draw : ℕ → ℕ)
    {snap : ConfigSnapshot} (hhalts : ¬m.Halts snap.scoringWeights) :
    (m.applied draw snap).Steady := by
  refine ⟨(hm.withChains draw snap.chains.lookup).fits,?_⟩
  intro s' hs'
  simp only [LiveProviders.applied,withScoring,LiveProviders.withChains,
    Option.map_eq_some_iff] at hs'
  obtain ⟨s,hs,rfl⟩ := hs'
  exact Decay.steady_rescored (panicked_of_not_halts hm.alive hhalts hs)

theorem Steady.applySnapshot {m m' : LiveProviders ι ε} (hm : m.Steady) {t : CloudAgent.Tick}
    {snap : ConfigSnapshot} (h : returned (CloudAgent.applySnapshot quote t m snap) = .ok m') :
    m'.Steady := by
  have hreturns : ∃ err, (CloudAgent.applySnapshot quote t m snap).1 = .ok err := by
    unfold returned at h
    split at h
    · cases h
    · rename_i err m₁ heq
      exact ⟨err,by rw [heq]⟩
  obtain ⟨hover,hhalts⟩ := (CloudAgent.applySnapshot_returns_iff quote t hm.alive).mp hreturns
  obtain ⟨err,happly,-⟩ := CloudAgent.applySnapshot_eq quote t hm.alive hover hhalts
  rw [happly] at h
  cases h
  exact hm.applied t.draw hhalts

theorem Steady.exec [ScoringEngine ε] {m m' : LiveProviders ι ε} (hm : m.Steady) {op : LiveOp ι δ}
    (h : m.exec quote op = .ok m') : m'.Steady := by
  cases op with
  | updateChainConfig draw chain config => exact hm.updateChainConfig quote h
  | setSelectionStrategy draw chain strategy =>
    cases h
    exact hm.setSelectionStrategy quote draw chain strategy
  | setScoringWeights w =>
    rw [LiveProviders.exec,setScoringWeights_eq] at h
    exact hm.onEngine (fun _ _ halive => Decay.steady_update _ halive) h
  | setScoringEnabled enabled =>
    cases h
    exact hm.setScoringEnabled enabled
  | applySnapshot t snap => exact hm.applySnapshot quote h
  | runOp chainType host call => exact hm.runOp h
  | startScoring => exact hm.onEngine (fun _ hs halive => Decay.steady_resume hs halive) h
  | decay a => exact hm.onEngine (fun _ hs halive => Decay.steady_step hs a halive) h
  | score op =>
    exact hm.onEngine (f := fun s => { s with engine := s.engine.exec op })
      (fun s hs _ => hs.of_same ⟨Engine.exec_config s.engine op,rfl,rfl⟩) h

theorem Steady.execAll [ScoringEngine ε] {ops : List (LiveOp ι δ)} {m m' : LiveProviders ι ε}
    (hm : m.Steady) (h : execAll quote ops m = .ok m') : m'.Steady := by
  induction ops generalizing m with
  | nil =>
    cases h
    exact hm
  | cons op ops ih =>
    rw [LiveProviders.execAll] at h
    split at h
    · cases h
    · rename_i m₁ hop
      exact ih (hm.exec quote hop) h

/-- Built providers, with an engine if there is a configuration for one. -/
def built [ScoringEngine ε] (b : MixedProvidersBuilder ι ε) (scoring : Option ScoringConfig) :
    LiveProviders ι ε := b.build.live (scoring.map Decay.idle)

theorem steady_built [ScoringEngine ε] {env : BuilderEnv ι} {calls : List (BuilderCall ι ε)}
    {b : MixedProvidersBuilder ι ε}
    (h : MixedProvidersBuilder.applyAll env calls (.new env) = .ok b)
    (scoring : Option ScoringConfig) : (built b scoring).Steady := by
  have hfits := (MixedProvidersBuilder.builderRule_fits env).applyAll calls h (fun _ => rfl)
  constructor
  · rintro t pm ⟨⟩
    exact MixedProvidersBuilder.fits_build hfits t
  · intro s hs
    simp only [built,MixedProviders.live,Option.map_eq_some_iff] at hs
    obtain ⟨c,-,rfl⟩ := hs
    exact Decay.steady_idle c

end LiveProviders
end ChainKit
