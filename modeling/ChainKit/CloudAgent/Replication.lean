import ChainKit.CloudAgent.DesiredState

/-! Clients that get the same snapshot are configured alike, and the snapshot of one client carries
its configuration over to another. -/
namespace ChainKit
variable {ι ε δ : Type}

theorem weights_rescored (s s' : Decay.State) (snap : ConfigSnapshot) :
    scoringConfigToWeights (s.rescored snap).engine.config =
      scoringConfigToWeights (s'.rescored snap).engine.config := by
  have hconfig := fun s : Decay.State =>
    (Decay.updateConfig_configs s (scoringWeightsToOptions snap.scoringWeights)).1
  simp only [Decay.State.rescored,hconfig]
  rfl

namespace LiveProviders
variable (quote : String → String) {m m' : LiveProviders ι ε} {scored : Bool}

/-- All chains have their managers, and there is an engine or there is none. -/
structure Furnished (m : LiveProviders ι ε) (scored : Bool) : Prop where
  managers : ∀ t, (m.managers t).isSome = true
  engine : m.scoringEngine.isSome = scored

theorem Furnished.update (h : m.Furnished scored) (t : ProviderChainType)
    (pm : ProviderManager ι ε) :
    Furnished { m with managers := Function.update m.managers t (some pm) } scored := by
  refine ⟨?_,h.engine⟩
  intro u
  by_cases hu : u = t
  · subst hu
    simp
  · simpa [Function.update_of_ne hu] using h.managers u

theorem Furnished.onEngine (h : m.Furnished scored) {f : Decay.State → Decay.State}
    (hop : m.onEngine f = .ok m') : m'.Furnished scored := by
  unfold LiveProviders.onEngine at hop
  split at hop
  · cases hop
    exact h
  next s hs =>
    split_ifs at hop
    cases hop
    have hscored := h.engine
    rw [hs] at hscored
    exact ⟨h.managers,hscored⟩

theorem Furnished.applied (h : m.Furnished scored) (draw : ℕ → ℕ) (snap : ConfigSnapshot) :
    (m.applied draw snap).Furnished scored :=
  ⟨fun t => by simpa [LiveProviders.applied,withScoring,withChains] using h.managers t,
    by simpa [LiveProviders.applied,withScoring,withChains] using h.engine⟩

theorem Furnished.exec [ScoringEngine ε] (h : m.Furnished scored) (hm : m.Steady)
    {op : LiveOp ι δ} (hop : m.exec quote op = .ok m') : m'.Furnished scored := by
  cases op with
  | updateChainConfig draw chain config =>
    obtain ⟨e,he,_⟩ | ⟨t,pm,hok,_,_⟩ := m.managerFor_cases quote chain
    · simp only [LiveProviders.exec,LiveProviders.updateChainConfig,he,returned] at hop
      cases hop
      exact h
    · simp only [LiveProviders.exec,LiveProviders.updateChainConfig,hok] at hop
      cases hresult : (pm.updateChainConfig draw config).1 with
      | error panic => simp [hresult,returned] at hop
      | ok _ =>
        simp only [hresult,returned] at hop
        cases hop
        exact h.update t _
  | setSelectionStrategy draw chain strategy =>
    cases hop
    unfold LiveProviders.setSelectionStrategy
    obtain ⟨e,he,_⟩ | ⟨t,pm,hok,_,_⟩ := m.managerFor_cases quote chain
    · simp only [he]
      exact h
    · simp only [hok]
      split <;> exact h.update t _
  | setScoringWeights w =>
    rw [LiveProviders.exec,setScoringWeights_eq] at hop
    exact h.onEngine hop
  | setScoringEnabled enabled =>
    cases hop
    exact ⟨h.managers,by simpa [LiveProviders.setScoringEnabled] using h.engine⟩
  | applySnapshot t snap =>
    simp only [LiveProviders.exec] at hop
    obtain ⟨err,hreturned⟩ : ∃ err, CloudAgent.applySnapshot quote t m snap = (.ok err,m') := by
      unfold returned at hop
      split at hop
      · cases hop
      next err _ heq =>
        cases hop
        exact ⟨err,heq⟩
    obtain ⟨hover,hhalts⟩ :=
      (CloudAgent.applySnapshot_returns_iff quote t hm.alive).mp ⟨err,by rw [hreturned]⟩
    obtain ⟨_,happly,_⟩ := CloudAgent.applySnapshot_eq quote t hm.alive hover hhalts
    rw [hreturned] at happly
    cases happly
    exact h.applied t.draw snap
  | runOp chainType host call =>
    simp only [LiveProviders.exec,LiveProviders.runOp] at hop
    split at hop
    · cases hop
      exact h
    · split at hop
      · cases hop
      · cases hop
        exact h.update chainType _
  | startScoring | decay | score => exact h.onEngine hop

def Reached [ScoringEngine ε] (δ : Type) (scored : Bool) (m : LiveProviders ι ε) : Prop :=
  ∃ (env : BuilderEnv ι) (calls : List (BuilderCall ι ε)) (b : MixedProvidersBuilder ι ε)
    (scoring : Option ScoringConfig) (ops : List (LiveOp ι δ)),
    MixedProvidersBuilder.applyAll env calls (.new env) = .ok b ∧ scoring.isSome = scored ∧
      execAll quote ops (built b scoring) = .ok m

theorem Reached.furnished [ScoringEngine ε] (h : Reached quote δ scored m) :
    m.Steady ∧ m.Furnished scored := by
  obtain ⟨env,calls,b,scoring,ops,hcalls,rfl,hops⟩ := h
  have hbuilt : (built b scoring).Furnished scoring.isSome := ⟨fun _ => rfl,Option.isSome_map⟩
  have hsteady := steady_built hcalls scoring
  generalize built b scoring = m₀ at hbuilt hsteady hops
  induction ops generalizing m₀ with
  | nil =>
    cases hops
    exact ⟨hsteady,hbuilt⟩
  | cons op ops ih =>
    unfold execAll at hops
    split at hops
    · cases hops
    next m₁ hop => exact ih m₁ (hbuilt.exec quote hsteady hop) (hsteady.exec quote hop) hops

theorem snapshot_congr
    (hmanagers : ∀ t, (m.managers t).map (·.config) = (m'.managers t).map (·.config))
    (hengine : m.scoringEngine.map (fun s => (s.engine.config.enabled,
        scoringConfigToWeights s.engine.config)) =
      m'.scoringEngine.map fun s => (s.engine.config.enabled,
        scoringConfigToWeights s.engine.config)) : m.snapshot = m'.snapshot := by
  have hchains : m.chainsCopy ProviderChainType.all = m'.chainsCopy ProviderChainType.all := by
    unfold chainsCopy
    congr 1
    funext chains t
    have ht := hmanagers t
    cases hpm : m.managers t <;> cases hpm' : m'.managers t <;> simp_all
  have henabled := congrArg (Option.map Prod.fst) hengine
  have hweights := congrArg (Option.map Prod.snd) hengine
  simp only [Option.map_map,Function.comp_def] at henabled hweights
  simp only [snapshot,hchains,henabled,hweights]

/-- A snapshot that names all chains leaves nothing of the configuration before. -/
theorem Furnished.snapshot_applied (h : m.Furnished scored) (h' : m'.Furnished scored)
    {snap : ConfigSnapshot} (hall : ∀ t : ProviderChainType, (snap.chains.lookup t.string).isSome)
    (draw draw' : ℕ → ℕ) :
    (m.applied draw snap).snapshot = (m'.applied draw' snap).snapshot := by
  apply snapshot_congr
  · intro t
    obtain ⟨config,hconfig⟩ := Option.isSome_iff_exists.mp (hall t)
    obtain ⟨pm,hpm⟩ := Option.isSome_iff_exists.mp (h.managers t)
    obtain ⟨pm',hpm'⟩ := Option.isSome_iff_exists.mp (h'.managers t)
    simp [LiveProviders.applied,withScoring,withChains,hconfig,hpm,hpm',
      ProviderManager.configured]
  · have hengine := h.engine.trans h'.engine.symm
    cases hs : m.scoringEngine with
    | none =>
      have hs' : m'.scoringEngine = none := by simpa [hs] using hengine
      simp [LiveProviders.applied,withScoring,withChains,hs,hs']
    | some s =>
      obtain ⟨s',hs'⟩ := Option.isSome_iff_exists.mp (by simpa [hs] using hengine.symm)
      simp only [LiveProviders.applied,withScoring,withChains,hs,hs',Option.map_some,
        weights_rescored s s' snap]
      rfl

theorem Furnished.unusable_eq (h : m.Furnished scored) (h' : m'.Furnished scored)
    (snap : ConfigSnapshot) : CloudAgent.unusable m snap = CloudAgent.unusable m' snap := by
  unfold CloudAgent.unusable
  congr 1
  funext entry
  unfold chainConfig
  cases ProviderChainType.ofString entry.1 with
  | none => rfl
  | some t =>
    obtain ⟨pm,hpm⟩ := Option.isSome_iff_exists.mp (h.managers t)
    obtain ⟨pm',hpm'⟩ := Option.isSome_iff_exists.mp (h'.managers t)
    simp [hpm,hpm']

theorem snapshot_unswitched (m : LiveProviders ι ε) : m.unswitched.snapshot = m.snapshot := by
  cases hs : m.scoringEngine <;> simp [snapshot,unswitched,hs,Decay.State.unswitched,chainsCopy]

end LiveProviders

namespace CloudAgent
open LiveProviders
variable (quote : String → String)

theorem applySnapshot_returned {m m' : LiveProviders ι ε} (hm : m.Steady) {t : Tick}
    {snap : ConfigSnapshot} {err : Option GoError}
    (h : applySnapshot quote t m snap = (.ok err,m')) :
    m' = m.applied t.draw snap ∧ (err = none ↔ unusable m snap = false) := by
  obtain ⟨hover,hhalts⟩ :=
    (applySnapshot_returns_iff quote t hm.alive).mp ⟨err,congrArg Prod.fst h⟩
  obtain ⟨_,happly,_⟩ := applySnapshot_eq quote t hm.alive hover hhalts
  rw [h,Prod.mk.injEq] at happly
  exact ⟨happly.2,(applySnapshot_spec quote h).2⟩

/-- Take two clients, however they were built and run, both with scoring or both without. When each
has applied a snapshot that names all chains, in whatever order, both report the same configuration,
and an error for the same snapshots. When one has applied the snapshot of the other it reports that
snapshot, and no error. -/
theorem applySnapshot_replicates [ScoringEngine ε] {scored : Bool} {m m' : LiveProviders ι ε}
    (hm : Reached quote δ scored m) (hm' : Reached quote δ scored m') :
    (∀ snap t t' err err' m₁ m₁',
      (∀ chainType : ProviderChainType, (snap.chains.lookup chainType.string).isSome) →
      applySnapshot quote t m snap = (.ok err,m₁) →
      applySnapshot quote t' m' snap = (.ok err',m₁') →
      m₁.snapshot = m₁'.snapshot ∧ (err = none ↔ err' = none)) ∧
    ∀ t err m₁', applySnapshot quote t m' m.snapshot = (.ok err,m₁') →
      m₁'.snapshot = m.snapshot ∧ err = none := by
  obtain ⟨hsteady,hfurnished⟩ := hm.furnished
  obtain ⟨hsteady',hfurnished'⟩ := hm'.furnished
  constructor
  · intro snap t t' err err' m₁ m₁' hall happly happly'
    obtain ⟨rfl,herr⟩ := applySnapshot_returned quote hsteady happly
    obtain ⟨rfl,herr'⟩ := applySnapshot_returned quote hsteady' happly'
    rw [herr,herr',hfurnished.unusable_eq hfurnished' snap]
    exact ⟨hfurnished.snapshot_applied hfurnished' hall t.draw t'.draw,Iff.rfl⟩
  · intro t err m₁' happly
    obtain ⟨rfl,herr⟩ := applySnapshot_returned quote hsteady' happly
    have hall (chainType : ProviderChainType) :
        (m.snapshot.chains.lookup chainType.string).isSome := by
      rw [lookup_snapshot,chainConfig_string,Option.isSome_map]
      exact hfurnished.managers chainType
    refine ⟨?_,?_⟩
    · rw [hfurnished'.snapshot_applied hfurnished hall t.draw t.draw,← snapshot_unswitched,
        hsteady.applied_snapshot t.draw,snapshot_unswitched]
    · rw [herr,hfurnished'.unusable_eq hfurnished m.snapshot]
      exact m.usable_snapshot

def reconfiguring : List (LiveOp Unit ℕ) :=
  [.setScoringEnabled false,.updateChainConfig (fun _ => 0)
    ProviderChainType.balanceFetchers.string (balanceConfig 10)]

/-- A client that was reconfigured, and one that was only started. -/
theorem applySnapshot_replicates_started :
    let env : BuilderEnv Unit := ⟨.insertion,fun _ => none,fun _ => 0⟩
    let first : LiveProviders Unit Unit := .built (.new env) (some defaultScoringConfig)
    ∃ source target, execAll id reconfiguring first = .ok source ∧
      execAll id ([.startScoring] : List (LiveOp Unit ℕ)) first = .ok target ∧
      target.snapshot.scoringEnabled ≠ source.snapshot.scoringEnabled ∧
      (applySnapshot id (tickWith {} "a") target source.snapshot).2.snapshot = source.snapshot := by
  intro env first
  have hrun : ∃ source target, execAll id reconfiguring first = .ok source ∧
      execAll id ([.startScoring] : List (LiveOp Unit ℕ)) first = .ok target ∧
      target.snapshot.scoringEnabled ≠ source.snapshot.scoringEnabled ∧
      (applySnapshot id (tickWith {} "a") target source.snapshot).1 = .ok none :=
    ⟨_,_,rfl,rfl,by decide,by decide +kernel⟩
  obtain ⟨source,target,hsource,htarget,hne,hok⟩ := hrun
  have hreplicates := (applySnapshot_replicates id
    ⟨env,[],_,some defaultScoringConfig,_,rfl,rfl,hsource⟩
    ⟨env,[],_,some defaultScoringConfig,_,rfl,rfl,htarget⟩).2 _ none _ (Prod.ext hok rfl)
  exact ⟨source,target,hsource,htarget,hne,hreplicates.1⟩

end CloudAgent
end ChainKit
