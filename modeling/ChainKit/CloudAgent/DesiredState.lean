import ChainKit.CloudAgent.CrashFree
import ChainKit.CloudAgent.Steady

/-! A snapshot as a desired state: the order in which its chains are applied is of no account,
applying it twice is applying it once, and providers are already in the state that their own
snapshot asks for. -/
namespace ChainKit
variable {ι ε δ : Type}

namespace Decay

/-- The state without the switch in the copy that the decay manager has of the configuration. -/
def State.unswitched (s : State) : State := { s with config := s.config.unswitched }

theorem Steady.rescored_of_eq {s : State} (hs : Steady s) {snap : ConfigSnapshot}
    (hconfig : s.newConfig (scoringWeightsToOptions snap.scoringWeights) = s.engine.config)
    (henabled : s.engine.config.enabled = snap.scoringEnabled) :
    (s.rescored snap).unswitched = s.unswitched := by
  have hupdate : s.updateConfig (scoringWeightsToOptions snap.scoringWeights) =
      { s with config := s.engine.config } := by
    simp [State.updateConfig,State.updateManager,hconfig,hs.interval_eq]
  simp only [State.rescored,hupdate,← henabled,State.unswitched,hs.copied]

theorem rescored_rescored {s : State} {snap : ConfigSnapshot}
    (halive : (s.updateConfig (scoringWeightsToOptions snap.scoringWeights)).panicked = false) :
    ((s.rescored snap).rescored snap).unswitched = (s.rescored snap).unswitched := by
  have hengine := (updateConfig_configs s (scoringWeightsToOptions snap.scoringWeights)).1
  apply (steady_rescored halive).rescored_of_eq
  · simp only [State.rescored,State.newConfig,hengine]
    rfl
  · rfl

theorem Steady.rescored {s : State} (hs : Steady s) {snap : ConfigSnapshot}
    (hweights : snap.scoringWeights = scoringConfigToWeights s.engine.config)
    (henabled : snap.scoringEnabled = s.engine.config.enabled) :
    (s.rescored snap).unswitched = s.unswitched := by
  apply hs.rescored_of_eq
  · rw [hweights]
    exact hs.valid.newConfig_eq
  · exact henabled.symm

end Decay

namespace LiveProviders

def unswitched (m : LiveProviders ι ε) : LiveProviders ι ε :=
  { m with scoringEngine := m.scoringEngine.map Decay.State.unswitched }

theorem withChains_twice (m : LiveProviders ι ε) (draw draw' : ℕ → ℕ)
    (desired : String → Option ChainConfig) :
    (m.withChains draw desired).withChains draw' desired = m.withChains draw desired := by
  simp only [withChains]
  congr 1
  funext t
  rw [Option.map_map]
  congr 1
  funext pm
  cases desired t.string <;> simp

/-- Applying a snapshot twice leaves what applying it once leaves. -/
theorem applied_applied {m : LiveProviders ι ε} (halive : m.Alive) (draw draw' : ℕ → ℕ)
    {snap : ConfigSnapshot} (hhalts : ¬m.Halts snap.scoringWeights) :
    ((m.applied draw snap).applied draw' snap).unswitched = (m.applied draw snap).unswitched := by
  have hchains := m.withChains_twice draw draw' snap.chains.lookup
  simp only [LiveProviders.mk.injEq,withChains,unswitched,applied,withScoring] at hchains ⊢
  refine ⟨hchains.1,?_⟩
  cases hs : m.scoringEngine with
  | none => rfl
  | some s =>
    have hs' := Decay.rescored_rescored (panicked_of_not_halts halive hhalts hs)
    simp [hs']

theorem alive_applied {m : LiveProviders ι ε} (halive : m.Alive) (draw : ℕ → ℕ)
    {snap : ConfigSnapshot} (hhalts : ¬m.Halts snap.scoringWeights) :
    (m.applied draw snap).Alive := by
  intro s' hs'
  simp only [applied,withScoring,withChains,Option.map_eq_some_iff] at hs'
  obtain ⟨s,hs,rfl⟩ := hs'
  exact panicked_of_not_halts halive hhalts hs

theorem Steady.withChains_snapshot {m : LiveProviders ι ε} (hm : m.Steady) (draw : ℕ → ℕ) :
    m.withChains draw m.snapshot.chains.lookup = m := by
  have hmanagers : (m.withChains draw m.snapshot.chains.lookup).managers = m.managers := by
    funext t
    simp only [LiveProviders.withChains,lookup_snapshot,chainConfig_string]
    cases hpm : m.managers t with
    | none => rfl
    | some pm =>
      simp only [Option.map_some]
      rw [ProviderManager.configured_self (hm.fits t pm hpm)]
  change { m with managers := (m.withChains draw m.snapshot.chains.lookup).managers } = m
  rw [hmanagers]

theorem Steady.applied_snapshot {m : LiveProviders ι ε} (hm : m.Steady) (draw : ℕ → ℕ) :
    (m.applied draw m.snapshot).unswitched = m.unswitched := by
  rw [LiveProviders.applied,hm.withChains_snapshot draw]
  simp only [unswitched,withScoring,Option.map_map]
  congr 1
  cases hs : m.scoringEngine with
  | none => rfl
  | some s =>
    have hs' : (s.rescored m.snapshot).unswitched = s.unswitched :=
      (hm.engine s hs).rescored (by simp [snapshot,hs]) (by simp [snapshot,hs])
    simp [hs']

theorem Steady.not_oversteps_snapshot {m : LiveProviders ι ε} (hm : m.Steady) :
    ∀ entry ∈ m.snapshot.chains.entries, ¬m.Oversteps entry.1 entry.2 := by
  rintro ⟨_,config⟩ hentry ⟨t,pm,rfl,hpm,hover⟩
  have hlookup := AList.mem_lookup_iff.mpr hentry
  rw [Option.mem_def,lookup_snapshot,chainConfig_string,hpm] at hlookup
  cases hlookup
  exact hover.1 (hm.fits t pm hpm)

theorem Steady.not_halts_snapshot {m : LiveProviders ι ε} (hm : m.Steady) :
    ¬m.Halts m.snapshot.scoringWeights := by
  rintro ⟨s,hs,-,hinterval,hzero⟩
  simp only [snapshot,hs,Option.map_some,Option.getD_some,scoringConfigToWeights] at hzero
  exact hinterval ((hm.engine s hs).interval_eq.trans hzero)

theorem usable_snapshot (m : LiveProviders ι ε) : CloudAgent.unusable m m.snapshot = false := by
  rw [CloudAgent.unusable,List.any_eq_false]
  rintro ⟨chain,config⟩ hentry
  have hlookup := AList.mem_lookup_iff.mpr hentry
  rw [Option.mem_def,lookup_snapshot] at hlookup
  simp [hlookup]

end LiveProviders

namespace CloudAgent
variable (quote : String → String)

/-- No semaphore is asked to have a negative capacity, and the interval is positive. -/
structure Plausible (snap : ConfigSnapshot) : Prop where
  maxConcurrency : ∀ entry ∈ snap.chains.entries, 0 ≤ entry.2.maxConcurrency
  decayInterval : 0 < snap.scoringWeights.decayInterval

theorem Plausible.not_oversteps {snap : ConfigSnapshot} (h : Plausible snap)
    (m : LiveProviders ι ε) : ∀ entry ∈ snap.chains.entries, ¬m.Oversteps entry.1 entry.2 := by
  rintro entry hentry ⟨t,pm,-,-,-,hnegative⟩
  have hmax := h.maxConcurrency entry hentry
  omega

theorem Plausible.not_halts {snap : ConfigSnapshot} (h : Plausible snap)
    (m : LiveProviders ι ε) : ¬m.Halts snap.scoringWeights := by
  rintro ⟨s,-,-,-,hzero⟩
  have hpositive := h.decayInterval
  omega

theorem unusable_applied {t : Tick} {m m' : LiveProviders ι ε} {snap : ConfigSnapshot}
    {err : Option GoError} (h : applySnapshot quote t m snap = (.ok err,m')) :
    unusable m' snap = unusable m snap := by
  unfold unusable
  congr 1
  funext entry
  rw [(applySnapshot_spec quote h).1 entry.1,Option.isNone_map]

/-- The order of the chains is of no account, and neither is a second application. -/
theorem applySnapshot_twice {m : LiveProviders ι ε} {snap : ConfigSnapshot} (halive : m.Alive)
    (hsnap : Plausible snap) {t t' : Tick} (again : Tick) (hdraw : t.draw = t'.draw) :
    ∃ err err' err'' m' m'',
      applySnapshot quote t m snap = (.ok err,m') ∧
      applySnapshot quote t' m snap = (.ok err',m') ∧ (err = none ↔ err' = none) ∧
      applySnapshot quote again m' snap = (.ok err'',m'') ∧ (err = none ↔ err'' = none) ∧
      m''.unswitched = m'.unswitched := by
  have hhalts := hsnap.not_halts m
  obtain ⟨err,happly,herr⟩ := applySnapshot_eq quote t halive (hsnap.not_oversteps m) hhalts
  obtain ⟨err',happly',herr'⟩ := applySnapshot_eq quote t' halive (hsnap.not_oversteps m) hhalts
  obtain ⟨err'',hagain,herr''⟩ := applySnapshot_eq quote again
    (LiveProviders.alive_applied halive t.draw hhalts) (hsnap.not_oversteps _) (hsnap.not_halts _)
  refine ⟨err,err',err'',_,_,happly,?_,?_,hagain,?_,?_⟩
  · rw [happly',hdraw]
  · rw [herr,herr']
  · rw [herr,herr'',unusable_applied quote happly]
  · exact LiveProviders.applied_applied halive t.draw again.draw hhalts

theorem applySnapshot_own {m : LiveProviders ι ε} (hm : m.Steady) (t : Tick) :
    ∃ m', applySnapshot quote t m m.snapshot = (.ok none,m') ∧ m'.unswitched = m.unswitched := by
  obtain ⟨err,happly,herr⟩ := applySnapshot_eq quote t hm.alive hm.not_oversteps_snapshot
    hm.not_halts_snapshot
  obtain rfl := herr.mpr m.usable_snapshot
  exact ⟨_,happly,hm.applied_snapshot t.draw⟩

/-- Applying a snapshot that is plausible leaves the same state in whatever order its chains are
visited, and applying it again changes nothing; and in every state that built providers reach,
applying their own snapshot changes nothing. What is left out is the switch in the copy of the
configuration that the decay manager has but does not read. -/
theorem applySnapshot_desired [ScoringEngine ε] :
    (∀ (m : LiveProviders ι ε) (snap : ConfigSnapshot), m.Alive → Plausible snap →
      ∀ t t' again : Tick, t.draw = t'.draw →
        ∃ err err' err'' m' m'',
          applySnapshot quote t m snap = (.ok err,m') ∧
          applySnapshot quote t' m snap = (.ok err',m') ∧ (err = none ↔ err' = none) ∧
          applySnapshot quote again m' snap = (.ok err'',m'') ∧ (err = none ↔ err'' = none) ∧
          m''.unswitched = m'.unswitched) ∧
    ∀ (env : BuilderEnv ι) (calls : List (BuilderCall ι ε)) (b : MixedProvidersBuilder ι ε)
      (scoring : Option ScoringConfig) (ops : List (LiveOp ι δ)) (m : LiveProviders ι ε),
      MixedProvidersBuilder.applyAll env calls (.new env) = .ok b →
      LiveProviders.execAll quote ops (.built b scoring) = .ok m →
        ∀ t : Tick, ∃ m', applySnapshot quote t m m.snapshot = (.ok none,m') ∧
          m'.unswitched = m.unswitched := by
  constructor
  · intro m snap halive hsnap t t' again hdraw
    exact applySnapshot_twice quote halive hsnap again hdraw
  · intro env calls b scoring ops m hcalls hops t
    have hsteady := (LiveProviders.steady_built hcalls scoring).execAll quote hops
    exact applySnapshot_own quote hsteady t

def backwards (t : Tick) : Tick := { t with visit := ⟨List.reverse,List.reverse_perm⟩ }

def twoChains : ConfigSnapshot :=
  { balanceOnly (balanceConfig 10) with
    chains := (AList.singleton "BalanceFetchers" (balanceConfig 10)).insert "TxSizers"
      noRetryConfig }

theorem applySnapshot_desired_started :
    let env : BuilderEnv Unit := ⟨.insertion,fun _ => none,fun _ => 0⟩
    let t := tickWith {} "a"
    (twoChains.chains.entries.length = 2 ∧
      ∃ err err' err'' m' m'', applySnapshot id t runningProviders twoChains = (.ok err,m') ∧
        applySnapshot id (backwards t) runningProviders twoChains = (.ok err',m') ∧
        applySnapshot id t m' twoChains = (.ok err'',m'') ∧ m''.unswitched = m'.unswitched) ∧
    ∃ m : LiveProviders Unit Unit,
      LiveProviders.execAll id ([.startScoring,.setScoringEnabled false] : List (LiveOp Unit ℕ))
        (.built (.new env) (some defaultScoringConfig)) = .ok m ∧
      ∃ m', applySnapshot id t m m.snapshot = (.ok none,m') ∧ m'.unswitched = m.unswitched := by
  intro env t
  obtain ⟨horder,hown⟩ := @applySnapshot_desired Unit Unit ℕ id _
  constructor
  · have hsnap : Plausible twoChains := ⟨by decide +kernel,by decide⟩
    obtain ⟨err,err',err'',m',m'',h,h',-,hagain,-,hsame⟩ := horder runningProviders twoChains
      (by rintro s ⟨⟩; rfl) hsnap t (backwards t) t rfl
    exact ⟨by decide +kernel,err,err',err'',m',m'',h,h',hagain,hsame⟩
  · exact ⟨_,rfl,hown env [] _ (some defaultScoringConfig)
      [.startScoring,.setScoringEnabled false] _ rfl rfl t⟩

end CloudAgent
end ChainKit
