import ChainKit.CloudAgent.LastApplied

/-! What applying a snapshot makes of the managers and of the scoring engine, and when it panics
on the way. -/
namespace ChainKit
variable {ι ε : Type}

namespace ProviderManager

/-- The semaphore would have to be replaced by one of negative capacity. -/
def Oversteps (pm : ProviderManager ι ε) (config : ChainConfig) : Prop :=
  pm.semaphore ≠ config.maxConcurrency ∧ config.maxConcurrency < 0

/-- What `updateChainConfig` leaves when it does not panic. -/
def configured (pm : ProviderManager ι ε) (draw : ℕ → ℕ) (config : ChainConfig) :
    ProviderManager ι ε :=
  { pm with
    config := config
    semaphore := config.maxConcurrency
    selector := if pm.config.selectionStrategy = config.selectionStrategy then pm.selector
      else selectorFor draw config.selectionStrategy }

theorem updateChainConfig_of_oversteps {pm : ProviderManager ι ε} {config : ChainConfig}
    (h : pm.Oversteps config) (draw : ℕ → ℕ) :
    (pm.updateChainConfig draw config).1 = .error .makechanSize := by
  have hif : pm.semaphore ≠ config.maxConcurrency ∧ config.maxConcurrency < 0 := h
  simp only [updateChainConfig,if_pos hif]

theorem updateChainConfig_of_not_oversteps {pm : ProviderManager ι ε} {config : ChainConfig}
    (h : ¬pm.Oversteps config) (draw : ℕ → ℕ) :
    pm.updateChainConfig draw config = (.ok (),pm.configured draw config) := by
  have hif : ¬(pm.semaphore ≠ config.maxConcurrency ∧ config.maxConcurrency < 0) := h
  simp only [updateChainConfig,if_neg hif,configured]
  by_cases hsame : pm.config.selectionStrategy = config.selectionStrategy
  · simp [hsame]
  · simp [hsame]

@[simp] theorem configured_configured (pm : ProviderManager ι ε) (draw draw' : ℕ → ℕ)
    (config : ChainConfig) :
    (pm.configured draw config).configured draw' config = pm.configured draw config := by
  simp [configured]

theorem configured_self {pm : ProviderManager ι ε} (h : pm.semaphore = pm.config.maxConcurrency)
    (draw : ℕ → ℕ) : pm.configured draw pm.config = pm := by
  simp [configured,← h]

end ProviderManager

/-- The engine and its decay manager after the scoring part of a snapshot. -/
def Decay.State.rescored (s : Decay.State) (snap : ConfigSnapshot) : Decay.State :=
  let s := s.updateConfig (scoringWeightsToOptions snap.scoringWeights)
  { s with engine := { s.engine with
      config := { s.engine.config with enabled := snap.scoringEnabled } } }

namespace LiveProviders

/-- The manager of the chain would have to make a semaphore of negative capacity. -/
def Oversteps (m : LiveProviders ι ε) (chain : String) (config : ChainConfig) : Prop :=
  ∃ t pm, t.string = chain ∧ m.managers t = some pm ∧ pm.Oversteps config

/-- The managers after all chains have got what is desired for them. -/
def withChains (m : LiveProviders ι ε) (draw : ℕ → ℕ) (desired : String → Option ChainConfig) :
    LiveProviders ι ε :=
  { m with managers := fun t => (m.managers t).map fun pm =>
      match desired t.string with
      | none => pm
      | some config => pm.configured draw config }

def only (chain : String) (config : ChainConfig) (other : String) : Option ChainConfig :=
  if other = chain then some config else none

theorem withChains_none (m : LiveProviders ι ε) (draw : ℕ → ℕ) :
    m.withChains draw (fun _ => none) = m := by
  simp [withChains]

theorem withChains_withChains (m : LiveProviders ι ε) (draw : ℕ → ℕ)
    {first second : String → Option ChainConfig}
    (h : ∀ chain, first chain = none ∨ second chain = none) :
    (m.withChains draw first).withChains draw second =
      m.withChains draw fun chain => (first chain).or (second chain) := by
  simp only [withChains]
  congr 1
  funext t
  rw [Option.map_map]
  congr 1
  funext pm
  obtain hnone | hnone := h t.string
  · simp [hnone]
  · cases first t.string <;> simp [hnone]

theorem oversteps_withChains {m : LiveProviders ι ε} {draw : ℕ → ℕ}
    {desired : String → Option ChainConfig} {chain : String} (h : desired chain = none)
    (config : ChainConfig) :
    (m.withChains draw desired).Oversteps chain config ↔ m.Oversteps chain config := by
  constructor
  · rintro ⟨t,pm,rfl,hpm,hover⟩
    simp only [withChains,h,Option.map_eq_some_iff] at hpm
    obtain ⟨pm,hold,rfl⟩ := hpm
    exact ⟨t,pm,rfl,hold,hover⟩
  · rintro ⟨t,pm,rfl,hpm,hover⟩
    exact ⟨t,pm,rfl,by simp [withChains,h,hpm],hover⟩

theorem updateChainConfig_of_oversteps {m : LiveProviders ι ε} {chain : String}
    {config : ChainConfig} (h : m.Oversteps chain config) (quote : String → String)
    (draw : ℕ → ℕ) :
    (m.updateChainConfig quote draw chain config).1 = .error (.manager .makechanSize) := by
  obtain ⟨t,pm,rfl,hpm,hover⟩ := h
  have hfor : m.managerFor quote t.string = .ok (t,pm) := by simp [managerFor,hpm]
  simp only [updateChainConfig,hfor,ProviderManager.updateChainConfig_of_oversteps hover]

theorem updateChainConfig_of_not_oversteps {m : LiveProviders ι ε} {chain : String}
    {config : ChainConfig} (h : ¬m.Oversteps chain config) (quote : String → String)
    (draw : ℕ → ℕ) : ∃ err, m.updateChainConfig quote draw chain config =
      (.ok err,m.withChains draw (only chain config)) := by
  unfold updateChainConfig
  obtain ⟨e,he,hnone⟩ | ⟨t,pm,hok,rfl,hpm⟩ := m.managerFor_cases quote chain
  · refine ⟨some e,?_⟩
    have hsame : m.withChains draw (only chain config) = m := by
      simp only [withChains]
      congr 1
      funext t
      by_cases ht : t.string = chain
      · rw [← ht,chainConfig_string,Option.map_eq_none_iff] at hnone
        rw [hnone]
        rfl
      · simp [only,ht]
    rw [he,hsame]
  · have hover : ¬pm.Oversteps config := fun hpmover => h ⟨t,pm,rfl,hpm,hpmover⟩
    refine ⟨none,?_⟩
    simp only [hok,ProviderManager.updateChainConfig_of_not_oversteps hover,withChains]
    congr 2
    funext u
    by_cases hu : u = t
    · subst hu
      simp [hpm,only]
    · have hstring : u.string ≠ t.string := by
        intro heq
        have := congrArg ProviderChainType.ofString heq
        rw [ProviderChainType.ofString_string,ProviderChainType.ofString_string] at this
        exact hu (Option.some.inj this)
      simp [hu,only,hstring]

/-- The scoring engine has got its weights and its switch. -/
def withScoring (m : LiveProviders ι ε) (snap : ConfigSnapshot) : LiveProviders ι ε :=
  { m with scoringEngine := m.scoringEngine.map (·.rescored snap) }

/-- What applying the snapshot leaves when it does not panic. -/
def applied (m : LiveProviders ι ε) (draw : ℕ → ℕ) (snap : ConfigSnapshot) : LiveProviders ι ε :=
  (m.withChains draw snap.chains.lookup).withScoring snap

def Alive (m : LiveProviders ι ε) : Prop := ∀ s, m.scoringEngine = some s → s.panicked = false

/-- The running decay manager is asked for a ticker without an interval. -/
def Halts (m : LiveProviders ι ε) (w : ScoringWeights) : Prop :=
  ∃ s, m.scoringEngine = some s ∧ s.running = true ∧ s.config.decayInterval ≠ 0 ∧
    w.decayInterval = 0

end LiveProviders

/-- The interval that is in force after new weights. `Validate` repairs the negative ones only. -/
theorem newConfig_decayInterval (s : Decay.State) (w : ScoringWeights) :
    (s.newConfig (scoringWeightsToOptions w)).decayInterval =
      if w.decayInterval < 0 then Duration.minute else w.decayInterval := rfl

theorem panicked_updateConfig {s : Decay.State} (hs : s.panicked = false) (w : ScoringWeights) :
    (s.updateConfig (scoringWeightsToOptions w)).panicked = true ↔
      s.running = true ∧ s.config.decayInterval ≠ 0 ∧ w.decayInterval = 0 := by
  have hinterval := newConfig_decayInterval s w
  have hminute : 0 < Duration.minute := by decide
  simp only [Decay.State.updateConfig,Decay.State.updateManager]
  split_ifs with hchange
  · simp only [Decay.State.newTicker]
    split_ifs with hle
    · simp only [true_iff]
      refine ⟨hchange.1,?_⟩
      split_ifs at hinterval <;> omega
    · simp only [Decay.State.stopTicker,hs,Bool.false_eq_true,false_iff]
      rintro ⟨-,-,hzero⟩
      rw [hzero] at hinterval
      simp only [lt_irrefl,if_false] at hinterval
      omega
  · simp only [hs,Bool.false_eq_true,false_iff]
    rintro ⟨hrunning,hold,hzero⟩
    rw [hzero] at hinterval
    simp only [lt_irrefl,if_false] at hinterval
    exact hchange ⟨hrunning,by rwa [hinterval]⟩

theorem LiveProviders.panicked_of_not_halts {m : LiveProviders ι ε} (halive : m.Alive)
    {w : ScoringWeights} (hhalts : ¬m.Halts w) {s : Decay.State} (hs : m.scoringEngine = some s) :
    (s.updateConfig (scoringWeightsToOptions w)).panicked = false := by
  rw [← Bool.not_eq_true,panicked_updateConfig (halive s hs)]
  intro h
  exact hhalts ⟨s,hs,h⟩

namespace CloudAgent
variable (quote : String → String)

theorem applyChains_of_not_oversteps (draw : ℕ → ℕ) {l : List (Σ _ : String, ChainConfig)}
    (hl : l.NodupKeys) {m : LiveProviders ι ε} (hover : ∀ entry ∈ l, ¬m.Oversteps entry.1 entry.2)
    (firstErr : Option GoError) :
    ∃ err, applyChains quote draw l firstErr m =
      (.ok err,m.withChains draw fun chain => l.dlookup chain) := by
  induction l generalizing firstErr m with
  | nil => exact ⟨firstErr,by simp [applyChains,LiveProviders.withChains_none]⟩
  | cons entry rest ih =>
    obtain ⟨chain,config⟩ := entry
    obtain ⟨hnew,hrest⟩ := List.nodupKeys_cons.mp hl
    obtain ⟨err,herr⟩ := LiveProviders.updateChainConfig_of_not_oversteps
      (hover ⟨chain,config⟩ (by simp)) quote draw
    have hafter : ∀ entry ∈ rest,
        ¬(m.withChains draw (LiveProviders.only chain config)).Oversteps entry.1 entry.2 := by
      intro entry hentry
      have hne : entry.1 ≠ chain := by
        rintro rfl
        exact hnew (List.mem_keys.mpr ⟨entry.2,hentry⟩)
      rw [LiveProviders.oversteps_withChains (by simp [LiveProviders.only,hne])]
      exact hover entry (by simp [hentry])
    obtain ⟨err',hloop⟩ := ih hrest hafter (firstErr.or err)
    refine ⟨err',?_⟩
    rw [applyChains,herr]
    simp only [hloop]
    rw [LiveProviders.withChains_withChains]
    · congr 2
      funext other
      by_cases hother : other = chain
      · subst hother
        simp [LiveProviders.only]
      · simp [LiveProviders.only,hother,List.dlookup_cons_ne]
    · intro other
      by_cases hother : other = chain
      · subst hother
        exact .inr (List.dlookup_eq_none.mpr hnew)
      · exact .inl (by simp [LiveProviders.only,hother])

theorem applyChains_of_oversteps (draw : ℕ → ℕ) {l : List (Σ _ : String, ChainConfig)}
    (hl : l.NodupKeys) {m : LiveProviders ι ε} (hover : ∃ entry ∈ l, m.Oversteps entry.1 entry.2)
    (firstErr : Option GoError) :
    (applyChains quote draw l firstErr m).1 = .error (.manager .makechanSize) := by
  induction l generalizing firstErr m with
  | nil => simp at hover
  | cons entry rest ih =>
    obtain ⟨chain,config⟩ := entry
    obtain ⟨hnew,hrest⟩ := List.nodupKeys_cons.mp hl
    rw [applyChains]
    by_cases hfirst : m.Oversteps chain config
    · have hpanic := LiveProviders.updateChainConfig_of_oversteps hfirst quote draw
      split
      · rename_i panic m' heq
        rw [heq] at hpanic
        exact hpanic
      · rename_i err m' heq
        rw [heq] at hpanic
        cases hpanic
    · obtain ⟨err,herr⟩ :=
        LiveProviders.updateChainConfig_of_not_oversteps hfirst quote draw
      simp only [herr]
      apply ih hrest
      obtain ⟨entry,hmem,hover⟩ := hover
      obtain rfl | hentry := List.mem_cons.mp hmem
      · exact absurd hover hfirst
      · have hne : entry.1 ≠ chain := by
          rintro rfl
          exact hnew (List.mem_keys.mpr ⟨entry.2,hentry⟩)
        refine ⟨entry,hentry,?_⟩
        rwa [LiveProviders.oversteps_withChains (by simp [LiveProviders.only,hne])]

variable {m : LiveProviders ι ε} {snap : ConfigSnapshot}

/-- The loop over the chains of a snapshot ends in the same state in every order. -/
theorem applyChains_snapshot (t : Tick)
    (hover : ∀ entry ∈ snap.chains.entries, ¬m.Oversteps entry.1 entry.2) :
    ∃ err, applyChains quote t.draw (t.visit.order snap.chains.entries) none m =
      (.ok err,m.withChains t.draw snap.chains.lookup) := by
  have hperm := t.visit.perm snap.chains.entries
  have hnodup := (List.perm_nodupKeys hperm).mpr snap.chains.nodupKeys
  obtain ⟨err,hloop⟩ := applyChains_of_not_oversteps quote t.draw hnodup
    (fun entry hentry => hover entry (hperm.mem_iff.mp hentry)) none
  have hlookup : (fun chain => (t.visit.order snap.chains.entries).dlookup chain) =
      snap.chains.lookup := by
    funext chain
    exact List.perm_dlookup chain hnodup hperm
  rw [hlookup] at hloop
  exact ⟨err,hloop⟩

theorem applySnapshot_eq (t : Tick) (halive : m.Alive)
    (hover : ∀ entry ∈ snap.chains.entries, ¬m.Oversteps entry.1 entry.2)
    (hhalts : ¬m.Halts snap.scoringWeights) :
    ∃ err, applySnapshot quote t m snap = (.ok err,m.applied t.draw snap) ∧
      (err = none ↔ unusable m snap = false) := by
  obtain ⟨err,hloop⟩ := applyChains_snapshot quote t hover
  have hweights : (m.withChains t.draw snap.chains.lookup).setScoringWeights snap.scoringWeights =
      (.ok none,{ m.withChains t.draw snap.chains.lookup with
        scoringEngine := m.scoringEngine.map
          (Decay.State.updateConfig · (scoringWeightsToOptions snap.scoringWeights)) }) := by
    simp only [LiveProviders.setScoringWeights,LiveProviders.withChains]
    cases hs : m.scoringEngine with
    | none => rfl
    | some s => simp [LiveProviders.panicked_of_not_halts halive hhalts hs]
  have hresult : applySnapshot quote t m snap = (.ok (err.or none),m.applied t.draw snap) := by
    rw [applySnapshot,hloop]
    simp only [hweights,LiveProviders.setScoringEnabled,Option.map_map]
    rfl
  exact ⟨err.or none,hresult,(applySnapshot_spec quote hresult).2⟩

theorem applySnapshot_of_oversteps (t : Tick)
    (hover : ∃ entry ∈ snap.chains.entries, m.Oversteps entry.1 entry.2) :
    (applySnapshot quote t m snap).1 = .error (.manager .makechanSize) := by
  have hperm := t.visit.perm snap.chains.entries
  have hnodup := (List.perm_nodupKeys hperm).mpr snap.chains.nodupKeys
  have hloop : (applyChains quote t.draw (t.visit.order snap.chains.entries) none m).1 =
      .error (.manager .makechanSize) := by
    apply applyChains_of_oversteps quote t.draw hnodup
    obtain ⟨entry,hentry,h⟩ := hover
    exact ⟨entry,hperm.mem_iff.mpr hentry,h⟩
  unfold applySnapshot
  split
  · rename_i panic m' heq
    rw [heq] at hloop
    exact hloop
  · rename_i err m' heq
    rw [heq] at hloop
    cases hloop

theorem applySnapshot_of_halts (t : Tick) (halive : m.Alive)
    (hover : ∀ entry ∈ snap.chains.entries, ¬m.Oversteps entry.1 entry.2)
    (hhalts : m.Halts snap.scoringWeights) :
    (applySnapshot quote t m snap).1 = .error .tickerInterval := by
  obtain ⟨err,hloop⟩ := applyChains_snapshot quote t hover
  obtain ⟨s,hs,h⟩ := hhalts
  have hpanicked : (s.updateConfig (scoringWeightsToOptions snap.scoringWeights)).panicked = true :=
    (panicked_updateConfig (halive s hs) _).mpr h
  rw [applySnapshot,hloop]
  simp [LiveProviders.setScoringWeights,LiveProviders.withChains,hs,hpanicked]

/-- Applying a snapshot panics if a semaphore of negative capacity or a ticker without an interval
is asked for, and only then. -/
theorem applySnapshot_returns_iff (t : Tick) (halive : m.Alive) :
    (∃ err, (applySnapshot quote t m snap).1 = .ok err) ↔
      (∀ entry ∈ snap.chains.entries, ¬m.Oversteps entry.1 entry.2) ∧
        ¬m.Halts snap.scoringWeights := by
  constructor
  · rintro ⟨err,h⟩
    have hover : ∀ entry ∈ snap.chains.entries, ¬m.Oversteps entry.1 entry.2 := by
      intro entry hentry hentryover
      rw [applySnapshot_of_oversteps quote t ⟨entry,hentry,hentryover⟩] at h
      cases h
    refine ⟨hover,?_⟩
    intro hhalts
    rw [applySnapshot_of_halts quote t halive hover hhalts] at h
    cases h
  · rintro ⟨hover,hhalts⟩
    obtain ⟨err,h,-⟩ := applySnapshot_eq quote t halive hover hhalts
    exact ⟨err,by rw [h]⟩

end CloudAgent
end ChainKit
