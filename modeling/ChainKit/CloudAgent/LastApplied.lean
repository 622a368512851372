import ChainKit.CloudAgent.Poller

/-! Whether `LastApplied` tells the configuration in force. -/
namespace ChainKit.CloudAgent
open Lib
variable {ι ε : Type} (quote : String → String)

/-- Some chain of the snapshot is unknown or has no manager, so that applying it fails. -/
def unusable (m : LiveProviders ι ε) (snap : ConfigSnapshot) : Bool :=
  snap.chains.entries.any fun entry => (m.chainConfig entry.1).isNone

theorem applyChains_spec (draw : ℕ → ℕ) {l : List (Σ _ : String, ChainConfig)}
    (hl : l.NodupKeys) {firstErr err : Option GoError} {m m' : LiveProviders ι ε}
    (h : applyChains quote draw l firstErr m = (.ok err,m')) :
    (∀ chain, m'.chainConfig chain =
      (m.chainConfig chain).map fun cfg => (l.dlookup chain).getD cfg) ∧
    (err = none ↔ firstErr = none ∧ ∀ entry ∈ l, (m.chainConfig entry.1).isSome) := by
  induction l generalizing firstErr m with
  | nil =>
    cases h
    simp
  | cons entry rest ih =>
    obtain ⟨chain,cfg⟩ := entry
    obtain ⟨hnew,hrest⟩ := List.nodupKeys_cons.mp hl
    obtain ⟨hconfig,herr⟩ := m.updateChainConfig_spec quote draw chain cfg
    rw [applyChains] at h
    split at h
    · cases h
    · rename_i err₁ m₁ hupdate
      simp only [hupdate] at hconfig herr
      obtain ⟨hconfigs,herrs⟩ := ih hrest h
      have hmanager (other : String) :
          (m₁.chainConfig other).isSome = (m.chainConfig other).isSome := by
        rw [hconfig]
        split_ifs with hother
        · rw [hother.1,hother.2]
          rfl
        · rfl
      constructor
      · intro other
        rw [hconfigs,hconfig]
        by_cases hother : other = chain
        · subst hother
          rw [List.dlookup_eq_none.mpr hnew]
          cases m.chainConfig other <;> simp
        · simp [hother]
      · rw [herrs,Option.or_eq_none_iff,herr err₁ rfl]
        simp [hmanager,and_assoc]

theorem chainConfig_setScoringWeights (m : LiveProviders ι ε) (w : ScoringWeights) :
    (m.setScoringWeights w).2.chainConfig = m.chainConfig := by
  unfold LiveProviders.setScoringWeights
  split <;> rfl

theorem setScoringWeights_eq_ok {m m' : LiveProviders ι ε} {w : ScoringWeights}
    {err : Option GoError} (h : m.setScoringWeights w = (.ok err,m')) : err = none := by
  unfold LiveProviders.setScoringWeights at h
  split at h
  · cases h
    rfl
  · rw [Prod.mk.injEq] at h
    split_ifs at h
    · cases h.1
    · cases h.1
      rfl

theorem applySnapshot_spec {t : Tick} {snap : ConfigSnapshot} {err : Option GoError}
    {m m' : LiveProviders ι ε} (h : applySnapshot quote t m snap = (.ok err,m')) :
    (∀ chain, m'.chainConfig chain =
      (m.chainConfig chain).map fun cfg => (snap.chains.lookup chain).getD cfg) ∧
    (err = none ↔ unusable m snap = false) := by
  have hperm := t.visit.perm snap.chains.entries
  have hnodup := (List.perm_nodupKeys hperm).mpr snap.chains.nodupKeys
  unfold applySnapshot at h
  split at h
  · cases h
  · rename_i firstErr m₁ hchains
    obtain ⟨hconfig,herr⟩ := applyChains_spec quote t.draw hnodup hchains
    split at h
    · cases h
    · rename_i err₂ m₂ hweights
      have hm₂ : m₂.chainConfig = m₁.chainConfig := by
        rw [← chainConfig_setScoringWeights m₁ snap.scoringWeights,hweights]
      rw [setScoringWeights_eq_ok hweights,Option.or_none,Prod.mk.injEq] at h
      obtain ⟨hresult,rfl⟩ := h
      cases hresult
      constructor
      · intro chain
        change m₂.chainConfig chain = _
        rw [hm₂,hconfig,List.perm_dlookup chain hnodup hperm]
        rfl
      · rw [herr]
        simp [unusable,hperm.mem_iff,Option.isSome_iff_ne_none]

namespace ConfigPoller
variable {p p' : ConfigPoller ι ε} {t : Tick} {snap : ConfigSnapshot}

/-- The snapshot that a tick is given to apply. -/
def fetched (p : ConfigPoller ι ε) (t : Tick) : Option ConfigSnapshot :=
  match t.fetch p.etag with
  | .error _ => none
  | .ok res => if res.notModified then none else some res.snap

/-- The tick is told that nothing has changed. -/
def unmodified (p : ConfigPoller ι ε) (t : Tick) : Bool :=
  match t.fetch p.etag with
  | .error _ => false
  | .ok res => res.notModified

/-- The snapshot has a chain of `LastApplied` with another configuration. -/
def diverts (p : ConfigPoller ι ε) (snap : ConfigSnapshot) : Bool :=
  snap.chains.entries.any fun entry =>
    (p.applied.chains.lookup entry.1).any fun cfg => decide (cfg ≠ entry.2)

/-- The configurations in force are those of `LastApplied`, for all its chains. -/
def Agrees (p : ConfigPoller ι ε) : Prop :=
  ∀ chain cfg, p.applied.chains.lookup chain = some cfg →
    p.updater.snapshot.chains.lookup chain = some cfg

/-- What a tick that returns has done: nothing, applied its snapshot in full, or in part. -/
theorem tick_cases {err : Option GoError} (h : p.tick quote t = (.ok err,p')) :
    p.fetched t = none ∧ p' = p ∧ (err = none → p.unmodified t = true) ∨
    ∃ snap, p.fetched t = some snap ∧
      (∀ chain, p'.updater.chainConfig chain =
        (p.updater.chainConfig chain).map fun cfg => (snap.chains.lookup chain).getD cfg) ∧
      (unusable p.updater snap = false ∧ p'.applied = snap ∨
        unusable p.updater snap = true ∧ err ≠ none ∧ p'.applied = p.applied) := by
  unfold tick at h
  cases hfetch : t.fetch p.etag with
  | error e =>
    rw [hfetch] at h
    cases h
    exact .inl ⟨by simp [fetched,hfetch],rfl,by simp⟩
  | ok res =>
    simp only [hfetch] at h
    split_ifs at h with hmodified
    · cases h
      exact .inl ⟨by simp [fetched,hfetch,hmodified],rfl,by simp [unmodified,hfetch,hmodified]⟩
    · right
      refine ⟨res.snap,by simp [fetched,hfetch,hmodified],?_⟩
      split at h
      · cases h
      · rename_i e m happly
        obtain ⟨hconfig,herr⟩ := applySnapshot_spec quote happly
        cases h
        exact ⟨hconfig,.inr ⟨by simpa using herr,by simp,rfl⟩⟩
      · rename_i m happly
        obtain ⟨hconfig,herr⟩ := applySnapshot_spec quote happly
        cases h
        exact ⟨hconfig,.inl ⟨herr.mp rfl,rfl⟩⟩

theorem agrees_iff : p.Agrees ↔ ∀ chain cfg, p.applied.chains.lookup chain = some cfg →
    p.updater.chainConfig chain = some cfg := by
  simp only [Agrees,LiveProviders.lookup_snapshot]

theorem agrees_of_usable (hconfig : ∀ chain, p'.updater.chainConfig chain =
      (p.updater.chainConfig chain).map fun cfg => (snap.chains.lookup chain).getD cfg)
    (husable : unusable p.updater snap = false) (happlied : p'.applied = snap) : p'.Agrees := by
  rw [agrees_iff,happlied]
  intro chain cfg hcfg
  have hmanager : (p.updater.chainConfig chain).isSome := by
    rw [unusable,List.any_eq_false] at husable
    simpa [Option.isSome_iff_ne_none] using husable ⟨chain,cfg⟩ (AList.mem_lookup_iff.mp hcfg)
  obtain ⟨old,hold⟩ := Option.isSome_iff_exists.mp hmanager
  rw [hconfig,hold,hcfg]
  rfl

/-- After a snapshot was applied in part, but none of the chains in question got another
configuration. -/
theorem agrees_of_not_diverts (hagrees : p.Agrees)
    (hconfig : ∀ chain, p'.updater.chainConfig chain =
      (p.updater.chainConfig chain).map fun cfg => (snap.chains.lookup chain).getD cfg)
    (hdiverts : p.diverts snap = false) (happlied : p'.applied = p.applied) : p'.Agrees := by
  rw [agrees_iff] at hagrees ⊢
  rw [happlied]
  intro chain cfg hcfg
  rw [hconfig,hagrees chain cfg hcfg,Option.map_some]
  cases hsnap : snap.chains.lookup chain with
  | none => rfl
  | some cfg' =>
    rw [diverts,List.any_eq_false] at hdiverts
    have hsame := hdiverts ⟨chain,cfg'⟩ (AList.mem_lookup_iff.mp hsnap)
    have heq : cfg = cfg' := by simpa [hcfg] using hsame
    rw [heq]
    rfl

end ConfigPoller

/-- A poller along its ticks. A panic ends the run. `diverted` says that a snapshot was applied
in part and gave a chain of `LastApplied` another configuration, and that none was applied in
full since. -/
structure Polling (ι ε : Type) where
  poller : ConfigPoller ι ε
  panicked : Bool
  diverted : Bool

namespace Polling

def start (updater : LiveProviders ι ε) : Polling ι ε := ⟨newConfigPoller updater,false,false⟩

def step (s : Polling ι ε) (t : Tick) : Polling ι ε :=
  if s.panicked then s
  else
    { poller := (s.poller.tick quote t).2
      panicked := match (s.poller.tick quote t).1 with
        | .error _ => true
        | .ok _ => false
      diverted := match s.poller.fetched t with
        | none => s.diverted
        | some snap => unusable s.poller.updater snap && (s.diverted || s.poller.diverts snap) }

def run (s : Polling ι ε) (ticks : List Tick) : Polling ι ε := ticks.foldl (step quote) s

/-- The tick is not told that nothing has changed while the poller is diverted. -/
def Undiverted (s : Polling ι ε) (t : Tick) : Prop :=
  s.panicked = false → s.diverted = true → s.poller.unmodified t = false

instance (s : Polling ι ε) (t : Tick) : Decidable (s.Undiverted t) :=
  inferInstanceAs (Decidable
    (s.panicked = false → s.diverted = true → s.poller.unmodified t = false))

/-- Only a diverted poller can be wrong. -/
def Faithful (s : Polling ι ε) : Prop :=
  s.panicked = false → s.diverted = false → s.poller.Agrees

theorem faithful_start (updater : LiveProviders ι ε) : (start updater).Faithful := by
  intro _ _ chain cfg hcfg
  simp [start,newConfigPoller] at hcfg

theorem faithful_step {s : Polling ι ε} (hs : s.Faithful) (t : Tick) :
    (s.step quote t).Faithful := by
  unfold step
  split_ifs with hpanicked
  · exact hs
  · rw [Bool.not_eq_true] at hpanicked
    cases htick : s.poller.tick quote t with
    | mk r p' =>
      cases r with
      | error panic =>
        intro hfalse
        cases hfalse
      | ok err =>
        intro _ hdiverted
        simp only at hdiverted
        obtain ⟨hnone,rfl,_⟩ | ⟨snap,hsnap,hconfig,hcase⟩ :=
          ConfigPoller.tick_cases quote htick
        · rw [hnone] at hdiverted
          exact hs hpanicked hdiverted
        · simp only [hsnap] at hdiverted
          obtain ⟨husable,happlied⟩ | ⟨hunusable,_,happlied⟩ := hcase
          · exact ConfigPoller.agrees_of_usable hconfig husable happlied
          · rw [hunusable,Bool.true_and,Bool.or_eq_false_iff] at hdiverted
            exact ConfigPoller.agrees_of_not_diverts (hs hpanicked hdiverted.1) hconfig
              hdiverted.2 happlied

theorem faithful_run (updater : LiveProviders ι ε) (ticks : List Tick) :
    ((start updater).run quote ticks).Faithful :=
  foldl_invariant (faithful_start updater) fun _ t _ _ hbefore => faithful_step quote hbefore t

end Polling

/-- If no tick of a run is told that nothing has changed while the poller is diverted, then after
every tick that returns nil the configurations in force are those of `LastApplied`. -/
theorem lastApplied_in_force (updater : LiveProviders ι ε) (ticks : List Tick)
    (hticks : ∀ before t after, ticks = before ++ t :: after →
      ((Polling.start updater).run quote before).Undiverted t) :
    ∀ before t after, ticks = before ++ t :: after →
      let s := (Polling.start updater).run quote before
      s.panicked = false → (s.poller.tick quote t).1 = .ok none →
      (s.poller.tick quote t).2.Agrees := by
  intro before t after hsplit s hpanicked hnil
  have hs : s.Faithful := Polling.faithful_run quote updater before
  have htick : s.poller.tick quote t = (.ok none,(s.poller.tick quote t).2) := by
    rw [← hnil]
  obtain ⟨_,hsame,hunmodified⟩ | ⟨snap,_,hconfig,hcase⟩ :=
    ConfigPoller.tick_cases quote htick
  · rw [hsame]
    refine hs hpanicked ?_
    by_contra hdiverted
    rw [Bool.not_eq_false] at hdiverted
    have hfalse := hticks before t after hsplit hpanicked hdiverted
    rw [hunmodified rfl] at hfalse
    cases hfalse
  · obtain ⟨husable,happlied⟩ | ⟨_,herr,_⟩ := hcase
    · exact ConfigPoller.agrees_of_usable hconfig husable happlied
    · exact absurd rfl herr

/-- A server that holds a configuration under an ETag. -/
def holding (config : ConfigSnapshot) (etag : String) : Option String → FetchOutcome
  | none => .response 200 etag (.ok ⟨1,etag,config⟩)
  | some known =>
    if known = etag then .response 304 etag (.error (.plain "EOF"))
    else .response 200 etag (.ok ⟨1,etag,config⟩)

/-- A tick with that server, in the order of the map. -/
def tickWith (config : ConfigSnapshot) (etag : String) : Tick where
  fetch := makeFetcher { endpoint := "x" } (holding config etag)
  visit := ⟨id,fun _ => .refl _⟩
  draw := fun _ => 0

/-- What the builder builds when none of its methods is called. -/
def plainProviders : LiveProviders ℕ Engine :=
  (MixedProvidersBuilder.new ⟨.insertion,fun _ => none,fun _ => 0⟩).build.live none

def balanceConfig (timeout : ℤ) : ChainConfig :=
  { defaultChainConfig .balanceFetchers with timeout := timeout*Duration.second }

def knownOnly (timeout : ℤ) : ConfigSnapshot :=
  { chains := AList.singleton "BalanceFetchers" (balanceConfig timeout) }

def withUnknown (timeout : ℤ) : ConfigSnapshot :=
  { chains := AList.insert "TokenFetchers" (balanceConfig timeout) (knownOnly timeout).chains }

theorem lastApplied_in_force_restored :
    let s := (Polling.start plainProviders).run id [tickWith (knownOnly 10) "a",
      tickWith (withUnknown 20) "b",tickWith (knownOnly 30) "c"]
    (s.poller.tick id (tickWith (knownOnly 30) "c")).2.Agrees := by
  intro s
  exact lastApplied_in_force id plainProviders [tickWith (knownOnly 10) "a",
    tickWith (withUnknown 20) "b",tickWith (knownOnly 30) "c",tickWith (knownOnly 30) "c"]
    (along_iff.mp (by decide +kernel)) [tickWith (knownOnly 10) "a",tickWith (withUnknown 20) "b",
      tickWith (knownOnly 30) "c"] (tickWith (knownOnly 30) "c") [] rfl (by decide +kernel)
    (by decide +kernel)

/-- The server goes from one configuration to another, which has a chain that this version does
not know, and back. -/
theorem lastApplied_not_in_force :
    let s := (Polling.start plainProviders).run id
      [tickWith (knownOnly 10) "a",tickWith (withUnknown 20) "b"]
    let r := s.poller.tick id (tickWith (knownOnly 10) "a")
    s.panicked = false ∧ r.1 = .ok none ∧
      r.2.applied.chains.lookup "BalanceFetchers" = some (balanceConfig 10) ∧
      r.2.updater.snapshot.chains.lookup "BalanceFetchers" = some (balanceConfig 20) := by
  decide +kernel

end ChainKit.CloudAgent
