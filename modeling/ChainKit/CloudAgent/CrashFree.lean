import ChainKit.CloudAgent.Apply
import ChainKit.RunOp.Rules

/-! Whether a remote configuration can bring down the host: at once, when it is applied, or later,
when a call checks which providers are available. -/
namespace ChainKit
variable {ι ε δ : Type}

/-- The limiter can divide by zero: it gets to the division where the window may be full. A window
that is not positive holds no request, so it is full only if no request at all is allowed. -/
def RateLimitConfig.Degenerate (config : RateLimitConfig) : Prop :=
  config.enabled = true ∧ 0 < config.burstSize ∧
    (config.maxRequests = 0 ∨
      config.window.tdiv config.maxRequests = 0 ∧ (config.maxRequests < 0 ∨ 0 < config.window))

instance (config : RateLimitConfig) : Decidable config.Degenerate :=
  inferInstanceAs (Decidable (_ ∧ _ ∧ (_ ∨ _ ∧ _)))

theorem RateLimitState.refill_error_iff {rls : RateLimitState} {config : RateLimitConfig}
    {now : ℤ} : (∃ panic, rls.refill config now = .error panic) ↔
      config.maxRequests = 0 ∨ config.window.tdiv config.maxRequests = 0 := by
  simp only [refill]
  split_ifs with hmax hinterval hadd
  · simp [hmax]
  · simp [hinterval]
  · simp [hmax,hinterval]
  · simp [hmax,hinterval]

theorem RateLimitState.canMakeRequest_requestTimes (rls : RateLimitState)
    (config : RateLimitConfig) (now : ℤ) :
    (rls.canMakeRequest config now).2.requestTimes ⊆ rls.requestTimes := by
  have hrefill {rls rls' : RateLimitState} (h : rls.refill config now = .ok rls') :
      rls'.requestTimes = rls.requestTimes := by
    simp only [refill] at h
    split_ifs at h
    · cases h
      rfl
    · cases h
      rfl
  have hclean : (rls.clean config now).requestTimes ⊆ rls.requestTimes :=
    List.filter_subset_self _
  simp only [canMakeRequest]
  split_ifs
  · exact List.Subset.refl _
  · exact hclean
  · split
    · exact hclean
    · rename_i hok
      split_ifs
      · exact (hrefill hok).symm ▸ hclean
      · exact (hrefill hok).symm ▸ hclean
  · exact hclean

/-- A limiter whose requests are not in the future panics for a degenerate limit only. -/
theorem RateLimitState.degenerate_of_panic {rls : RateLimitState} {config : RateLimitConfig}
    {now : ℤ} {panic : Panic} (hpast : ∀ x ∈ rls.requestTimes, x ≤ now)
    (h : (rls.canMakeRequest config now).1 = .error panic) : config.Degenerate := by
  simp only [canMakeRequest] at h
  split_ifs at h with hdisabled hroom hburst
  · split at h
    · rename_i hrefill
      refine ⟨by simpa using hdisabled,hburst,?_⟩
      rcases refill_error_iff.mp ⟨_,hrefill⟩ with hzero | hinterval
      · exact .inl hzero
      · refine or_iff_not_imp_left.mpr fun hne => ⟨hinterval,?_⟩
        by_contra hnot
        rw [not_or,not_lt,not_lt] at hnot
        have hempty : (rls.clean config now).requestTimes = [] := by
          apply List.filter_eq_nil_iff.mpr
          intro x hx
          have := hpast x hx
          simp only [decide_eq_true_eq]
          omega
        rw [hempty] at hroom
        simp only [List.length_nil] at hroom
        omega
    · split_ifs at h

namespace ProviderState

/-- All requests that are noted were made by then. -/
def NotedBy (now : ℤ) (st : ProviderState) : Prop :=
  ∀ rls ∈ st.rateLimit, ∀ x ∈ rls.requestTimes, x ≤ now

variable {st : ProviderState} {config : ChainConfig} {now now' : ℤ}

theorem NotedBy.mono (h : st.NotedBy now) (hle : now ≤ now') : st.NotedBy now' :=
  fun rls hrls x hx => (h rls hrls x hx).trans hle

theorem NotedBy.check (h : st.NotedBy now) : (st.check config now').NotedBy now := by
  have hgate : (st.gate config now').2.NotedBy now := by
    rw [NotedBy,gate_rateLimit]
    exact h
  simp only [ProviderState.check,isProviderAvailable]
  split_ifs
  · simp only [checkRateLimit]
    split_ifs
    · split
      · rename_i rls hrls
        rintro _ ⟨⟩ x hx
        exact hgate rls hrls x (rls.canMakeRequest_requestTimes _ _ hx)
      · exact hgate
    · exact hgate
  · exact hgate

theorem NotedBy.recordSuccess (h : st.NotedBy now) (closedAt : ℤ) :
    (st.recordSuccess config closedAt now).NotedBy now := by
  intro rls hrls x hx
  simp only [ProviderState.recordSuccess] at hrls
  split_ifs at hrls
  · obtain ⟨old,hold,rfl⟩ := Option.map_eq_some_iff.mp hrls
    simp only [RateLimitState.recordRequest] at hx
    split_ifs at hx
    · exact h old hold x hx
    · rcases List.mem_append.mp hx with hx | hx
      · exact h old hold x hx
      · exact (List.mem_singleton.mp hx).le
  · exact h rls hrls x hx

theorem degenerate_of_panic {panic : Panic} (hpast : st.NotedBy now)
    (h : (st.isProviderAvailable config now).1 = .error panic) : config.rateLimit.Degenerate := by
  simp only [isProviderAvailable] at h
  split_ifs at h
  · simp only [checkRateLimit] at h
    split_ifs at h
    · split at h
      · rename_i rls hrls
        rw [gate_rateLimit] at hrls
        exact RateLimitState.degenerate_of_panic (hpast rls hrls) h
      · cases h

/-- A provider that passes the other checks, with as many requests at time zero as are allowed. -/
def full (config : RateLimitConfig) : ProviderState :=
  { fresh 0 0 0 0 with
    rateLimit := some ⟨List.replicate config.maxRequests.toNat 0,0,0⟩ }

theorem full_notedBy (config : RateLimitConfig) : (full config).NotedBy 0 := by
  rintro _ ⟨⟩ x hx
  exact (List.eq_of_mem_replicate hx).le

theorem full_gate (config : ChainConfig) (now : ℤ) :
    (full config.rateLimit).gate config now = (true,full config.rateLimit) := by
  simp [gate,checkFailure,checkCircuit,checkHealth,full,fresh]

theorem full_panics (h : config.rateLimit.Degenerate) :
    ∃ panic, ((full config.rateLimit).isProviderAvailable config 0).1 = .error panic := by
  obtain ⟨henabled,hburst,hdivisor⟩ := h
  set limit := config.rateLimit with hlimit
  let rls : RateLimitState := ⟨List.replicate limit.maxRequests.toNat 0,0,0⟩
  have hroom : ¬((rls.clean limit 0).requestTimes.length : ℤ) < limit.maxRequests := by
    rcases le_or_gt limit.maxRequests 0 with hnone | hsome
    · omega
    · have hwindow : 0 < limit.window := by
        rcases hdivisor with hzero | ⟨_,hnegative | hwindow⟩
        · omega
        · omega
        · exact hwindow
      have hkept : (rls.clean limit 0).requestTimes = rls.requestTimes := by
        apply List.filter_eq_self.mpr
        intro x hx
        rw [List.eq_of_mem_replicate hx]
        simpa using hwindow
      rw [hkept,List.length_replicate]
      omega
  obtain ⟨panic,hrefill⟩ : ∃ panic, (rls.clean limit 0).refill limit 0 = .error panic :=
    RateLimitState.refill_error_iff.mpr (hdivisor.imp id And.left)
  have hrequest : (rls.canMakeRequest limit 0).1 = .error panic := by
    simp only [RateLimitState.canMakeRequest,henabled,Bool.not_true,Bool.false_eq_true,
      if_false,if_neg hroom,if_pos hburst,hrefill]
  refine ⟨panic,?_⟩
  have hstate : (full limit).rateLimit = some rls := rfl
  rw [(isProviderAvailable_rateLimit henabled hstate 0).1,full_gate,if_pos rfl]
  exact hrequest

end ProviderState

namespace World
variable [ScoringEngine ε] {w : World ι ε δ} {host : Host} {call : Call ι δ}

/-- No request is noted that is still to come. -/
def NotedBy (host : Host) (w : World ι ε δ) : Prop :=
  ∀ name, (w.pm.states name).NotedBy (w.now host)

theorem NotedBy.candidates (h : w.NotedBy host) :
    ((w.enter call).candidates host call).2.NotedBy host := by
  intro name
  obtain ⟨k,hk⟩ := w.enter_candidates_states host call name
  have hiterate (k : ℕ) : ((ProviderState.check w.pm.config (host.now (w.ticks+1)))^[k]
      (w.pm.states name)).NotedBy (w.now host) := by
    induction k with
    | zero => exact h name
    | succ k ih =>
      rw [Function.iterate_succ_apply']
      exact ih.check
  rw [hk]
  refine (hiterate k).mono (host.now_mono ?_)
  simp

theorem NotedBy.attemptOnce (h : w.NotedBy host) (p : ProviderConfig ι) :
    (w.attemptOnce host call p).2.NotedBy host := by
  have hticks := w.attemptOnce_ticks host call p
  intro name
  by_cases hn : name = p.name
  · subst hn
    have hbefore : (w.pm.states p.name).NotedBy (host.now (w.ticks+3)) :=
      (h p.name).mono (host.now_mono (by omega))
    cases hop : call.op w.invoked p.provider with
    | ok data =>
      rw [w.attemptOnce_states_ok host call p hop]
      refine (hbefore.recordSuccess _).mono (host.now_mono ?_)
      omega
    | error err =>
      have hlimit : ((w.attemptOnce host call p).2.pm.states p.name).rateLimit =
          (w.pm.states p.name).rateLimit := by
        rw [w.attemptOnce_states_error host call p hop]
        split_ifs <;> simp
      rw [ProviderState.NotedBy,hlimit]
      exact hbefore.mono (host.now_mono (by omega))
  · rw [w.attemptOnce_states_of_ne host call p hn]
    exact (h name).mono (host.now_mono (by omega))

theorem NotedBy.runOp (h : w.NotedBy host) (call : Call ι δ) :
    (w.runOp host call).2.NotedBy host := by
  apply runOp_keeps (I := NotedBy host)
  · exact fun _ h => h
  · exact fun _ _ h => h
  · exact fun p _ h => h.attemptOnce p
  · exact fun _ _ h => h
  · exact fun _ h name => (h name).mono (host.now_mono (Nat.le_succ _))
  · exact h.candidates

theorem NotedBy.runCalls (h : w.NotedBy host) (calls : List (Call ι δ)) :
    (w.runCalls host calls).NotedBy host :=
  runCalls_invariant h fun _ call _ _ hbefore => hbefore.runOp call

/-- A call panics only in the check of a provider, and only for a degenerate rate limit. -/
theorem degenerate_of_panic {panic : Panic} (hpast : w.NotedBy host)
    (h : (w.runOp host call).1 = .error panic) :
    w.pm.providers ≠ [] ∧ w.pm.config.rateLimit.Degenerate := by
  have hcandidates : ((w.enter call).candidates host call).1 = .error panic := by
    simp only [World.runOp] at h
    split at h
    · rename_i heq
      cases h
      exact heq
    · cases h
    · cases h
  have havailable : (w.pm.getAvailableProviders ((w.enter call).now host)).1 = .error panic := by
    simp only [World.candidates] at hcandidates
    split at hcandidates
    · rename_i heq
      cases hcandidates
      exact heq
    · cases hcandidates
    · cases hcandidates
  simp only [ProviderManager.getAvailableProviders] at havailable
  split at havailable
  · rename_i heq
    cases havailable
    obtain ⟨st,hst,hpanic⟩ := filterAvailable_panic
      (P := ProviderState.NotedBy ((w.enter call).now host)) (fun _ hst => hst.check)
      (fun name => (hpast name).mono (host.now_mono (Nat.le_succ _))) heq
    refine ⟨?_,ProviderState.degenerate_of_panic hst hpanic⟩
    intro hnil
    rw [hnil] at heq
    cases heq
  · cases havailable

/-- A provider with a full window makes a call panic. -/
theorem runOp_full (hp : w.pm.providers ≠ [])
    (hstates : w.pm.states = fun _ => .full w.pm.config.rateLimit)
    (h : w.pm.config.rateLimit.Degenerate) :
    ∃ panic, (w.runOp (.frozen 0) call).1 = .error panic := by
  obtain ⟨p,ps,hps⟩ := List.exists_cons_of_ne_nil hp
  obtain ⟨panic,hpanic⟩ := ProviderState.full_panics h
  refine ⟨panic,?_⟩
  simp [World.runOp,World.candidates,getAvailableProviders,ProviderManager.getAvailableProviders,
    enter,tick,now,Host.frozen,filterAvailable,hps,hstates,hpanic]

end World

namespace CloudAgent
variable (quote : String → String)

/-- Applying the snapshot returns, and so do all calls that a chain runs afterwards, whatever has
been recorded about its providers by then. -/
def CrashFree [ScoringEngine ε] (δ : Type) (m : LiveProviders ι ε) (snap : ConfigSnapshot) : Prop :=
  ∀ t : Tick, ∃ err m', applySnapshot quote t m snap = (.ok err,m') ∧
    ∀ chainType applied, m'.managers chainType = some applied →
      ∀ (host : Host) (pm : ProviderManager ι ε), pm.providers = applied.providers →
        pm.config = applied.config → (∀ name, (pm.states name).NotedBy (host.now 0)) →
          ∀ (calls : List (Call ι δ)) (call : Call ι δ),
            ∃ r, (((World.start pm).runCalls host calls).runOp host call).1 = .ok r

theorem managers_applied (m : LiveProviders ι ε) (draw : ℕ → ℕ) (snap : ConfigSnapshot)
    (chainType : ProviderChainType) :
    ∃ f, (m.applied draw snap).managers chainType = (m.managers chainType).map f ∧
      ∀ pm, (f pm).providers = pm.providers ∧
        (f pm).config = (snap.chains.lookup chainType.string).getD pm.config := by
  refine ⟨_,rfl,?_⟩
  intro pm
  dsimp only
  cases snap.chains.lookup chainType.string with
  | none => exact ⟨rfl,rfl⟩
  | some config => exact ⟨rfl,rfl⟩

/-- A snapshot crashes nothing, at once or later, if and only if it does not ask for a semaphore of
negative capacity in the place of another, does not take the interval from a running decay manager,
and leaves no chain that has providers with a degenerate rate limit. -/
theorem crashFree_iff [ScoringEngine ε] {m : LiveProviders ι ε} {snap : ConfigSnapshot}
    (halive : m.Alive) :
    CrashFree quote δ m snap ↔
      (∀ entry ∈ snap.chains.entries, ¬m.Oversteps entry.1 entry.2) ∧
        ¬m.Halts snap.scoringWeights ∧
        ∀ chainType pm, m.managers chainType = some pm → pm.providers ≠ [] →
          ¬((snap.chains.lookup chainType.string).getD pm.config).rateLimit.Degenerate := by
  constructor
  · intro h
    let t : Tick := ⟨noopFetch,⟨id,fun _ => .refl _⟩,fun _ => 0⟩
    obtain ⟨err,m',happly,hcalls⟩ := h t
    obtain ⟨hover,hhalts⟩ := (applySnapshot_returns_iff quote t halive).mp ⟨err,by rw [happly]⟩
    refine ⟨hover,hhalts,?_⟩
    intro chainType pm hpm hproviders hdegenerate
    obtain ⟨err',happlied,-⟩ := applySnapshot_eq quote t halive hover hhalts
    obtain ⟨f,hf,hkept⟩ := managers_applied m t.draw snap chainType
    obtain ⟨hsame,hconfig⟩ := hkept pm
    rw [happly] at happlied
    cases happlied
    -- a chain as it may be later, with a full window at every provider
    let later : ProviderManager ι ε :=
      { f pm with
        states := fun _ => .full (f pm).config.rateLimit
        tracked := fun _ _ => ProviderState.fresh_tracked 0 0 0 0 }
    obtain ⟨r,hr⟩ := hcalls chainType (f pm) (by rw [hf,hpm]; rfl) (.frozen 0) later rfl rfl
      (fun _ => ProviderState.full_notedBy _) [] { op := fun _ _ => .error (.plain "failed") }
    obtain ⟨panic,hpanic⟩ := World.runOp_full (w := World.start later) (hsame ▸ hproviders) rfl
      (hconfig ▸ hdegenerate)
    exact nomatch hr.symm.trans hpanic
  · rintro ⟨hover,hhalts,hlimits⟩ t
    obtain ⟨err,happly,-⟩ := applySnapshot_eq quote t halive hover hhalts
    refine ⟨err,_,happly,?_⟩
    intro chainType applied hmanager host pm hproviders hconfig hpast calls call
    cases hr : (((World.start pm).runCalls host calls).runOp host call).1 with
    | ok r => exact ⟨r,rfl⟩
    | error panic =>
      have hstart : (World.start pm : World ι ε δ).NotedBy host := hpast
      obtain ⟨hne,hdegenerate⟩ := World.degenerate_of_panic (hstart.runCalls calls) hr
      rw [World.runCalls_config] at hdegenerate
      rw [World.runCalls_providers] at hne
      obtain ⟨f,hf,hkept⟩ := managers_applied m t.draw snap chainType
      rw [hf,Option.map_eq_some_iff] at hmanager
      obtain ⟨before,hbefore,rfl⟩ := hmanager
      obtain ⟨hsame,hconfig'⟩ := hkept before
      refine absurd ?_ (hlimits chainType before hbefore ?_)
      · rw [← hconfig',← hconfig]
        exact hdegenerate
      · rw [← hsame,← hproviders]
        exact hne

def runningProviders : LiveProviders Unit Unit where
  managers := fun chainType => some (.single (defaultChainConfig chainType) "a")
  scoringEngine := some (Decay.start (Engine.new defaultScoringConfig))

def balanceOnly (config : ChainConfig) : ConfigSnapshot where
  chains := AList.singleton "BalanceFetchers" config
  scoringEnabled := true
  scoringWeights := scoringConfigToWeights defaultScoringConfig

def burstLimit : RateLimitConfig :=
  { enabled := true, maxRequests := 100, window := Duration.minute, burstSize := 5 }

/-- A reconfiguration that allows bursts crashes nothing. -/
theorem crashFree_bursts : CrashFree id ℕ runningProviders
    (balanceOnly { balanceConfig 10 with rateLimit := burstLimit }) := by
  refine (crashFree_iff id ?_).mpr ⟨?_,?_,?_⟩
  · rintro s ⟨⟩
    rfl
  · intro entry hentry
    obtain rfl := List.mem_singleton.mp hentry
    rintro ⟨_,_,-,-,-,hnegative⟩
    revert hnegative
    decide
  · rintro ⟨s,hs,-,-,hzero⟩
    revert hzero
    decide
  · rintro chainType pm ⟨⟩ -
    cases chainType <;> decide

/-- A configuration without a scoring block, one with a negative concurrency, and one with a rate
limit that admits no request but in bursts. -/
theorem crashes_remote :
    let t := tickWith {} "a"
    let negative := { defaultChainConfig .balanceFetchers with maxConcurrency := -1 }
    let bursts := { defaultChainConfig .balanceFetchers with
      rateLimit :=
        { enabled := true, maxRequests := 0, window := Duration.second, burstSize := 1 } }
    (applySnapshot id t runningProviders {}).1 = .error .tickerInterval ∧
    (applySnapshot id t runningProviders (balanceOnly negative)).1 =
      .error (.manager .makechanSize) ∧
    (applySnapshot id t runningProviders (balanceOnly bursts)).1 = .ok none ∧
    ∃ pm, (applySnapshot id t runningProviders (balanceOnly bursts)).2.managers .balanceFetchers =
        some pm ∧
      (((World.start pm).runOp (Host.frozen 0) failingCall).1.map OpReturn.err) =
        .error .integerDivideByZero := by
  refine ⟨by decide +kernel,by decide +kernel,by decide +kernel,_,rfl,by decide +kernel⟩

end CloudAgent
end ChainKit
