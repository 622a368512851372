import ChainKit.RunOp.Rules

/-! Burst tokens. A check that finds the window full takes a token on the spot, before it is
known whether the provider will be invoked at all. -/
namespace ChainKit
variable {ι ε δ : Type}

namespace RateLimitState
variable {config : RateLimitConfig} {now : ℤ} {rls r : RateLimitState}

/-- What `CanMakeRequest` would leave if it spent nothing: the refill alone. -/
def refillOnly (rls : RateLimitState) (config : RateLimitConfig) (now : ℤ) : RateLimitState :=
  if !config.enabled then rls
  else
    let rls := rls.clean config now
    if (rls.requestTimes.length : ℤ) < config.maxRequests then rls
    else if 0 < config.burstSize then
      match rls.refill config now with
      | .error _ => rls
      | .ok rls => rls
    else rls

/-- A request could only be made at the expense of a token, and there is one. -/
def SpendsToken (config : RateLimitConfig) (now : ℤ) (rls : RateLimitState) : Prop :=
  config.maxRequests ≤ ((rls.clean config now).requestTimes.length : ℤ) ∧
    ∃ r, (rls.clean config now).refill config now = .ok r ∧ 0 < r.burstTokens

def Settled (config : RateLimitConfig) (now : ℤ) (rls : RateLimitState) : Prop :=
  (now-rls.lastRefill).tdiv (config.window.tdiv config.maxRequests) ≤ 0

theorem refill_settled (h : rls.refill config now = .ok r) : r.Settled config now := by
  simp only [refill] at h
  split_ifs at h with h₁ h₂ h₃
  · cases h
    simp [Settled]
  · cases h
    exact not_lt.mp h₃

theorem refill_requestTimes (h : rls.refill config now = .ok r) :
    r.requestTimes = rls.requestTimes := by
  simp only [refill] at h
  split_ifs at h <;> cases h <;> rfl

theorem refill_of_settled (hs : rls.Settled config now) (h : rls.refill config now = .ok r) :
    r = rls := by
  simp only [refill] at h
  split_ifs at h with h₁ h₂ h₃
  · exact absurd h₃ (not_lt.mpr hs)
  · cases h
    rfl

theorem refill_error {panic : Panic} (h : rls.refill config now = .error panic)
    (rls' : RateLimitState) (now' : ℤ) : rls'.refill config now' = .error panic := by
  simp only [refill] at h ⊢
  split_ifs at h ⊢ with h₁ h₂
  · exact h
  · exact h

theorem clean_of_clean (h : rls.requestTimes = (r.clean config now).requestTimes) :
    rls.clean config now = rls := by
  have := congrArg RateLimitState.requestTimes (clean_clean r config now)
  cases rls with
  | mk times tokens refilled =>
    simp only at h
    subst h
    simpa [clean] using this

variable (he : config.enabled = true) (hb : 0 < config.burstSize)
include he hb

theorem canMakeRequest_of_not_spends (h : ¬rls.SpendsToken config now) :
    (rls.canMakeRequest config now).2 = rls.refillOnly config now ∧
      ¬(rls.refillOnly config now).SpendsToken config now ∧
      (rls.refillOnly config now).refillOnly config now = rls.refillOnly config now := by
  simp only [canMakeRequest,refillOnly,he,hb,Bool.not_true,Bool.false_eq_true,if_false,if_true]
  by_cases hfull : ((rls.clean config now).requestTimes.length : ℤ) < config.maxRequests
  · simp only [if_pos hfull,clean_clean]
    refine ⟨trivial,?_,trivial⟩
    rintro ⟨hle,-⟩
    rw [clean_clean] at hle
    omega
  · simp only [if_neg hfull]
    cases hr : (rls.clean config now).refill config now with
    | error panic =>
      simp only [clean_clean,if_neg hfull,hr]
      refine ⟨trivial,?_,trivial⟩
      rintro ⟨-,r,hr',-⟩
      rw [clean_clean,hr] at hr'
      cases hr'
    | ok r =>
      have htimes := refill_requestTimes hr
      have hclean := clean_of_clean htimes
      have hempty : ¬0 < r.burstTokens := fun hpos => h ⟨not_lt.mp hfull,r,hr,hpos⟩
      have hagain : ∀ r', r.refill config now = .ok r' → r' = r :=
        fun r' => refill_of_settled (refill_settled hr)
      simp only [if_neg hempty,hclean,htimes,if_neg hfull,true_and]
      refine ⟨?_,?_⟩
      · rintro ⟨-,r',hr',hpos⟩
        rw [hclean] at hr'
        rw [hagain r' hr'] at hpos
        exact hempty hpos
      · cases hr' : r.refill config now with
        | error panic => rfl
        | ok r' => exact hagain r' hr'

theorem canMakeRequest_of_spends (h : rls.SpendsToken config now) :
    (rls.canMakeRequest config now).2.burstTokens =
        (rls.refillOnly config now).burstTokens-1 ∧
      (rls.canMakeRequest config now).2.Settled config now := by
  obtain ⟨hfull,r,hr,hpos⟩ := h
  simp only [canMakeRequest,refillOnly,he,hb,Bool.not_true,Bool.false_eq_true,if_false,if_true,
    if_neg (not_lt.mpr hfull),hr,hpos]
  have hsettled : r.Settled config now := refill_settled hr
  exact ⟨trivial,hsettled⟩

/-- Once a refill adds nothing, requests can only take tokens. -/
theorem Settled.canMakeRequest (h : rls.Settled config now) :
    (rls.canMakeRequest config now).2.burstTokens ≤ rls.burstTokens ∧
      (rls.canMakeRequest config now).2.Settled config now := by
  simp only [RateLimitState.canMakeRequest,he,hb,Bool.not_true,Bool.false_eq_true,if_false,if_true]
  have hclean : (rls.clean config now).Settled config now := h
  split_ifs
  · exact ⟨le_rfl,hclean⟩
  · cases hr : (rls.clean config now).refill config now with
    | error panic => exact ⟨le_rfl,hclean⟩
    | ok r =>
      have hsame := refill_of_settled hclean hr
      subst hsame
      simp only
      split_ifs
      · exact ⟨by simp,hclean⟩
      · exact ⟨le_rfl,hclean⟩

end RateLimitState

namespace ProviderState
variable {config : ChainConfig} {now : ℤ} {st : ProviderState} {rls : RateLimitState}

def burstTokens (st : ProviderState) : Option ℤ := st.rateLimit.map RateLimitState.burstTokens

/-- The tokens that an availability check would leave with the refill alone. -/
def refilledTokens (config : ChainConfig) (now : ℤ) (st : ProviderState) : Option ℤ :=
  if (st.gate config now).1 then
    st.rateLimit.map (fun rls => (rls.refillOnly config.rateLimit now).burstTokens)
  else st.burstTokens

/-- The provider gets past failure tracker, circuit and health, its window is full, and there is
a token after the refill. -/
def SpendsToken (config : ChainConfig) (now : ℤ) (st : ProviderState) : Prop :=
  (st.gate config now).1 = true ∧
    ∃ rls, st.rateLimit = some rls ∧ rls.SpendsToken config.rateLimit now

theorem checkFailure_again (h : (st.checkFailure config now).1 = true) (st' : ProviderState)
    (hf : st'.failure = (st.checkFailure config now).2.failure) :
    st'.checkFailure config now = (true,st') := by
  cases hfailure : st.failure with
  | none =>
    simp only [checkFailure,hfailure] at hf
    simp [checkFailure,hf]
  | some failure =>
    simp only [checkFailure,hfailure] at h hf
    split_ifs at h hf with hd ht
    · simp [checkFailure,hf,FailureInfo.resume]
    · simp only [hfailure] at hf
      simp [checkFailure,hf,hd]

theorem checkCircuit_refused (h : (st.checkCircuit config now).1 = false) :
    (st.checkCircuit config now).2 = st := by
  unfold checkCircuit at h ⊢
  split_ifs at h ⊢
  · split at h
    · split at h
      · split_ifs at h ⊢
        simp_all
      · simp_all
      · simp_all
    · simp_all

theorem gate_again (h : (st.gate config now).1 = false) :
    ((st.gate config now).2.gate config now).1 = false := by
  cases hl : (st.checkFailure config now).1 with
  | false =>
    have hsame : (st.checkFailure config now).2 = st := by
      cases hf : st.failure with
      | none => simp [checkFailure,hf] at hl
      | some failure =>
        simp only [checkFailure,hf] at hl ⊢
        split_ifs at hl ⊢
        rfl
    have hgate : (st.gate config now).2 = st := by simp [gate,hl,hsame]
    rw [hgate]
    exact h
  | true =>
    set st₁ := (st.checkFailure config now).2 with hst₁
    have hgate : st.gate config now =
        ((st₁.checkCircuit config now).1 && (st₁.checkCircuit config now).2.checkHealth config,
          (st₁.checkCircuit config now).2) := by simp [gate,hl,← hst₁]
    rw [hgate] at h ⊢
    have hagain := checkFailure_again hl (st₁.checkCircuit config now).2
      (st₁.checkCircuit_failure config now)
    have hhealth : ∀ st' : ProviderState, (st'.checkCircuit config now).2.checkHealth config =
        st'.checkHealth config := by
      intro st'
      simp only [checkHealth,checkCircuit_health]
    simp only [gate,hagain,if_true,hhealth]
    cases hc : (st₁.checkCircuit config now).1 with
    | false => simp [checkCircuit_refused hc,hc]
    | true =>
      simp only [hc,Bool.true_and,hhealth] at h
      simp [h]

variable (hr : config.rateLimit.enabled = true) (hb : 0 < config.rateLimit.burstSize)
include hr hb

theorem check_of_not_spends (hst : st.rateLimit = some rls) (h : ¬st.SpendsToken config now) :
    (st.check config now).burstTokens = st.refilledTokens config now ∧
      ¬(st.check config now).SpendsToken config now ∧
      (st.check config now).refilledTokens config now = st.refilledTokens config now ∧
      ∃ rls', (st.check config now).rateLimit = some rls' := by
  have hcheck := (isProviderAvailable_rateLimit hr hst now).2
  cases hg : (st.gate config now).1 with
  | false =>
    have hsnd : st.check config now = (st.gate config now).2 := by
      simp [check,isProviderAvailable,hg]
    have hg' : ((st.check config now).gate config now).1 = false := by
      rw [hsnd]
      exact gate_again hg
    have htokens : (st.check config now).burstTokens = st.burstTokens := by
      rw [hsnd,burstTokens,burstTokens,gate_rateLimit]
    simp only [refilledTokens,hg,hg',htokens,Bool.false_eq_true,if_false,true_and]
    refine ⟨?_,_,hcheck⟩
    rintro ⟨hpass,-⟩
    rw [hg'] at hpass
    cases hpass
  | true =>
    have hrls : ¬rls.SpendsToken config.rateLimit now := fun hs => h ⟨hg,rls,hst,hs⟩
    obtain ⟨hcan,hnot,hidem⟩ := RateLimitState.canMakeRequest_of_not_spends hr hb hrls
    have hafter : (st.check config now).rateLimit =
        some (rls.refillOnly config.rateLimit now) := by
      rw [check,hcheck,hg,if_pos rfl,hcan]
    have hrefilled : st.refilledTokens config now =
        some (rls.refillOnly config.rateLimit now).burstTokens := by
      simp [refilledTokens,hg,hst]
    rw [hrefilled]
    refine ⟨?_,?_,?_,_,hafter⟩
    · simp [burstTokens,hafter]
    · rintro ⟨-,rls',hrls',hs⟩
      rw [hafter,Option.some.injEq] at hrls'
      subst hrls'
      exact hnot hs
    · simp only [refilledTokens,burstTokens,hafter,Option.map_some,hidem,ite_self]

theorem iterate_check_of_not_spends (hst : st.rateLimit = some rls)
    (h : ¬st.SpendsToken config now) (k : ℕ) :
    ((check config now)^[k+1] st).burstTokens = st.refilledTokens config now := by
  induction k generalizing st rls with
  | zero => exact (check_of_not_spends hr hb hst h).1
  | succ k ih =>
    obtain ⟨-,hnot,hrefilled,rls',hrls'⟩ := check_of_not_spends hr hb hst h
    rw [Function.iterate_succ_apply,ih hrls' hnot,hrefilled]

/-- After a check that spends a token, no number of further checks gives it back. -/
theorem iterate_check_of_spends (hst : st.rateLimit = some rls)
    (hg : (st.gate config now).1 = true) (h : rls.SpendsToken config.rateLimit now) (k : ℕ) :
    ∃ rls', ((check config now)^[k+1] st).rateLimit = some rls' ∧
      rls'.Settled config.rateLimit now ∧
      rls'.burstTokens < (rls.refillOnly config.rateLimit now).burstTokens := by
  induction k with
  | zero =>
    obtain ⟨htokens,hsettled⟩ := RateLimitState.canMakeRequest_of_spends hr hb h
    have hcheck := (isProviderAvailable_rateLimit hr hst now).2
    rw [hg,if_pos rfl] at hcheck
    exact ⟨_,hcheck,hsettled,by omega⟩
  | succ k ih =>
    obtain ⟨rls',hrls',hsettled,hlt⟩ := ih
    have hcheck := (isProviderAvailable_rateLimit hr hrls' now).2
    rw [Function.iterate_succ_apply']
    refine ⟨_,hcheck,?_⟩
    split_ifs
    · obtain ⟨hle,hsettled'⟩ := hsettled.canMakeRequest hr hb
      exact ⟨hsettled',by omega⟩
    · exact ⟨hsettled,hlt⟩

/-- Checks leave the tokens of the refill alone exactly when the first spends none. -/
theorem iterate_check_tokens_iff (hst : st.rateLimit = some rls) (k : ℕ) :
    ((check config now)^[k+1] st).burstTokens = st.refilledTokens config now ↔
      ¬st.SpendsToken config now := by
  constructor
  · rintro htokens ⟨hg,rls',hrls',hs⟩
    rw [hst,Option.some.injEq] at hrls'
    subst hrls'
    obtain ⟨rls',hrls',-,hlt⟩ := iterate_check_of_spends hr hb hst hg hs k
    simp only [burstTokens,hrls',refilledTokens,hg,hst,if_true,Option.map_some,
      Option.some.injEq] at htokens
    omega
  · intro h
    exact iterate_check_of_not_spends hr hb hst h k

theorem iterate_check_of_panic (hst : st.rateLimit = some rls) {panic : Panic}
    (hpanic : ∀ (rls : RateLimitState) now, rls.refill config.rateLimit now = .error panic)
    (k : ℕ) :
    ((check config now)^[k] st).burstTokens = st.refilledTokens config now ∧
      ¬st.SpendsToken config now := by
  have hnot : ¬st.SpendsToken config now := by
    rintro ⟨-,rls',-,-,r,hr',-⟩
    rw [hpanic] at hr'
    cases hr'
  refine ⟨?_,hnot⟩
  cases k with
  | zero =>
    simp only [Function.iterate_zero,id,refilledTokens,burstTokens,hst,Option.map_some,
      RateLimitState.refillOnly,hr,hb,hpanic,Bool.not_true,Bool.false_eq_true,if_false,ite_self]
    simp
  | succ k => exact iterate_check_of_not_spends hr hb hst hnot k

omit hb in
theorem refill_of_panic {panic : Panic} (h : (st.isProviderAvailable config now).1 = .error panic)
    (rls : RateLimitState) (now' : ℤ) : rls.refill config.rateLimit now' = .error panic := by
  simp only [isProviderAvailable] at h
  split_ifs at h
  · simp only [checkRateLimit,hr,if_true] at h
    split at h
    · simp only [RateLimitState.canMakeRequest,hr,Bool.not_true,Bool.false_eq_true,if_false] at h
      split_ifs at h
      · split at h
        next hp =>
          cases h
          exact RateLimitState.refill_error hp rls now'
        · split_ifs at h
    · cases h

end ProviderState

/-- A call leaves the burst tokens of a provider that it does not invoke to the refill alone
exactly when the provider's check had no token to spend. -/
theorem burstTokens_unspent_iff [ScoringEngine ε] (w : World ι ε δ) (host : Host)
    (call : Call ι δ) (hr : w.pm.config.rateLimit.enabled = true)
    (hb : 0 < w.pm.config.rateLimit.burstSize) (p : ProviderConfig ι)
    (hp : p ∈ w.pm.providers) (ds : List (Dispatch ι δ))
    (hlog : (w.runOp host call).2.log = w.log ++ ds)
    (hds : ∀ d ∈ ds, d.provider.name ≠ p.name) :
    ((w.runOp host call).2.pm.states p.name).burstTokens =
        (w.pm.states p.name).refilledTokens w.pm.config (host.now (w.ticks+1)) ↔
      ¬(w.pm.states p.name).SpendsToken w.pm.config (host.now (w.ticks+1)) := by
  obtain ⟨rls,hst⟩ := Option.isSome_iff_exists.mp (w.pm.tracked p hp).2.2.2
  rw [w.runOp_states_of_not_invoked host call hlog hds]
  cases hf : (filterAvailable w.pm.config (host.now (w.ticks+1)) w.pm.providers
      w.pm.states).1 with
  | error panic =>
    obtain ⟨k,hk⟩ := w.enter_candidates_states host call p.name
    obtain ⟨st,-,hpanic⟩ :=
      filterAvailable_panic (P := fun _ => True) (fun _ _ => trivial) (fun _ => trivial) hf
    obtain ⟨htokens,hnot⟩ := ProviderState.iterate_check_of_panic hr hb hst
      (ProviderState.refill_of_panic hr hpanic) k
    rw [hk]
    exact iff_of_true htokens hnot
  | ok l =>
    obtain ⟨k,hk⟩ := filterAvailable_checked hf hp
    rw [World.candidates_snd]
    simp only [World.getAvailableProviders,ProviderManager.getAvailableProviders_states]
    have hk' : (filterAvailable (w.enter call).pm.config ((w.enter call).now host)
        (w.enter call).pm.providers (w.enter call).pm.states).2 p.name =
        (ProviderState.check w.pm.config (host.now (w.ticks+1)))^[k+1]
          (w.pm.states p.name) := hk
    rw [hk']
    exact ProviderState.iterate_check_tokens_iff hr hb hst k

def oneBurstConfig : ChainConfig :=
  { defaultChainConfig .balanceFetchers with
    rateLimit := { enabled := true, maxRequests := 1, window := Duration.minute, burstSize := 1 } }

/-- A call that succeeds at once, on the pinned provider where there is one. -/
def succeedingCall (pinned : Option String) : Call String ℕ where
  providerName := pinned
  op _ _ := .ok 7

/-- The first call is served by "a" and leaves the token of "b" alone. -/
theorem burstTokens_unspent_fresh :
    (((World.start (.pair oneBurstConfig)).runOp (.frozen 0) (succeedingCall none)).2.pm.states
      "b").burstTokens =
      ((ProviderManager.pair oneBurstConfig).states "b").refilledTokens oneBurstConfig 0 := by
  refine (burstTokens_unspent_iff (.start (.pair oneBurstConfig)) (.frozen 0)
    (succeedingCall none) rfl (by decide) ⟨"b",2,"b"⟩ (List.mem_of_getLast? rfl) _
    (List.nil_append _).symm ?_).mpr ?_
  · have hnames : (((World.start (.pair oneBurstConfig)).runOp (.frozen 0)
        (succeedingCall none)).2.log.map (fun d => d.provider.name)) = ["a"] := rfl
    intro d hd
    have := List.mem_map_of_mem (f := fun d => d.provider.name) hd
    rw [hnames,List.mem_singleton] at this
    rw [this]
    decide
  · rintro ⟨-,rls,hrls,hfull,-⟩
    cases hrls
    exact absurd hfull (by decide)

/-- After a call on "b" its window is full, and the next call takes its token although it is
served by "a". -/
theorem burstToken_lost :
    let w := (World.start (.pair oneBurstConfig)).runCalls (.frozen 0) [succeedingCall (some "b")]
    let w' := (w.runOp (.frozen 0) (succeedingCall none)).2
    w'.log.map (fun d => d.provider.name) = w.log.map (fun d => d.provider.name) ++ ["a"] ∧
      (w.pm.states "b").refilledTokens w.pm.config 0 = some 1 ∧
      (w'.pm.states "b").burstTokens = some 0 := ⟨rfl,rfl,rfl⟩

end ChainKit
