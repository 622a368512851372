import ChainKit.Circuit.Breaker
import ChainKit.RunOp.Rules

/-! Which circuits the operation is invoked through. A call checks its providers once, at its
start, and a circuit can open between the attempts of the call. -/
namespace ChainKit
variable {ι ε δ : Type}

namespace Breaker
variable {config : CircuitBreakerConfig} {now : ℤ} {b : Breaker}

theorem coolingDown_resumed (cs : CircuitState) :
    coolingDown config now ⟨b.resumed,cs⟩ = false := by
  simp only [coolingDown,resumed,FailureInfo.resume]
  split_ifs with h <;> simp [h]

theorem check_again (h : (b.check config now).1 = false) :
    ((b.checked config now).check config now).1 = false := by
  rw [checked]
  cases hc : b.coolingDown config now with
  | true =>
    rw [check_of_coolingDown hc] at h ⊢
    rw [check_of_coolingDown hc]
  | false =>
    cases hs : b.circuit.state with
    | closed => simp [check_of_closed hc hs] at h
    | halfOpen =>
      rw [check_of_halfOpen hc hs] at h ⊢
      rwa [check_of_halfOpen (coolingDown_resumed _) hs]
    | opened =>
      rcases lt_or_ge (now-b.circuit.lastStateChange) (b.openTimeout config) with ht | ht
      · rw [check_of_waiting hc hs ht]
        rw [check_of_waiting (coolingDown_resumed _) hs]
        simpa [openTimeout] using ht
      · simp [check_of_elapsed hc hs ht] at h

theorem check_of_iterate {i : ℕ} (h : (((checked config now)^[i] b).check config now).1 = true) :
    (b.check config now).1 = true := by
  induction i generalizing b with
  | zero => exact h
  | succ i ih =>
    rw [Function.iterate_succ_apply] at h
    by_contra hb
    have := check_again (Bool.eq_false_iff.mpr hb)
    rw [ih h] at this
    cases this

/-- The circuit is passed by a call that makes `n` invocations on its provider: with several
of them, not even `n` failures in a row may open it before the last. -/
def Fits (config : CircuitBreakerConfig) (n : ℕ) (b : Breaker) : Prop :=
  n ≤ 1 ∨ (((b.circuit.consecutiveFailures+n : ℕ) : ℤ) ≤ config.failureThreshold ∧
    b.failure.consecutiveAuthFailures+n ≤ authFailureCircuitThreshold)

theorem Fits.mono {m n : ℕ} (h : b.Fits config n) (hm : m ≤ n) : b.Fits config m := by
  rcases h with h | ⟨h,h'⟩
  · exact Or.inl (by omega)
  · refine Or.inr ⟨?_,by omega⟩
    push_cast at h ⊢
    omega

theorem Fits.fail {n : ℕ} (h : b.Fits config (n+1)) (hn : 0 < n) (now : ℤ) :
    (b.fail config now).Fits config n ∧
      (b.fail config now).circuit.state = b.circuit.state := by
  rcases h with h | ⟨h,h'⟩
  · omega
  · have hlt : ¬config.failureThreshold ≤ ((b.circuit.consecutiveFailures+1 : ℕ) : ℤ) := by
      push_cast at h ⊢
      omega
    refine ⟨Or.inr ⟨?_,?_⟩,?_⟩
    · rw [fail_consecutiveFailures]
      push_cast at h ⊢
      omega
    · simp only [Breaker.fail,FailureInfo.recordFailure]
      omega
    · rw [fail_state,if_neg hlt]

theorem Fits.authFail {n : ℕ} (h : b.Fits config (n+1)) (hn : 0 < n) (now : ℤ) :
    ((b.fail config now).authFail now).Fits config n ∧
      ((b.fail config now).authFail now).circuit.state = b.circuit.state := by
  obtain ⟨-,hstate⟩ := h.fail hn now
  rcases h with h | ⟨h,h'⟩
  · omega
  · have hlt : (b.fail config now).failure.consecutiveAuthFailures+1 <
        authFailureCircuitThreshold := by
      simp only [Breaker.fail,FailureInfo.recordFailure]
      omega
    refine ⟨Or.inr ⟨?_,?_⟩,?_⟩
    · rw [authFail_consecutiveFailures,fail_consecutiveFailures]
      push_cast at h ⊢
      omega
    · simp only [Breaker.authFail,Breaker.fail,FailureInfo.recordFailure]
      omega
    · simp only [Breaker.authFail,if_pos hlt]
      exact hstate

end Breaker

/-- The invocation was made while the provider's circuit was open. -/
def Dispatch.throughOpen (d : Dispatch ι δ) : Bool :=
  match d.state.circuit with
  | some cs => decide (cs.state = .opened)
  | none => false

/-- Before a call: each provider whose circuit lets it through can stand all the invocations
that the call may make under its name. -/
def World.RetriesFit (w : World ι ε δ) (host : Host) : Prop :=
  ∀ p ∈ w.pm.providers, ∀ b, (w.pm.states p.name).Carries b →
    (b.check w.pm.config.circuitBreaker (host.now (w.ticks+1))).1 = true →
    b.Fits w.pm.config.circuitBreaker
      (w.pm.config.retryPolicy.attempts*w.pm.providers.countP (fun q => q.name = p.name))

theorem World.retriesFit_of_attempts_eq_one {w : World ι ε δ}
    (hA : w.pm.config.retryPolicy.attempts = 1)
    (hnames : (w.pm.providers.map ProviderConfig.name).Nodup) (host : Host) :
    w.RetriesFit host := by
  intro p hp b _ _
  left
  rw [hA,one_mul]
  have hcount := List.nodup_iff_count_le_one.mp hnames p.name
  rwa [List.count_eq_countP,List.countP_map] at hcount

/-- During a call: no invocation so far went through an open circuit, and the circuits can
stand the invocations to come. -/
structure World.Standing (config : ChainConfig) (l : List (ProviderConfig ι))
    (w : World ι ε δ) : Prop where
  configured : w.pm.config = config
  log : ∀ d ∈ w.log, d.throughOpen = false
  fits : ∀ name, 0 < l.countP (fun p => p.name = name) →
    ∃ b, (w.pm.states name).Carries b ∧ b.circuit.state ≠ .opened ∧
      b.Fits config.circuitBreaker (l.countP (fun p => p.name = name))

variable [ScoringEngine ε]

theorem World.Standing.invocation {config : ChainConfig} {l : List (ProviderConfig ι)}
    {w : World ι ε δ} {p : ProviderConfig ι} (h : w.Standing config (p :: l)) (host : Host)
    (call : Call ι δ) :
    ∀ d ∈ (w.attemptOnce host call p).2.log, d.throughOpen = false := by
  intro d hd
  rw [World.attemptOnce_log,List.mem_append,List.mem_singleton] at hd
  rcases hd with hd | rfl
  · exact h.log d hd
  · obtain ⟨b,hb,ho,-⟩ := h.fits p.name (by simp)
    simp only [Dispatch.throughOpen,World.invocation,hb.2]
    exact decide_eq_false ho

theorem World.standing_rule {config : ChainConfig}
    (he : config.circuitBreaker.enabled = true) (host : Host) (call : Call ι δ) :
    CallRule (ε := ε) host call (fun l w => w.Standing config l)
      (fun w => ∀ d ∈ w.log, d.throughOpen = false) where
  wait l w h := ⟨h.configured,h.log,h.fits⟩
  mark name l w h := ⟨h.configured,h.log,h.fits⟩
  skip p l w h := by
    refine ⟨h.configured,h.log,fun name hn => ?_⟩
    have hle : l.countP (fun q => q.name = name) ≤ (p :: l).countP (fun q => q.name = name) :=
      (List.sublist_cons_self p l).countP_le
    obtain ⟨b,hb,ho,hfits⟩ := h.fits name (by omega)
    exact ⟨b,hb,ho,hfits.mono hle⟩
  succeed p l w data h _ := h.invocation host call
  fail p l w err h hop := by
    refine ⟨by rw [w.attemptOnce_config,h.configured],h.invocation host call,fun name hn => ?_⟩
    by_cases hname : name = p.name
    · subst hname
      have hcount : (p :: l).countP (fun q => q.name = p.name) =
          l.countP (fun q => q.name = p.name)+1 := by simp
      obtain ⟨b,hb,ho,hfits⟩ := h.fits p.name (by omega)
      rw [hcount] at hfits
      rw [w.attemptOnce_states_error host call p hop,h.configured]
      have hcarry := hb.updateFailureState he (host.now (w.ticks+2))
      split_ifs
      · obtain ⟨hfit,hstate⟩ := hfits.authFail hn (host.now (w.ticks+2))
        exact ⟨_,hcarry.handleAuthFailure he _,hstate ▸ ho,hfit⟩
      · obtain ⟨hfit,hstate⟩ := hfits.fail hn (host.now (w.ticks+2))
        exact ⟨_,hcarry,hstate ▸ ho,hfit⟩
    · have hne : ¬p.name = name := fun h => hname h.symm
      rw [w.attemptOnce_states_of_ne host call p hname]
      have hcount : (p :: l).countP (fun q => q.name = name) =
          l.countP (fun q => q.name = name) := by simp [hne]
      have := h.fits name (by omega)
      rwa [hcount] at this

/-- A provider on the list of a call had a circuit that let it through, and its circuit is not
open when the loops start. -/
theorem World.candidates_carries {w : World ι ε δ} {host : Host} {call : Call ι δ}
    (he : w.pm.config.circuitBreaker.enabled = true) {ps : List (ProviderConfig ι)}
    (hc : ((w.enter call).candidates host call).1 = .ok (.ok ps)) {p : ProviderConfig ι}
    (hp : p ∈ ps) :
    ∃ b b', p ∈ w.pm.providers ∧ (w.pm.states p.name).Carries b ∧
      (b.check w.pm.config.circuitBreaker (host.now (w.ticks+1))).1 = true ∧
      (((w.enter call).candidates host call).2.pm.states p.name).Carries b' ∧
      b'.circuit.state ≠ .opened ∧
      b'.circuit.consecutiveFailures = b.circuit.consecutiveFailures ∧
      b'.failure.consecutiveAuthFailures = b.failure.consecutiveAuthFailures := by
  obtain ⟨hmem,i,k,hpass,hfinal⟩ := w.enter_candidates_mem host call p hc hp
  obtain ⟨b,hb⟩ := (w.pm.tracked p hmem).carries
  set now := host.now (w.ticks+1) with hnow
  set step := Breaker.checked w.pm.config.circuitBreaker now with hstep
  have hi : ((step^[i] b).check w.pm.config.circuitBreaker now).1 = true :=
    (hb.iterate_check he now i).of_available he hpass
  refine ⟨b,step^[k] (step^[i+1] b),hmem,hb,Breaker.check_of_iterate hi,?_,?_,?_,?_⟩
  · rw [hfinal]
    exact (hb.iterate_check he now (i+1)).iterate_check he now k
  · apply (Breaker.iterate_checked k).2.2
    rw [Function.iterate_succ_apply']
    exact Breaker.check_not_opened hi
  · rw [(Breaker.iterate_checked k).1,(Breaker.iterate_checked (i+1)).1]
  · rw [(Breaker.iterate_checked k).2.1,(Breaker.iterate_checked (i+1)).2.1]

/-- A call whose retries fit invokes nothing through an open circuit. -/
theorem World.runOp_not_throughOpen {w : World ι ε δ} {host : Host}
    (he : w.pm.config.circuitBreaker.enabled = true) (hfit : w.RetriesFit host)
    (hlog : ∀ d ∈ w.log, d.throughOpen = false) (call : Call ι δ) :
    ∀ d ∈ (w.runOp host call).2.log, d.throughOpen = false := by
  apply (World.standing_rule he host call).runOp (R := fun w => ∀ d ∈ w.log, d.throughOpen = false)
  · intro ps hc
    refine ⟨w.enter_candidates_config host call,?_,fun name hn => ?_⟩
    · rwa [enter_candidates_log]
    · rw [schedule_countP] at hn ⊢
      obtain ⟨p,hp,hname⟩ := List.countP_pos_iff.mp (Nat.pos_of_mul_pos_left hn)
      simp only [decide_eq_true_eq] at hname
      subst hname
      obtain ⟨b,b',hmem,hb,hpass,hb',ho,hcf,haf⟩ := candidates_carries he hc hp
      refine ⟨b',hb',ho,?_⟩
      have hle : ps.countP (fun q => q.name = p.name) ≤
          w.pm.providers.countP (fun q => q.name = p.name) :=
        ((w.enter call).candidates_providers host call hc).2.1.countP_le _
      have := (hfit p hmem b hb hpass).mono (Nat.mul_le_mul_left _ hle)
      unfold Breaker.Fits at this ⊢
      rwa [hcf,haf]
  · rwa [enter_candidates_log]
  · intro w₀ h
    exact h.log
  · intro w₀ p h
    exact h
  · intro w₀ h
    exact h

/-- In every run of calls whose retries fit before each call, no invocation is made through an
open circuit. -/
theorem runCalls_not_throughOpen (pm : ProviderManager ι ε)
    (he : pm.config.circuitBreaker.enabled = true) (host : Host) (calls : List (Call ι δ))
    (hfit : ∀ before call after, calls = before ++ call :: after →
      ((World.start pm).runCalls host before).RetriesFit host) :
    ∀ d ∈ ((World.start pm).runCalls host calls).log, d.throughOpen = false := by
  apply World.runCalls_invariant (I := fun w => ∀ d ∈ w.log, d.throughOpen = false)
  · simp [World.start]
  · intro before call after hsplit hlog
    apply World.runOp_not_throughOpen _ (hfit before call after hsplit) hlog
    rw [World.runCalls_config]
    exact he

theorem noRetry_not_throughOpen :
    ((World.start (.single noRetryConfig "a")).runCalls (.frozen 0)
      (List.replicate 6 failingCall)).log.length = 5 ∧
    ∀ d ∈ ((World.start (.single noRetryConfig "a")).runCalls (.frozen 0)
      (List.replicate 6 failingCall)).log, d.throughOpen = false := by
  refine ⟨by decide,?_⟩
  apply runCalls_not_throughOpen (ProviderManager.single noRetryConfig "a") rfl (.frozen 0)
    (List.replicate 6 failingCall)
  intro before call after _
  apply World.retriesFit_of_attempts_eq_one
  · rw [World.runCalls_config]
    rfl
  · rw [World.runCalls_providers]
    decide

/-- With the defaults the fifth failure in a row opens the circuit, and the second call still
makes its third attempt. -/
theorem default_throughOpen :
    ∃ d ∈ ((World.start (.single (defaultChainConfig .balanceFetchers) "a")).runCalls (.frozen 0)
      [failingCall,failingCall]).log, d.throughOpen = true := by
  refine ⟨_,List.mem_of_getLast? rfl,rfl⟩

end ChainKit
