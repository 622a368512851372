import ChainKit.Interleaving.Progress
import ChainKit.Interleaving.System

/-! A call while `UpdateChainConfig` replaces the configuration. The call reads the
configuration in each of its critical sections anew, and each time only some of the fields. -/
namespace ChainKit
open Lib
variable {ι ε δ : Type}

structure Setting where
  config : ChainConfig
  semaphore : ℤ
  selector : Selector

namespace ProviderManager

def withSetting (pm : ProviderManager ι ε) (r : Setting) : ProviderManager ι ε :=
  { pm with config := r.config, semaphore := r.semaphore, selector := r.selector }

theorem updateChainConfig_withSetting (pm : ProviderManager ι ε) (r : Setting) (draw : ℕ → ℕ)
    (config : ChainConfig) :
    ∃ r', ((pm.withSetting r).updateChainConfig draw config).2 = pm.withSetting r' := by
  simp only [updateChainConfig]
  split_ifs
  · exact ⟨⟨config,r.semaphore,r.selector⟩,rfl⟩
  · exact ⟨⟨config,config.maxConcurrency,selectorFor draw config.selectionStrategy⟩,rfl⟩
  · exact ⟨⟨config,config.maxConcurrency,r.selector⟩,rfl⟩

end ProviderManager

/-- The fields that an availability check reads. -/
structure AgreesOnCheck (config config' : ChainConfig) : Prop where
  enabled : config.circuitBreaker.enabled = config'.circuitBreaker.enabled
  timeout : config.circuitBreaker.timeout = config'.circuitBreaker.timeout
  halfOpenMaxCalls :
    config.circuitBreaker.halfOpenMaxCalls = config'.circuitBreaker.halfOpenMaxCalls
  healthCheck : config.healthCheck.enabled = config'.healthCheck.enabled
  rateLimit : config.rateLimit = config'.rateLimit

namespace ProviderState
variable {config config' : ChainConfig}

theorem isProviderAvailable_congr (h : AgreesOnCheck config config') (st : ProviderState)
    (now : ℤ) : st.isProviderAvailable config now = st.isProviderAvailable config' now := by
  have hfailure : ∀ st : ProviderState,
      st.checkFailure config now = st.checkFailure config' now := by
    intro st
    simp only [checkFailure,h.timeout]
  have htimeout : ∀ st : ProviderState, st.openTimeout config = st.openTimeout config' := by
    intro st
    simp only [openTimeout,h.timeout]
  have hcircuit : ∀ st : ProviderState,
      st.checkCircuit config now = st.checkCircuit config' now := by
    intro st
    simp only [checkCircuit,h.enabled,h.halfOpenMaxCalls,htimeout]
  have hhealth : ∀ st : ProviderState, st.checkHealth config = st.checkHealth config' := by
    intro st
    simp only [checkHealth,h.healthCheck]
  have hlimit : ∀ st : ProviderState,
      st.checkRateLimit config now = st.checkRateLimit config' now := by
    intro st
    simp only [checkRateLimit,h.rateLimit]
  have hgate : st.gate config now = st.gate config' now := by
    simp only [gate,hfailure,hcircuit,hhealth]
  simp only [isProviderAvailable,hgate,hlimit]

theorem recordSuccess_congr
    (he : config.circuitBreaker.enabled = config'.circuitBreaker.enabled)
    (hs : config.circuitBreaker.successThreshold = config'.circuitBreaker.successThreshold)
    (hr : config.rateLimit.enabled = config'.rateLimit.enabled) (st : ProviderState)
    (closedAt requestAt : ℤ) :
    st.recordSuccess config closedAt requestAt = st.recordSuccess config' closedAt requestAt := by
  simp only [recordSuccess,CircuitState.recordSuccess,RateLimitState.recordRequest,he,hs,hr]

theorem updateFailureState_congr
    (he : config.circuitBreaker.enabled = config'.circuitBreaker.enabled)
    (hf : config.circuitBreaker.failureThreshold = config'.circuitBreaker.failureThreshold)
    (st : ProviderState) (now : ℤ) :
    st.updateFailureState config now = st.updateFailureState config' now := by
  simp only [updateFailureState,FailureInfo.recordFailure,CircuitState.recordFailure,he,hf]

theorem handleAuthFailure_congr
    (he : config.circuitBreaker.enabled = config'.circuitBreaker.enabled) (st : ProviderState)
    (now : ℤ) : st.handleAuthFailure config now = st.handleAuthFailure config' now := by
  simp only [handleAuthFailure,he]

end ProviderState

theorem filterAvailable_congr {config config' : ChainConfig} (h : AgreesOnCheck config config')
    (now : ℤ) (ps : List (ProviderConfig ι)) (states : String → ProviderState) :
    filterAvailable config now ps states = filterAvailable config' now ps states := by
  induction ps generalizing states with
  | nil => rfl
  | cons p ps ih =>
    simp only [filterAvailable,ProviderState.check,
      ProviderState.isProviderAvailable_congr h,ih]

namespace ProviderManager
variable (pm : ProviderManager ι ε) {r : Setting}

theorem updateState_withSetting (r : Setting) {name : String} {f g : ProviderState → ProviderState}
    (hf hg) (h : f (pm.states name) = g (pm.states name)) :
    (pm.withSetting r).updateState name f hf = (pm.updateState name g hg).withSetting r := by
  have hs : f ((pm.withSetting r).states name) = g (pm.states name) := h
  simp only [updateState,hs]
  rfl

theorem getAvailableProviders_withSetting [ScoringEngine ε] (h : AgreesOnCheck r.config pm.config)
    (hs : r.selector = pm.selector) (now : ℤ) :
    ∃ selector, (pm.withSetting r).getAvailableProviders now =
      ((pm.getAvailableProviders now).1,
        (pm.getAvailableProviders now).2.withSetting ⟨r.config,r.semaphore,selector⟩) := by
  have hf : filterAvailable (pm.withSetting r).config now (pm.withSetting r).providers
      (pm.withSetting r).states = filterAvailable pm.config now pm.providers pm.states :=
    filterAvailable_congr h now _ _
  simp only [getAvailableProviders,hf]
  cases hr : (filterAvailable pm.config now pm.providers pm.states).1 with
  | error panic => exact ⟨r.selector,rfl⟩
  | ok available =>
    simp only [withSetting,hs]
    exact ⟨_,rfl⟩

theorem recordSuccess_withSetting [ScoringEngine ε]
    (he : r.config.circuitBreaker.enabled = pm.config.circuitBreaker.enabled)
    (hs : r.config.circuitBreaker.successThreshold = pm.config.circuitBreaker.successThreshold)
    (hr : r.config.rateLimit.enabled = pm.config.rateLimit.enabled) (name : String)
    (closedAt requestAt scoredAt : ℤ) :
    (pm.withSetting r).recordSuccess name closedAt requestAt scoredAt =
      (pm.recordSuccess name closedAt requestAt scoredAt).withSetting r := by
  unfold recordSuccess
  rw [pm.updateState_withSetting r _ (fun _ => ProviderState.recordSuccess_tracked _ _ _)
    (ProviderState.recordSuccess_congr he hs hr _ closedAt requestAt)]
  rfl

theorem updateFailureState_withSetting
    (he : r.config.circuitBreaker.enabled = pm.config.circuitBreaker.enabled)
    (hf : r.config.circuitBreaker.failureThreshold = pm.config.circuitBreaker.failureThreshold)
    (name : String) (now : ℤ) :
    (pm.withSetting r).updateFailureState name now =
      (pm.updateFailureState name now).withSetting r :=
  pm.updateState_withSetting r _ _ (ProviderState.updateFailureState_congr he hf _ now)

theorem handleAuthFailure_withSetting
    (he : r.config.circuitBreaker.enabled = pm.config.circuitBreaker.enabled)
    (name : String) (now : ℤ) :
    (pm.withSetting r).handleAuthFailure name now =
      (pm.handleAuthFailure name now).withSetting r :=
  pm.updateState_withSetting r _ _ (ProviderState.handleAuthFailure_congr he _ now)

end ProviderManager

/-- The setting in force agrees with `config` and `selector` on what the next step of the call
reads. -/
def Setting.Agrees (r : Setting) (config : ChainConfig) (selector : Selector) : Pc ι δ → Prop
  | .getAvailable _ => AgreesOnCheck r.config config ∧ r.selector = selector
  | .readPolicy _ _ => r.config.retryPolicy = config.retryPolicy
  | .recordSuccess _ _ _ =>
    r.config.circuitBreaker.enabled = config.circuitBreaker.enabled ∧
      r.config.circuitBreaker.successThreshold = config.circuitBreaker.successThreshold ∧
      r.config.rateLimit.enabled = config.rateLimit.enabled
  | .updateFailure _ _ _ _ =>
    r.config.circuitBreaker.enabled = config.circuitBreaker.enabled ∧
      r.config.circuitBreaker.failureThreshold = config.circuitBreaker.failureThreshold
  | .handleAuthFailure _ _ _ => r.config.circuitBreaker.enabled = config.circuitBreaker.enabled
  | _ => True

namespace World

def withSetting (w : World ι ε δ) (r : Setting) : World ι ε δ :=
  { w with pm := w.pm.withSetting r }

def setting (w : World ι ε δ) : Setting := ⟨w.pm.config,w.pm.semaphore,w.pm.selector⟩

theorem afterFailure_withSetting (w : World ι ε δ) (r : Setting) (c : Cursor ι) (err : GoError) :
    (w.withSetting r).afterFailure c err =
      ((w.afterFailure c err).1.withSetting r,(w.afterFailure c err).2) := by
  unfold afterFailure
  split_ifs <;> rfl

variable [ScoringEngine ε] (host : Host) (call : Call ι δ)

/-- A step whose reads agree does the same under both settings. -/
theorem step_withSetting (w : World ι ε δ) (r : Setting) (pc : Pc ι δ)
    (h : r.Agrees w.pm.config w.pm.selector pc) :
    ∃ r', step host call (w.withSetting r,pc) =
      ((step host call (w,pc)).1.withSetting r',(step host call (w,pc)).2) := by
  cases pc with
  | getAvailable start =>
    obtain ⟨hcheck,hselector⟩ := h
    obtain ⟨selector,havail⟩ := w.pm.getAvailableProviders_withSetting hcheck hselector
      (w.now host)
    have hworld : (w.withSetting r).getAvailableProviders host =
        ((w.getAvailableProviders host).1,(w.getAvailableProviders host).2.withSetting
          ⟨r.config,r.semaphore,selector⟩) := by
      have hpm : (w.withSetting r).pm.getAvailableProviders ((w.withSetting r).now host) = _ :=
        havail
      simp only [getAvailableProviders,hpm]
      rfl
    refine ⟨⟨r.config,r.semaphore,selector⟩,?_⟩
    simp only [step,hworld]
    split <;> rfl
  | narrow start providers =>
    refine ⟨r,?_⟩
    have hn : (w.withSetting r).narrow host call providers = w.narrow host call providers := rfl
    simp only [step,hn]
    split <;> rfl
  | readPolicy start providers =>
    refine ⟨r,?_⟩
    have hpolicy : (w.withSetting r).pm.config.retryPolicy = w.pm.config.retryPolicy := h
    simp only [step,hpolicy]
  | attempt c =>
    refine ⟨r,?_⟩
    by_cases ha : 0 < c.attempts
    · have hwait : call.wait (w.withSetting r).waited = call.wait w.waited := rfl
      simp only [step,if_pos ha,hwait]
      split <;> rfl
    · simp only [step,if_neg ha]
      rfl
  | inFlight c began result => cases result <;> exact ⟨r,rfl⟩
  | recordSuccess c elapsed data =>
    obtain ⟨he,hs,hr⟩ := h
    refine ⟨r,?_⟩
    simp only [step,World.recordSuccess,withSetting]
    rw [ProviderManager.recordSuccess_withSetting _ he hs hr]
  | recordAttempt c data =>
    exact ⟨⟨r.config,r.semaphore,r.selector.recordAttempt c.provider.priority⟩,rfl⟩
  | updateFailure c elapsed err now =>
    obtain ⟨he,hf⟩ := h
    refine ⟨r,?_⟩
    simp only [step,withSetting]
    rw [ProviderManager.updateFailureState_withSetting _ he hf]
  | scoreFailure c elapsed err now =>
    refine ⟨r,?_⟩
    simp only [step]
    split_ifs
    · rfl
    · exact afterFailure_withSetting
        { w with pm := w.pm.scoreFailure call.metadata c.provider.name err elapsed now } r c err
  | handleAuthFailure c err now =>
    refine ⟨r,?_⟩
    have hpm : (w.withSetting r).pm.handleAuthFailure c.provider.name now = _ :=
      w.pm.handleAuthFailure_withSetting h c.provider.name now
    simp only [step,hpm]
    exact afterFailure_withSetting
      { w with pm := w.pm.handleAuthFailure c.provider.name now } r c err
  | _ => exact ⟨r,rfl⟩

end World

theorem Setting.Agrees.of_fresh {r : Setting} {config : ChainConfig} {selector selector' : Selector}
    {pc : Pc ι δ} (h : r.Agrees config selector pc) (hs : pc.fresh = true → selector' = selector) :
    r.Agrees config selector' pc := by
  cases pc with
  | getAvailable start => exact ⟨h.1,h.2.trans (hs rfl).symm⟩
  | _ => exact h

/-- What happens next: a step of the call, or an update of the chain's configuration. The
draws are those of the selector that the update may install. -/
inductive ChainEvent
  | step
  | update (draw : ℕ → ℕ) (config : ChainConfig)

def ChainEvent.configs (events : List ChainEvent) : List ChainConfig :=
  events.filterMap fun
    | .step => none
    | .update _ config => some config

namespace World

/-- `UpdateChainConfig`, as the chain's calls see it. -/
def updateChainConfig (w : World ι ε δ) (draw : ℕ → ℕ) (config : ChainConfig) : World ι ε δ :=
  { w with pm := (w.pm.updateChainConfig draw config).2 }

variable [ScoringEngine ε] (host : Host) (call : Call ι δ)

def react (s : World ι ε δ × Pc ι δ) : ChainEvent → World ι ε δ × Pc ι δ
  | .step => step host call s
  | .update draw config => (s.1.updateChainConfig draw config,s.2)

/-- A call from its start, with the updates that come in between its steps. -/
def interleave (w : World ι ε δ) (events : List ChainEvent) : World ι ε δ × Pc ι δ :=
  events.foldl (react host call) (w,.entry)

/-- At every step of the call the setting in force agrees with `config` and `selector` on what
the step reads. -/
def AgreesThroughout (config : ChainConfig) (selector : Selector) :
    World ι ε δ × Pc ι δ → List ChainEvent → Prop
  | _,[] => True
  | s,.step :: events =>
    s.1.setting.Agrees config selector s.2 ∧
      AgreesThroughout config selector (react host call s .step) events
  | s,.update draw new :: events =>
    AgreesThroughout config selector (react host call s (.update draw new)) events

/-- The call has come to an end and has done what it does with `config` throughout. -/
structure ActsUnder (w : World ι ε δ) (draw : ℕ → ℕ) (config : ChainConfig)
    (s : World ι ε δ × Pc ι δ) : Prop where
  returned : s.2 = .returned ((w.updateChainConfig draw config).runOp host call).1
  log : s.1.log = ((w.updateChainConfig draw config).runOp host call).2.log
  states : s.1.pm.states = ((w.updateChainConfig draw config).runOp host call).2.pm.states
  failedProviders :
    s.1.failedProviders = ((w.updateChainConfig draw config).runOp host call).2.failedProviders

variable {host call} {config : ChainConfig} {selector : Selector}

/-- A run in which the reads agree follows the call under the one configuration, up to the
setting. -/
theorem foldl_react_follows (v : World ι ε δ) (r : Setting) (pc : Pc ι δ)
    (hconfig : v.pm.config = config) (hfresh : pc.fresh = true → v.pm.selector = selector)
    (events : List ChainEvent)
    (h : AgreesThroughout host call config selector (v.withSetting r,pc) events) :
    ∃ s r', Reaches (step host call) (v,pc) s ∧
      events.foldl (react host call) (v.withSetting r,pc) = (s.1.withSetting r',s.2) := by
  induction events generalizing v r pc with
  | nil => exact ⟨(v,pc),r,Reaches.refl _ _,rfl⟩
  | cons event events ih =>
    cases event with
    | step =>
      obtain ⟨hnow,hrest⟩ := h
      have hagrees : r.Agrees v.pm.config v.pm.selector pc := by
        rw [hconfig]
        exact Setting.Agrees.of_fresh hnow hfresh
      obtain ⟨r',hr'⟩ := step_withSetting host call v r pc hagrees
      have hreact : react host call (v.withSetting r,pc) .step =
          ((step host call (v,pc)).1.withSetting r',(step host call (v,pc)).2) := hr'
      rw [hreact] at hrest
      have hfresh' : (step host call (v,pc)).2.fresh = true →
          (step host call (v,pc)).1.pm.selector = selector := by
        intro hf
        have hentry := eq_entry_of_step_fresh host call hf
        subst hentry
        exact hfresh rfl
      obtain ⟨s,r'',hreach,hs⟩ := ih _ r' _
        ((step_frame host call v pc).1.trans hconfig) hfresh' hrest
      refine ⟨s,r'',Reaches.head rfl hreach,?_⟩
      rw [List.foldl_cons,hreact]
      exact hs
    | update draw new =>
      obtain ⟨r',hr'⟩ := v.pm.updateChainConfig_withSetting r draw new
      have hreact : react host call (v.withSetting r,pc) (.update draw new) =
          (v.withSetting r',pc) := by
        simp only [react,updateChainConfig,withSetting,hr']
      simp only [AgreesThroughout,hreact] at h
      obtain ⟨s,r'',hreach,hs⟩ := ih v r' pc hconfig hfresh h
      refine ⟨s,r'',hreach,?_⟩
      rw [List.foldl_cons,hreact]
      exact hs

theorem actsUnder_of_agreesThroughout {w : World ι ε δ} {draw : ℕ → ℕ} {events : List ChainEvent}
    {ret : Except Panic (OpReturn δ)} (hret : (interleave host call w events).2 = .returned ret)
    (h : AgreesThroughout host call config (w.updateChainConfig draw config).pm.selector
      (w,.entry) events) :
    ActsUnder host call w draw config (interleave host call w events) := by
  set v := w.updateChainConfig draw config with hv
  have hw : v.withSetting w.setting = w := by
    obtain ⟨r,hr⟩ := w.pm.updateChainConfig_withSetting w.setting draw config
    have hpm : v.pm = w.pm.withSetting r := hr
    simp only [withSetting,hpm]
    rfl
  have hconfig : v.pm.config = config := w.pm.updateChainConfig_config draw config
  rw [← hw] at h
  obtain ⟨s,r,hreach,hs⟩ := foldl_react_follows v w.setting .entry hconfig (fun _ => rfl) events h
  rw [hw] at hs
  have hend : interleave host call w events = (s.1.withSetting r,s.2) := hs
  have hpc : s.2 = .returned ret := by
    rw [hend] at hret
    exact hret
  have hrest : step host call s = s := by
    obtain ⟨w',pc⟩ := s
    subst hpc
    rfl
  have heq := hreach.rest_unique hrest (runOp_reaches host call v) rfl
  rw [heq] at hend
  rw [hend]
  exact ⟨rfl,rfl,rfl,rfl⟩

end World

/-- Whenever one of the configurations agrees with the one in force at each read of a call, the
call acts under that configuration from its start to its end. -/
theorem updates_atomic_of_agreesThroughout [ScoringEngine ε] (host : Host) (call : Call ι δ)
    (w : World ι ε δ) (events : List ChainEvent) (ret : Except Panic (OpReturn δ))
    (hret : (w.interleave host call events).2 = .returned ret)
    (h : ∃ config ∈ w.pm.config :: ChainEvent.configs events, ∃ draw,
      World.AgreesThroughout host call config (w.updateChainConfig draw config).pm.selector
        (w,.entry) events) :
    ∃ config ∈ w.pm.config :: ChainEvent.configs events, ∃ draw,
      World.ActsUnder host call w draw config (w.interleave host call events) := by
  obtain ⟨config,hmem,draw,hagrees⟩ := h
  exact ⟨config,hmem,draw,World.actsUnder_of_agreesThroughout hret hagrees⟩

def plainWorld : World Unit Unit ℕ := .start (.single noRetryConfig "a")

/-- The configuration is replaced after `n` of the ten steps of a failing call. -/
def strictAfter (n : ℕ) : List ChainEvent :=
  List.replicate n .step ++ .update (fun _ => 0) strictConfig :: List.replicate (10-n) .step

theorem updates_atomic_last_step :
    ∃ config ∈ plainWorld.pm.config :: ChainEvent.configs (strictAfter 9), ∃ draw,
      World.ActsUnder (Host.frozen 0) failingCall plainWorld draw config
        (plainWorld.interleave (Host.frozen 0) failingCall (strictAfter 9)) := by
  apply updates_atomic_of_agreesThroughout (Host.frozen 0) failingCall plainWorld (strictAfter 9)
    _ rfl
  refine ⟨noRetryConfig,List.mem_cons_self,fun _ => 0,?_⟩
  exact ⟨trivial,⟨⟨rfl,rfl,rfl,rfl,rfl⟩,rfl⟩,trivial,rfl,trivial,trivial,trivial,⟨rfl,rfl⟩,trivial,
    trivial,trivial⟩

/-- The one attempt of the old configuration opens the circuit by the new one's threshold:
the old configuration leaves it closed, and the new one makes three attempts. -/
theorem update_applied_halfway :
    ∃ ret, (plainWorld.interleave (Host.frozen 0) failingCall (strictAfter 6)).2 = .returned ret ∧
      ∀ config ∈ plainWorld.pm.config :: ChainEvent.configs (strictAfter 6), ∀ draw,
        ¬ World.ActsUnder (Host.frozen 0) failingCall plainWorld draw config
          (plainWorld.interleave (Host.frozen 0) failingCall (strictAfter 6)) := by
  refine ⟨_,rfl,?_⟩
  intro config hmem draw h
  have hpair : config ∈ [noRetryConfig,strictConfig] := hmem
  rcases List.mem_pair.mp hpair with rfl | rfl
  · have hdraw : plainWorld.updateChainConfig draw noRetryConfig =
        plainWorld.updateChainConfig (fun _ => 0) noRetryConfig := rfl
    have hstates := h.states
    rw [hdraw] at hstates
    have hstate := congrArg (fun states => (states "a").circuit.map CircuitState.state) hstates
    exact absurd hstate (by decide)
  · have hdraw : plainWorld.updateChainConfig draw strictConfig =
        plainWorld.updateChainConfig (fun _ => 0) strictConfig := rfl
    have hlog := h.log
    rw [hdraw] at hlog
    have hlength := congrArg List.length hlog
    exact absurd hlength (by decide)

end ChainKit
