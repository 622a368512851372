import ChainKit.Lib.SlidingWindow
import ChainKit.RunOp.Rules

/-! The sliding window of the rate limiter, over whole runs. A request is admitted when the
call checks its providers and noted when it has succeeded, so the window counts the requests
that succeed. -/
namespace ChainKit
open Lib
variable {ι ε δ : Type}

namespace RateLimitState
variable {config : RateLimitConfig} {rls : RateLimitState} {now : ℤ}

theorem canMakeRequest_no_burst (he : config.enabled = true) (hb : config.burstSize = 0) :
    rls.canMakeRequest config now =
      (.ok (decide (((rls.clean config now).requestTimes.length : ℤ) < config.maxRequests)),
        rls.clean config now) := by
  simp only [canMakeRequest,he,hb,Bool.not_true,lt_irrefl,if_false,Bool.false_eq_true]
  split_ifs with h <;> simp [h]

end RateLimitState

namespace ProviderState
variable {config : ChainConfig} {now : ℤ} {st : ProviderState} {rls : RateLimitState}

/-- What a check may do to the noted requests: it drops some that have left the window. -/
structure Trimmed (config : RateLimitConfig) (now : ℤ) (rls rls' : RateLimitState) : Prop where
  length_le : rls'.requestTimes.length ≤ rls.requestTimes.length
  countFrom_eq : ∀ x, now-config.window < x →
    countFrom x rls'.requestTimes = countFrom x rls.requestTimes

theorem Trimmed.refl (config : RateLimitConfig) (now : ℤ) (rls : RateLimitState) :
    Trimmed config now rls rls := ⟨le_rfl,fun _ _ => rfl⟩

theorem Trimmed.trans {config : RateLimitConfig} {rls' rls'' : RateLimitState}
    (h : Trimmed config now rls rls') (h' : Trimmed config now rls' rls'') :
    Trimmed config now rls rls'' := by
  refine ⟨le_trans h'.length_le h.length_le,fun x hx => ?_⟩
  rw [h'.countFrom_eq x hx,h.countFrom_eq x hx]

theorem trimmed_clean (config : RateLimitConfig) (now : ℤ) (rls : RateLimitState) :
    Trimmed config now rls (rls.clean config now) :=
  ⟨List.length_filter_le _ _,fun _ hx => countFrom_filter hx _⟩

theorem check_trimmed (hr : config.rateLimit.enabled = true) (hb : config.rateLimit.burstSize = 0)
    (h : st.rateLimit = some rls) (now : ℤ) :
    ∃ rls', (st.check config now).rateLimit = some rls' ∧
      Trimmed config.rateLimit now rls rls' := by
  refine ⟨_,(isProviderAvailable_rateLimit hr h now).2,?_⟩
  rw [RateLimitState.canMakeRequest_no_burst hr hb]
  split_ifs
  · exact trimmed_clean _ _ _
  · exact Trimmed.refl _ _ _

theorem iterate_check_trimmed (hr : config.rateLimit.enabled = true)
    (hb : config.rateLimit.burstSize = 0) (h : st.rateLimit = some rls) (now : ℤ) (k : ℕ) :
    ∃ rls', ((check config now)^[k] st).rateLimit = some rls' ∧
      Trimmed config.rateLimit now rls rls' := by
  induction k with
  | zero => exact ⟨rls,h,Trimmed.refl _ _ _⟩
  | succ k ih =>
    obtain ⟨rls',h',ht⟩ := ih
    obtain ⟨rls'',h'',ht'⟩ := check_trimmed hr hb h' now
    rw [Function.iterate_succ_apply']
    exact ⟨rls'',h'',ht.trans ht'⟩

theorem iterate_check_of_no_limit (h : st.rateLimit = none) (now : ℤ) (k : ℕ) :
    ((check config now)^[k] st).rateLimit = none := by
  induction k with
  | zero => exact h
  | succ k ih =>
    rw [Function.iterate_succ_apply']
    simp only [check,isProviderAvailable]
    split_ifs
    · simp [checkRateLimit,ih]
    · simp [ih]

theorem room_of_available (hr : config.rateLimit.enabled = true)
    (hb : config.rateLimit.burstSize = 0) (h : st.rateLimit = some rls)
    (ha : (st.isProviderAvailable config now).1 = .ok true) :
    ∃ rls', (st.check config now).rateLimit = some rls' ∧
      (rls'.requestTimes.length : ℤ) < config.rateLimit.maxRequests := by
  obtain ⟨hfst,hsnd⟩ := isProviderAvailable_rateLimit hr h now
  rw [RateLimitState.canMakeRequest_no_burst hr hb] at hfst hsnd
  rw [ha] at hfst
  split_ifs at hfst hsnd with hg
  · refine ⟨_,hsnd,?_⟩
    simpa using hfst.symm
  · simp at hfst

end ProviderState

/-- The starts of the successful invocations under a name. -/
def World.served (w : World ι ε δ) (name : String) : List ℤ :=
  (w.log.filter (fun d => decide (d.provider.name = name) && d.err.isNone)).map
    Dispatch.startedAt

/-- The noted requests of a provider cover its successful invocations in the window before
`now`, and no window holds more than `m` of these. -/
structure World.Metered (name : String) (m : ℕ) (now : ℤ) (w : World ι ε δ) : Prop where
  covers : ∀ rls, (w.pm.states name).rateLimit = some rls →
    Covers now w.pm.config.rateLimit.window (w.served name) rls.requestTimes
  bound : ∀ a, countIn a w.pm.config.rateLimit.window (w.served name) ≤ m

namespace World
variable [ScoringEngine ε] {w : World ι ε δ} {host : Host} {call : Call ι δ}
  {p : ProviderConfig ι} {name : String} {m : ℕ} {now : ℤ}

theorem served_attemptOnce_error {err : GoError} (hop : call.op w.invoked p.provider = .error err) :
    (w.attemptOnce host call p).2.served name = w.served name := by
  simp [served,invocation,Dispatch.err,hop]

theorem served_attemptOnce_of_ne (hn : name ≠ p.name) :
    (w.attemptOnce host call p).2.served name = w.served name := by
  have hn' : ¬p.name = name := fun h => hn h.symm
  simp [served,invocation,hn']

theorem served_attemptOnce_ok {data : δ} (hop : call.op w.invoked p.provider = .ok data) :
    (w.attemptOnce host call p).2.served p.name = w.served p.name ++ [w.now host] := by
  simp [served,invocation,Dispatch.err,hop]

theorem Metered.attemptOnce_error (h : w.Metered name m now) (host : Host) {err : GoError}
    (hop : call.op w.invoked p.provider = .error err) :
    (w.attemptOnce host call p).2.Metered name m now ∧
      ((w.attemptOnce host call p).2.pm.states name).rateLimit =
        (w.pm.states name).rateLimit := by
  have hrate : ((w.attemptOnce host call p).2.pm.states name).rateLimit =
      (w.pm.states name).rateLimit := by
    by_cases hn : name = p.name
    · subst hn
      rw [w.attemptOnce_states_error host call p hop]
      split_ifs <;> simp
    · rw [w.attemptOnce_states_of_ne host call p hn]
  refine ⟨⟨?_,?_⟩,hrate⟩
  · intro rls hrls
    rw [hrate] at hrls
    rw [attemptOnce_config,served_attemptOnce_error hop]
    exact h.covers rls hrls
  · intro a
    rw [attemptOnce_config,served_attemptOnce_error hop]
    exact h.bound a

theorem Metered.attemptOnce_ok (h : w.Metered name m now) (hnow : now ≤ w.now host)
    (hr : w.pm.config.rateLimit.enabled = true) {data : δ}
    (hop : call.op w.invoked p.provider = .ok data)
    (hroom : p.name = name → ∃ rls, (w.pm.states name).rateLimit = some rls ∧
      rls.requestTimes.length < m) :
    (w.attemptOnce host call p).2.Metered name m now := by
  by_cases hn : name = p.name
  · subst hn
    obtain ⟨rls,hrls,hlen⟩ := hroom rfl
    have hcov := h.covers rls hrls
    refine ⟨?_,?_⟩
    · intro rls' hrls'
      rw [w.attemptOnce_states_ok host call p hop] at hrls'
      simp only [ProviderState.recordSuccess,hr,if_true,hrls,Option.map_some,Option.some.injEq,
        RateLimitState.recordRequest,Bool.not_true,Bool.false_eq_true,if_false] at hrls'
      rw [attemptOnce_config,served_attemptOnce_ok hop,← hrls']
      apply hcov.concat
      exact host.now_mono (by omega)
    · intro a
      rw [attemptOnce_config,served_attemptOnce_ok hop]
      exact hcov.countIn_concat_le hlen hnow h.bound a
  · refine ⟨?_,?_⟩
    · intro rls hrls
      rw [w.attemptOnce_states_of_ne host call p hn] at hrls
      rw [attemptOnce_config,served_attemptOnce_of_ne hn]
      exact h.covers rls hrls
    · intro a
      rw [attemptOnce_config,served_attemptOnce_of_ne hn]
      exact h.bound a

/-- During a call whose checks were made at `now`. -/
structure Admitted (config : ChainConfig) (host : Host) (name : String) (m : ℕ) (now : ℤ)
    (l : List (ProviderConfig ι)) (w : World ι ε δ) : Prop where
  configured : w.pm.config = config
  elapsed : now ≤ w.now host
  metered : w.Metered name m now
  room : ∀ p ∈ l, p.name = name → ∃ rls, (w.pm.states name).rateLimit = some rls ∧
    rls.requestTimes.length < m

theorem admitted_rule {config : ChainConfig} (hr : config.rateLimit.enabled = true)
    (host : Host) (call : Call ι δ) (name : String) (m : ℕ) (now : ℤ) :
    CallRule (ε := ε) host call (fun l w => w.Admitted config host name m now l)
      (fun w => w.Admitted config host name m now []) where
  wait _ _ h := ⟨h.configured,h.elapsed,⟨h.metered.covers,h.metered.bound⟩,h.room⟩
  mark _ _ _ h := ⟨h.configured,h.elapsed,⟨h.metered.covers,h.metered.bound⟩,h.room⟩
  skip p l w h := ⟨h.configured,h.elapsed,h.metered,
    fun q hq => h.room q (List.mem_cons_of_mem p hq)⟩
  succeed p l w data h hop := by
    refine ⟨by rw [attemptOnce_config,h.configured],?_,?_,by simp⟩
    · exact le_trans h.elapsed
        (host.now_mono (Nat.le_of_add_right_le (w.attemptOnce_ticks host call p)))
    · apply h.metered.attemptOnce_ok h.elapsed _ hop
      · exact h.room p List.mem_cons_self
      · rw [h.configured]
        exact hr
  fail p l w err h hop := by
    obtain ⟨hmet,hrate⟩ := h.metered.attemptOnce_error host hop
    refine ⟨by rw [attemptOnce_config,h.configured],?_,hmet,?_⟩
    · exact le_trans h.elapsed
        (host.now_mono (Nat.le_of_add_right_le (w.attemptOnce_ticks host call p)))
    · intro q hq hname
      rw [hrate]
      exact h.room q (List.mem_cons_of_mem p hq) hname

theorem Metered.candidates (h : w.Metered name m (w.now host))
    (hr : w.pm.config.rateLimit.enabled = true) (hb : w.pm.config.rateLimit.burstSize = 0)
    (call : Call ι δ) :
    ((w.enter call).candidates host call).2.Metered name m (host.now (w.ticks+1)) := by
  obtain ⟨k,hk⟩ := w.enter_candidates_states host call name
  have hserved : ((w.enter call).candidates host call).2.served name = w.served name := by
    rw [served,served,enter_candidates_log]
  refine ⟨?_,?_⟩
  · intro rls' hrls'
    rw [hk] at hrls'
    rw [hserved,enter_candidates_config]
    cases hst : (w.pm.states name).rateLimit with
    | none =>
      rw [ProviderState.iterate_check_of_no_limit hst] at hrls'
      cases hrls'
    | some rls =>
      obtain ⟨rls₁,hrls₁,htrim⟩ := ProviderState.iterate_check_trimmed hr hb hst
        (host.now (w.ticks+1)) k
      rw [hrls₁,Option.some.injEq] at hrls'
      subst hrls'
      intro x hx
      rw [htrim.countFrom_eq x hx]
      exact (h.covers rls hst).mono (host.now_mono (Nat.le_succ _)) x hx
  · rw [hserved,enter_candidates_config]
    exact h.bound

theorem Metered.runOp (h : w.Metered name m (w.now host))
    (hr : w.pm.config.rateLimit.enabled = true) (hb : w.pm.config.rateLimit.burstSize = 0)
    (hm : w.pm.config.rateLimit.maxRequests = m) (call : Call ι δ) :
    (w.runOp host call).2.Metered name m ((w.runOp host call).2.now host) := by
  set now := host.now (w.ticks+1) with hnow
  have hcand := h.candidates hr hb call
  have hconfig := w.enter_candidates_config host call
  have hticks : now ≤ ((w.enter call).candidates host call).2.now host := by
    rw [World.now,enter_candidates_ticks]
    exact host.now_mono (Nat.le_succ _)
  suffices hfinal : (w.runOp host call).2.Admitted w.pm.config host name m now [] by
    refine ⟨?_,hfinal.metered.bound⟩
    intro rls hrls
    exact (hfinal.metered.covers rls hrls).mono hfinal.elapsed
  apply (admitted_rule hr host call name m now).runOp
    (R := fun w₀ => w₀.Admitted w.pm.config host name m now [])
  · intro ps hc
    refine ⟨hconfig,hticks,hcand,?_⟩
    intro p hp hname
    subst hname
    obtain ⟨hmem,i,k,hpass,hst⟩ := w.enter_candidates_mem host call p hc (mem_schedule hp)
    obtain ⟨rls,hrls⟩ := Option.isSome_iff_exists.mp (w.pm.tracked p hmem).2.2.2
    obtain ⟨rls₁,hrls₁,-⟩ := ProviderState.iterate_check_trimmed hr hb hrls now i
    obtain ⟨rls₂,hrls₂,hlen⟩ := ProviderState.room_of_available hr hb hrls₁ hpass
    rw [← Function.iterate_succ_apply' (ProviderState.check w.pm.config now)] at hrls₂
    obtain ⟨rls₃,hrls₃,htrim⟩ := ProviderState.iterate_check_trimmed hr hb hrls₂ now k
    refine ⟨rls₃,?_,?_⟩
    · rw [hst]
      exact hrls₃
    · have := htrim.length_le
      omega
  · exact ⟨hconfig,hticks,hcand,by simp⟩
  · exact fun _ h => h
  · exact fun _ _ h => ⟨h.configured,h.elapsed,⟨h.metered.covers,h.metered.bound⟩,h.room⟩
  · exact fun w₀ h => ⟨h.configured,le_trans h.elapsed (host.now_mono (Nat.le_succ _)),
      ⟨h.metered.covers,h.metered.bound⟩,h.room⟩

end World

/-- In every run, no window holds more than `MaxRequests` successful invocations of a
provider. -/
theorem World.countIn_served_le [ScoringEngine ε] (pm : ProviderManager ι ε) {m : ℕ}
    (hr : pm.config.rateLimit.enabled = true) (hb : pm.config.rateLimit.burstSize = 0)
    (hm : pm.config.rateLimit.maxRequests = m) (host : Host) (calls : List (Call ι δ))
    (name : String) (a : ℤ) :
    countIn a pm.config.rateLimit.window
      (((World.start pm).runCalls host calls).served name) ≤ m := by
  have hrun : ((World.start pm).runCalls host calls).Metered name m
      (((World.start pm).runCalls host calls).now host) := by
    apply World.runCalls_invariant (I := fun w => w.Metered name m (w.now host))
    · refine ⟨fun rls _ x _ => ?_,fun a => ?_⟩
      · simp [World.start,World.served,countFrom]
      · simp [World.start,World.served,countIn]
    · intro before call after _ h
      apply h.runOp <;> rw [World.runCalls_config]
      · exact hr
      · exact hb
      · exact hm
  have := hrun.bound a
  rwa [World.runCalls_config] at this

/-- The number of invocations under a name that start in the window of width `width` at `a`. -/
def World.dispatchedIn (w : World ι ε δ) (name : String) (a width : ℤ) : ℕ :=
  w.log.countP (fun d => decide (d.provider.name = name) && decide (a ≤ d.startedAt) &&
    decide (d.startedAt < a+width))

/-- Where all invocations of a provider in a window succeed, there are no more than
`MaxRequests` of them. -/
theorem window_dispatches_le [ScoringEngine ε] (pm : ProviderManager ι ε) (m : ℕ)
    (hr : pm.config.rateLimit.enabled = true) (hmax : pm.config.rateLimit.maxRequests = m)
    (hb : pm.config.rateLimit.burstSize = 0)
    (host : Host) (calls : List (Call ι δ)) (name : String) (a : ℤ)
    (hok : ∀ d ∈ ((World.start pm).runCalls host calls).log, d.provider.name = name →
      a ≤ d.startedAt → d.startedAt < a+pm.config.rateLimit.window → d.err = none) :
    ((World.start pm).runCalls host calls).dispatchedIn name a pm.config.rateLimit.window ≤ m := by
  have hserved := World.countIn_served_le pm hr hb hmax host calls name a
  refine le_trans (le_of_eq ?_) hserved
  rw [World.dispatchedIn,World.served,countIn,List.countP_map,List.countP_filter]
  apply List.countP_congr
  intro d hd
  simp only [Function.comp_apply,Bool.and_eq_true,decide_eq_true_eq,Option.isNone_iff_eq_none]
  constructor
  · rintro ⟨⟨hn,ha⟩,hlt⟩
    exact ⟨⟨ha,hlt⟩,hn,hok d hd hn ha hlt⟩
  · rintro ⟨⟨ha,hlt⟩,hn,-⟩
    exact ⟨⟨hn,ha⟩,hlt⟩

def onePerMinuteConfig : ChainConfig :=
  { defaultChainConfig .balanceFetchers with
    rateLimit := { enabled := true, maxRequests := 1, window := Duration.minute, burstSize := 0 } }

/-- Two calls that succeed, the second of which finds no available provider. -/
theorem window_dispatches_one :
    ((World.start (.single onePerMinuteConfig "a")).runCalls (.frozen 0)
      (List.replicate 2 ({ op := fun _ _ => .ok 7 } : Call Unit ℕ))).dispatchedIn "a" 0
        Duration.minute ≤ 1 := by
  apply window_dispatches_le (.single onePerMinuteConfig "a") 1 rfl rfl rfl
  have hlog : ((World.start (.single onePerMinuteConfig "a")).runCalls (.frozen 0)
      (List.replicate 2 ({ op := fun _ _ => .ok 7 } : Call Unit ℕ))).log.map Dispatch.err =
        [none] := rfl
  intro d hd _ _ _
  have := List.mem_map_of_mem (f := Dispatch.err) hd
  rw [hlog] at this
  simpa using this

/-- One call that fails makes three invocations within the minute. -/
theorem window_overrun :
    ((World.start (.single onePerMinuteConfig "a")).runCalls (.frozen 0)
      [({ op := fun _ _ => .error (.plain "failed") } : Call Unit ℕ)]).dispatchedIn "a" 0
        Duration.minute = 3 := rfl

end ChainKit
