import ChainKit.Lib.Schedule
import ChainKit.RunOp

/-! What one attempt does, and proof rules for the two loops of `runOp`. An assertion of a
rule speaks of the invocations that are still to come, the schedule of the call. -/
namespace ChainKit
variable {ι ε δ : Type}

/-- The invocations of a call in which none succeeds: each provider `n` times, in order. -/
def schedule (n : ℕ) (ps : List (ProviderConfig ι)) : List (ProviderConfig ι) :=
  ps.flatMap (List.replicate n)

@[simp] theorem schedule_nil (n : ℕ) : schedule n ([] : List (ProviderConfig ι)) = [] := rfl

@[simp] theorem schedule_cons (n : ℕ) (p : ProviderConfig ι) (ps : List (ProviderConfig ι)) :
    schedule n (p :: ps) = List.replicate n p ++ schedule n ps := rfl

theorem mem_schedule {n : ℕ} {ps : List (ProviderConfig ι)} {p : ProviderConfig ι}
    (h : p ∈ schedule n ps) : p ∈ ps := by
  obtain ⟨q,hq,hp⟩ := List.mem_flatMap.mp h
  rwa [List.eq_of_mem_replicate hp]

@[simp] theorem schedule_length (n : ℕ) (ps : List (ProviderConfig ι)) :
    (schedule n ps).length = n*ps.length := by
  induction ps with
  | nil => simp
  | cons p ps ih =>
    rw [schedule_cons,List.length_append,ih,List.length_replicate,List.length_cons]
    ring

theorem schedule_countP (n : ℕ) (f : ProviderConfig ι → Bool) (ps : List (ProviderConfig ι)) :
    (schedule n ps).countP f = n*ps.countP f := by
  induction ps with
  | nil => simp
  | cons p ps ih =>
    rw [schedule_cons,List.countP_append,ih,List.countP_replicate,List.countP_cons]
    split_ifs
    · ring
    · ring

namespace World
variable {w : World ι ε δ} {host : Host} {call : Call ι δ}

theorem narrow_ne_nil {providers ps : List (ProviderConfig ι)} (hne : providers ≠ [])
    (h : w.narrow host call providers = .ok ps) : ps ≠ [] := by
  simp only [narrow] at h
  split at h
  · split at h
    · cases h
      simp
    · cases h
  · split_ifs at h
    · split at h
      · cases h
        simp
      · cases h
    · cases h
      exact hne

theorem narrow_sublist {providers ps : List (ProviderConfig ι)}
    (h : w.narrow host call providers = .ok ps) : ps.Sublist providers := by
  have hfind : ∀ {name : String} {pinned : ProviderConfig ι},
      ProviderManager.findProviderByName host.toLower providers name = some pinned →
        [pinned].Sublist providers := by
    intro name pinned hp
    exact List.singleton_sublist.mpr (List.mem_of_find?_eq_some hp)
  simp only [narrow] at h
  split at h
  · split at h
    next hp =>
      cases h
      exact hfind hp
    · cases h
  · split_ifs at h
    · split at h
      next hp =>
        cases h
        exact hfind hp
      · cases h
    · cases h
      exact List.Sublist.refl _

end World

variable [ScoringEngine ε]

namespace ProviderManager
variable (pm : ProviderManager ι ε) (now : ℤ)

@[simp] theorem getAvailableProviders_states :
    (pm.getAvailableProviders now).2.states =
      (filterAvailable pm.config now pm.providers pm.states).2 := by
  simp only [getAvailableProviders]
  split <;> rfl

@[simp] theorem getAvailableProviders_config :
    (pm.getAvailableProviders now).2.config = pm.config := by
  simp only [getAvailableProviders]
  split <;> rfl

@[simp] theorem getAvailableProviders_providers :
    (pm.getAvailableProviders now).2.providers = pm.providers := by
  simp only [getAvailableProviders]
  split <;> rfl

@[simp] theorem getAvailableProviders_selectedProvider :
    (pm.getAvailableProviders now).2.selectedProvider = pm.selectedProvider := by
  simp only [getAvailableProviders]
  split <;> rfl

theorem getAvailableProviders_perm {l : List (ProviderConfig ι)}
    (h : (pm.getAvailableProviders now).1 = .ok l) :
    ∃ available, (filterAvailable pm.config now pm.providers pm.states).1 = .ok available ∧
      l.Perm available := by
  simp only [getAvailableProviders] at h
  cases hr : (filterAvailable pm.config now pm.providers pm.states).1 with
  | error panic => simp [hr] at h
  | ok available =>
    simp only [hr,Except.ok.injEq] at h
    refine ⟨available,rfl,?_⟩
    rw [← h]
    exact Selector.selectProviders_perm _ _ _ _

end ProviderManager

namespace World
variable (w : World ι ε δ) (host : Host) (call : Call ι δ) (p : ProviderConfig ι)

theorem candidates_snd : (w.candidates host call).2 = (w.getAvailableProviders host).2 := by
  simp only [candidates]
  split <;> rfl

/-- The list of a call is not empty and holds providers that passed their check, each no
more often than it is registered. -/
theorem candidates_providers {ps : List (ProviderConfig ι)}
    (h : (w.candidates host call).1 = .ok (.ok ps)) :
    ps ≠ [] ∧ ps.Subperm w.pm.providers ∧
      ∃ available, (filterAvailable w.pm.config (w.now host) w.pm.providers
        w.pm.states).1 = .ok available ∧ ps ⊆ available := by
  simp only [candidates] at h
  split at h
  · cases h
  · cases h
  next providers hne hav =>
    have hn : (w.getAvailableProviders host).2.narrow host call providers = .ok ps := by
      simpa using h
    obtain ⟨available,ha,hperm⟩ := w.pm.getAvailableProviders_perm _ hav
    have hsub := narrow_sublist hn
    refine ⟨narrow_ne_nil ?_ hn,?_,available,ha,List.Subset.trans hsub.subset hperm.subset⟩
    · intro hnil
      exact hne hnil
    · exact hsub.subperm.trans (hperm.subperm.trans (filterAvailable_sublist ha).subperm)

theorem getAvailableProviders_of_unpinned (hname : call.providerName = none)
    (hselected : w.pm.selectedProvider = "") {ps : List (ProviderConfig ι)}
    (h : (w.candidates host call).1 = .ok (.ok ps)) :
    (w.getAvailableProviders host).1 = .ok ps := by
  have hselected' : (w.getAvailableProviders host).2.pm.selectedProvider = "" :=
    (ProviderManager.getAvailableProviders_selectedProvider _ _).trans hselected
  simp only [candidates] at h
  split at h
  · cases h
  · cases h
  next providers hne hav =>
    rw [hav]
    simpa [narrow,hname,hselected'] using h

section
variable (name : String)

@[simp] theorem enter_candidates_selectedProvider :
    ((w.enter call).candidates host call).2.pm.selectedProvider = w.pm.selectedProvider := by
  rw [candidates_snd]
  exact ProviderManager.getAvailableProviders_selectedProvider _ _

@[simp] theorem enter_candidates_config :
    ((w.enter call).candidates host call).2.pm.config = w.pm.config := by
  rw [candidates_snd]
  exact ProviderManager.getAvailableProviders_config _ _

@[simp] theorem enter_candidates_providers :
    ((w.enter call).candidates host call).2.pm.providers = w.pm.providers := by
  rw [candidates_snd]
  exact ProviderManager.getAvailableProviders_providers _ _

@[simp] theorem enter_candidates_log :
    ((w.enter call).candidates host call).2.log = w.log := by
  rw [candidates_snd]
  rfl

@[simp] theorem enter_candidates_ticks :
    ((w.enter call).candidates host call).2.ticks = w.ticks+2 := by
  rw [candidates_snd]
  rfl

@[simp] theorem enter_candidates_failedProviders :
    ((w.enter call).candidates host call).2.failedProviders = call.failedProviders := by
  rw [candidates_snd]
  rfl

theorem enter_candidates_states :
    ∃ k, ((w.enter call).candidates host call).2.pm.states name =
      (ProviderState.check w.pm.config (host.now (w.ticks+1)))^[k] (w.pm.states name) := by
  rw [candidates_snd]
  simp only [getAvailableProviders,ProviderManager.getAvailableProviders_states]
  exact filterAvailable_states _ _ _ _ _

end

theorem enter_candidates_mem {ps : List (ProviderConfig ι)}
    (hc : ((w.enter call).candidates host call).1 = .ok (.ok ps)) (hp : p ∈ ps) :
    p ∈ w.pm.providers ∧ ∃ i k,
      (((ProviderState.check w.pm.config (host.now (w.ticks+1)))^[i]
        (w.pm.states p.name)).isProviderAvailable w.pm.config (host.now (w.ticks+1))).1 =
          .ok true ∧
      ((w.enter call).candidates host call).2.pm.states p.name =
        (ProviderState.check w.pm.config (host.now (w.ticks+1)))^[k]
          ((ProviderState.check w.pm.config (host.now (w.ticks+1)))^[i+1]
            (w.pm.states p.name)) := by
  obtain ⟨-,-,available,hav,hsub⟩ := (w.enter call).candidates_providers host call hc
  obtain ⟨hmem,i,k,hpass,hst⟩ := filterAvailable_mem hav (hsub hp)
  refine ⟨hmem,i,k,hpass,?_⟩
  rw [candidates_snd]
  simp only [getAvailableProviders,ProviderManager.getAvailableProviders_states]
  exact hst

@[simp] theorem attemptOnce_fst :
    (w.attemptOnce host call p).1 = call.op w.invoked p.provider := by
  unfold attemptOnce
  cases call.op w.invoked p.provider <;> rfl

@[simp] theorem attemptOnce_log :
    (w.attemptOnce host call p).2.log = w.log ++ [w.invocation host call p] := by
  unfold attemptOnce
  cases call.op w.invoked p.provider <;> rfl

@[simp] theorem attemptOnce_invoked : (w.attemptOnce host call p).2.invoked = w.invoked+1 := by
  unfold attemptOnce
  cases call.op w.invoked p.provider <;> rfl

@[simp] theorem attemptOnce_failedProviders :
    (w.attemptOnce host call p).2.failedProviders = w.failedProviders := by
  unfold attemptOnce
  cases call.op w.invoked p.provider <;> rfl

@[simp] theorem attemptOnce_config : (w.attemptOnce host call p).2.pm.config = w.pm.config := by
  simp only [attemptOnce]
  cases call.op w.invoked p.provider with
  | ok data => rfl
  | error err =>
    simp only [recordFailureWithError,ProviderManager.recordFailureWithError]
    split_ifs <;> rfl

@[simp] theorem attemptOnce_providers :
    (w.attemptOnce host call p).2.pm.providers = w.pm.providers := by
  simp only [attemptOnce]
  cases call.op w.invoked p.provider with
  | ok data => rfl
  | error err =>
    simp only [recordFailureWithError,ProviderManager.recordFailureWithError]
    split_ifs <;> rfl

theorem attemptOnce_ticks : w.ticks+3 ≤ (w.attemptOnce host call p).2.ticks := by
  simp only [attemptOnce]
  cases call.op w.invoked p.provider with
  | ok data =>
    simp only [recordSuccessWithLatency,recordLatency,recordSuccess,tick,dispatch]
    omega
  | error err =>
    simp only [recordFailureWithError,tick,dispatch]
    omega

theorem attemptOnce_states_ok {data : δ} (h : call.op w.invoked p.provider = .ok data) :
    (w.attemptOnce host call p).2.pm.states p.name =
      (w.pm.states p.name).recordSuccess w.pm.config (host.now (w.ticks+2))
        (host.now (w.ticks+3)) := by
  simp [attemptOnce,h,recordSuccessWithLatency,recordLatency,recordSuccess,tick,dispatch,
    ProviderManager.recordLatency,ProviderManager.recordSuccess]

theorem attemptOnce_states_error {err : GoError} (h : call.op w.invoked p.provider = .error err) :
    (w.attemptOnce host call p).2.pm.states p.name =
      if err.isAuth then
        ((w.pm.states p.name).updateFailureState w.pm.config
          (host.now (w.ticks+2))).handleAuthFailure w.pm.config (host.now (w.ticks+2))
      else (w.pm.states p.name).updateFailureState w.pm.config (host.now (w.ticks+2)) := by
  simp only [attemptOnce,h,recordFailureWithError,ProviderManager.recordFailureWithError,tick,
    dispatch,now]
  split_ifs
  · simp [ProviderManager.handleAuthFailure,ProviderManager.scoreFailure,
      ProviderManager.updateFailureState]
  · simp [ProviderManager.scoreFailure,ProviderManager.updateFailureState]

theorem attemptOnce_states_of_ne {name : String} (hn : name ≠ p.name) :
    (w.attemptOnce host call p).2.pm.states name = w.pm.states name := by
  simp only [attemptOnce]
  cases call.op w.invoked p.provider with
  | ok data =>
    simp [recordSuccessWithLatency,recordLatency,recordSuccess,tick,dispatch,hn,
      ProviderManager.recordLatency,ProviderManager.recordSuccess]
  | error err =>
    simp only [recordFailureWithError,ProviderManager.recordFailureWithError,tick,dispatch]
    split_ifs
    · simp [ProviderManager.handleAuthFailure,ProviderManager.scoreFailure,
        ProviderManager.updateFailureState,hn]
    · simp [ProviderManager.scoreFailure,ProviderManager.updateFailureState,hn]

theorem attemptOnce_tracked {name : String} (h : (w.pm.states name).Tracked) :
    ((w.attemptOnce host call p).2.pm.states name).Tracked := by
  by_cases hn : name = p.name
  · subst hn
    cases hop : call.op w.invoked p.provider with
    | ok data =>
      rw [w.attemptOnce_states_ok host call p hop]
      exact ProviderState.recordSuccess_tracked _ _ _ h
    | error err =>
      rw [w.attemptOnce_states_error host call p hop]
      have hf := ProviderState.updateFailureState_tracked w.pm.config (host.now (w.ticks+2)) h
      split_ifs
      · exact ProviderState.handleAuthFailure_tracked _ _ hf
      · exact hf
  · rw [w.attemptOnce_states_of_ne host call p hn]
    exact h

end World

/-- An assertion `I` on the invocations to come and the world, kept by failed attempts and
whatever else the loops do, and `Q` for the world after a successful attempt. -/
structure CallRule (host : Host) (call : Call ι δ)
    (I : List (ProviderConfig ι) → World ι ε δ → Prop) (Q : World ι ε δ → Prop) : Prop where
  wait : ∀ l w, I l w → I l { w with waited := w.waited+1 }
  skip : ∀ p l w, I (p :: l) w → I l w
  mark : ∀ name l w, I l w → I l (w.recordFailedProvider name)
  succeed : ∀ p l w data, I (p :: l) w → call.op w.invoked p.provider = .ok data →
    Q (w.attemptOnce host call p).2
  fail : ∀ p l w err, I (p :: l) w → call.op w.invoked p.provider = .error err →
    I l (w.attemptOnce host call p).2

namespace CallRule
variable {host : Host} {call : Call ι δ} {I : List (ProviderConfig ι) → World ι ε δ → Prop}
  {Q : World ι ε δ → Prop}

theorem skip_replicate (h : CallRule host call I Q) (n : ℕ) (p : ProviderConfig ι)
    (l : List (ProviderConfig ι)) (w : World ι ε δ) (hI : I (List.replicate n p ++ l) w) :
    I l w := by
  induction n with
  | zero => exact hI
  | succ n ih =>
    apply ih
    apply h.skip p
    rwa [List.replicate_succ,List.cons_append] at hI

/-- The retry loop ends with `Q` after a success and otherwise passes `I` on to the rest of
the schedule. -/
theorem attemptLoop (h : CallRule host call I Q) (p : ProviderConfig ι)
    (l : List (ProviderConfig ι)) (n attempts : ℕ) (lastErr : Option GoError)
    (w : World ι ε δ) (hI : I (List.replicate n p ++ l) w) (hn : lastErr = none → 0 < n) :
    ((World.attemptLoop host call p n attempts lastErr w).1.2.2 = none →
      Q (World.attemptLoop host call p n attempts lastErr w).2) ∧
    ((World.attemptLoop host call p n attempts lastErr w).1.2.2 ≠ none →
      I l (World.attemptLoop host call p n attempts lastErr w).2) := by
  induction n generalizing attempts lastErr w with
  | zero =>
    refine ⟨fun hnone => ?_,fun _ => hI⟩
    have := hn hnone
    omega
  | succ n ih =>
    simp only [World.attemptLoop]
    generalize hw : (if 0 < attempts then { w with waited := w.waited+1 } else w) = w₁
    have hI₁ : I (List.replicate (n+1) p ++ l) w₁ := by
      rw [← hw]
      split_ifs
      · exact h.wait _ _ hI
      · exact hI
    cases (if 0 < attempts then call.wait w.waited else none) with
    | some err =>
      refine ⟨fun hnone => ?_,fun _ => h.skip_replicate (n+1) p l w₁ hI₁⟩
      simp at hnone
    | none =>
      rw [List.replicate_succ,List.cons_append] at hI₁
      simp only [World.attemptOnce_fst]
      cases hop : call.op w₁.invoked p.provider with
      | ok data =>
        refine ⟨fun _ => h.succeed p _ w₁ data hI₁ hop,fun hsome => ?_⟩
        simp at hsome
      | error err => exact ih _ _ _ (h.fail p _ w₁ err hI₁ hop) (by simp)

/-- The loop over the providers ends with the schedule used up or after a success. -/
theorem runOpLoop (h : CallRule host call I Q) (policy : RetryPolicy) (start : ℤ)
    (ps : List (ProviderConfig ι)) (total : ℕ) (lastErr : Option GoError) (w : World ι ε δ)
    (hI : I (schedule policy.attempts ps) w) :
    (∃ w₀, I [] w₀ ∧ (World.runOpLoop host call policy start ps total lastErr w).2 = w₀.tick) ∨
    (∃ w₀ p, Q w₀ ∧ (World.runOpLoop host call policy start ps total lastErr w).2 =
      (w₀.recordAttempt p).tick) := by
  induction ps generalizing total lastErr w with
  | nil => exact Or.inl ⟨w,hI,rfl⟩
  | cons p ps ih =>
    rw [schedule_cons] at hI
    obtain ⟨hok,hfail⟩ := h.attemptLoop p _ policy.attempts 0 none w hI
      (fun _ => policy.attempts_pos)
    simp only [World.runOpLoop]
    cases hr : (w.attemptWithRetry host call p policy).1.2.2 with
    | none => exact Or.inr ⟨_,p,hok hr,rfl⟩
    | some err =>
      refine ih _ _ _ (h.mark _ _ _ (hfail ?_))
      exact fun hnone => Option.some_ne_none err (hr.symm.trans hnone)

/-- What holds after the loops, and in the worlds of calls that invoke nothing, holds after
the call. -/
theorem runOp (h : CallRule host call I Q) {R : World ι ε δ → Prop} (w : World ι ε δ)
    (hstart : ∀ ps, ((w.enter call).candidates host call).1 = .ok (.ok ps) →
      I (schedule w.pm.config.retryPolicy.attempts ps) ((w.enter call).candidates host call).2)
    (hnone : R ((w.enter call).candidates host call).2) (hend : ∀ w₀, I [] w₀ → R w₀)
    (hdone : ∀ w₀ p, Q w₀ → R (w₀.recordAttempt p)) (htick : ∀ w₀, R w₀ → R w₀.tick) :
    R (w.runOp host call).2 := by
  simp only [World.runOp]
  cases hc : ((w.enter call).candidates host call).1 with
  | error panic => exact hnone
  | ok r =>
    cases r with
    | error err => exact htick _ hnone
    | ok providers =>
      simp only [World.enter_candidates_config]
      rcases h.runOpLoop w.pm.config.retryPolicy (w.now host) providers 0 none _
        (hstart providers hc) with ⟨w₀,h₀,hw⟩ | ⟨w₀,p,h₀,hw⟩
      · rw [hw]
        exact htick _ (hend w₀ h₀)
      · rw [hw]
        exact htick _ (hdone w₀ p h₀)

end CallRule

/-- What every part of a call keeps holds after the call, whatever is scheduled. -/
theorem World.runOp_keeps {host : Host} {call : Call ι δ} {I : World ι ε δ → Prop}
    (hwait : ∀ w, I w → I { w with waited := w.waited+1 })
    (hmark : ∀ name w, I w → I (w.recordFailedProvider name))
    (hattempt : ∀ p w, I w → I (w.attemptOnce host call p).2)
    (hdone : ∀ p w, I w → I (w.recordAttempt p)) (htick : ∀ w, I w → I w.tick)
    {w : World ι ε δ} (hstart : I ((w.enter call).candidates host call).2) :
    I (w.runOp host call).2 := by
  have hrule : CallRule host call (fun _ w₀ => I w₀) I :=
    { wait := fun _ w₀ h => hwait w₀ h
      skip := fun _ _ _ h => h
      mark := fun name _ w₀ h => hmark name w₀ h
      succeed := fun p _ w₀ _ h _ => hattempt p w₀ h
      fail := fun p _ w₀ _ h _ => hattempt p w₀ h }
  apply hrule.runOp (R := I) w
  · exact fun _ _ => hstart
  · exact hstart
  · exact fun _ h => h
  · exact fun w₀ p h => hdone p w₀ h
  · exact htick

theorem World.runOp_frame (w : World ι ε δ) (host : Host) (call : Call ι δ) :
    (w.runOp host call).2.pm.config = w.pm.config ∧
      (w.runOp host call).2.pm.providers = w.pm.providers ∧
      w.ticks ≤ (w.runOp host call).2.ticks := by
  let Same (w₀ : World ι ε δ) : Prop :=
    w₀.pm.config = w.pm.config ∧ w₀.pm.providers = w.pm.providers ∧ w.ticks ≤ w₀.ticks
  apply World.runOp_keeps (I := Same)
  · exact fun _ h => h
  · exact fun _ _ h => h
  · intro p w₀ h
    obtain ⟨hc,hp,ht⟩ := h
    have := w₀.attemptOnce_ticks host call p
    refine ⟨?_,?_,by omega⟩
    · rw [attemptOnce_config,hc]
    · rw [attemptOnce_providers,hp]
  · exact fun _ _ h => h
  · exact fun _ h => ⟨h.1,h.2.1,Nat.le_succ_of_le h.2.2⟩
  · exact ⟨w.enter_candidates_config host call,w.enter_candidates_providers host call,by simp⟩

theorem World.runOp_states_of_not_invoked (w : World ι ε δ) (host : Host) (call : Call ι δ)
    {name : String} {ds : List (Dispatch ι δ)}
    (hlog : (w.runOp host call).2.log = w.log ++ ds) (hds : ∀ d ∈ ds, d.provider.name ≠ name) :
    (w.runOp host call).2.pm.states name =
      ((w.enter call).candidates host call).2.pm.states name := by
  let Same (w₀ : World ι ε δ) : Prop :=
    ∃ ds, w₀.log = w.log ++ ds ∧ ((∀ d ∈ ds, d.provider.name ≠ name) →
      w₀.pm.states name = ((w.enter call).candidates host call).2.pm.states name)
  have hfinal : Same (w.runOp host call).2 := by
    apply World.runOp_keeps (I := Same)
    · exact fun _ h => h
    · exact fun _ _ h => h
    · rintro p w₀ ⟨ds,hl,h⟩
      refine ⟨ds ++ [w₀.invocation host call p],?_,?_⟩
      · rw [attemptOnce_log,hl,List.append_assoc]
      · intro hds
        have hp : p.name ≠ name := hds (w₀.invocation host call p) (by simp)
        rw [w₀.attemptOnce_states_of_ne host call p hp.symm]
        exact h (fun d hd => hds d (by simp [hd]))
    · exact fun _ _ h => h
    · exact fun _ h => h
    · exact ⟨[],by simp,fun _ => rfl⟩
  obtain ⟨ds',hl,h⟩ := hfinal
  rw [hlog,List.append_cancel_left_eq] at hl
  subst hl
  exact h hds

theorem World.runCalls_invariant {host : Host} {I : World ι ε δ → Prop}
    {calls : List (Call ι δ)} {w : World ι ε δ} (hw : I w)
    (hstep : ∀ before call after, calls = before ++ call :: after →
      I (w.runCalls host before) → I ((w.runCalls host before).runOp host call).2) :
    I (w.runCalls host calls) :=
  Lib.foldl_invariant hw hstep

theorem World.runCalls_config (w : World ι ε δ) (host : Host) (calls : List (Call ι δ)) :
    (w.runCalls host calls).pm.config = w.pm.config := by
  apply World.runCalls_invariant (I := fun w' => w'.pm.config = w.pm.config) rfl
  intro before call after _ h
  rw [(World.runOp_frame _ host call).1,h]

theorem World.runCalls_providers (w : World ι ε δ) (host : Host) (calls : List (Call ι δ)) :
    (w.runCalls host calls).pm.providers = w.pm.providers := by
  apply World.runCalls_invariant (I := fun w' => w'.pm.providers = w.pm.providers) rfl
  intro before call after _ h
  rw [(World.runOp_frame _ host call).2.1,h]

end ChainKit
