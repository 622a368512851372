import ChainKit.RunOp.Rules

/-! Fallback and retry: which invocations a call makes, in which order, where it stops and
what it reports about them. -/
namespace ChainKit
variable {ι ε δ : Type}

namespace ProviderState

/-- `TotalSuccesses + TotalFailures` of an entry. -/
def requests (st : ProviderState) : ℕ :=
  match st.failure with
  | some failure => failure.totalSuccesses+failure.totalFailures
  | none => 0

variable {st : ProviderState} (config : ChainConfig)

theorem recordSuccess_requests (h : st.Tracked) (closedAt requestAt : ℤ) :
    (st.recordSuccess config closedAt requestAt).requests = st.requests+1 := by
  obtain ⟨failure,hf⟩ := Option.isSome_iff_exists.mp h.1
  simp only [requests,recordSuccess,hf,Option.map_some,FailureInfo.recordSuccess]
  omega

theorem updateFailureState_requests (h : st.Tracked) (now : ℤ) :
    (st.updateFailureState config now).requests = st.requests+1 := by
  obtain ⟨failure,hf⟩ := Option.isSome_iff_exists.mp h.1
  simp only [requests,updateFailureState,hf,FailureInfo.recordFailure]
  omega

theorem handleAuthFailure_requests (now : ℤ) :
    (st.handleAuthFailure config now).requests = st.requests := by
  cases hf : st.failure with
  | none => simp [requests,handleAuthFailure,hf]
  | some failure =>
    simp only [handleAuthFailure,hf]
    split_ifs <;> simp [requests,hf]

theorem check_requests (now : ℤ) : (st.check config now).requests = st.requests := by
  have hlegacy : (st.checkFailure config now).2.requests = st.requests := by
    cases hf : st.failure with
    | none => simp [checkFailure,hf]
    | some failure =>
      simp only [checkFailure,hf]
      split_ifs <;> simp [requests,FailureInfo.resume,hf]
  rw [← hlegacy]
  simp only [check,requests,isProviderAvailable_failure]

theorem iterate_check_requests (now : ℤ) (k : ℕ) :
    ((check config now)^[k] st).requests = st.requests := by
  induction k with
  | zero => rfl
  | succ k ih => rw [Function.iterate_succ_apply',check_requests,ih]

end ProviderState

/-- Between two worlds of a call exactly the invocations `ds` are made: they are logged, they
take the answers of the operation one by one, and the totals of their providers count them. -/
structure Invokes (call : Call ι δ) (w : World ι ε δ) (ds : List (Dispatch ι δ))
    (w' : World ι ε δ) : Prop where
  log : w'.log = w.log ++ ds
  invoked : w'.invoked = w.invoked+ds.length
  answers : ∀ i d, ds[i]? = some d → d.result = call.op (w.invoked+i) d.provider.provider
  requests : ∀ name, (w.pm.states name).Tracked → (w'.pm.states name).Tracked ∧
    (w'.pm.states name).requests =
      (w.pm.states name).requests+ds.countP (fun d => d.provider.name = name)

namespace Invokes
variable {call : Call ι δ} {w w' w'' : World ι ε δ} {ds ds' : List (Dispatch ι δ)}

theorem nil (hlog : w'.log = w.log) (hinvoked : w'.invoked = w.invoked)
    (hstates : w'.pm.states = w.pm.states) : Invokes call w [] w' := by
  refine ⟨by simpa using hlog,by simpa using hinvoked,by simp,?_⟩
  intro name h
  rw [hstates]
  exact ⟨h,rfl⟩

theorem mark (h : Invokes call w ds w') (name : String) :
    Invokes call w ds (w'.recordFailedProvider name) :=
  ⟨h.log,h.invoked,h.answers,h.requests⟩

theorem append (h : Invokes call w ds w') (h' : Invokes call w' ds' w'') :
    Invokes call w (ds ++ ds') w'' := by
  refine ⟨?_,?_,?_,?_⟩
  · rw [h'.log,h.log,List.append_assoc]
  · rw [h'.invoked,h.invoked,List.length_append,Nat.add_assoc]
  · intro i d hd
    rcases lt_or_ge i ds.length with hi | hi
    · rw [List.getElem?_append_left hi] at hd
      exact h.answers i d hd
    · rw [List.getElem?_append_right hi] at hd
      have := h'.answers _ d hd
      rw [h.invoked] at this
      rw [this]
      congr 1
      omega
  · intro name ht
    obtain ⟨ht',hr⟩ := h.requests name ht
    obtain ⟨ht'',hr'⟩ := h'.requests name ht'
    refine ⟨ht'',?_⟩
    rw [hr',hr,List.countP_append,Nat.add_assoc]

variable [ScoringEngine ε]

theorem attemptOnce (w : World ι ε δ) (host : Host) (call : Call ι δ) (p : ProviderConfig ι) :
    Invokes call w [w.invocation host call p] (w.attemptOnce host call p).2 := by
  refine ⟨by simp,by simp,?_,?_⟩
  · intro i d hd
    cases i with
    | zero =>
      simp only [List.getElem?_cons_zero,Option.some.injEq] at hd
      subst hd
      rfl
    | succ i => simp at hd
  · intro name ht
    refine ⟨w.attemptOnce_tracked host call p ht,?_⟩
    by_cases hn : name = p.name
    · subst hn
      have hcount : [w.invocation host call p].countP (fun d => d.provider.name = p.name) = 1 := by
        simp [World.invocation]
      rw [hcount]
      cases hop : call.op w.invoked p.provider with
      | ok data =>
        rw [w.attemptOnce_states_ok host call p hop]
        exact ProviderState.recordSuccess_requests _ ht _ _
      | error err =>
        rw [w.attemptOnce_states_error host call p hop]
        have hf := ProviderState.updateFailureState_requests w.pm.config ht
          (host.now (w.ticks+2))
        split_ifs
        · rw [ProviderState.handleAuthFailure_requests,hf]
        · exact hf
    · rw [w.attemptOnce_states_of_ne host call p hn]
      have hn' : ¬p.name = name := fun h => hn h.symm
      simp [World.invocation,hn']

theorem candidates (w : World ι ε δ) (host : Host) (call : Call ι δ) :
    Invokes call w [] (w.candidates host call).2 := by
  rw [World.candidates_snd]
  refine ⟨by simp [World.getAvailableProviders,World.tick],rfl,by simp,?_⟩
  intro name ht
  simp only [World.getAvailableProviders,ProviderManager.getAvailableProviders_states]
  refine ⟨filterAvailable_tracked ht,?_⟩
  obtain ⟨k,hk⟩ := filterAvailable_states w.pm.config (w.now host) w.pm.providers w.pm.states name
  rw [hk,ProviderState.iterate_check_requests]
  rfl

end Invokes

/-- The last error among the invocations, starting from `lastErr`. -/
def lastError (lastErr : Option GoError) (ds : List (Dispatch ι δ)) : Option GoError :=
  ds.foldl (fun _ d => d.err) lastErr

@[simp] theorem lastError_concat (lastErr : Option GoError) (ds : List (Dispatch ι δ))
    (d : Dispatch ι δ) : lastError lastErr (ds ++ [d]) = d.err := by
  simp [lastError]

theorem lastError_append (lastErr : Option GoError) (ds ds' : List (Dispatch ι δ)) :
    lastError lastErr (ds ++ ds') = lastError (lastError lastErr ds) ds' :=
  List.foldl_append

theorem exists_lastError {ds : List (Dispatch ι δ)} (hne : 0 < ds.length)
    (hall : ∀ d ∈ ds, d.err ≠ none) :
    ∃ ds₀ d err, ds = ds₀ ++ [d] ∧ d.result = .error err ∧
      ∀ lastErr, lastError lastErr ds = some err := by
  obtain ⟨ds₀,d,rfl⟩ := (List.eq_nil_or_concat ds).resolve_left (List.length_pos_iff.mp hne)
  have hd := hall d (by simp)
  cases hr : d.result with
  | ok data => simp [Dispatch.err,hr] at hd
  | error err =>
    refine ⟨ds₀,d,err,by simp,hr,?_⟩
    intro lastErr
    simp [Dispatch.err,hr]

/-- The invocations `ds` of a call over `providers`, `n` at most for each, that ends with the
first success; `exhausted` are the providers that were given up before. -/
structure StopsAtSuccess (n : ℕ) (providers exhausted : List (ProviderConfig ι))
    (ds : List (Dispatch ι δ)) (r : OpReturn δ) : Prop where
  order : ∃ p rest j, providers = exhausted ++ p :: rest ∧ j < n ∧
    ds.map Dispatch.provider = schedule n exhausted ++ List.replicate (j+1) p ∧
    r.providerName = p.name
  success : ∃ ds₀ d data, ds = ds₀ ++ [d] ∧ (∀ d ∈ ds₀, d.err ≠ none) ∧ d.result = .ok data ∧
    r.data = some data
  err : r.err = none

/-- The invocations `ds` of a call over `providers`, `n` for each, none of which succeeds. -/
structure AllFail (n : ℕ) (providers : List (ProviderConfig ι)) (ds : List (Dispatch ι δ))
    (r : OpReturn δ) : Prop where
  order : ds.map Dispatch.provider = schedule n providers
  failed : ∀ d ∈ ds, d.err ≠ none
  data : r.data = none
  providerName : r.providerName = ""

variable [ScoringEngine ε]

namespace World
variable (host : Host) {call : Call ι δ}

/-- The retry loop of a call that is not cancelled: it stops at the first success, and without
one it makes all its rounds. -/
theorem attemptLoop_invokes (hwait : ∀ k, call.wait k = none) (p : ProviderConfig ι)
    (n attempts : ℕ) (lastErr : Option GoError) (w : World ι ε δ) :
    ∃ ds, Invokes call w ds (attemptLoop host call p n attempts lastErr w).2 ∧
      (attemptLoop host call p n attempts lastErr w).2.failedProviders = w.failedProviders ∧
      ds.map Dispatch.provider = List.replicate ds.length p ∧
      ((∃ ds₀ d data, ds = ds₀ ++ [d] ∧ ds.length ≤ n ∧ (∀ d ∈ ds₀, d.err ≠ none) ∧
          d.result = .ok data ∧
          (attemptLoop host call p n attempts lastErr w).1 =
            (some data,attempts+ds.length,none)) ∨
        (ds.length = n ∧ (∀ d ∈ ds, d.err ≠ none) ∧
          (attemptLoop host call p n attempts lastErr w).1 =
            (none,attempts+ds.length,lastError lastErr ds))) := by
  induction n generalizing attempts lastErr w with
  | zero =>
    refine ⟨[],Invokes.nil rfl rfl rfl,rfl,rfl,Or.inr ⟨rfl,by simp,rfl⟩⟩
  | succ n ih =>
    simp only [attemptLoop,hwait,ite_self]
    generalize hw : (if 0 < attempts then { w with waited := w.waited+1 } else w) = w₁
    have hnil : Invokes call w [] w₁ ∧ w₁.failedProviders = w.failedProviders := by
      rw [← hw]
      split_ifs
      · exact ⟨Invokes.nil rfl rfl rfl,rfl⟩
      · exact ⟨Invokes.nil rfl rfl rfl,rfl⟩
    have hone := hnil.1.append (Invokes.attemptOnce w₁ host call p)
    simp only [attemptOnce_fst]
    cases hop : call.op w₁.invoked p.provider with
    | ok data =>
      refine ⟨_,hone,?_,rfl,Or.inl ⟨[],_,data,rfl,by simp,by simp,hop,rfl⟩⟩
      rw [attemptOnce_failedProviders,hnil.2]
    | error err =>
      obtain ⟨ds,hds,hfailed,hprov,hres⟩ := ih (attempts+1) (some err)
        (w₁.attemptOnce host call p).2
      have herr : (w₁.invocation host call p).err = some err := by
        simp [Dispatch.err,invocation,hop]
      refine ⟨_,hone.append hds,?_,?_,?_⟩
      · rw [hfailed,attemptOnce_failedProviders,hnil.2]
      · simp only [List.nil_append,List.cons_append,List.map_cons,hprov,List.length_cons,
          List.replicate_succ]
        rfl
      · rcases hres with ⟨ds₀,d,data,rfl,hlen,hall,hok,hr⟩ | ⟨hlen,hall,hr⟩
        · refine Or.inl ⟨w₁.invocation host call p :: ds₀,d,data,rfl,?_,?_,hok,?_⟩
          · simp only [List.nil_append,List.cons_append,List.length_cons]
            omega
          · exact List.forall_mem_cons.mpr ⟨by simp [herr],hall⟩
          · rw [hr]
            simp only [List.nil_append,List.cons_append,List.length_cons]
            congr 2
            omega
        · refine Or.inr ⟨?_,?_,?_⟩
          · simp only [List.nil_append,List.cons_append,List.length_cons,hlen]
          · exact List.forall_mem_cons.mpr ⟨by simp [herr],hall⟩
          · rw [hr]
            simp only [List.nil_append,List.cons_append,List.length_cons,lastError,
              List.foldl_cons,herr]
            congr 2
            omega

theorem runOpLoop_invokes (hwait : ∀ k, call.wait k = none) (policy : RetryPolicy) (start : ℤ)
    (ps : List (ProviderConfig ι)) (total : ℕ) (lastErr : Option GoError) (w : World ι ε δ) :
    ∃ ds exhausted, Invokes call w ds (runOpLoop host call policy start ps total lastErr w).2 ∧
      (runOpLoop host call policy start ps total lastErr w).1.attempts = total+ds.length ∧
      (runOpLoop host call policy start ps total lastErr w).2.failedProviders =
        w.failedProviders.map (· ++ exhausted.map ProviderConfig.name) ∧
      (StopsAtSuccess policy.attempts ps exhausted ds
          (runOpLoop host call policy start ps total lastErr w).1 ∨
        (exhausted = ps ∧
          AllFail policy.attempts ps ds (runOpLoop host call policy start ps total lastErr w).1 ∧
          (runOpLoop host call policy start ps total lastErr w).1.err =
            some (allFailed (lastError lastErr ds)))) := by
  induction ps generalizing total lastErr w with
  | nil =>
    refine ⟨[],[],Invokes.nil rfl rfl rfl,rfl,?_,Or.inr ⟨rfl,⟨rfl,by simp,rfl,rfl⟩,rfl⟩⟩
    simp [runOpLoop,tick]
  | cons p ps ih =>
    obtain ⟨ds,hds,hfailed,hprov,hres⟩ := attemptLoop_invokes host hwait p policy.attempts 0
      none w
    simp only [runOpLoop,attemptWithRetry]
    rcases hres with ⟨ds₀,d,data,rfl,hlen,hall,hok,hr⟩ | ⟨hlen,hall,hr⟩
    · rw [hr]
      refine ⟨_,[],hds.append (Invokes.nil rfl rfl rfl),by simp,?_,Or.inl ⟨?_,?_,rfl⟩⟩
      · simpa [tick,recordAttempt] using hfailed
      · refine ⟨p,ps,ds₀.length,rfl,?_,?_,rfl⟩
        · simpa using hlen
        · simpa using hprov
      · exact ⟨ds₀,d,data,by simp,hall,hok,rfl⟩
    · have hne : 0 < ds.length := hlen ▸ policy.attempts_pos
      obtain ⟨-,-,err,-,-,herr⟩ := exists_lastError hne hall
      rw [hr,herr none]
      obtain ⟨ds',exhausted,hds',hatt,hnames,hend⟩ := ih (total+(0+ds.length)) (some err)
        (((attemptLoop host call p policy.attempts 0 none w).2).recordFailedProvider p.name)
      refine ⟨_,p :: exhausted,(hds.mark p.name).append hds',?_,?_,?_⟩
      · rw [hatt]
        rw [List.length_append]
        omega
      · rw [hnames]
        simp [recordFailedProvider,hfailed,Function.comp_def]
      · have hp : ds.map Dispatch.provider = List.replicate policy.attempts p := by
          rw [hprov,hlen]
        rcases hend with hstop | ⟨rfl,hfail,herr'⟩
        · obtain ⟨q,rest,j,hps,hj,horder,hname⟩ := hstop.order
          obtain ⟨ds₀,d,data,hds₀,hall',hok,hdata⟩ := hstop.success
          refine Or.inl ⟨⟨q,rest,j,?_,hj,?_,hname⟩,⟨ds ++ ds₀,d,data,?_,?_,hok,hdata⟩,
            hstop.err⟩
          · rw [hps,List.cons_append]
          · rw [List.map_append,hp,horder,schedule_cons,List.append_assoc]
          · rw [hds₀,List.append_assoc]
          · exact List.forall_mem_append.mpr ⟨hall,hall'⟩
        · refine Or.inr ⟨rfl,⟨?_,?_,hfail.data,hfail.providerName⟩,?_⟩
          · rw [List.map_append,hp,hfail.order,schedule_cons]
          · exact List.forall_mem_append.mpr ⟨hall,hfail.failed⟩
          · rw [herr',lastError_append,herr lastErr]

end World

/-- An operation that fails on "a" and succeeds on every other provider. -/
def failingOnA : Call String ℕ where
  failedProviders := some []
  op _ provider := if provider = "a" then .error (.plain "failed") else .ok 7

end ChainKit
