import ChainKit.Circuit.FreshEvidence
import ChainKit.Circuit.Retries
import ChainKit.Interleaving.Independence
import ChainKit.Interleaving.Progress

/-! The calls that a half-open circuit lets through. They are admitted by the count of failed
half-open calls, which neither the calls under way nor the successful ones raise. One probe after
the other, each with its own check, keeps to the limit. -/
namespace ChainKit
open Lib
variable {τ ι ε δ : Type}

namespace Pc

/-- The operation has been invoked on the provider and its outcome is not recorded yet. -/
def pending (name : String) : Pc ι δ → Bool
  | .inFlight c _ _ => decide (c.provider.name = name)
  | .recordSuccess c _ _ => decide (c.provider.name = name)
  | .recordFailure c _ _ => decide (c.provider.name = name)
  | .updateFailure c _ _ _ => decide (c.provider.name = name)
  | _ => false

/-- The next step invokes the operation on the provider. -/
def invokes (call : Call ι δ) (waited : ℕ) (name : String) : Pc ι δ → Bool
  | .attempt c => decide (c.provider.name = name) &&
      (if 0 < c.attempts then call.wait waited else none).isNone
  | _ => false

@[simp] theorem nextProvider_pending (name : String) (start : ℤ) (maxAttempts total : ℕ)
    (lastErr : Option GoError) (ps : List (ProviderConfig ι)) :
    (nextProvider start maxAttempts total lastErr ps : Pc ι δ).pending name = false :=
  nextProvider_cases (P := fun pc => pc.pending name = false) (fun _ => rfl)
    (fun _ _ _ _ _ => rfl) _ _ _ _ _

end Pc

namespace World

@[simp] theorem afterFailure_pending (w : World ι ε δ) (c : Cursor ι) (err : GoError)
    (name : String) : (w.afterFailure c err).2.pending name = false :=
  afterFailure_cases (P := fun pc => pc.pending name = false) (fun _ => rfl)
    (fun _ _ _ _ _ => rfl) w c err

theorem invokedNext_countP (host : Host) (call : Call ι δ) (w : World ι ε δ) (pc : Pc ι δ)
    (name : String) :
    (w.invokedNext host call pc).countP (fun d => d.provider.name = name) =
      (pc.invokes call w.waited name).toNat := by
  cases pc with
  | attempt c =>
    simp only [invokedNext,Pc.invokes,cancelled]
    split
    · simp [*]
    · cases h : decide (c.provider.name = name) <;> simp_all [invocation]
  | _ => rfl

theorem step_check [ScoringEngine ε] (host : Host) (call : Call ι δ) (w : World ι ε δ)
    (start : ℤ) (he : w.pm.config.circuitBreaker.enabled = true) :
    ∃ ps, (step host call (w,.getAvailable start)).2.fresh = false ∧
      (step host call (w,.getAvailable start)).2.Within ps ∧
      ∀ p ∈ ps, ∀ b, (w.pm.states p.name).Carries b →
        (b.check w.pm.config.circuitBreaker (w.now host)).1 = true := by
  simp only [step]
  cases hr : (w.getAvailableProviders host).1 with
  | error panic => exact ⟨[],rfl,trivial,by simp⟩
  | ok providers =>
    cases providers with
    | nil => exact ⟨[],rfl,trivial,by simp⟩
    | cons p ps =>
      refine ⟨p :: ps,rfl,List.Subset.refl _,?_⟩
      intro q hq b hb
      obtain ⟨available,hav,hperm⟩ := w.pm.getAvailableProviders_perm _ hr
      obtain ⟨-,i,-,hpass,-⟩ := filterAvailable_mem hav (hperm.subset hq)
      exact Breaker.check_of_iterate ((hb.iterate_check he _ i).of_available he hpass)

/-- The account of one step: invocations are logged and become pending, and records settle
them. -/
theorem step_account [ScoringEngine ε] (host : Host) (call : Call ι δ) (w : World ι ε δ)
    (pc : Pc ι δ) (name : String) :
    (step host call (w,pc)).1.log.countP (fun d => d.provider.name = name) =
        w.log.countP (fun d => d.provider.name = name)+
          (pc.invokes call w.waited name).toNat ∧
      ((step host call (w,pc)).2.pending name).toNat+(pc.records name).isSome.toNat =
        (pc.pending name).toNat+(pc.invokes call w.waited name).toNat := by
  refine ⟨by rw [step_log,List.countP_append,invokedNext_countP],?_⟩
  cases pc with
  | getAvailable start =>
    simp only [step]
    split <;> rfl
  | narrow start providers =>
    simp only [step]
    split <;> rfl
  | readPolicy start providers =>
    simp only [step,Pc.nextProvider_pending]
    rfl
  | attempt c =>
    cases hc : w.cancelled call c with
    | some err =>
      rw [step_attempt_cancelled host call hc]
      simp only [cancelled] at hc
      simp only [giveUp,Pc.nextProvider_pending,Pc.invokes,hc,Option.isNone_some,Bool.and_false]
      rfl
    | none =>
      rw [step_attempt_invokes host call hc]
      simp only [cancelled] at hc
      simp [Pc.invokes,hc,Pc.pending,Pc.records]
  | inFlight c began result => cases result <;> rfl
  | recordSuccess c elapsed data =>
    by_cases hn : c.provider.name = name <;> simp [step,Pc.pending,Pc.records,Pc.invokes,hn]
  | updateFailure c elapsed err now =>
    by_cases hn : c.provider.name = name <;> simp [step,Pc.pending,Pc.records,Pc.invokes,hn]
  | scoreFailure c elapsed err now =>
    simp only [step]
    split_ifs
    · rfl
    · rw [afterFailure_pending]
      rfl
  | handleAuthFailure c err now =>
    simp only [step,afterFailure_pending]
    rfl
  | _ => rfl

end World

namespace Breaker.Move
variable {config : CircuitBreakerConfig} {b b' : Breaker} {r : Option Bool}

theorem halfOpenCalls_eq (h : Move config b r b') (hb : b.circuit.state = .halfOpen)
    (hb' : b'.circuit.state = .halfOpen) :
    b'.circuit.halfOpenCalls = b.circuit.halfOpenCalls+if r = some false then 1 else 0 := by
  cases h with
  | checks now k =>
    rw [iterate_checked_of_not_opened (by simp [hb])]
    rfl
  | authFail now =>
    simp only [Breaker.authFail]
    split_ifs <;> simp_all [CircuitState.trip]
  | success now =>
    simp only [Breaker.success,CircuitState.recordSuccess] at hb' ⊢
    split_ifs at hb' ⊢ <;> simp_all
  | fail now =>
    simp only [Breaker.fail,CircuitState.recordFailure,hb,if_true]
    split_ifs <;> rfl

theorem not_success (h : Move config b (some true) b') (hb : b.circuit.state = .halfOpen)
    (hS : config.successThreshold ≤ ((b.circuit.consecutiveSuccesses+1 : ℕ) : ℤ)) :
    b'.circuit.state ≠ .halfOpen := by
  cases h with
  | success now =>
    rw [success_state,if_pos ⟨hb,hS⟩]
    simp

end Breaker.Move

theorem Breaker.halfOpenCalls_lt {config : CircuitBreakerConfig} {now : ℤ} {b : Breaker}
    (h : (b.check config now).1 = true) (hb : b.circuit.state = .halfOpen) :
    (b.circuit.halfOpenCalls : ℤ) < config.halfOpenMaxCalls := by
  cases hc : b.coolingDown config now with
  | true => simp [check_of_coolingDown hc] at h
  | false => simpa [check_of_halfOpen hc hb] using h

namespace Sys

def dispatched (name : String) (s : Sys τ ι ε δ) : ℕ :=
  s.log.countP (fun d => d.provider.name = name)

/-- The next step of `t` invokes the operation on the provider. -/
def invokes (name : String) (s : Sys τ ι ε δ) (t : τ) : Bool :=
  (s.threads t).pc.invokes (s.threads t).call (s.threads t).waited name

variable [Fintype τ] [DecidableEq τ]

/-- The number of calls whose invocation of the provider is not recorded yet. -/
def pending (name : String) (s : Sys τ ι ε δ) : ℕ :=
  countOf (fun th : Thread ι δ => th.pc.pending name) s.threads

def checks (s : Sys τ ι ε δ) (t : τ) : Bool :=
  match (s.threads t).pc with
  | .getAvailable _ => true
  | _ => false

/-- A success that the next step of `t` records does not leave the circuit half-open. -/
def Closes (name : String) (s : Sys τ ι ε δ) (t : τ) : Prop :=
  ∀ cs ∈ (s.pm.states name).circuit, (s.threads t).pc.records name = some true →
    s.pm.config.circuitBreaker.successThreshold ≤ ((cs.consecutiveSuccesses+1 : ℕ) : ℤ)

instance (name : String) (s : Sys τ ι ε δ) (t : τ) : Decidable (s.Closes name t) := by
  unfold Closes
  infer_instance

section
variable [ScoringEngine ε] (host : Host) (name : String) (s : Sys τ ι ε δ) (before : List τ) (t : τ)

/-- The call of `t` has made its check while no outcome of the provider was missing, and nothing was
invoked on the provider since. -/
def FreshlyChecked : Prop :=
  ∃ l ∈ before.inits, l ++ [t] <+: before ∧ (s.run host l).checks t = true ∧
    (s.run host l).pending name = 0 ∧
    (s.run host before).dispatched name = (s.run host l).dispatched name

/-- The next step of `t` keeps to one probe at a time while the circuit is half-open. -/
def ProbesAlone : Prop :=
  (s.run host before).status name = some .halfOpen →
    ((s.run host before).invokes name t = true → s.FreshlyChecked host name before t) ∧
      (s.run host before).Closes name t

instance : Decidable (s.FreshlyChecked host name before t) :=
  inferInstanceAs (Decidable (∃ l ∈ before.inits, _ ∧ _ ∧ _ ∧ _))

instance : Decidable (s.ProbesAlone host name before t) :=
  inferInstanceAs (Decidable (_ → (_ → _) ∧ _))

end

variable [ScoringEngine ε]

theorem step_account (host : Host) (name : String) (s : Sys τ ι ε δ) (t : τ) :
    (s.step host t).dispatched name =
        s.dispatched name+(s.invokes name t).toNat ∧
      (s.step host t).pending name+((s.threads t).pc.records name).isSome.toNat =
        s.pending name+(s.invokes name t).toNat := by
  obtain ⟨hlog,hpc⟩ := World.step_account host (s.threads t).call (s.world t) (s.threads t).pc name
  refine ⟨hlog,?_⟩
  have hcount := countOf_update (fun th : Thread ι δ => th.pc.pending name) s.threads t
    ((s.step host t).threads t)
  have hself : (s.step host t).threads =
      Function.update s.threads t ((s.step host t).threads t) := by
    simp [step]
  have hpc' : ((s.step host t).threads t).pc =
      (World.step host (s.threads t).call (s.world t,(s.threads t).pc)).2 := by
    simp [step]
  rw [← hself,hpc'] at hcount
  have hwaited : (s.world t).waited = (s.threads t).waited := rfl
  rw [hwaited] at hpc
  simp only [pending,invokes] at hcount hpc ⊢
  omega

theorem dispatched_mono (host : Host) (name : String) (s : Sys τ ι ε δ) (l : List τ) :
    s.dispatched name ≤ (s.run host l).dispatched name := by
  induction l using List.reverseRecOn with
  | nil => exact le_rfl
  | append_singleton l t ih =>
    rw [run_concat,((s.run host l).step_account host name t).1]
    omega

omit [Fintype τ] in
theorem run_checked (host : Host) {s : Sys τ ι ε δ} {t : τ} (hcheck : s.checks t = true)
    (he : s.pm.config.circuitBreaker.enabled = true) (l : List τ) :
    ∃ ps, (((s.step host t).run host l).threads t).pc.fresh = false ∧
      (((s.step host t).run host l).threads t).pc.Within ps ∧
      ∀ p ∈ ps, ∀ b, (s.pm.states p.name).Carries b →
        (b.check s.pm.config.circuitBreaker (host.now s.ticks)).1 = true := by
  induction l using List.reverseRecOn with
  | nil =>
    cases hpc : (s.threads t).pc with
    | getAvailable start =>
      have hstep : (((s.step host t).run host []).threads t).pc =
          (World.step host (s.threads t).call (s.world t,.getAvailable start)).2 := by
        simp [step,hpc]
      rw [hstep]
      exact World.step_check host (s.threads t).call (s.world t) start he
    | _ => simp [checks,hpc] at hcheck
  | append_singleton l v ih =>
    obtain ⟨ps,hchecked,hwithin,hps⟩ := ih
    refine ⟨ps,?_⟩
    rw [run_concat]
    generalize (s.step host t).run host l = s' at hchecked hwithin ⊢
    by_cases hv : v = t
    · subst hv
      have hstep : ((s'.step host v).threads v).pc =
          (World.step host (s'.threads v).call (s'.world v,(s'.threads v).pc)).2 := by
        simp [step]
      rw [hstep]
      refine ⟨World.step_fresh host _ _ hchecked,World.step_within host _ _ _ hwithin ?_,hps⟩
      intro start hpc
      rw [hpc] at hchecked
      cases hchecked
    · have hstep : (s'.step host v).threads t = s'.threads t := by
        simp [step,Ne.symm hv]
      rw [hstep]
      exact ⟨hchecked,hwithin,hps⟩

omit [Fintype τ] in
/-- A call that is about to invoke the operation has found the half-open circuit below its limit. -/
theorem halfOpenCalls_lt {host : Host} {s : Sys τ ι ε δ} {t : τ} (hcheck : s.checks t = true)
    (he : s.pm.config.circuitBreaker.enabled = true) {l : List τ} {name : String}
    (hinvokes : ((s.step host t).run host l).invokes name t = true) {b : Breaker}
    (hb : (s.pm.states name).Carries b) (hhalf : b.circuit.state = .halfOpen) :
    (b.circuit.halfOpenCalls : ℤ) < s.pm.config.circuitBreaker.halfOpenMaxCalls := by
  obtain ⟨ps,-,hwithin,hps⟩ := s.run_checked host hcheck he l
  simp only [invokes] at hinvokes
  cases hpc : (((s.step host t).run host l).threads t).pc with
  | attempt c =>
    rw [hpc] at hinvokes hwithin
    simp only [Pc.invokes,Bool.and_eq_true,decide_eq_true_eq] at hinvokes
    exact Breaker.halfOpenCalls_lt (hps c.provider hwithin.1 b (by rw [hinvokes.1]; exact hb)) hhalf
  | _ =>
    rw [hpc] at hinvokes
    cases hinvokes

/-- While the circuit stays half-open, every invocation since is a failed half-open call or
still under way. -/
theorem dispatched_le_pending {host : Host} {s : Sys τ ι ε δ} {p : ProviderConfig ι}
    (hp : p ∈ s.pm.providers) (he : s.pm.config.circuitBreaker.enabled = true) {l : List τ}
    (hhalf : ∀ l', l' <+: l → (s.run host l').status p.name = some .halfOpen)
    (hcloses : ∀ l' t, l' ++ [t] <+: l → (s.run host l').Closes p.name t) {b : Breaker}
    (hb : ((s.run host l).pm.states p.name).Carries b) :
    (s.run host l).dispatched p.name ≤
      s.dispatched p.name+b.circuit.halfOpenCalls+(s.run host l).pending p.name := by
  induction l using List.reverseRecOn generalizing b with
  | nil => simp only [run_nil]; omega
  | append_singleton l t ih =>
    obtain ⟨b₀,hb₀⟩ := s.run_carries host hp l
    have hconfig := (s.run_frame host l).1
    obtain ⟨b',hb',hmove⟩ := (s.run host l).step_moves host t (by rw [hconfig]; exact he) hb₀
    have hstatus := hhalf l (List.prefix_append l [t])
    have hstatus' := hhalf (l ++ [t]) (List.prefix_refl _)
    rw [run_concat] at hb hstatus' ⊢
    have hbb : b' = b := hb'.unique hb
    subst hbb
    rw [status_eq hb₀,Option.some.injEq] at hstatus
    rw [status_eq hb',Option.some.injEq] at hstatus'
    have hle := ih (fun l' hl' => hhalf l' (hl'.trans (List.prefix_append l [t])))
      (fun l' u hl' => hcloses l' u (hl'.trans (List.prefix_append l [t]))) hb₀
    have hsuccess := hcloses l t (List.prefix_refl _) b₀.circuit hb₀.2
    obtain ⟨hlog,hpending⟩ := (s.run host l).step_account host p.name t
    have hcalls := hmove.halfOpenCalls_eq hstatus hstatus'
    have hrecord : ((s.run host l).threads t).pc.records p.name ≠ some true := by
      intro hr
      rw [hr] at hmove
      exact hmove.not_success hstatus (hsuccess hr) hstatus'
    have hsame : (((s.run host l).threads t).pc.records p.name).isSome.toNat =
        if ((s.run host l).threads t).pc.records p.name = some false then 1 else 0 := by
      cases hr : ((s.run host l).threads t).pc.records p.name with
      | none => rfl
      | some outcome =>
        cases outcome with
        | false => rfl
        | true => exact absurd hr hrecord
    rw [hlog]
    omega

/-- A check that finds no call under way and lets its own one through finds the circuit below its
limit, and nothing but failed half-open calls since it turned half-open. -/
theorem dispatched_lt_of_checks {host : Host} {s : Sys τ ι ε δ} {p : ProviderConfig ι}
    (hp : p ∈ s.pm.providers) (he : s.pm.config.circuitBreaker.enabled = true) {l l' : List τ}
    {t : τ} (hhalf : ∀ m, m <+: l → (s.run host m).status p.name = some .halfOpen)
    (hcloses : ∀ m u, m ++ [u] <+: l → (s.run host m).Closes p.name u)
    (hcheck : (s.run host l).checks t = true) (hpending : (s.run host l).pending p.name = 0)
    (hinvokes : (s.run host (l ++ t :: l')).invokes p.name t = true) :
    (s.run host l).dispatched p.name <
      s.dispatched p.name+s.pm.config.circuitBreaker.halfOpenMaxCalls.toNat := by
  obtain ⟨b,hb⟩ := s.run_carries host hp l
  have hconfig := (s.run_frame host l).1
  have hstatus : b.circuit.state = .halfOpen := by
    simpa [status_eq hb] using hhalf l (List.prefix_refl l)
  rw [List.append_cons,run_append,run_concat] at hinvokes
  have hlt := halfOpenCalls_lt hcheck (by rw [hconfig]; exact he) hinvokes hb hstatus
  have hfew := dispatched_le_pending hp he hhalf hcloses hb
  rw [hconfig] at hlt
  omega

end Sys

/-- In every run that keeps to one probe at a time, between the moment at which a circuit turns
half-open and its next change no more than `HalfOpenMaxCalls` invocations are made. -/
theorem halfOpen_dispatches_le [ScoringEngine ε] [Fintype τ] [DecidableEq τ]
    (pm : ProviderManager ι ε) (calls : τ → Call ι δ) (host : Host)
    (he : pm.config.circuitBreaker.enabled = true)
    (hmax : 1 ≤ pm.config.circuitBreaker.halfOpenMaxCalls) (p : ProviderConfig ι)
    (hp : p ∈ pm.providers) (sched : List τ)
    (hprobes : ∀ before t, before ++ [t] <+: sched →
      (Sys.start pm calls).ProbesAlone host p.name before t) :
    ∀ before x mid after, sched = before ++ x :: (mid ++ after) →
      ((Sys.start pm calls).run host before).turns host p.name .opened .halfOpen x = true →
      (∀ mid', mid' <+: mid →
        ((Sys.start pm calls).run host (before ++ x :: mid')).status p.name = some .halfOpen) →
      ((Sys.start pm calls).run host (before ++ x :: mid)).dispatched p.name ≤
        ((Sys.start pm calls).run host (before ++ [x])).dispatched p.name+
          pm.config.circuitBreaker.halfOpenMaxCalls.toNat := by
  intro before x mid after hsched _ hhalf
  set s₀ := Sys.start pm calls with hs₀
  have hrun (l : List τ) : s₀.run host (before ++ x :: l) =
      (s₀.run host (before ++ [x])).run host l := by
    rw [← Sys.run_append,List.append_assoc,List.singleton_append]
  induction mid using List.reverseRecOn generalizing after with
  | nil => exact Nat.le_add_right _ _
  | append_singleton mid t ih =>
    have hle := ih (t :: after) (by simp [hsched]) fun mid' hmid' =>
      hhalf mid' (hmid'.trans (List.prefix_append mid [t]))
    have hcloses (l : List τ) (u : τ) (hl : l ++ [u] <+: mid ++ [t]) :=
      hprobes (before ++ x :: l) u (by
        rw [hsched,List.append_assoc,List.cons_append,List.prefix_append_right_inj,
          List.prefix_cons_inj]
        exact hl.trans (List.prefix_append _ _)) (hhalf l ((List.prefix_append l [u]).trans hl))
    have hconcat : s₀.run host (before ++ x :: (mid ++ [t])) =
        (s₀.run host (before ++ x :: mid)).step host t := by
      rw [← Sys.run_concat,List.append_assoc,List.cons_append]
    rw [hconcat,((s₀.run host (before ++ x :: mid)).step_account host p.name t).1]
    cases hi : (s₀.run host (before ++ x :: mid)).invokes p.name t with
    | false => exact hle
    | true =>
      obtain ⟨l,-,hl,hcheck,hpending,hsame⟩ := (hcloses mid t (List.prefix_refl _)).1 hi
      rw [hsame,Bool.toNat_true]
      have hfront : before ++ [x] <+: before ++ x :: mid := ⟨mid,by simp⟩
      rcases List.prefix_or_prefix_of_prefix ((List.prefix_append l [t]).trans hl) hfront with
        hearly | ⟨m,rfl⟩
      · -- the check was made when the circuit turned half-open, or before
        obtain ⟨m,hm⟩ := hearly
        have hmono := (s₀.run host l).dispatched_mono host p.name m
        rw [← Sys.run_append,hm] at hmono
        omega
      · -- the check found fewer calls than the limit, and none was under way
        obtain ⟨rest,hrest⟩ := hl
        have hmid : m ++ t :: rest = mid := by simpa using hrest
        have hm : m <+: mid ++ [t] := ⟨t :: (rest ++ [t]),by simp [← hmid]⟩
        obtain ⟨hconfig,hproviders⟩ := s₀.run_frame host (before ++ [x])
        rw [List.append_assoc,List.singleton_append,hrun] at hcheck hpending
        rw [List.append_assoc,List.singleton_append,hrun]
        rw [← hmid,hrun] at hi
        have hlt := Sys.dispatched_lt_of_checks (by rw [hproviders]; exact hp)
          (by rw [hconfig]; exact he)
          (fun l' hl' => by
            rw [← hrun]
            exact hhalf l' (hl'.trans hm))
          (fun l' u hl' => by
            rw [← hrun]
            exact (hcloses l' u (hl'.trans hm)).2)
          hcheck hpending hi
        rw [hconfig] at hlt
        exact hlt

def oneProbeConfig : ChainConfig :=
  { defaultChainConfig .balanceFetchers with
    retryPolicy := { (defaultChainConfig .balanceFetchers).retryPolicy with enabled := false }
    circuitBreaker := { (defaultChainConfig .balanceFetchers).circuitBreaker with
      failureThreshold := 1, successThreshold := 1, halfOpenMaxCalls := 1 } }

def probingCalls (t : Fin 3) : Call Unit ℕ where
  op _ _ := if t.val = 0 then .error (.plain "failed") else .ok 7

def twoProbesConfig : ChainConfig :=
  { defaultChainConfig .balanceFetchers with
    retryPolicy := { (defaultChainConfig .balanceFetchers).retryPolicy with maxAttempts := 4 }
    circuitBreaker := { (defaultChainConfig .balanceFetchers).circuitBreaker with
      failureThreshold := 3, halfOpenMaxCalls := 2 } }

/-- The first call fails three times and succeeds on its last retry. The others fail, and their
contexts are done before they can retry. -/
def onceRetriedCalls (t : Fin 4) : Call Unit ℕ where
  op k _ := if t = 0 ∧ k = 3 then .ok 7 else .error (.plain "failed")
  wait _ := if t = 0 then none else some (.plain "context canceled")

/-- The first call opens the circuit. Half a minute later the next two probe it one after the other
and fail, and the last one is not let through. -/
theorem halfOpen_dispatches_two :
    let s := Sys.start (.single twoProbesConfig "a") onceRetriedCalls
    let opened := List.replicate 25 0 ++ [1]
    let probes := List.replicate 9 1 ++ List.replicate 11 2 ++ List.replicate 3 3
    (s.run (halfMinuteAfter 18) (opened ++ 1 :: probes)).dispatched "a" = 6 ∧
      (s.run (halfMinuteAfter 18) (opened ++ 1 :: probes)).dispatched "a" ≤
        (s.run (halfMinuteAfter 18) (opened ++ [1])).dispatched "a"+2 := by
  intro s opened probes
  refine ⟨by decide +kernel,halfOpen_dispatches_le _ _ _ rfl (by decide) ⟨(),1,"a"⟩
    (List.mem_singleton.mpr rfl) (opened ++ 1 :: probes) ?_ opened 1 probes []
    (by rw [List.append_nil]) (by decide +kernel) ?_⟩
  · have hprobes : ∀ before ∈ (opened ++ 1 :: probes).inits, ∀ t,
        before ++ [t] <+: opened ++ 1 :: probes →
          s.ProbesAlone (halfMinuteAfter 18) "a" before t := by decide +kernel
    intro before t hbefore
    exact hprobes before ((List.mem_inits _ _).mpr ((List.prefix_append _ _).trans hbefore)) t
      hbefore
  · have hinits : ∀ mid ∈ probes.inits,
        (s.run (halfMinuteAfter 18) (opened ++ 1 :: mid)).status "a" = some .halfOpen := by
      decide +kernel
    intro mid hmid
    exact hinits mid ((List.mem_inits _ _).mpr hmid)

/-- The second and the third call both find the half-open circuit unused, and both invoke the
operation. -/
theorem halfOpen_overrun :
    oneProbeConfig.circuitBreaker.halfOpenMaxCalls = 1 ∧
    ((Sys.start (.single oneProbeConfig "a") probingCalls).run (halfMinuteAfter 6)
      (List.replicate 10 0 ++ [1])).turns (halfMinuteAfter 6) "a" .opened .halfOpen 1 = true ∧
    (∀ l ∈ [1,1,2,2,2,2,1,2].inits,
      ((Sys.start (.single oneProbeConfig "a") probingCalls).run (halfMinuteAfter 6)
        (List.replicate 10 0 ++ [1,1] ++ l)).status "a" = some .halfOpen) ∧
    ((Sys.start (.single oneProbeConfig "a") probingCalls).run (halfMinuteAfter 6)
      (List.replicate 10 0 ++ [1,1] ++ [1,1,2,2,2,2,1,2])).dispatched "a" =
    ((Sys.start (.single oneProbeConfig "a") probingCalls).run (halfMinuteAfter 6)
      (List.replicate 10 0 ++ [1,1])).dispatched "a"+2 := by
  refine ⟨rfl,?_,?_,?_⟩
  · decide
  · decide
  · decide

end ChainKit
