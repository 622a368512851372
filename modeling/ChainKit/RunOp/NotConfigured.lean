import ChainKit.RateLimit.Window
import ChainKit.RunOp.Trace

/-! The error for a chain without providers, which a call also returns when all providers are
held back. -/
namespace ChainKit
variable {ι ε δ : Type}

theorem GoError.is_wrap_sentinel (before after : String) (inner : GoError) (s : Sentinel) :
    (GoError.wrap before inner after).is (.sentinel s) = inner.is (.sentinel s) := by
  rw [GoError.is]
  simp

theorem ProviderManager.getAvailableProviders_nil_iff [ScoringEngine ε]
    (pm : ProviderManager ι ε) (now : ℤ) :
    (pm.getAvailableProviders now).1 = .ok [] ↔
      (filterAvailable pm.config now pm.providers pm.states).1 = .ok [] := by
  constructor
  · intro h
    obtain ⟨available,hav,hperm⟩ := pm.getAvailableProviders_perm now h
    rw [hav,hperm.nil_eq]
  · intro h
    have hperm := pm.selector.selectProviders_perm
      (filterAvailable pm.config now pm.providers pm.states).2 pm.engines
      ([] : List (ProviderConfig ι))
    simp only [getAvailableProviders,h]
    rw [hperm.eq_nil]

namespace World
variable [ScoringEngine ε] (w : World ι ε δ) (host : Host) (call : Call ι δ)

/-- The call returns an error that wraps `ErrProviderNotConfigured`. -/
def ReturnsNotConfigured : Prop :=
  ∃ r e, (w.runOp host call).1 = .ok r ∧ r.err = some e ∧
    e.is GoError.ErrProviderNotConfigured = true

/-- No provider of the chain passes the check of the call. -/
def NoneAvailable : Prop :=
  (filterAvailable w.pm.config (host.now (w.ticks+1)) w.pm.providers w.pm.states).1 = .ok []

omit [ScoringEngine ε] in
theorem narrow_err {providers : List (ProviderConfig ι)} {e : GoError}
    (h : w.narrow host call providers = .error e) : ∃ text, e = .plain text := by
  simp only [narrow] at h
  split at h
  · split at h
    · cases h
    · cases h
      exact ⟨_,rfl⟩
  · split_ifs at h
    · split at h
      · cases h
      · cases h
        exact ⟨_,rfl⟩

/-- The call finds no list of providers in two ways only, and the error tells which. -/
theorem candidates_err {e : GoError}
    (h : ((w.enter call).candidates host call).1 = .ok (.error e)) :
    w.NoneAvailable host ∧
        e = .wrap "" GoError.ErrProviderNotConfigured ": no available providers" ∨
      ¬w.NoneAvailable host ∧ ∃ text, e = .plain text := by
  have hnil := (w.enter call).pm.getAvailableProviders_nil_iff ((w.enter call).now host)
  simp only [candidates] at h
  cases hav : ((w.enter call).getAvailableProviders host).1 with
  | error panic => simp [hav] at h
  | ok providers =>
    cases providers with
    | nil =>
      rw [hav] at h
      cases h
      exact Or.inl ⟨hnil.mp hav,rfl⟩
    | cons p ps =>
      simp only [hav,Except.ok.injEq] at h
      refine Or.inr ⟨?_,narrow_err _ host call h⟩
      intro hnone
      have := hav.symm.trans (hnil.mpr hnone)
      simp at this

theorem candidates_of_noneAvailable (h : w.NoneAvailable host) :
    ((w.enter call).candidates host call).1 =
      .ok (.error (.wrap "" GoError.ErrProviderNotConfigured ": no available providers")) := by
  have hav : ((w.enter call).getAvailableProviders host).1 = .ok [] :=
    ((w.enter call).pm.getAvailableProviders_nil_iff ((w.enter call).now host)).mpr h
  simp only [candidates,hav]

theorem returnsNotConfigured_of_noneAvailable (h : w.NoneAvailable host) :
    w.ReturnsNotConfigured host call := by
  have hc := w.candidates_of_noneAvailable host call h
  have hrun : (w.runOp host call).1 =
      .ok ⟨none,"",((w.enter call).candidates host call).2.now host-w.now host,0,
        some (.wrap "" GoError.ErrProviderNotConfigured ": no available providers")⟩ := by
    simp only [runOp,hc]
  refine ⟨_,_,hrun,rfl,?_⟩
  rw [GoError.ErrProviderNotConfigured,GoError.is_wrap_sentinel]
  exact GoError.is_self _

/-- An error of the operation or of the context does not tell of the chain. -/
theorem noneAvailable_of_returnsNotConfigured
    (hop : ∀ i x e, call.op i x = .error e → e.is GoError.ErrProviderNotConfigured = false)
    (hctx : ∀ k e, call.wait k = some e → e.is GoError.ErrProviderNotConfigured = false)
    (h : w.ReturnsNotConfigured host call) : w.NoneAvailable host := by
  obtain ⟨r,e,hr,he,his⟩ := h
  simp only [runOp] at hr
  cases hc : ((w.enter call).candidates host call).1 with
  | error panic => simp [hc] at hr
  | ok c =>
    cases c with
    | error err =>
      rw [hc] at hr
      cases hr
      cases he
      rcases w.candidates_err host call hc with ⟨hnone,-⟩ | ⟨-,text,rfl⟩
      · exact hnone
      · simp [GoError.is,GoError.ErrProviderNotConfigured] at his
    | ok providers =>
      rw [hc] at hr
      cases hr
      have hne := ((w.enter call).candidates_providers host call hc).1
      obtain ⟨inner,hinner,rfl⟩ := runOpLoop_err hop hctx _ _ providers 0 none
        (by simp) (fun _ => hne) _ he
      rw [GoError.ErrProviderNotConfigured,GoError.is_wrap_sentinel] at his
      rw [GoError.ErrProviderNotConfigured,his] at hinner
      cases hinner

end World

/-- When neither the operation nor the context does so, a call returns an error that wraps
`ErrProviderNotConfigured` exactly when no provider passes its check. So it means that the chain
has no providers exactly as long as one of those that it has is available. -/
theorem returnsNotConfigured_iff [ScoringEngine ε] (w : World ι ε δ) (host : Host)
    (call : Call ι δ)
    (hop : ∀ i x e, call.op i x = .error e → e.is GoError.ErrProviderNotConfigured = false)
    (hctx : ∀ k e, call.wait k = some e → e.is GoError.ErrProviderNotConfigured = false) :
    (w.ReturnsNotConfigured host call ↔ w.NoneAvailable host) ∧
    ((w.ReturnsNotConfigured host call ↔ w.pm.providers = []) ↔
      w.pm.providers = [] ∨ ¬w.NoneAvailable host) := by
  have hnone : w.ReturnsNotConfigured host call ↔ w.NoneAvailable host :=
    ⟨w.noneAvailable_of_returnsNotConfigured host call hop hctx,
      w.returnsNotConfigured_of_noneAvailable host call⟩
  refine ⟨hnone,?_⟩
  rw [hnone]
  have hempty : w.pm.providers = [] → w.NoneAvailable host := by
    intro h
    rw [World.NoneAvailable,h]
    rfl
  constructor
  · intro h
    by_cases hn : w.NoneAvailable host
    · exact Or.inl (h.mp hn)
    · exact Or.inr hn
  · rintro (h | h)
    · exact iff_of_true (hempty h) h
    · exact iff_of_false h (fun hp => h (hempty hp))

/-- A call that fails on the only provider of its chain. -/
theorem returnsNotConfigured_iff_failing :
    ¬(World.start (.single (defaultChainConfig .balanceFetchers) "a")).ReturnsNotConfigured
      (.frozen 0) failingCall := by
  have h := (returnsNotConfigured_iff (.start (.single (defaultChainConfig .balanceFetchers) "a"))
    (.frozen 0) failingCall (by rintro i x e ⟨⟩; rfl) (by rintro k e ⟨⟩)).1
  rw [h]
  intro hnone
  have hone : (filterAvailable (defaultChainConfig .balanceFetchers) 0
      (ProviderManager.single (defaultChainConfig .balanceFetchers) "a").providers
      (ProviderManager.single (defaultChainConfig .balanceFetchers) "a").states).1 =
        .ok [⟨(),1,"a"⟩] := rfl
  have := hone.symm.trans hnone
  simp at this

/-- A chain whose only provider is held back by its circuit, and one whose only provider has used
up its rate limit: both report that no provider is configured. -/
theorem notConfigured_excluded :
    ∃ w w' : World Unit Unit ℕ,
      w = (World.start (.single strictConfig "a")).runCalls (.frozen 0) [failingCall] ∧
      w' = (World.start (.single onePerMinuteConfig "a")).runCalls (.frozen 0)
        [{ op := fun _ _ => .ok 7 }] ∧
      w.pm.providers = [⟨(),1,"a"⟩] ∧ w'.pm.providers = [⟨(),1,"a"⟩] ∧
      w.ReturnsNotConfigured (.frozen 0) failingCall ∧
      w'.ReturnsNotConfigured (.frozen 0) failingCall :=
  ⟨_,_,rfl,rfl,rfl,rfl,⟨_,_,rfl,rfl,rfl⟩,⟨_,_,rfl,rfl,rfl⟩⟩

end ChainKit
