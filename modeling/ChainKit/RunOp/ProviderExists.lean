import ChainKit.Builder
import ChainKit.RunOp.Rules

/-! The test whether a provider is registered and the names to which a call can be pinned. The test
compares names letter by letter over twelve of the thirteen chains; a pinned call compares them up
to lower case, on any chain. -/
namespace ChainKit
variable {ι ε δ : Type}

def ProviderManager.hasProvider (pm : ProviderManager ι ε) (name : String) : Bool :=
  pm.providers.any fun p => decide (p.name = name)

/-- The managers over which `ProviderExists` goes. None of a built client is nil. -/
def existsOrder : List ProviderChainType :=
  [.addressGenerators,.addressValidators,.feeEstimators,.feeRecommenders,.txBroadcasters,
    .utxoFetchers,.txAssemblers,.txSizers,.txSigners,.txStatusFetchers,.balanceFetchers,
    .rateFetchers]

def MixedProviders.providerExists (mp : MixedProviders ι ε) (name : String) : Bool :=
  existsOrder.any fun t => (mp.chain t).hasProvider name

theorem mem_existsOrder (t : ProviderChainType) :
    t ∈ existsOrder ↔ t ≠ .historicalRateFetchers := by
  cases t <;> decide

theorem MixedProviders.providerExists_iff (mp : MixedProviders ι ε) (name : String) :
    mp.providerExists name = true ↔
      ∃ t ≠ ProviderChainType.historicalRateFetchers,
        ∃ p ∈ (mp.chain t).providers, p.name = name := by
  simp [providerExists,ProviderManager.hasProvider,mem_existsOrder]

theorem ProviderManager.findProviderByName_isSome (toLower : String → String)
    (list : List (ProviderConfig ι)) (name : String) :
    (findProviderByName toLower list name).isSome = true ↔
      ∃ p ∈ list, toLower p.name = toLower name := by
  simp [findProviderByName,List.find?_isSome]

namespace World

/-- Every provider of the chain passes its check in the next call. -/
def AllAvailable (w : World ι ε δ) (host : Host) : Prop :=
  (filterAvailable w.pm.config (host.now (w.ticks+1)) w.pm.providers w.pm.states).1 =
    .ok w.pm.providers

variable [ScoringEngine ε]

def Dispatched (w : World ι ε δ) (host : Host) (call : Call ι δ) : Prop :=
  w.log.length < (w.runOp host call).2.log.length

section
variable (host : Host) (call : Call ι δ) (w : World ι ε δ)

theorem attemptLoop_log (p : ProviderConfig ι) (n attempts : ℕ) (lastErr : Option GoError) :
    w.log <+: (attemptLoop host call p n attempts lastErr w).2.log := by
  induction n generalizing attempts lastErr w with
  | zero => exact List.prefix_refl _
  | succ n ih =>
    simp only [attemptLoop]
    generalize hw : (if 0 < attempts then { w with waited := w.waited+1 } else w) = w₁
    have hlog : w₁.log = w.log := by
      rw [← hw]
      split_ifs <;> rfl
    have hone : w.log <+: (w₁.attemptOnce host call p).2.log := by
      rw [attemptOnce_log,hlog]
      exact List.prefix_append _ _
    split
    · rw [hlog]
    · split
      · exact hone
      · exact hone.trans (ih _ _ _)

theorem attemptWithRetry_log (p : ProviderConfig ι) (policy : RetryPolicy) :
    w.log ++ [w.invocation host call p] <+: (w.attemptWithRetry host call p policy).2.log := by
  obtain ⟨n,hn⟩ := Nat.exists_eq_succ_of_ne_zero policy.attempts_pos.ne'
  rw [attemptWithRetry,hn]
  simp only [attemptLoop,lt_irrefl,if_false]
  split
  · rw [attemptOnce_log]
  · rw [← attemptOnce_log]
    exact attemptLoop_log host call _ p _ _ _

theorem runOpLoop_log (p : ProviderConfig ι) (policy : RetryPolicy) (start : ℤ) :
    w.log.length < (runOpLoop host call policy start [p] 0 none w).2.log.length := by
  have h := (w.attemptWithRetry_log host call p policy).length_le
  rw [List.length_append,List.length_singleton] at h
  simp only [runOpLoop]
  split
  · exact h
  · exact h

theorem getAvailableProviders_of_allAvailable (h : w.AllAvailable host) :
    ∃ l, ((w.enter call).getAvailableProviders host).1 = .ok l ∧ l.Perm w.pm.providers := by
  have hfilter : (filterAvailable w.pm.config (host.now (w.ticks+1)) w.pm.providers
      w.pm.states).1 = .ok w.pm.providers := h
  have hfound : ∃ l, ((w.enter call).getAvailableProviders host).1 = .ok l := by
    simp only [getAvailableProviders,ProviderManager.getAvailableProviders,enter,now,tick,hfilter]
    exact ⟨_,rfl⟩
  obtain ⟨l,hl⟩ := hfound
  obtain ⟨available,havailable,hperm⟩ := (w.enter call).pm.getAvailableProviders_perm _ hl
  have hall : available = w.pm.providers := Except.ok.inj (havailable.symm.trans hfilter)
  exact ⟨l,hl,hall ▸ hperm⟩

/-- A pinned call with every provider available is dispatched if and only if a provider of the
chain has the name, up to lower case. -/
theorem dispatched_iff (h : w.AllAvailable host) {name : String}
    (hpin : call.providerName = some name) :
    w.Dispatched host call ↔ ∃ p ∈ w.pm.providers, host.toLower p.name = host.toLower name := by
  obtain ⟨l,hl,hperm⟩ := w.getAvailableProviders_of_allAvailable host call h
  have hlog := w.enter_candidates_log host call
  have hmem : (∃ p ∈ l, host.toLower p.name = host.toLower name) ↔
      ∃ p ∈ w.pm.providers, host.toLower p.name = host.toLower name := by
    simp only [hperm.mem_iff]
  rw [← hmem,← ProviderManager.findProviderByName_isSome,Dispatched]
  cases hfound : ProviderManager.findProviderByName host.toLower l name with
  | none =>
    have hcandidates : ∃ err, ((w.enter call).candidates host call).1 = .ok (.error err) := by
      simp only [candidates,hl]
      cases l with
      | nil => exact ⟨_,rfl⟩
      | cons p ps => simp [narrow,hpin,hfound]
    obtain ⟨err,herr⟩ := hcandidates
    have hrun : (w.runOp host call).2.log = w.log := by
      simp only [runOp,herr]
      exact hlog
    simp [hrun]
  | some p =>
    have hcandidates : ((w.enter call).candidates host call).1 = .ok (.ok [p]) := by
      simp only [candidates,hl]
      cases l with
      | nil => cases hfound
      | cons q qs => simp [narrow,hpin,hfound]
    have hrun := ((w.enter call).candidates host call).2.runOpLoop_log host call p
      ((w.enter call).candidates host call).2.pm.config.retryPolicy (w.now host)
    rw [hlog] at hrun
    simp only [runOp,hcandidates,Option.isSome_some,iff_true]
    exact hrun

end
end World

/-- For every client and every state of its thirteen chains in which every provider is available:
if a provider exists, a call pinned to its name is dispatched on some chain. The converse holds if
and only if, whenever some provider has the name up to lower case, a provider of a chain other than
the historical rate fetchers has exactly that name. -/
theorem providerExists_iff_dispatched_iff [ScoringEngine ε] (mp : MixedProviders ι ε)
    (host : Host) (call : Call ι δ) (name : String) (hpin : call.providerName = some name)
    (worlds : ProviderChainType → World ι ε δ)
    (hchain : ∀ t, (worlds t).pm.providers = (mp.chain t).providers)
    (havailable : ∀ t, (worlds t).AllAvailable host) :
    (mp.providerExists name = true → ∃ t, (worlds t).Dispatched host call) ∧
    ((mp.providerExists name = true ↔ ∃ t, (worlds t).Dispatched host call) ↔
      ((∃ t, ∃ p ∈ (mp.chain t).providers, host.toLower p.name = host.toLower name) →
        ∃ t ≠ ProviderChainType.historicalRateFetchers,
          ∃ p ∈ (mp.chain t).providers, p.name = name)) := by
  have hdispatched : (∃ t, (worlds t).Dispatched host call) ↔
      ∃ t, ∃ p ∈ (mp.chain t).providers, host.toLower p.name = host.toLower name := by
    apply exists_congr
    intro t
    rw [World.dispatched_iff host call (worlds t) (havailable t) hpin,hchain]
  have hforward : (∃ t ≠ ProviderChainType.historicalRateFetchers,
      ∃ p ∈ (mp.chain t).providers, p.name = name) →
      ∃ t, ∃ p ∈ (mp.chain t).providers, host.toLower p.name = host.toLower name := by
    rintro ⟨t,_,p,hp,rfl⟩
    exact ⟨t,p,hp,rfl⟩
  rw [hdispatched,mp.providerExists_iff]
  refine ⟨hforward,?_⟩
  constructor
  · exact fun hagree hsome => hagree.mpr hsome
  · exact fun hback => ⟨hforward,hback⟩

/-- The surroundings of a builder for providers without names of their own. -/
def BuilderEnv.plain : BuilderEnv Unit where
  slice := .insertion
  nameOf _ := none
  draw _ := 0

def Host.asciiLower : Host :=
  ⟨fun _ => 0,monotone_const,fun s => String.ofList (s.toList.map Char.toLower)⟩

/-- A call that succeeds on any provider, pinned to one. -/
def pinnedCall (name : String) : Call Unit ℕ where
  providerName := some name
  op _ _ := .ok 0

/-- A client with one balance fetcher, asked for by its name. -/
theorem providerExists_iff_dispatched_balance :
    ∃ b : MixedProvidersBuilder Unit Unit,
      MixedProvidersBuilder.applyAll .plain
        [.withBalanceFetcherChain [⟨some (),"mempool",1,none,0,0,0⟩]] (.new .plain) = .ok b ∧
      (b.build.providerExists "mempool" = true ↔
        ∃ t, (World.start (b.build.chain t)).Dispatched .asciiLower (pinnedCall "mempool")) := by
  refine ⟨_,rfl,?_⟩
  apply (providerExists_iff_dispatched_iff _ .asciiLower (pinnedCall "mempool") "mempool" rfl
    (fun t => World.start (_ : ProviderManager Unit Unit)) (fun _ => rfl) ?_).2.mpr
  · intro _
    exact ⟨.balanceFetchers,by decide,_,List.mem_singleton_self _,rfl⟩
  · intro t
    cases t <;> rfl

/-- A provider that is registered for historical rates only does not exist, and neither does one
whose name is asked for in another case; calls are dispatched to both. -/
theorem dispatched_not_providerExists :
    (∃ b : MixedProvidersBuilder Unit Unit,
      MixedProvidersBuilder.applyAll .plain
        [.withHistoricalRateFetcherChain [⟨some (),"coingecko",1,none,0,0,0⟩]] (.new .plain) =
          .ok b ∧
      (∀ t, (World.start (b.build.chain t) : World Unit Unit ℕ).AllAvailable .asciiLower) ∧
      b.build.providerExists "coingecko" = false ∧
      (World.start (b.build.chain .historicalRateFetchers)).Dispatched .asciiLower
        (pinnedCall "coingecko")) ∧
    ∃ b : MixedProvidersBuilder Unit Unit,
      MixedProvidersBuilder.applyAll .plain
        [.withBalanceFetcherChain [⟨some (),"mempool",1,none,0,0,0⟩]] (.new .plain) = .ok b ∧
      (∀ t, (World.start (b.build.chain t) : World Unit Unit ℕ).AllAvailable .asciiLower) ∧
      b.build.providerExists "Mempool" = false ∧
      (World.start (b.build.chain .balanceFetchers)).Dispatched .asciiLower
        (pinnedCall "Mempool") := by
  constructor
  · refine ⟨_,rfl,?_,by decide,?_⟩
    · intro t
      cases t <;> rfl
    · rw [World.dispatched_iff .asciiLower (pinnedCall "coingecko") _ (by rfl) rfl]
      exact ⟨_,List.mem_singleton_self _,rfl⟩
  · refine ⟨_,rfl,?_,by decide,?_⟩
    · intro t
      cases t <;> rfl
    · rw [World.dispatched_iff .asciiLower (pinnedCall "Mempool") _ (by rfl) rfl]
      exact ⟨_,List.mem_singleton_self _,by decide⟩

end ChainKit
