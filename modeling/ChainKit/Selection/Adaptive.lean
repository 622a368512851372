import ChainKit.Builder
import ChainKit.Scoring.Engine

/-! The order of an adaptive chain before anything has been scored. The one engine keeps the
first priority it is given for a name, whichever chain that comes from. -/
namespace ChainKit
variable {ι : Type}

theorem baseScore_le_iff {p q : ℤ} (hp : 1 ≤ p ∧ p ≤ 10) (hq : 1 ≤ q ∧ q ≤ 10) :
    baseScore q ≤ baseScore p ↔ p ≤ q := by
  have hbase : ∀ r : ℤ, r ≤ 10 → baseScore r = 110-(r : ℚ)*10 := by
    intro r hr
    have : (r : ℚ) ≤ 10 := by exact_mod_cast hr
    unfold baseScore
    rw [if_neg]
    linarith
  rw [hbase p hp.2,hbase q hq.2]
  constructor
  · intro h
    have : (p : ℚ) ≤ q := by linarith
    exact_mod_cast this
  · intro h
    have : (p : ℚ) ≤ q := by exact_mod_cast h
    linarith

theorem newProviderScore_effectiveScore (priority latencyWindowSize : ℤ) :
    (newProviderScore priority latencyWindowSize).effectiveScore = baseScore priority := by
  have hbase : 10 ≤ baseScore priority := by
    unfold baseScore
    simp only
    split_ifs with h
    · exact le_refl _
    · exact not_lt.mp h
  simp only [ProviderScore.effectiveScore,newProviderScore,sub_zero]
  rw [if_neg]
  linarith

namespace Engine

theorem registerAll_scores (ps : List (ProviderConfig ι)) (e : Engine) (name : String) :
    (ProviderManager.registerAll ps e).scores name =
      (e.scores name).or ((ps.find? (fun p => decide (p.name = name))).map (fun p =>
        newProviderScore p.priority e.config.latencyWindowSize)) := by
  induction ps generalizing e with
  | nil => simp [ProviderManager.registerAll]
  | cons p ps ih =>
    have hstep : ProviderManager.registerAll (p :: ps) e =
        ProviderManager.registerAll ps (e.registerProvider p.name p.priority) := rfl
    have hconfig : (e.registerProvider p.name p.priority).config = e.config := by
      unfold registerProvider
      split <;> rfl
    rw [hstep,ih,hconfig]
    by_cases hn : p.name = name
    · subst hn
      cases hs : e.scores p.name with
      | none => simp [registerProvider,hs]
      | some score => simp [registerProvider,hs]
    · have hother : (e.registerProvider p.name p.priority).scores name = e.scores name := by
        unfold registerProvider
        split
        · rfl
        · exact Function.update_of_ne (Ne.symm hn) _ _
      simp [hother,hn]

end Engine

namespace MixedProvidersBuilder

section
variable {ε : Type} [ScoringEngine ε]

theorem attach_providers (address : ℕ) (ts : List ProviderChainType)
    (chains : ProviderChainType → ProviderManager ι ε) (engine : ε) (t : ProviderChainType) :
    ((attach address ts chains engine).1 t).providers = (chains t).providers := by
  induction ts generalizing chains engine with
  | nil => rfl
  | cons u ts ih =>
    rw [attach,ih]
    by_cases ht : t = u
    · subst ht
      rw [Function.update_self]
      rfl
    · rw [Function.update_of_ne ht]

theorem attach_selector (address : ℕ) (ts : List ProviderChainType)
    (chains : ProviderChainType → ProviderManager ι ε) (engine : ε) (t : ProviderChainType)
    (h : t ∈ ts ∨ (chains t).selector = .adaptive address) :
    ((attach address ts chains engine).1 t).selector = .adaptive address := by
  induction ts generalizing chains engine with
  | nil =>
    rcases h with h | h
    · cases h
    · exact h
  | cons u ts ih =>
    apply ih
    by_cases ht : t = u
    · subst ht
      right
      rw [Function.update_self]
      rfl
    · rcases h with h | h
      · exact Or.inl ((List.mem_cons.mp h).resolve_left ht)
      · right
        rwa [Function.update_of_ne ht]

/-- The engine ends up with the providers of all chains, in the order of the visits. -/
theorem attach_engine (address : ℕ) (ts : List ProviderChainType)
    (chains : ProviderChainType → ProviderManager ι ε) (engine : ε) :
    (attach address ts chains engine).2 =
      ProviderManager.registerAll (ts.flatMap (fun t => (chains t).providers)) engine := by
  induction ts generalizing chains engine with
  | nil => rfl
  | cons u ts ih =>
    have hsame : ∀ t, (Function.update chains u
        ((chains u).setScoringEngine (some (address,engine))) t).providers =
          (chains t).providers := by
      intro t
      by_cases ht : t = u
      · subst ht
        rw [Function.update_self]
        rfl
      · rw [Function.update_of_ne ht]
    rw [attach,ih]
    simp only [hsame,List.flatMap_cons,ProviderManager.registerAll,List.foldl_append]

end

/-- The providers of all chains in the order in which `Build` registers them. -/
def allProviders {ε : Type} (b : MixedProvidersBuilder ι ε) : List (ProviderConfig ι) :=
  buildOrder.flatMap (fun t => (b.chains t).providers)

def firstPriority {ε : Type} (b : MixedProvidersBuilder ι ε) (name : String) : ℤ :=
  ((b.allProviders.find? (fun p => decide (p.name = name))).map ProviderConfig.priority).getD 0

theorem build_score {b : MixedProvidersBuilder ι Engine} {address : ℕ} {config : ScoringConfig}
    (hengine : b.scoringEngine = some (address,Engine.new config)) {t : ProviderChainType}
    {p : ProviderConfig ι} (hp : p ∈ (b.chains t).providers) :
    ∃ e, b.build.engines address = some e ∧
      e.getEffectiveScore p.name = baseScore (b.firstPriority p.name) ∧
      ∃ u, ∃ q ∈ (b.chains u).providers, b.firstPriority p.name = q.priority := by
  have hall : p ∈ b.allProviders := List.mem_flatMap.mpr ⟨t,mem_buildOrder t,hp⟩
  obtain ⟨q,hq⟩ : ∃ q, b.allProviders.find? (fun r => decide (r.name = p.name)) = some q := by
    apply Option.isSome_iff_exists.mp
    rw [List.find?_isSome]
    exact ⟨p,hall,by simp⟩
  have hfirst : b.firstPriority p.name = q.priority := by
    rw [firstPriority,hq]
    rfl
  obtain ⟨u,-,hu⟩ := List.mem_flatMap.mp (List.mem_of_find?_eq_some hq)
  refine ⟨ProviderManager.registerAll b.allProviders (Engine.new config),?_,?_,u,q,hu,hfirst⟩
  · simp [build,hengine,attach_engine,allProviders]
  · rw [Engine.getEffectiveScore,Engine.registerAll_scores,hq]
    simp [Engine.new,newProviderScore_effectiveScore,hfirst]

/-- As long as nothing has been scored, an adaptive chain lists its available providers by
ascending priority if and only if the priorities that the engine keeps for their names, those of
the first registrations anywhere, are in no conflict with the priorities in the chain. -/
theorem build_adaptive_order_iff (env : BuilderEnv ι) (calls : List (BuilderCall ι Engine))
    {b : MixedProvidersBuilder ι Engine} (hb : applyAll env calls (.new env) = .ok b)
    {address : ℕ} {config : ScoringConfig}
    (hengine : b.scoringEngine = some (address,Engine.new config))
    (hpriority : ∀ t, ∀ p ∈ (b.chains t).providers, 1 ≤ p.priority ∧ p.priority ≤ 10)
    (t : ProviderChainType) (pm : ProviderManager ι Engine)
    (hproviders : pm.providers = (b.build.chain t).providers)
    (hselector : pm.selector = (b.build.chain t).selector)
    (hengines : pm.engines = (b.build.chain t).engines) (now : ℤ)
    {available : List (ProviderConfig ι)}
    (havailable : (filterAvailable pm.config now pm.providers pm.states).1 = .ok available) :
    ∃ l, (pm.getAvailableProviders now).1 = .ok l ∧
      (l.Pairwise (fun p q => p.priority ≤ q.priority) ↔
        ∀ p ∈ available, ∀ q ∈ available, p.priority < q.priority →
          b.firstPriority p.name ≤ b.firstPriority q.name) := by
  have hps : pm.providers = (b.chains t).providers := by
    rw [hproviders]
    simp [MixedProviders.chain,build,hengine,attach_providers]
  have hsel : pm.selector = .adaptive address := by
    rw [hselector]
    simp [MixedProviders.chain,build,hengine,
      attach_selector address buildOrder _ _ t (Or.inl (mem_buildOrder t))]
  have hsub : ∀ p ∈ available, p ∈ (b.chains t).providers := by
    intro p hp
    rw [← hps]
    exact (filterAvailable_sublist havailable).subset hp
  have hsorted : (available.map ProviderConfig.priority).Pairwise (· ≤ ·) := by
    rw [List.pairwise_map]
    apply List.Pairwise.sublist (filterAvailable_sublist havailable)
    rw [hps]
    exact applyAll_sorted env calls hb (fun _ => List.Pairwise.nil) t
  have heng : pm.engines = b.build.engines := hengines
  obtain ⟨e,he⟩ : ∃ e, b.build.engines address = some e := by
    simp [build,hengine]
  refine ⟨Lib.exchangeSort (fun p q =>
    decide (e.getEffectiveScore p.name < e.getEffectiveScore q.name)) available,?_,?_⟩
  · simp only [ProviderManager.getAvailableProviders,havailable,hsel,heng,Selector.selectProviders,
      he]
    rfl
  · have hiff := Lib.exchangeSort_classes_iff
      (fun p : ProviderConfig ι => e.getEffectiveScore p.name) ProviderConfig.priority available
      hsorted
    rw [List.pairwise_map] at hiff
    rw [hiff]
    have hscore : ∀ p ∈ available, ∀ q ∈ available,
        (e.getEffectiveScore q.name ≤ e.getEffectiveScore p.name ↔
          b.firstPriority p.name ≤ b.firstPriority q.name) := by
      intro p hp q hq
      obtain ⟨e₁,he₁,hs₁,u,p',hp',hfp⟩ := build_score hengine (hsub p hp)
      obtain ⟨e₂,he₂,hs₂,v,q',hq',hfq⟩ := build_score hengine (hsub q hq)
      rw [he] at he₁ he₂
      cases he₁
      cases he₂
      rw [hs₁,hs₂,hfp,hfq]
      exact baseScore_le_iff (hpriority u p' hp') (hpriority v q' hq')
    constructor
    · intro h p hp q hq hlt
      exact (hscore p hp q hq).mp (h p hp q hq hlt)
    · intro h p hp q hq hlt
      exact (hscore p hp q hq).mpr (h p hp q hq hlt)

/-- Two providers in two chains, with the given priorities in the second one. -/
def crossed (x y : ℤ) : List (BuilderCall String Engine) :=
  [.withAddressGeneratorChain [⟨some "x","x",1,none,0,0,0⟩,⟨some "y","y",2,none,0,0,0⟩],
    .withBalanceFetcherChain [⟨some "x","x",x,none,0,0,0⟩,⟨some "y","y",y,none,0,0,0⟩],
    .withAdaptiveScoringEngine 0 (.new defaultScoringConfig)]

def crossedEnv : BuilderEnv String := ⟨.insertion,fun _ => none,fun _ => 0⟩

def crossedBuilder (x y : ℤ) : MixedProvidersBuilder String Engine :=
  match applyAll crossedEnv (crossed x y) (.new crossedEnv) with
  | .ok b => b
  | .error _ => .new crossedEnv

/-- With the same priorities in both chains the second one keeps to its own. -/
theorem build_adaptive_order_straight :
    ∃ l, (((crossedBuilder 1 2).build.chain .balanceFetchers).getAvailableProviders 0).1 = .ok l ∧
      l.map ProviderConfig.name = ["x","y"] ∧
      l.Pairwise (fun p q => p.priority ≤ q.priority) := by
  have hengine :
      (crossedBuilder 1 2).scoringEngine = some (0,Engine.new defaultScoringConfig) := rfl
  have hfirst : ∀ p ∈ [ProviderConfig.mk "x" 1 "x",⟨"y",2,"y"⟩],
      ∀ q ∈ [ProviderConfig.mk "x" 1 "x",⟨"y",2,"y"⟩], p.priority < q.priority →
        (crossedBuilder 1 2).firstPriority p.name ≤ (crossedBuilder 1 2).firstPriority q.name := by
    decide +kernel
  have hpriority : ∀ t, ∀ p ∈ ((crossedBuilder 1 2).chains t).providers,
      1 ≤ p.priority ∧ p.priority ≤ 10 := by
    intro t
    cases t <;> decide
  have hlist : (((crossedBuilder 1 2).build.chain .balanceFetchers).getAvailableProviders 0).1 =
      .ok [⟨"x",1,"x"⟩,⟨"y",2,"y"⟩] := by decide +kernel
  obtain ⟨l,hl,hiff⟩ := build_adaptive_order_iff crossedEnv (crossed 1 2) rfl hengine hpriority
    .balanceFetchers ((crossedBuilder 1 2).build.chain .balanceFetchers) rfl rfl rfl 0 rfl
  refine ⟨l,hl,?_,hiff.mpr hfirst⟩
  rw [Except.ok.inj (hl.symm.trans hlist)]
  rfl

/-- With crossed priorities the second chain lists its second choice first. -/
theorem build_adaptive_order_crossed :
    applyAll crossedEnv (crossed 2 1) (.new crossedEnv) = .ok (crossedBuilder 2 1) ∧
    (((crossedBuilder 2 1).build.chain .balanceFetchers).getAvailableProviders 0).1 =
      .ok [⟨"x",2,"x"⟩,⟨"y",1,"y"⟩] := by
  refine ⟨rfl,?_⟩
  decide +kernel

end MixedProvidersBuilder
end ChainKit
