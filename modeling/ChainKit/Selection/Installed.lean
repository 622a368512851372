import ChainKit.Lib.Schedule
import ChainKit.Registration

/-! The selector that a manager has installed against the strategy in its configuration, under
the three calls that can change either of them. -/
namespace ChainKit
open Lib
variable {ι ε : Type}

/-- A call of `SetScoringEngine` with an engine, of `updateChainConfig` or of
`SetSelectionStrategy`. -/
inductive StrategyCall (ε : Type)
  | setScoringEngine (address : ℕ) (engine : ε)
  | updateChainConfig (draw : ℕ → ℕ) (config : ChainConfig)
  | setSelectionStrategy (draw : ℕ → ℕ) (strategy : SelectionStrategy)

/-- The selector is one that the factory makes for the strategy, with any history. -/
def Selector.IsOf : Selector → SelectionStrategy → Prop
  | .priorityOnly,.priorityOnly => True
  | .roundRobin _,.roundRobin => True
  | .random _ _,.random => True
  | .leastLoaded _,.leastLoaded => True
  | _,_ => False

theorem selectorFor_isOf (draw : ℕ → ℕ) {strategy : SelectionStrategy}
    (hvalid : strategy.isValid = true) (hadaptive : strategy ≠ .adaptive) :
    (selectorFor draw strategy).IsOf strategy := by
  cases strategy with
  | adaptive => exact absurd rfl hadaptive
  | other text => simp [SelectionStrategy.isValid] at hvalid
  | _ => trivial

namespace ProviderManager

def strategyStep [ScoringEngine ε] (pm : ProviderManager ι ε) :
    StrategyCall ε → ProviderManager ι ε
  | .setScoringEngine address engine => pm.setScoringEngine (some (address,engine))
  | .updateChainConfig draw config => (pm.updateChainConfig draw config).2
  | .setSelectionStrategy draw strategy => (pm.setSelectionStrategy draw strategy).2

def strategyRun [ScoringEngine ε] (pm : ProviderManager ι ε) (calls : List (StrategyCall ε)) :
    ProviderManager ι ε := calls.foldl strategyStep pm

/-- The installed selector is that of the configured strategy. -/
structure SelectorMatches (pm : ProviderManager ι ε) : Prop where
  adaptive : pm.config.selectionStrategy = .adaptive →
    ∀ engine, pm.scoringEngine = some engine → pm.selector = .adaptive engine
  valid : pm.config.selectionStrategy.isValid = true → pm.config.selectionStrategy ≠ .adaptive →
    pm.selector.IsOf pm.config.selectionStrategy

/-- The call does not panic, and it does not ask for the adaptive strategy while an engine is
attached; an update may do so when the strategy is adaptive already. -/
def Keeps (pm : ProviderManager ι ε) : StrategyCall ε → Prop
  | .setScoringEngine _ _ => True
  | .updateChainConfig _ config =>
    (pm.semaphore = config.maxConcurrency ∨ 0 ≤ config.maxConcurrency) ∧
      (config.selectionStrategy = .adaptive → pm.scoringEngine ≠ none →
        pm.config.selectionStrategy = .adaptive)
  | .setSelectionStrategy _ strategy => strategy = .adaptive → pm.scoringEngine = none

theorem registerMany_selectorMatches (draw : ℕ → ℕ) (config : ChainConfig)
    (slice : PrioritySort ι) (regs : List (Registration ι)) :
    ((empty draw config : ProviderManager ι ε).registerMany slice regs).SelectorMatches := by
  obtain ⟨hconfig,hselector,hengine,-⟩ :=
    registerMany_frame slice (empty draw config : ProviderManager ι ε) regs
  constructor
  · intro _ engine he
    rw [hengine] at he
    simp [empty] at he
  · rw [hconfig,hselector]
    exact selectorFor_isOf draw

/-- An update that does not panic leaves the selector alone or installs that of the strategy. -/
theorem updateChainConfig_selector (pm : ProviderManager ι ε) (draw : ℕ → ℕ)
    (config : ChainConfig)
    (h : pm.semaphore = config.maxConcurrency ∨ 0 ≤ config.maxConcurrency) :
    (pm.updateChainConfig draw config).2.scoringEngine = pm.scoringEngine ∧
    (pm.updateChainConfig draw config).2.config = config ∧
    (pm.updateChainConfig draw config).2.selector =
      if pm.config.selectionStrategy = config.selectionStrategy then pm.selector
      else selectorFor draw config.selectionStrategy := by
  have hpanic : ¬(pm.semaphore ≠ config.maxConcurrency ∧ config.maxConcurrency < 0) := by
    rintro ⟨hne,hneg⟩
    rcases h with h | h
    · exact hne h
    · omega
  simp only [updateChainConfig,if_neg hpanic]
  by_cases hs : pm.config.selectionStrategy = config.selectionStrategy
  · simp [hs]
  · simp [hs]

theorem strategyStep_selectorMatches [ScoringEngine ε] {pm : ProviderManager ι ε}
    (h : pm.SelectorMatches) (call : StrategyCall ε) (hkeeps : pm.Keeps call) :
    (pm.strategyStep call).SelectorMatches := by
  cases call with
  | setScoringEngine address engine =>
    constructor
    · intro _ engine' hengine
      simp only [strategyStep,setScoringEngine,Option.some.injEq] at hengine ⊢
      rw [hengine]
    · intro _ hne
      exact absurd rfl hne
  | updateChainConfig draw config =>
    obtain ⟨hengine,hconfig,hselector⟩ := pm.updateChainConfig_selector draw config hkeeps.1
    constructor
    · intro hadaptive engine he
      simp only [strategyStep] at hadaptive he ⊢
      rw [hconfig] at hadaptive
      rw [hengine] at he
      have hold := hkeeps.2 hadaptive (by simp [he])
      rw [hselector,if_pos (hold.trans hadaptive.symm)]
      exact h.adaptive hold engine he
    · intro hvalid hne
      simp only [strategyStep] at hvalid hne ⊢
      rw [hconfig] at hvalid hne ⊢
      rw [hselector]
      split_ifs with hs
      · rw [← hs] at hvalid hne ⊢
        exact h.valid hvalid hne
      · exact selectorFor_isOf draw hvalid hne
  | setSelectionStrategy draw strategy =>
    cases strategy with
    | adaptive =>
      have hnone := hkeeps rfl
      constructor
      · intro _ engine he
        simp [strategyStep,setSelectionStrategy,SelectionStrategy.isValid,newSelectionStrategy,
          hnone] at he
      · intro _ hne
        exact absurd rfl hne
    | other text => exact h
    | _ =>
      constructor
      · intro hadaptive
        cases hadaptive
      · intro _ _
        exact trivial

/-- Along every sequence of calls that do not ask for the adaptive strategy on top of an
attached engine, and do not panic, the installed selector is that of the configured strategy. -/
theorem strategyRun_selectorMatches [ScoringEngine ε] (draw : ℕ → ℕ) (config : ChainConfig)
    (slice : PrioritySort ι) (regs : List (Registration ι)) (calls : List (StrategyCall ε))
    (hkeeps : ∀ before call after, calls = before ++ call :: after →
      (((empty draw config : ProviderManager ι ε).registerMany slice regs).strategyRun
        before).Keeps call) :
    (((empty draw config : ProviderManager ι ε).registerMany slice regs).strategyRun
      calls).SelectorMatches := by
  apply foldl_invariant (I := SelectorMatches) (registerMany_selectorMatches draw config slice regs)
  intro before call after hsplit h
  exact strategyStep_selectorMatches h call (hkeeps before call after hsplit)

/-- An engine is attached and the strategy set to round-robin: the selector follows. -/
theorem strategyRun_selectorMatches_roundRobin :
    ((single (defaultChainConfig .balanceFetchers) "a").strategyRun
      [.setScoringEngine 0 (),.setSelectionStrategy (fun _ => 0) .roundRobin]).SelectorMatches := by
  apply strategyRun_selectorMatches (fun _ => 0) (defaultChainConfig .balanceFetchers) .insertion
    [⟨some (),1,"a",0,0,0⟩]
  intro before call after hsplit
  rcases before with _ | ⟨_,_ | ⟨_,before⟩⟩
  · simp only [List.nil_append,List.cons.injEq] at hsplit
    rw [← hsplit.1]
    trivial
  · simp only [List.cons_append,List.nil_append,List.cons.injEq] at hsplit
    rw [← hsplit.2.1]
    exact nofun
  · simp at hsplit

/-- Adaptive, then round-robin, then adaptive again by updates of the configuration: the engine
is attached and the strategy adaptive, but the providers come in the priority order. -/
theorem strategyRun_adaptive_again :
    ∃ pm : ProviderManager Unit Unit,
      pm = (single (defaultChainConfig .balanceFetchers) "a").strategyRun
        [.setScoringEngine 0 (),
          .updateChainConfig (fun _ => 0)
            { defaultChainConfig .balanceFetchers with selectionStrategy := .roundRobin },
          .updateChainConfig (fun _ => 0)
            { defaultChainConfig .balanceFetchers with selectionStrategy := .adaptive }] ∧
      pm.config.selectionStrategy = .adaptive ∧ pm.scoringEngine = some 0 ∧
      pm.selector = .priorityOnly ∧ ¬pm.SelectorMatches := by
  refine ⟨_,rfl,rfl,rfl,rfl,?_⟩
  intro h
  have := h.adaptive rfl 0 rfl
  exact Selector.noConfusion this

end ProviderManager
end ChainKit
