import ChainKit.Tracking
import ChainKit.Lib.Rearrange
import ChainKit.Scoring.Event

/-! The selection strategies that order the available providers of a chain. -/
namespace ChainKit
variable {ι ε : Type}

/-- A registered provider; a lower priority number comes first. -/
structure ProviderConfig (ι : Type) where
  provider : ι
  priority : ℤ
  name : String
  deriving DecidableEq

/-- The state of the installed `selectionStrategy`. The draws of a random selector are those
its generator will produce. An adaptive selector keeps the address of the engine it asks. -/
inductive Selector
  | priorityOnly
  | roundRobin (priorityIndexes : ℤ → ℕ)
  | random (draw : ℕ → ℕ) (used : ℕ)
  | leastLoaded (activeRequests : String → Option ℤ)
  | adaptive (engine : ℕ)

/-- `newSelectionStrategy`. An adaptive chain starts with the priority order, and an unknown
strategy is an error. -/
def newSelectionStrategy (draw : ℕ → ℕ) : SelectionStrategy → Except GoError Selector
  | .priorityOnly => .ok .priorityOnly
  | .roundRobin => .ok (.roundRobin (fun _ => 0))
  | .random => .ok (.random draw 0)
  | .leastLoaded => .ok (.leastLoaded (fun _ => none))
  | .adaptive => .ok .priorityOnly
  | .other text => .error (.plain ("unknown selection strategy: " ++ text))

/-- The selector that a manager installs: the priority order where the strategy is unknown. -/
def selectorFor (draw : ℕ → ℕ) (strategy : SelectionStrategy) : Selector :=
  match newSelectionStrategy draw strategy with
  | .ok selector => selector
  | .error _ => .priorityOnly

/-- `getLoadScore`, in exact arithmetic. -/
def getLoadScore (activeRequests : String → Option ℤ) (states : String → ProviderState)
    (name : String) : ℚ :=
  (match activeRequests name with
    | some n => (n : ℚ)*10
    | none => 0) +
  (match (states name).failure with
    | some failure =>
      let totalRequests := failure.totalSuccesses+failure.totalFailures
      (if 0 < totalRequests then (failure.totalFailures : ℚ)/totalRequests*100 else 0) +
        (failure.consecutiveFailures : ℚ)*50
    | none => 0)

def priorities (available : List (ProviderConfig ι)) : List ℤ :=
  ((available.map ProviderConfig.priority).dedup).mergeSort (fun a b => decide (a ≤ b))

def priorityGroup (available : List (ProviderConfig ι)) (priority : ℤ) :
    List (ProviderConfig ι) :=
  available.filter (fun p => decide (p.priority = priority))

/-- Put the groups behind each other, each arranged on its own when it has several members.
`arrange` may carry a state from group to group. -/
def arrangeGroups {σ : Type} (available : List (ProviderConfig ι))
    (arrange : ℤ → List (ProviderConfig ι) → σ → List (ProviderConfig ι) × σ) :
    List ℤ → σ → List (ProviderConfig ι) × σ
  | [],s => ([],s)
  | priority :: rest,s =>
    let group := priorityGroup available priority
    let arranged := if group.length = 1 then (group,s) else arrange priority group s
    let tail := arrangeGroups available arrange rest arranged.2
    (arranged.1 ++ tail.1,tail.2)

namespace Selector

/-- `SelectProviders`: the providers in the order in which they are tried. The engines are
given by their addresses. -/
def selectProviders [ScoringEngine ε] (selector : Selector) (states : String → ProviderState)
    (engines : ℕ → Option ε) (available : List (ProviderConfig ι)) :
    List (ProviderConfig ι) × Selector :=
  match selector with
  | .priorityOnly => (available,selector)
  | .roundRobin priorityIndexes =>
    let rotate (priority : ℤ) (group : List (ProviderConfig ι)) (s : Unit) :=
      (group.rotate (priorityIndexes priority % group.length),s)
    ((arrangeGroups available rotate (priorities available) ()).1,selector)
  | .random draw used =>
    let shuffle (_ : ℤ) (group : List (ProviderConfig ι)) (used : ℕ) :=
      Lib.shuffleFrom draw (group.length-1) used group
    let r := arrangeGroups available shuffle (priorities available) used
    (r.1,.random draw r.2)
  | .leastLoaded activeRequests =>
    let score := getLoadScore activeRequests states
    let sort (_ : ℤ) (group : List (ProviderConfig ι)) (s : Unit) :=
      (Lib.exchangeSort (fun p q => decide (score q.name < score p.name)) group,s)
    ((arrangeGroups available sort (priorities available) ()).1,selector)
  | .adaptive engine =>
    match engines engine with
    | none => (available,selector)
    | some engine =>
      let score := ScoringEngine.getEffectiveScore engine
      (Lib.exchangeSort (fun p q => decide (score p.name < score q.name)) available,selector)

/-- `RecordAttempt`: only the round-robin selector moves on. -/
def recordAttempt (selector : Selector) (priority : ℤ) : Selector :=
  match selector with
  | .roundRobin priorityIndexes =>
    .roundRobin (Function.update priorityIndexes priority (priorityIndexes priority+1))
  | s => s

end Selector

theorem arrangeGroups_perm {σ : Type} (available : List (ProviderConfig ι))
    (arrange : ℤ → List (ProviderConfig ι) → σ → List (ProviderConfig ι) × σ)
    (harrange : ∀ priority group s, (arrange priority group s).1.Perm group)
    (ps : List ℤ) (hps : ps.Nodup) (s : σ) :
    (arrangeGroups available arrange ps s).1.Perm
      (available.filter (fun p => decide (p.priority ∈ ps))) := by
  induction ps generalizing s with
  | nil => simp [arrangeGroups]
  | cons priority rest ih =>
    obtain ⟨hnot,hrest⟩ := List.nodup_cons.mp hps
    set chosen := available.filter (fun p => decide (p.priority ∈ priority :: rest)) with hc
    have hgroup : chosen.filter (fun p => decide (p.priority = priority)) =
        priorityGroup available priority := by
      rw [hc,List.filter_filter,priorityGroup]
      congr 1
      funext p
      by_cases hp : p.priority = priority <;> simp [hp]
    have htail : chosen.filter (fun p => !decide (p.priority = priority)) =
        available.filter (fun p => decide (p.priority ∈ rest)) := by
      rw [hc,List.filter_filter]
      congr 1
      funext p
      by_cases hp : p.priority = priority <;> simp [hp,hnot]
    have hsplit := List.filter_append_perm (fun p => decide (p.priority = priority)) chosen
    rw [hgroup,htail] at hsplit
    apply List.Perm.trans _ hsplit
    simp only [arrangeGroups]
    apply List.Perm.append _ (ih hrest _)
    split_ifs
    · exact List.Perm.refl _
    · exact harrange _ _ _

theorem arrangeGroups_priorities_perm {σ : Type} (available : List (ProviderConfig ι))
    (arrange : ℤ → List (ProviderConfig ι) → σ → List (ProviderConfig ι) × σ)
    (harrange : ∀ priority group s, (arrange priority group s).1.Perm group) (s : σ) :
    (arrangeGroups available arrange (priorities available) s).1.Perm available := by
  have hsorted := List.mergeSort_perm (available.map ProviderConfig.priority).dedup
    (fun a b => decide (a ≤ b))
  have h := arrangeGroups_perm available arrange harrange (priorities available)
    (hsorted.nodup_iff.mpr (List.nodup_dedup _)) s
  rwa [List.filter_eq_self.mpr] at h
  intro p hp
  rw [decide_eq_true_eq,priorities,hsorted.mem_iff,List.mem_dedup]
  exact List.mem_map_of_mem hp

/-- No strategy invents, drops or repeats a provider. -/
theorem Selector.selectProviders_perm [ScoringEngine ε] (selector : Selector)
    (states : String → ProviderState) (engines : ℕ → Option ε)
    (available : List (ProviderConfig ι)) :
    (selector.selectProviders states engines available).1.Perm available := by
  cases selector with
  | priorityOnly => exact List.Perm.refl _
  | roundRobin priorityIndexes =>
    simp only [selectProviders]
    apply arrangeGroups_priorities_perm
    intro priority group s
    exact List.rotate_perm group _
  | random draw used =>
    simp only [selectProviders]
    apply arrangeGroups_priorities_perm
    intro priority group s
    exact Lib.shuffleFrom_perm draw _ s group
  | leastLoaded activeRequests =>
    simp only [selectProviders]
    apply arrangeGroups_priorities_perm
    intro priority group s
    exact Lib.exchangeSort_perm _ group
  | adaptive engine =>
    simp only [selectProviders]
    cases engines engine with
    | none => exact List.Perm.refl _
    | some engine => exact Lib.exchangeSort_perm _ available

end ChainKit
