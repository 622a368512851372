import ChainKit.Registration

/-! What `getAvailableProviders` returns: the registered providers that pass their checks, each
as often as it is registered, and grouped by priority unless the selection is adaptive. -/
namespace ChainKit
variable {ι ε : Type}

/-- The answer of the check of `p` once the providers of `before` have been checked. Checks
of other names do not touch its entry. -/
def checkAt (config : ChainConfig) (now : ℤ) (states : String → ProviderState)
    (before : List (ProviderConfig ι)) (p : ProviderConfig ι) : Except Panic Bool :=
  (((ProviderState.check config now)^[before.countP (fun q => decide (q.name = p.name))]
    (states p.name)).isProviderAvailable config now).1

/-- The providers in the order of registration, each with the answer of its check. -/
def checks (config : ChainConfig) (now : ℤ) (states : String → ProviderState) :
    List (ProviderConfig ι) → List (ProviderConfig ι) → List (ProviderConfig ι × Except Panic Bool)
  | _,[] => []
  | before,p :: ps =>
    (p,checkAt config now states before p) :: checks config now states (before ++ [p]) ps

def passes : Except Panic Bool → Bool
  | .ok available => available
  | .error _ => false

def availableOf (config : ChainConfig) (now : ℤ) (states : String → ProviderState)
    (ps : List (ProviderConfig ι)) : List (ProviderConfig ι) :=
  ((checks config now states [] ps).filter (fun x => passes x.2)).map Prod.fst

theorem filterAvailable_checks (config : ChainConfig) (now : ℤ) (states : String → ProviderState)
    (before ps : List (ProviderConfig ι)) (current : String → ProviderState)
    (hcurrent : ∀ name, current name =
      (ProviderState.check config now)^[before.countP (fun q => decide (q.name = name))]
        (states name)) :
    match (filterAvailable config now ps current).1 with
    | .ok l =>
      l = ((checks config now states before ps).filter (fun x => passes x.2)).map Prod.fst
    | .error panic => ∃ x ∈ checks config now states before ps, x.2 = .error panic := by
  induction ps generalizing before current with
  | nil => rfl
  | cons p ps ih =>
    have hanswer : ((current p.name).isProviderAvailable config now).1 =
        checkAt config now states before p := by rw [hcurrent,checkAt]
    have hnext : ∀ name, Function.update current p.name ((current p.name).check config now) name =
        (ProviderState.check config now)^[(before ++ [p]).countP (fun q => decide (q.name = name))]
          (states name) := by
      intro name
      by_cases hn : name = p.name
      · subst hn
        rw [Function.update_self,hcurrent,List.countP_append,List.countP_singleton]
        simp [← Function.iterate_succ_apply']
      · rw [Function.update_of_ne hn,hcurrent,List.countP_append,List.countP_singleton]
        simp [Ne.symm hn]
    have hrest := ih (before ++ [p]) _ hnext
    simp only [filterAvailable,hanswer,checks]
    cases ha : checkAt config now states before p with
    | error panic => exact ⟨_,List.mem_cons_self,rfl⟩
    | ok available =>
      cases hr : (filterAvailable config now ps
          (Function.update current p.name ((current p.name).check config now))).1 with
      | error panic =>
        rw [hr] at hrest
        obtain ⟨x,hx,hpanic⟩ := hrest
        exact ⟨x,List.mem_cons_of_mem _ hx,hpanic⟩
      | ok l =>
        rw [hr] at hrest
        cases available with
        | false => simpa [passes] using hrest
        | true => simpa [passes] using hrest

theorem priorities_sorted (available : List (ProviderConfig ι)) :
    (priorities available).Pairwise (· ≤ ·) := by
  have htrans : ∀ a b c : ℤ, decide (a ≤ b) = true → decide (b ≤ c) = true →
      decide (a ≤ c) = true := by
    intro a b c hab hbc
    simp only [decide_eq_true_eq] at *
    omega
  have htotal : ∀ a b : ℤ, (decide (a ≤ b) || decide (b ≤ a)) = true := by
    intro a b
    simp only [Bool.or_eq_true,decide_eq_true_eq]
    omega
  simpa [priorities] using
    List.pairwise_mergeSort htrans htotal (available.map ProviderConfig.priority).dedup

theorem priorities_strict (available : List (ProviderConfig ι)) :
    (priorities available).Pairwise (· < ·) := by
  have hnodup : (priorities available).Nodup :=
    (List.mergeSort_perm _ _).nodup_iff.mpr (List.nodup_dedup _)
  exact ((priorities_sorted available).and hnodup).imp (fun h => lt_of_le_of_ne h.1 h.2)

section
variable {σ : Type} (available : List (ProviderConfig ι))
  (arrange : ℤ → List (ProviderConfig ι) → σ → List (ProviderConfig ι) × σ)
  (harrange : ∀ priority group s, (arrange priority group s).1.Perm group)
include harrange

theorem arrangeGroups_priority_mem {ps : List ℤ} {s : σ} {p : ProviderConfig ι}
    (hp : p ∈ (arrangeGroups available arrange ps s).1) : p.priority ∈ ps := by
  induction ps generalizing s with
  | nil => simp [arrangeGroups] at hp
  | cons priority rest ih =>
    simp only [arrangeGroups,List.mem_append] at hp
    rcases hp with hp | hp
    · have hgroup : p ∈ priorityGroup available priority := by
        split_ifs at hp
        · exact hp
        · exact (harrange _ _ _).subset hp
      simp only [priorityGroup,List.mem_filter,decide_eq_true_eq] at hgroup
      rw [hgroup.2]
      exact List.mem_cons_self
    · exact List.mem_cons_of_mem _ (ih hp)

/-- Groups behind each other, by ascending priority, each arranged by `R`. -/
theorem arrangeGroups_pairwise {R : ProviderConfig ι → ProviderConfig ι → Prop}
    (hR : ∀ priority group s, (arrange priority group s).1.Pairwise R)
    {ps : List ℤ} (hps : ps.Pairwise (· < ·)) (s : σ) :
    (arrangeGroups available arrange ps s).1.Pairwise
      (fun p q => p.priority < q.priority ∨ p.priority = q.priority ∧ R p q) := by
  induction ps generalizing s with
  | nil => exact List.Pairwise.nil
  | cons priority rest ih =>
    obtain ⟨hlt,hrest⟩ := List.pairwise_cons.mp hps
    simp only [arrangeGroups]
    set arranged := (if (priorityGroup available priority).length = 1
      then (priorityGroup available priority,s)
      else arrange priority (priorityGroup available priority) s) with harr
    have hgroup : ∀ p ∈ arranged.1, p.priority = priority := by
      intro p hp
      have hp' : p ∈ priorityGroup available priority := by
        rw [harr] at hp
        split_ifs at hp
        · exact hp
        · exact (harrange _ _ _).subset hp
      simpa [priorityGroup] using (List.mem_filter.mp hp').2
    have hinner : arranged.1.Pairwise R := by
      rw [harr]
      split_ifs with hone
      · obtain ⟨p,hp⟩ := List.length_eq_one_iff.mp hone
        rw [hp]
        exact List.pairwise_singleton R p
      · exact hR _ _ _
    rw [List.pairwise_append]
    refine ⟨?_,ih hrest _,?_⟩
    · apply hinner.imp_of_mem
      intro p q hp hq hpq
      exact Or.inr ⟨(hgroup p hp).trans (hgroup q hq).symm,hpq⟩
    · intro p hp q hq
      left
      rw [hgroup p hp]
      exact hlt _ (arrangeGroups_priority_mem available arrange harrange hq)

theorem arrangeGroups_sorted (s : σ) :
    (arrangeGroups available arrange (priorities available) s).1.Pairwise
      (fun p q => p.priority ≤ q.priority) := by
  have h := arrangeGroups_pairwise available arrange harrange (R := fun _ _ => True)
    (fun _ _ _ => List.pairwise_of_forall (fun _ _ => trivial)) (priorities_strict available) s
  refine h.imp ?_
  rintro p q (hlt | ⟨heq,-⟩)
  · exact hlt.le
  · exact heq.le

end

/-- Every strategy but the adaptive one keeps the priorities in ascending order. -/
theorem Selector.selectProviders_sorted [ScoringEngine ε] (selector : Selector)
    (hselector : ∀ engine, selector ≠ .adaptive engine) (states : String → ProviderState)
    (engines : ℕ → Option ε) {available : List (ProviderConfig ι)}
    (h : available.Pairwise (fun p q => p.priority ≤ q.priority)) :
    (selector.selectProviders states engines available).1.Pairwise
      (fun p q => p.priority ≤ q.priority) := by
  cases selector with
  | priorityOnly => exact h
  | roundRobin priorityIndexes =>
    exact arrangeGroups_sorted available _ (fun _ group _ => List.rotate_perm group _) ()
  | random draw used =>
    exact arrangeGroups_sorted available _
      (fun _ group s => Lib.shuffleFrom_perm draw _ s group) used
  | leastLoaded activeRequests =>
    exact arrangeGroups_sorted available _ (fun _ group _ => Lib.exchangeSort_perm _ group) ()
  | adaptive engine => exact absurd rfl (hselector engine)

namespace ProviderManager

/-- Whatever has happened to the trackers, the selector, the engines and the configuration of
a manager, it hands out the registered providers that are available, each once for each of its
registrations; unless the selection is adaptive the priorities ascend. Where nothing is
returned a check has panicked. -/
theorem getAvailableProviders_exact [ScoringEngine ε] (slice : PrioritySort ι) (draw : ℕ → ℕ)
    (config : ChainConfig) (regs : List (Registration ι)) (pm : ProviderManager ι ε)
    (hpm : pm.providers =
      ((empty draw config : ProviderManager ι ε).registerMany slice regs).providers) (now : ℤ) :
    pm.providers.Perm (registered regs) ∧
    match (pm.getAvailableProviders now).1 with
    | .ok l =>
      l.Perm (availableOf pm.config now pm.states pm.providers) ∧
        ((∀ engine, pm.selector ≠ .adaptive engine) →
          l.Pairwise (fun p q => p.priority ≤ q.priority))
    | .error panic =>
      ∃ x ∈ checks pm.config now pm.states [] pm.providers, x.2 = .error panic := by
  have hperm := registerMany_perm slice (empty draw config : ProviderManager ι ε) regs
  have hsorted := registerMany_sorted slice (empty draw config : ProviderManager ι ε) regs
    List.Pairwise.nil
  rw [← hpm] at hperm hsorted
  refine ⟨by simpa [empty] using hperm,?_⟩
  have hchecks := filterAvailable_checks pm.config now pm.states [] pm.providers pm.states
    (fun _ => rfl)
  simp only [getAvailableProviders]
  cases hr : (filterAvailable pm.config now pm.providers pm.states).1 with
  | error panic =>
    rw [hr] at hchecks
    exact hchecks
  | ok available =>
    rw [hr] at hchecks
    refine ⟨?_,?_⟩
    · rw [availableOf,← hchecks]
      exact Selector.selectProviders_perm _ _ _ _
    · intro hselector
      apply Selector.selectProviders_sorted _ hselector
      exact hsorted.sublist (filterAvailable_sublist hr)

/-- A chain of two providers, the one of lower priority registered first. -/
theorem getAvailableProviders_exact_two :
    (((empty (fun _ => 0) noRetryConfig : ProviderManager String Unit).registerMany .insertion
      [⟨some "b",2,"b",0,0,0⟩,⟨some "a",1,"a",0,0,0⟩]).getAvailableProviders 0).1 =
        .ok [⟨"a",1,"a"⟩,⟨"b",2,"b"⟩] ∧
    [ProviderConfig.mk "a" 1 "a",⟨"b",2,"b"⟩].Perm [⟨"b",2,"b"⟩,⟨"a",1,"a"⟩] ∧
    [ProviderConfig.mk "a" 1 "a",⟨"b",2,"b"⟩].Pairwise (fun p q => p.priority ≤ q.priority) := by
  have h := getAvailableProviders_exact (ε := Unit) .insertion (fun _ => 0) noRetryConfig
    [⟨some "b",2,"b",0,0,0⟩,⟨some "a",1,"a",0,0,0⟩] _ rfl 0
  exact ⟨rfl,h.1,h.2.2 (fun _ => nofun)⟩

end ProviderManager
end ChainKit
