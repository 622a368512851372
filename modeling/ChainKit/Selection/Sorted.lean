import ChainKit.Scoring.Engine
import ChainKit.Selection.Order

/-! The order in which the sorting selectors list the providers, for scores that do not change
while the list is sorted. -/
namespace ChainKit
variable {ι ε : Type}

namespace Selector
variable [ScoringEngine ε]

/-- The least loaded providers come first within each priority. -/
theorem selectProviders_leastLoaded (activeRequests : String → Option ℤ)
    (states : String → ProviderState) (engines : ℕ → Option ε)
    (available : List (ProviderConfig ι)) :
    ((Selector.leastLoaded activeRequests).selectProviders states engines available).1.Pairwise
      (fun p q => p.priority < q.priority ∨ p.priority = q.priority ∧
        getLoadScore activeRequests states p.name ≤ getLoadScore activeRequests states q.name) := by
  simp only [selectProviders]
  refine arrangeGroups_pairwise available _ ?_ (R := fun p q =>
    getLoadScore activeRequests states p.name ≤ getLoadScore activeRequests states q.name) ?_
    (priorities_strict available) ()
  · intro priority group s
    exact Lib.exchangeSort_perm _ group
  · intro priority group s
    exact Lib.exchangeSort_ascending
      (fun p : ProviderConfig ι => getLoadScore activeRequests states p.name) group

/-- The highest scores come first, whatever the priorities. -/
theorem selectProviders_adaptive {engines : ℕ → Option ε} {address : ℕ} {engine : ε}
    (h : engines address = some engine) (states : String → ProviderState)
    (available : List (ProviderConfig ι)) :
    ((Selector.adaptive address).selectProviders states engines available).1.Pairwise
      (fun p q => ScoringEngine.getEffectiveScore engine q.name ≤
        ScoringEngine.getEffectiveScore engine p.name) := by
  simp only [selectProviders,h]
  exact Lib.exchangeSort_sorted
    (fun p : ProviderConfig ι => ScoringEngine.getEffectiveScore engine p.name) available

end Selector

namespace Engine
variable (e : Engine) (order : List String)

theorem filterMap_scores :
    (order.filterMap (fun name =>
      (e.scores name).map (fun score => (name,score.effectiveScore)))) =
    (order.filter (fun name => (e.scores name).isSome)).map
      (fun name => (name,e.getEffectiveScore name)) := by
  induction order with
  | nil => rfl
  | cons name order ih =>
    cases hs : e.scores name with
    | none => simp [hs,ih]
    | some score => simp [hs,ih,getEffectiveScore]

theorem getSortedProviders_perm :
    (e.getSortedProviders order).Perm (order.filter (fun name => (e.scores name).isSome)) := by
  have hperm := (Lib.exchangeSort_perm (fun p q : String × ℚ => decide (p.2 < q.2))
    (order.filterMap (fun name =>
      (e.scores name).map (fun score => (name,score.effectiveScore))))).map Prod.fst
  refine hperm.trans (List.Perm.of_eq ?_)
  rw [filterMap_scores,List.map_map]
  exact List.map_id'' (fun _ => rfl) _

theorem getSortedProviders_sorted :
    (e.getSortedProviders order).Pairwise
      (fun a b => e.getEffectiveScore b ≤ e.getEffectiveScore a) := by
  have hsorted := Lib.exchangeSort_sorted (fun p : String × ℚ => p.2)
    (order.filterMap (fun name =>
      (e.scores name).map (fun score => (name,score.effectiveScore))))
  rw [getSortedProviders,List.pairwise_map]
  apply hsorted.imp_of_mem
  intro p q hp hq h
  have hscore : ∀ r ∈ Lib.exchangeSort (fun p q : String × ℚ => decide (p.2 < q.2))
      (order.filterMap (fun name =>
        (e.scores name).map (fun score => (name,score.effectiveScore)))),
      e.getEffectiveScore r.1 = r.2 := by
    intro r hr
    have hr' := (Lib.exchangeSort_perm _ _).subset hr
    rw [filterMap_scores] at hr'
    obtain ⟨name,-,rfl⟩ := List.mem_map.mp hr'
    rfl
  rw [hscore p hp,hscore q hq]
  exact h

end Engine

/-- The exchange sorts order their input correctly: the least-loaded selector each priority group
by ascending load, the groups by ascending priority, the adaptive selector all providers and
`GetSortedProviders` all names by descending effective score. -/
theorem exchangeSorts_sorted [ScoringEngine ε] (available : List (ProviderConfig ι))
    (states : String → ProviderState) (engines : ℕ → Option ε) :
    (∀ activeRequests : String → Option ℤ,
      let l := ((Selector.leastLoaded activeRequests).selectProviders states engines available).1
      l.Perm available ∧ l.Pairwise (fun p q => p.priority < q.priority ∨ p.priority = q.priority ∧
        getLoadScore activeRequests states p.name ≤ getLoadScore activeRequests states q.name)) ∧
    (∀ address engine, engines address = some engine →
      let l := ((Selector.adaptive address).selectProviders states engines available).1
      l.Perm available ∧ l.Pairwise (fun p q => ScoringEngine.getEffectiveScore engine q.name ≤
        ScoringEngine.getEffectiveScore engine p.name)) ∧
    ∀ (e : Engine) (order : List String),
      (e.getSortedProviders order).Perm (order.filter (fun name => (e.scores name).isSome)) ∧
      (e.getSortedProviders order).Pairwise
        (fun a b => e.getEffectiveScore b ≤ e.getEffectiveScore a) := by
  refine ⟨?_,?_,?_⟩
  · intro activeRequests
    exact ⟨Selector.selectProviders_perm _ _ _ _,
      Selector.selectProviders_leastLoaded activeRequests states engines available⟩
  · intro address engine h
    exact ⟨Selector.selectProviders_perm _ _ _ _,
      Selector.selectProviders_adaptive h states available⟩
  · intro e order
    exact ⟨e.getSortedProviders_perm order,e.getSortedProviders_sorted order⟩

/-- An engine in which the second of two providers has the better score. -/
theorem exchangeSorts_sorted_two :
    let engine := ((Engine.new defaultScoringConfig).registerProvider "a" 2).registerProvider "b" 1
    let available := [ProviderConfig.mk "a" 1 "a",⟨"b",2,"b"⟩]
    let l := ((Selector.adaptive 0).selectProviders (fun _ => {}) (fun _ => some engine)
      available).1
    l.Perm available ∧ l.Pairwise (fun p q =>
      engine.getEffectiveScore q.name ≤ engine.getEffectiveScore p.name) := by
  intro engine available
  exact (exchangeSorts_sorted available (fun _ => {}) (fun _ => some engine)).2.1 0 engine rfl

end ChainKit
