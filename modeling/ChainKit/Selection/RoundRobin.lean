import ChainKit.RunOp.Fallback
import ChainKit.RunOp.Trace
import ChainKit.Selection.Order

/-! Round-robin fairness over sequences of calls. The index of a priority moves on by one with
each call that is served there, whichever of its providers served it, so the first choices go
round. -/
namespace ChainKit
open Lib
variable {ι ε δ : Type}

theorem priorities_eq_cons {available : List (ProviderConfig ι)} {priority : ℤ}
    (hgroup : priorityGroup available priority ≠ [])
    (hlow : ∀ p ∈ available, priority ≤ p.priority) :
    ∃ rest, priorities available = priority :: rest := by
  have hmem : ∀ r, r ∈ priorities available ↔ ∃ p ∈ available, p.priority = r := by
    intro r
    rw [priorities,(List.mergeSort_perm _ _).mem_iff,List.mem_dedup,List.mem_map]
  obtain ⟨p,hp⟩ := List.exists_mem_of_ne_nil _ hgroup
  simp only [priorityGroup,List.mem_filter,decide_eq_true_eq] at hp
  have hin : priority ∈ priorities available := (hmem priority).mpr ⟨p,hp.1,hp.2⟩
  have hsorted := priorities_sorted available
  cases hps : priorities available with
  | nil =>
    rw [hps] at hin
    cases hin
  | cons first rest =>
    rw [hps] at hin hsorted
    obtain ⟨q,hq,hfirst⟩ := (hmem first).mp (by rw [hps]; exact List.mem_cons_self)
    have hle : priority ≤ first := hfirst ▸ hlow q hq
    have hge : first ≤ priority := by
      rcases List.mem_cons.mp hin with h | h
      · exact h.ge
      · exact (List.pairwise_cons.mp hsorted).1 priority h
    exact ⟨rest,by rw [le_antisymm hle hge]⟩

theorem Selector.selectProviders_roundRobin_head [ScoringEngine ε] (indexes : ℤ → ℕ)
    (states : String → ProviderState) (engines : ℕ → Option ε)
    {available : List (ProviderConfig ι)} {priority : ℤ}
    (hgroup : priorityGroup available priority ≠ [])
    (hlow : ∀ p ∈ available, priority ≤ p.priority) :
    ((Selector.roundRobin indexes).selectProviders states engines available).1.head? =
      ((priorityGroup available priority).rotate (indexes priority)).head? := by
  obtain ⟨rest,hrest⟩ := priorities_eq_cons hgroup hlow
  have hrotate : (priorityGroup available priority).rotate (indexes priority) ≠ [] := by
    rw [ne_eq,List.rotate_eq_nil_iff]
    exact hgroup
  simp only [selectProviders,hrest,arrangeGroups]
  split_ifs with hone
  · obtain ⟨p,hp⟩ := List.length_eq_one_iff.mp hone
    simp [hp]
  · rw [List.rotate_mod,List.head?_append_of_ne_nil _ hrotate]

namespace World
variable [ScoringEngine ε] (host : Host)

/-- The providers that pass their checks at the start of the call. -/
def Available (available : List (ProviderConfig ι)) (w : World ι ε δ) (_ : Call ι δ) : Prop :=
  (filterAvailable w.pm.config (host.now (w.ticks+1)) w.pm.providers w.pm.states).1 = .ok available

/-- The call succeeds, and its last invocation is on a provider of the given priority. -/
def ServedAt (priority : ℤ) (w : World ι ε δ) (call : Call ι δ) : Prop :=
  ∃ r d, (w.runOp host call).1 = .ok r ∧ r.err = none ∧
    (w.runOp host call).2.log.getLast? = some d ∧ d.provider.priority = priority

instance [DecidableEq ι] (available : List (ProviderConfig ι)) (w : World ι ε δ) (call : Call ι δ) :
    Decidable (w.Available host available call) := inferInstanceAs (Decidable (_ = _))

instance (w : World ι ε δ) (call : Call ι δ) (priority : ℤ) :
    Decidable (w.ServedAt host priority call) :=
  decidable_of_iff ((w.runOp host call).1.toOption.map OpReturn.err = some none ∧
      (w.runOp host call).2.log.getLast?.map (·.provider.priority) = some priority) (by
    simp only [ServedAt]
    cases (w.runOp host call).1 with
    | error panic => simp [Except.toOption]
    | ok r => simp [Except.toOption])

/-- The provider that the selection puts first for the call. -/
def firstChoice (w : World ι ε δ) (call : Call ι δ) : Option (ProviderConfig ι) :=
  match ((w.enter call).getAvailableProviders host).1 with
  | .ok providers => providers.head?
  | .error _ => none

/-- The provider of the first invocation that the call makes. -/
def firstTried (w : World ι ε δ) (call : Call ι δ) : Option (ProviderConfig ι) :=
  ((w.runOp host call).2.log.drop w.log.length).head?.map Dispatch.provider

/-- A sequence of calls as steps from world to world. -/
def afterCall (w : World ι ε δ) (call : Call ι δ) : World ι ε δ := (w.runOp host call).2

variable {host} {w : World ι ε δ} {call : Call ι δ} {indexes : ℤ → ℕ}
  {available : List (ProviderConfig ι)} {priority : ℤ}

theorem getAvailableProviders_roundRobin (hsel : w.pm.selector = .roundRobin indexes)
    (hav : w.Available host available call) :
    ((w.enter call).getAvailableProviders host).1 =
        .ok ((Selector.roundRobin indexes).selectProviders
          (filterAvailable w.pm.config (host.now (w.ticks+1)) w.pm.providers w.pm.states).2
          w.pm.engines available).1 ∧
      ((w.enter call).getAvailableProviders host).2.pm.selector = .roundRobin indexes := by
  have hav' : (filterAvailable (w.enter call).pm.config ((w.enter call).now host)
      (w.enter call).pm.providers (w.enter call).pm.states).1 = .ok available := hav
  have hsel' : (w.enter call).pm.selector = .roundRobin indexes := hsel
  simp only [getAvailableProviders,ProviderManager.getAvailableProviders,hav',hsel']
  exact ⟨rfl,rfl⟩

/-- One call that is served by the first group. -/
theorem runOp_roundRobin (hsel : w.pm.selector = .roundRobin indexes)
    (hav : w.Available host available call) (hserved : w.ServedAt host priority call)
    (hgroup : priorityGroup available priority ≠ [])
    (hlow : ∀ p ∈ available, priority ≤ p.priority) :
    w.firstChoice host call =
        ((priorityGroup available priority).rotate (indexes priority)).head? ∧
      (w.runOp host call).2.pm.selector =
        .roundRobin (Function.update indexes priority (indexes priority+1)) ∧
      (w.runOp host call).2.pm.selectedProvider = w.pm.selectedProvider ∧
      (call.providerName = none → w.pm.selectedProvider = "" →
        w.firstTried host call = w.firstChoice host call) := by
  obtain ⟨hlist,hkept⟩ := getAvailableProviders_roundRobin hsel hav
  obtain ⟨r,d,hr,herr,hlast,hd⟩ := hserved
  rw [← candidates_snd] at hkept
  refine ⟨?_,?_⟩
  · simp only [firstChoice,hlist]
    exact Selector.selectProviders_roundRobin_head indexes _ _ hgroup hlow
  · simp only [runOp] at hr hlast
    cases hc : ((w.enter call).candidates host call).1 with
    | error panic => simp [hc] at hr
    | ok c =>
      cases c with
      | error err =>
        rw [hc] at hr
        cases hr
        cases herr
      | ok providers =>
        obtain ⟨ds,hlog,hhead,hpinned,hend⟩ := runOpLoop_tries host call
          ((w.enter call).candidates host call).2.pm.config.retryPolicy (w.now host) providers 0
          none ((w.enter call).candidates host call).2
        rw [hc] at hr hlast
        cases hr
        obtain ⟨ds₀,d',data,rfl,-,hsel'⟩ := hend herr
        simp only [hlog,← List.append_assoc,List.getLast?_concat,Option.some.injEq] at hlast
        subst hlast
        rw [hkept,hd] at hsel'
        simp only [runOp,hc,firstTried]
        refine ⟨hsel',hpinned.trans (w.enter_candidates_selectedProvider host call),?_⟩
        intro hname hselected
        rw [hlog,enter_candidates_log,List.drop_left,hhead]
        simp only [firstChoice,
          (w.enter call).getAvailableProviders_of_unpinned host call hname hselected hc]

/-- The first choices of a sequence of calls that are served by the first group are its turns. -/
theorem observe_firstChoice (hsel : w.pm.selector = .roundRobin indexes)
    (hgroup : priorityGroup available priority ≠ [])
    (hlow : ∀ p ∈ available, priority ≤ p.priority) {calls : List (Call ι δ)}
    (hfixed : Along (afterCall host) (Available host available) w calls)
    (hserved : Along (afterCall host) (ServedAt host priority) w calls) :
    observe (afterCall host) (firstChoice host) w calls =
        turns (priorityGroup available priority) (indexes priority) calls.length ∧
      (w.pm.selectedProvider = "" → (∀ call ∈ calls, call.providerName = none) →
        observe (afterCall host) (firstTried host) w calls =
          observe (afterCall host) (firstChoice host) w calls) := by
  induction calls generalizing w indexes with
  | nil => exact ⟨rfl,fun _ _ => rfl⟩
  | cons call calls ih =>
    obtain ⟨hchoice,hnext,hpin,htried⟩ := runOp_roundRobin hsel hfixed.1 hserved.1 hgroup hlow
    obtain ⟨hrest,hrest'⟩ := ih (w := w.afterCall host call) hnext hfixed.2 hserved.2
    rw [Function.update_self] at hrest
    constructor
    · rw [observe,hchoice,hrest]
      rfl
    · intro hselected hnames
      rw [observe,observe,htried (hnames call (by simp)) hselected,
        hrest' (hpin.trans hselected) (fun c hc => hnames c (by simp [hc]))]

end World

/-- In a round-robin chain with fixed available providers, over `n*k` consecutive calls that are
each served by the first group, of `n` providers, every provider of the group is the first choice
exactly `k` times, wherever the rotation stands at the start. Unless a call is pinned to a
provider, the first choice is what it tries first. -/
theorem roundRobin_fair [ScoringEngine ε] [DecidableEq ι] (w : World ι ε δ) (host : Host)
    (indexes : ℤ → ℕ) (hsel : w.pm.selector = .roundRobin indexes)
    (available : List (ProviderConfig ι)) (priority : ℤ)
    (hgroup : priorityGroup available priority ≠ [])
    (hlow : ∀ p ∈ available, priority ≤ p.priority) (k : ℕ) (calls : List (Call ι δ))
    (hlen : calls.length = (priorityGroup available priority).length*k)
    (hfixed : Along (World.afterCall host) (World.Available host available) w calls)
    (hserved : Along (World.afterCall host) (World.ServedAt host priority) w calls)
    (p : ProviderConfig ι) :
    (observe (World.afterCall host) (World.firstChoice host) w calls).count p =
        k*(priorityGroup available priority).count p ∧
      (w.pm.selectedProvider = "" → (∀ call ∈ calls, call.providerName = none) →
        (observe (World.afterCall host) (World.firstTried host) w calls).count p =
          k*(priorityGroup available priority).count p) := by
  obtain ⟨hchoice,htried⟩ := World.observe_firstChoice hsel hgroup hlow hfixed hserved
  have hcount : (observe (World.afterCall host) (World.firstChoice host) w calls).count p =
      k*(priorityGroup available priority).count p := by
    rw [hchoice,hlen,count_turns]
  refine ⟨hcount,?_⟩
  intro hselected hnames
  rw [htried hselected hnames,hcount]

def roundRobinPair : ProviderManager String Unit :=
  ((ProviderManager.empty (fun _ => 0)
    { noRetryConfig with selectionStrategy := .roundRobin }).addProvider .insertion (some "a") 1 "a"
      0 0 0).addProvider .insertion (some "b") 1 "b" 0 0 0

/-- Each of the two is tried first in one of two calls, although "b" serves both. -/
theorem roundRobin_fair_pair :
    (observe (World.afterCall (.frozen 0)) (World.firstTried (.frozen 0))
      (World.start roundRobinPair) [failingOnA,failingOnA]).count ⟨"a",1,"a"⟩ = 1 := by
  have hfixed : Along (World.afterCall (.frozen 0)) (World.Available (.frozen 0)
      [⟨"a",1,"a"⟩,⟨"b",1,"b"⟩]) (World.start roundRobinPair) [failingOnA,failingOnA] :=
    ⟨by decide +kernel,by decide +kernel,trivial⟩
  have hserved : Along (World.afterCall (.frozen 0)) (World.ServedAt (.frozen 0) 1)
      (World.start roundRobinPair) [failingOnA,failingOnA] :=
    ⟨by decide +kernel,by decide +kernel,trivial⟩
  refine (roundRobin_fair (World.start roundRobinPair) (.frozen 0) (fun _ => 0) rfl
    [⟨"a",1,"a"⟩,⟨"b",1,"b"⟩] 1 (by decide) (by decide) 1 [failingOnA,failingOnA] rfl hfixed
    hserved ⟨"a",1,"a"⟩).2 rfl ?_
  intro call hcall
  simp only [List.mem_cons,List.not_mem_nil,or_false,or_self] at hcall
  rw [hcall]
  rfl

def pinnedToA : Call String ℕ where
  providerName := some "a"
  op _ _ := .ok 7

/-- A pinned call has one provider to try, whatever the rotation says: both calls are served by
the group, and "b" is not tried. -/
theorem roundRobin_pinned :
    Along (World.afterCall (.frozen 0)) (World.Available (.frozen 0)
        [⟨"a",1,"a"⟩,⟨"b",1,"b"⟩]) (World.start roundRobinPair) [pinnedToA,pinnedToA] ∧
      Along (World.afterCall (.frozen 0)) (World.ServedAt (.frozen 0) 1)
        (World.start roundRobinPair) [pinnedToA,pinnedToA] ∧
      (observe (World.afterCall (.frozen 0)) (World.firstTried (.frozen 0))
        (World.start roundRobinPair) [pinnedToA,pinnedToA]).count ⟨"b",1,"b"⟩ = 0 :=
  ⟨⟨by decide +kernel,by decide +kernel,trivial⟩,⟨by decide +kernel,by decide +kernel,trivial⟩,
    by decide +kernel⟩

end ChainKit
