import ChainKit.Interleaving.System
import ChainKit.Registration

/-! How far the providers of a chain are tracked apart. The trackers are kept by name, so what
is recorded for one provider reaches exactly the providers that share its name. -/
namespace ChainKit
open Lib
variable {ι ε δ : Type}

namespace Pc

/-- The provider for which the next step records something. -/
def subject : Pc ι δ → Option (ProviderConfig ι)
  | .recordSuccess c _ _ => some c.provider
  | .recordLatency c _ _ => some c.provider
  | .recordAttempt c _ => some c.provider
  | .recordFailure c _ _ => some c.provider
  | .updateFailure c _ _ _ => some c.provider
  | .scoreFailure c _ _ _ => some c.provider
  | .handleAuthFailure c _ _ => some c.provider
  | _ => none

/-- The providers that a call has in hand are among `ps`. -/
def Within (ps : List (ProviderConfig ι)) : Pc ι δ → Prop
  | .narrow _ providers => providers ⊆ ps
  | .readPolicy _ providers => providers ⊆ ps
  | .attempt c => c.provider ∈ ps ∧ c.rest ⊆ ps
  | .inFlight c _ _ => c.provider ∈ ps ∧ c.rest ⊆ ps
  | .recordSuccess c _ _ => c.provider ∈ ps ∧ c.rest ⊆ ps
  | .recordLatency c _ _ => c.provider ∈ ps ∧ c.rest ⊆ ps
  | .recordAttempt c _ => c.provider ∈ ps ∧ c.rest ⊆ ps
  | .recordFailure c _ _ => c.provider ∈ ps ∧ c.rest ⊆ ps
  | .updateFailure c _ _ _ => c.provider ∈ ps ∧ c.rest ⊆ ps
  | .scoreFailure c _ _ _ => c.provider ∈ ps ∧ c.rest ⊆ ps
  | .handleAuthFailure c _ _ => c.provider ∈ ps ∧ c.rest ⊆ ps
  | _ => True

theorem nextProvider_within {ps l : List (ProviderConfig ι)} (hl : l ⊆ ps) (start : ℤ)
    (maxAttempts total : ℕ) (lastErr : Option GoError) :
    (nextProvider start maxAttempts total lastErr l : Pc ι δ).Within ps := by
  cases l with
  | nil => trivial
  | cons p l => exact ⟨hl List.mem_cons_self,List.subset_of_cons_subset hl⟩

theorem Within.subject_mem {ps : List (ProviderConfig ι)} {pc : Pc ι δ} {p : ProviderConfig ι}
    (h : pc.Within ps) (hp : pc.subject = some p) : p ∈ ps := by
  cases pc with
  | recordSuccess | recordLatency | recordAttempt | recordFailure | updateFailure | scoreFailure
  | handleAuthFailure =>
    cases hp
    exact h.1
  | _ => simp [subject] at hp

end Pc

namespace World

theorem afterFailure_within (w : World ι ε δ) {ps : List (ProviderConfig ι)} {c : Cursor ι}
    (hc : c.provider ∈ ps ∧ c.rest ⊆ ps) (err : GoError) : (w.afterFailure c err).2.Within ps := by
  unfold afterFailure
  split_ifs
  · exact hc
  · exact Pc.nextProvider_within hc.2 _ _ _ _

variable [ScoringEngine ε] (host : Host) (call : Call ι δ)

/-- A call has no other providers in hand than those of its check, and these are registered. -/
theorem step_within (w : World ι ε δ) (pc : Pc ι δ) {ps : List (ProviderConfig ι)}
    (h : pc.Within ps) (hcheck : ∀ start, pc = .getAvailable start → w.pm.providers ⊆ ps) :
    (step host call (w,pc)).2.Within ps := by
  cases pc with
  | entry => trivial
  | getAvailable start =>
    simp only [step]
    cases hr : (w.getAvailableProviders host).1 with
    | error panic => trivial
    | ok providers =>
      obtain ⟨available,hav,hperm⟩ := w.pm.getAvailableProviders_perm _ hr
      cases providers with
      | nil => trivial
      | cons p ps =>
        exact List.Subset.trans hperm.subset
          (List.Subset.trans (filterAvailable_sublist hav).subset (hcheck start rfl))
  | narrow start providers =>
    simp only [step]
    cases hn : w.narrow host call providers with
    | error err => trivial
    | ok ps => exact List.Subset.trans (narrow_sublist hn).subset h
  | readPolicy start providers => exact Pc.nextProvider_within h _ _ _ _
  | attempt c =>
    simp only [step]
    cases (if 0 < c.attempts then call.wait w.waited else none) with
    | some err => exact Pc.nextProvider_within h.2 _ _ _ _
    | none => exact h
  | inFlight c began result => cases result <;> exact h
  | recordSuccess c elapsed data => exact h
  | recordLatency c elapsed data => exact h
  | recordAttempt c data => trivial
  | recordFailure c elapsed err => exact h
  | updateFailure c elapsed err now => exact h
  | scoreFailure c elapsed err now =>
    simp only [step]
    split_ifs
    · exact h
    · exact afterFailure_within _ h err
  | handleAuthFailure c err now => exact afterFailure_within _ h err
  | finish start data providerName attempts err => trivial
  | returned r => trivial

theorem reaches_within {w w' : World ι ε δ} {pc : Pc ι δ}
    (h : Reaches (step host call) (w,.entry) (w',pc)) :
    w'.pm.providers = w.pm.providers ∧ pc.Within w.pm.providers := by
  refine h.invariant (I := fun s => s.1.pm.providers = w.pm.providers ∧
    s.2.Within w.pm.providers) ⟨rfl,trivial⟩ ?_
  rintro ⟨w₁,pc₁⟩ ⟨hps,hin⟩
  refine ⟨(step_frame host call w₁ pc₁).2.trans hps,?_⟩
  simp only at hps
  rw [← hps] at hin ⊢
  exact step_within host call w₁ pc₁ hin fun _ _ => List.Subset.refl _

/-- A step that records something for a provider leaves the entries of other names alone. -/
theorem step_states_of_ne (w : World ι ε δ) {pc : Pc ι δ} {p : ProviderConfig ι}
    (hp : pc.subject = some p) {name : String} (hn : name ≠ p.name) :
    (step host call (w,pc)).1.pm.states name = w.pm.states name := by
  rw [step_pm]
  cases pc with
  | recordSuccess c elapsed data =>
    cases hp
    simp [stepManager,ProviderManager.recordSuccess,hn]
  | updateFailure c elapsed err now =>
    cases hp
    simp [stepManager,ProviderManager.updateFailureState,hn]
  | handleAuthFailure c err now =>
    cases hp
    simp [stepManager,ProviderManager.handleAuthFailure,hn]
  | recordLatency | recordAttempt | recordFailure | scoreFailure => rfl
  | _ => simp [Pc.subject] at hp

end World

/-- What happens to a manager: a provider is registered or an operation is run. -/
inductive ManagerEvent (ι δ : Type)
  | add (reg : Registration ι)
  | call (call : Call ι δ)

namespace World
variable [ScoringEngine ε] (slice : PrioritySort ι) (host : Host)

def managerStep (w : World ι ε δ) : ManagerEvent ι δ → World ι ε δ
  | .add reg => { w with pm := w.pm.register slice reg }
  | .call call => (w.runOp host call).2

def managerRun (w : World ι ε δ) (events : List (ManagerEvent ι δ)) : World ι ε δ :=
  events.foldl (managerStep slice host) w

end World

namespace ProviderManager

/-- The name has not been taken by a provider before. -/
def FreshName (pm : ProviderManager ι ε) (reg : Registration ι) : Prop :=
  reg.provider ≠ none → ∀ p ∈ pm.providers, p.name ≠ reg.name

theorem register_names_nodup (slice : PrioritySort ι) {pm : ProviderManager ι ε}
    {reg : Registration ι} (h : (pm.providers.map ProviderConfig.name).Nodup)
    (hfresh : pm.FreshName reg) :
    ((pm.register slice reg).providers.map ProviderConfig.name).Nodup := by
  have hperm := (register_perm slice pm reg).map ProviderConfig.name
  rw [hperm.nodup_iff]
  cases hp : reg.provider with
  | none => simpa [Registration.entry,hp] using h
  | some provider =>
    have hfresh' := hfresh (by simp [hp])
    rw [List.map_append,List.nodup_append]
    refine ⟨h,by simp [Registration.entry,hp],?_⟩
    intro name hname other hother
    obtain ⟨p,hpmem,rfl⟩ := List.mem_map.mp hname
    simp only [Registration.entry,hp,Option.map_some,Option.toList_some,List.map_cons,
      List.map_nil,List.mem_singleton] at hother
    rw [hother]
    exact hfresh' p hpmem

theorem register_states_of_fresh (slice : PrioritySort ι) {pm : ProviderManager ι ε}
    {reg : Registration ι} (hfresh : pm.FreshName reg) {p : ProviderConfig ι}
    (hp : p ∈ pm.providers) : (pm.register slice reg).states p.name = pm.states p.name := by
  cases hprovider : reg.provider with
  | none => simp [register,addProvider,hprovider]
  | some provider =>
    have hne := hfresh (by simp [hprovider]) p hp
    simp [register,addProvider,hprovider,hne]

end ProviderManager

namespace World
variable [ScoringEngine ε] (slice : PrioritySort ι) (host : Host)

theorem managerRun_names_nodup (draw : ℕ → ℕ) (config : ChainConfig)
    (events : List (ManagerEvent ι δ))
    (hfresh : ∀ before reg after, events = before ++ .add reg :: after →
      ((start (.empty draw config) : World ι ε δ).managerRun slice host before).pm.FreshName reg) :
    (((start (.empty draw config) : World ι ε δ).managerRun slice host events).pm.providers.map
      ProviderConfig.name).Nodup := by
  apply foldl_invariant (I := fun w : World ι ε δ => (w.pm.providers.map ProviderConfig.name).Nodup)
  · exact List.nodup_nil
  · intro before event after hsplit h
    cases event with
    | add reg =>
      exact ProviderManager.register_names_nodup slice h (hfresh before reg after hsplit)
    | call call =>
      simp only [managerStep]
      rwa [(runOp_frame _ host call).2.1]

/-- Where every provider is registered under a name of its own, what a call records for one
provider changes the availability of no other, and no registration touches the trackers of a
provider registered before. -/
theorem managerRun_independent (draw : ℕ → ℕ) (config : ChainConfig)
    (events : List (ManagerEvent ι δ))
    (hfresh : ∀ before reg after, events = before ++ .add reg :: after →
      ((start (.empty draw config) : World ι ε δ).managerRun slice host before).pm.FreshName reg) :
    (∀ before call after, events = before ++ .call call :: after →
      ∀ (w : World ι ε δ) (pc : Pc ι δ) (p q : ProviderConfig ι) (now : ℤ),
        Reaches (step host call)
          ((start (.empty draw config) : World ι ε δ).managerRun slice host before,.entry) (w,pc) →
        pc.subject = some p → q ∈ w.pm.providers → q ≠ p →
        ((step host call (w,pc)).1.pm.isProviderAvailable q.name now).1 =
          (w.pm.isProviderAvailable q.name now).1) ∧
    ∀ before reg after, events = before ++ .add reg :: after →
      ∀ q ∈ ((start (.empty draw config) : World ι ε δ).managerRun slice host before).pm.providers,
        ((start (.empty draw config) : World ι ε δ).managerRun slice host
          (before ++ [.add reg])).pm.states q.name =
        ((start (.empty draw config) : World ι ε δ).managerRun slice host before).pm.states
          q.name := by
  constructor
  · intro before call after hsplit w pc p q now hreach hp hq hne
    obtain ⟨hps,hin⟩ := reaches_within host call hreach
    have hnodup := managerRun_names_nodup (ε := ε) slice host draw config before (by
      intro before' reg after' hsplit'
      apply hfresh before' reg (after' ++ .call call :: after)
      rw [hsplit,hsplit']
      simp)
    rw [hps] at hq
    have hname : q.name ≠ p.name := by
      intro heq
      exact hne (List.inj_on_of_nodup_map hnodup hq (hin.subject_mem hp) heq)
    simp only [ProviderManager.isProviderAvailable]
    rw [step_states_of_ne host call w hp hname,(step_frame host call w pc).1]
  · intro before reg after hsplit q hq
    simp only [managerRun,List.foldl_append,List.foldl_cons,List.foldl_nil,managerStep]
    exact ProviderManager.register_states_of_fresh slice (hfresh before reg after hsplit) hq

/-- Two provider instances, registered one after the other under the given names. -/
def twoNamed (first second : String) : List (ManagerEvent String ℕ) :=
  [.add ⟨some "x",1,first,0,0,0⟩,.add ⟨some "y",2,second,0,0,0⟩]

/-- The chain of the two, and a call of an operation that always fails after `n` steps. -/
def twoNamedWorld (first second : String) : World String Unit ℕ :=
  (start (.empty (fun _ => 0) strictConfig)).managerRun .insertion (.frozen 0)
    (twoNamed first second)

def twoNamedStep (first second : String) (n : ℕ) : World String Unit ℕ × Pc String ℕ :=
  (step (.frozen 0) { op := fun _ _ => .error (.plain "failed") })^[n]
    (twoNamedWorld first second,.entry)

/-- Under two names the failure of the first instance leaves the second one available. -/
theorem managerRun_independent_two :
    (twoNamedStep "a" "b" 7).2.subject = some ⟨"x",1,"a"⟩ ∧
    ((twoNamedStep "a" "b" 8).1.pm.isProviderAvailable "b" 0).1 =
      ((twoNamedStep "a" "b" 7).1.pm.isProviderAvailable "b" 0).1 := by
  have hsubject : (twoNamedStep "a" "b" 7).2.subject = some ⟨"x",1,"a"⟩ := by decide +kernel
  have hmem : ⟨"y",2,"b"⟩ ∈ (twoNamedStep "a" "b" 7).1.pm.providers := by decide +kernel
  have hnext : twoNamedStep "a" "b" 8 =
      step (.frozen 0) { op := fun _ _ => .error (.plain "failed") } (twoNamedStep "a" "b" 7) :=
    Function.iterate_succ_apply' _ 7 _
  have hfresh : ∀ before reg after,
      twoNamed "a" "b" ++ [.call { op := fun _ _ => .error (.plain "failed") }] =
        before ++ .add reg :: after →
      ((start (.empty (fun _ => 0) strictConfig) : World String Unit ℕ).managerRun .insertion
        (.frozen 0) before).pm.FreshName reg := by
    intro before reg after hsplit
    rcases before with _ | ⟨_,_ | ⟨_,_ | ⟨_,before⟩⟩⟩
    · intro _ p hp
      cases hp
    · simp only [twoNamed,List.cons_append,List.nil_append,List.cons.injEq,
        ManagerEvent.add.injEq] at hsplit
      obtain ⟨rfl,rfl,-⟩ := hsplit
      intro _ p hp
      have hp' : p = ⟨"x",1,"a"⟩ := List.mem_singleton.mp hp
      rw [hp']
      decide
    · simp [twoNamed] at hsplit
    · simp [twoNamed] at hsplit
  rw [hnext]
  -- The state is only named from here on, so that nothing evaluates it again.
  generalize hstate : twoNamedStep "a" "b" 7 = state at hsubject hmem ⊢
  obtain ⟨w,pc⟩ := state
  exact ⟨hsubject,
    (managerRun_independent .insertion (.frozen 0) (fun _ => 0) strictConfig _ hfresh).1
      (twoNamed "a" "b") _ [] rfl w pc ⟨"x",1,"a"⟩ ⟨"y",2,"b"⟩ 0 ⟨7,hstate⟩ hsubject hmem
      (by decide)⟩

/-- Two unnamed instances share the entry `unknown`: the failure of the first makes the second
unavailable, and one more registration under that name closes the opened circuit. -/
theorem managerRun_shared_name :
    ((twoNamedStep "unknown" "unknown" 7).2.subject = some ⟨"x",1,"unknown"⟩ ∧
      (⟨"y",2,"unknown"⟩ : ProviderConfig String) ∈
        (twoNamedStep "unknown" "unknown" 7).1.pm.providers ∧
      ((twoNamedStep "unknown" "unknown" 7).1.pm.isProviderAvailable "unknown" 0).1 = .ok true ∧
      ((twoNamedStep "unknown" "unknown" 8).1.pm.isProviderAvailable "unknown" 0).1 =
        .ok false) ∧
    ((twoNamedStep "unknown" "unknown" 8).1.pm.states "unknown").circuit.map CircuitState.state =
      some .opened ∧
    (((twoNamedStep "unknown" "unknown" 8).1.pm.register .insertion
      ⟨some "z",3,"unknown",0,0,0⟩).states "unknown").circuit.map CircuitState.state =
        some .closed := by
  refine ⟨⟨rfl,?_,rfl,rfl⟩,rfl,rfl⟩
  exact List.mem_cons_of_mem _ List.mem_cons_self

end World
end ChainKit
