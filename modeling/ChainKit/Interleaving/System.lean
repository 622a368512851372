import ChainKit.Circuit.Breaker
import ChainKit.Interleaving.Machine

/-! Concurrent calls on one manager. Each call is a thread; a schedule says whose step is next.
What a step can do to the trackers of a provider is stated once, as a move of its breaker. -/
namespace ChainKit
open Lib
variable {τ ι ε δ : Type}

structure Thread (ι δ : Type) where
  call : Call ι δ
  pc : Pc ι δ := .entry
  invoked : ℕ := 0
  waited : ℕ := 0
  failedProviders : Option (List String) := none

/-- The manager, the clock and the log are shared. -/
structure Sys (τ ι ε δ : Type) where
  pm : ProviderManager ι ε
  ticks : ℕ
  log : List (Dispatch ι δ)
  threads : τ → Thread ι δ

namespace Sys

def start (pm : ProviderManager ι ε) (calls : τ → Call ι δ) : Sys τ ι ε δ where
  pm := pm
  ticks := 0
  log := []
  threads t := { call := calls t }

def world (s : Sys τ ι ε δ) (t : τ) : World ι ε δ where
  pm := s.pm
  ticks := s.ticks
  log := s.log
  invoked := (s.threads t).invoked
  waited := (s.threads t).waited
  failedProviders := (s.threads t).failedProviders

def step [ScoringEngine ε] [DecidableEq τ] (host : Host) (s : Sys τ ι ε δ) (t : τ) :
    Sys τ ι ε δ :=
  let r := World.step host (s.threads t).call (s.world t,(s.threads t).pc)
  { pm := r.1.pm
    ticks := r.1.ticks
    log := r.1.log
    threads := Function.update s.threads t
      { call := (s.threads t).call
        pc := r.2
        invoked := r.1.invoked
        waited := r.1.waited
        failedProviders := r.1.failedProviders } }

def run [ScoringEngine ε] [DecidableEq τ] (host : Host) (s : Sys τ ι ε δ) (schedule : List τ) :
    Sys τ ι ε δ := schedule.foldl (step host) s

def status (s : Sys τ ι ε δ) (name : String) : Option CircuitStatus :=
  (s.pm.states name).circuit.map CircuitState.state

end Sys

/-- The outcome that the next step records for a provider, `true` for a success. -/
def Pc.records (name : String) : Pc ι δ → Option Bool
  | .recordSuccess c _ _ => if c.provider.name = name then some true else none
  | .updateFailure c _ _ _ => if c.provider.name = name then some false else none
  | _ => none

/-- The ways in which one step can move the trackers of a provider, by the outcome that the
step records. -/
inductive Breaker.Move (config : CircuitBreakerConfig) (b : Breaker) :
    Option Bool → Breaker → Prop
  | checks (now : ℤ) (k : ℕ) : Move config b none ((Breaker.checked config now)^[k] b)
  | authFail (now : ℤ) : Move config b none (b.authFail now)
  | success (now : ℤ) : Move config b (some true) (b.success config now)
  | fail (now : ℤ) : Move config b (some false) (b.fail config now)

theorem Breaker.Move.idle {config : CircuitBreakerConfig} {b : Breaker} :
    Breaker.Move config b none b := .checks 0 0

namespace World
variable [ScoringEngine ε] (host : Host) (call : Call ι δ) (w : World ι ε δ) (pc : Pc ι δ)

theorem step_frame : (step host call (w,pc)).1.pm.config = w.pm.config ∧
    (step host call (w,pc)).1.pm.providers = w.pm.providers := by
  rw [step_pm]
  cases pc with
  | getAvailable start => simp [stepManager]
  | _ => exact ⟨rfl,rfl⟩

/-- One step moves the trackers of each provider in one of the ways of `Breaker.Move`. -/
theorem step_moves (he : w.pm.config.circuitBreaker.enabled = true) {name : String} {b : Breaker}
    (hb : (w.pm.states name).Carries b) :
    ∃ b', ((step host call (w,pc)).1.pm.states name).Carries b' ∧
      Breaker.Move w.pm.config.circuitBreaker b (pc.records name) b' := by
  rw [step_pm]
  cases pc with
  | getAvailable start =>
    obtain ⟨k,hk⟩ := filterAvailable_states w.pm.config (w.now host) w.pm.providers w.pm.states
      name
    simp only [stepManager,ProviderManager.getAvailableProviders_states,hk]
    exact ⟨_,hb.iterate_check he (w.now host) k,.checks _ k⟩
  | recordSuccess c elapsed data =>
    simp only [stepManager,ProviderManager.recordSuccess,ProviderManager.recordEvent_states,
      Pc.records]
    by_cases hn : c.provider.name = name
    · subst hn
      rw [ProviderManager.updateState_states_self,if_pos rfl]
      exact ⟨_,hb.recordSuccess he _ _,.success _⟩
    · rw [ProviderManager.updateState_states_of_ne _ _ _ (Ne.symm hn),if_neg hn]
      exact ⟨b,hb,.idle⟩
  | updateFailure c elapsed err now =>
    simp only [stepManager,ProviderManager.updateFailureState,Pc.records]
    by_cases hn : c.provider.name = name
    · subst hn
      rw [ProviderManager.updateState_states_self,if_pos rfl]
      exact ⟨_,hb.updateFailureState he _,.fail _⟩
    · rw [ProviderManager.updateState_states_of_ne _ _ _ (Ne.symm hn),if_neg hn]
      exact ⟨b,hb,.idle⟩
  | handleAuthFailure c err now =>
    simp only [stepManager,ProviderManager.handleAuthFailure,Pc.records]
    by_cases hn : c.provider.name = name
    · subst hn
      rw [ProviderManager.updateState_states_self]
      exact ⟨_,hb.handleAuthFailure he _,.authFail _⟩
    · rw [ProviderManager.updateState_states_of_ne _ _ _ (Ne.symm hn)]
      exact ⟨b,hb,.idle⟩
  | _ => exact ⟨b,hb,.idle⟩

end World

namespace Sys
variable [ScoringEngine ε] [DecidableEq τ] (host : Host)

@[simp] theorem run_nil (s : Sys τ ι ε δ) : s.run host [] = s := rfl

theorem run_append (s : Sys τ ι ε δ) (l l' : List τ) :
    s.run host (l ++ l') = (s.run host l).run host l' := List.foldl_append

@[simp] theorem run_concat (s : Sys τ ι ε δ) (l : List τ) (t : τ) :
    s.run host (l ++ [t]) = (s.run host l).step host t := by
  simp [run]

theorem run_frame (s : Sys τ ι ε δ) (l : List τ) :
    (s.run host l).pm.config = s.pm.config ∧
      (s.run host l).pm.providers = s.pm.providers := by
  apply foldl_invariant (I := fun s' : Sys τ ι ε δ => s'.pm.config = s.pm.config ∧
    s'.pm.providers = s.pm.providers) ⟨rfl,rfl⟩
  intro before t after _ h
  obtain ⟨hc,hps⟩ := World.step_frame host ((before.foldl (step host) s).threads t).call
    ((before.foldl (step host) s).world t) ((before.foldl (step host) s).threads t).pc
  exact ⟨hc.trans h.1,hps.trans h.2⟩

/-- Along every run a registered provider keeps its trackers. -/
theorem run_carries (s : Sys τ ι ε δ) {p : ProviderConfig ι} (hp : p ∈ s.pm.providers)
    (l : List τ) : ∃ b, ((s.run host l).pm.states p.name).Carries b := by
  apply ProviderState.Tracked.carries
  apply (s.run host l).pm.tracked p
  rw [(s.run_frame host l).2]
  exact hp

theorem step_moves (s : Sys τ ι ε δ) (t : τ) (he : s.pm.config.circuitBreaker.enabled = true)
    {name : String} {b : Breaker} (hb : (s.pm.states name).Carries b) :
    ∃ b', ((s.step host t).pm.states name).Carries b' ∧
      Breaker.Move s.pm.config.circuitBreaker b ((s.threads t).pc.records name) b' :=
  World.step_moves host _ (s.world t) _ he hb

/-- The outcomes that a run records for a provider, in order. -/
def outcomes (name : String) (s : Sys τ ι ε δ) (l : List τ) : List Bool :=
  observe (step host) (fun s t => (s.threads t).pc.records name) s l

end Sys
end ChainKit
