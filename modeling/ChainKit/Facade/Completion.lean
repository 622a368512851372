import ChainKit.Facade
import ChainKit.Interleaving.System
import ChainKit.Lib.Potential

/-! How long a call can take. Whatever the other goroutines do in between, a goroutine comes to the
end of its call after a number of its own steps that the configuration bounds. -/
namespace ChainKit
open Lib
variable {τ ι ε δ : Type}

/-- The counters of the retry loop are within the policy. -/
def Pc.Bounded (maxAttempts : ℕ) : Pc ι δ → Prop
  | .attempt c | .inFlight c _ _ => c.maxAttempts = maxAttempts ∧ c.attempts < maxAttempts
  | .recordFailure c _ _ | .updateFailure c _ _ _ | .scoreFailure c _ _ _
  | .handleAuthFailure c _ _ => c.maxAttempts = maxAttempts ∧ c.attempts ≤ maxAttempts
  | _ => True

/-- The attempts that are left on the current provider and on those after it. -/
def Cursor.left (c : Cursor ι) : ℕ := c.maxAttempts-c.attempts+c.maxAttempts*c.rest.length

/-- A bound on the steps that a call still takes. A round of the retry loop has six at most. -/
def Pc.potential (maxAttempts registered : ℕ) : Pc ι δ → ℕ
  | .entry => 6*(maxAttempts*registered)+8
  | .getAvailable _ => 6*(maxAttempts*registered)+7
  | .narrow _ providers => 6*(maxAttempts*providers.length)+6
  | .readPolicy _ providers => 6*(maxAttempts*providers.length)+5
  | .attempt c => 6*c.left+4
  | .inFlight c _ _ => 6*c.left+3
  | .recordSuccess _ _ _ => 6
  | .recordLatency _ _ _ => 5
  | .recordAttempt _ _ => 4
  | .recordFailure c _ _ => 6*c.left+8
  | .updateFailure c _ _ _ => 6*c.left+7
  | .scoreFailure c _ _ _ => 6*c.left+6
  | .handleAuthFailure c _ _ => 6*c.left+5
  | .finish _ _ _ _ _ => 3
  | .returned (.ok _) => 2
  | .returned (.error _) => 0

namespace Pc
variable (start : ℤ) (maxAttempts total : ℕ) (lastErr : Option GoError)
  (ps : List (ProviderConfig ι))

theorem nextProvider_bounded (hpos : 0 < maxAttempts) :
    (nextProvider start maxAttempts total lastErr ps : Pc ι δ).Bounded maxAttempts := by
  cases ps with
  | nil => trivial
  | cons p ps => exact ⟨rfl,hpos⟩

theorem nextProvider_potential (registered : ℕ) :
    (nextProvider start maxAttempts total lastErr ps : Pc ι δ).potential maxAttempts registered ≤
      6*(maxAttempts*ps.length)+4 := by
  cases ps with
  | nil => simp [nextProvider,potential]
  | cons p ps =>
    simp only [nextProvider,potential,Cursor.left,List.length_cons,Nat.mul_succ]
    omega

end Pc

namespace World

section
variable (w : World ι ε δ) {maxAttempts : ℕ} (hpos : 0 < maxAttempts) {c : Cursor ι}
  (hc : c.maxAttempts = maxAttempts) (err : GoError) (registered : ℕ)
include hpos hc

theorem giveUp_progress : (w.giveUp c err).2.Bounded maxAttempts ∧
    (w.giveUp c err).2.potential maxAttempts registered ≤ 6*(maxAttempts*c.rest.length)+4 := by
  simp only [giveUp,hc]
  exact ⟨Pc.nextProvider_bounded _ _ _ _ _ hpos,Pc.nextProvider_potential _ _ _ _ _ registered⟩

theorem afterFailure_progress : (w.afterFailure c err).2.Bounded maxAttempts ∧
    (w.afterFailure c err).2.potential maxAttempts registered ≤ 6*c.left+4 := by
  unfold afterFailure
  split_ifs with h
  · exact ⟨⟨hc,hc ▸ h⟩,le_rfl⟩
  · obtain ⟨hbounded,hle⟩ := w.giveUp_progress hpos hc err registered
    refine ⟨hbounded,hle.trans ?_⟩
    simp only [Cursor.left,hc]
    omega

end

variable [ScoringEngine ε] (host : Host) (call : Call ι δ)

/-- Every step of a call that has not returned lowers the bound. -/
theorem step_progress (w : World ι ε δ) {pc : Pc ι δ}
    (hpc : pc.Bounded w.pm.config.retryPolicy.attempts) (hnot : ∀ r, pc ≠ .returned r) :
    (step host call (w,pc)).2.Bounded w.pm.config.retryPolicy.attempts ∧
      (step host call (w,pc)).2.potential w.pm.config.retryPolicy.attempts
        w.pm.providers.length+1 ≤
        pc.potential w.pm.config.retryPolicy.attempts w.pm.providers.length := by
  have hpos := w.pm.config.retryPolicy.attempts_pos
  generalize hmax : w.pm.config.retryPolicy.attempts = maxAttempts at hpc hpos ⊢
  cases pc with
  | getAvailable start =>
    simp only [step]
    split
    · exact ⟨trivial,by simp [Pc.potential]⟩
    · exact ⟨trivial,by simp [Pc.potential]⟩
    next providers _ hav =>
      refine ⟨trivial,?_⟩
      have hlength : providers.length ≤ w.pm.providers.length := by
        obtain ⟨available,havailable,hperm⟩ := w.pm.getAvailableProviders_perm _ hav
        rw [hperm.length_eq]
        exact (filterAvailable_sublist havailable).length_le
      have hmul := Nat.mul_le_mul_left maxAttempts hlength
      simp only [Pc.potential]
      omega
  | narrow start providers =>
    simp only [step]
    split
    · exact ⟨trivial,by simp [Pc.potential]⟩
    next ps hnarrow =>
      refine ⟨trivial,?_⟩
      have hmul := Nat.mul_le_mul_left maxAttempts (narrow_sublist hnarrow).length_le
      simp only [Pc.potential]
      omega
  | readPolicy start providers =>
    simp only [step,hmax]
    exact ⟨Pc.nextProvider_bounded start maxAttempts 0 none providers hpos,
      Nat.succ_le_succ (Pc.nextProvider_potential start maxAttempts 0 none providers _)⟩
  | attempt c =>
    obtain ⟨hc,hlt⟩ := hpc
    cases hcancel : w.cancelled call c with
    | some err =>
      rw [step_attempt_cancelled host call hcancel]
      obtain ⟨hbounded,hle⟩ :=
        (w.afterWait c).giveUp_progress hpos hc err w.pm.providers.length
      refine ⟨hbounded,(Nat.succ_le_succ hle).trans ?_⟩
      simp only [Pc.potential,Cursor.left,hc]
      omega
    | none =>
      rw [step_attempt_invokes host call hcancel]
      exact ⟨⟨hc,hlt⟩,le_rfl⟩
  | inFlight c began result =>
    obtain ⟨hc,hlt⟩ := hpc
    have hleft : c.left = ({ c with attempts := c.attempts+1 } : Cursor ι).left+1 := by
      simp only [Cursor.left,hc]
      omega
    cases result with
    | ok data =>
      refine ⟨trivial,?_⟩
      simp only [step,Pc.potential,hleft]
      omega
    | error err =>
      refine ⟨⟨hc,hlt⟩,?_⟩
      simp only [step,Pc.potential,hleft]
      omega
  | scoreFailure c elapsed err now =>
    simp only [step]
    split_ifs
    · exact ⟨hpc,le_rfl⟩
    · obtain ⟨hbounded,hle⟩ := afterFailure_progress
        { w with pm := w.pm.scoreFailure call.metadata c.provider.name err elapsed now }
        hpos hpc.1 err w.pm.providers.length
      exact ⟨hbounded,(Nat.succ_le_succ hle).trans (Nat.le_succ _)⟩
  | handleAuthFailure c err now =>
    obtain ⟨hbounded,hle⟩ := afterFailure_progress
      { w with pm := w.pm.handleAuthFailure c.provider.name now }
      hpos hpc.1 err w.pm.providers.length
    exact ⟨hbounded,Nat.succ_le_succ hle⟩
  | returned r => exact absurd rfl (hnot r)
  | recordFailure | updateFailure => exact ⟨hpc,le_rfl⟩
  | entry | recordSuccess | recordLatency | recordAttempt | finish => exact ⟨trivial,le_rfl⟩

end World

namespace Client
variable [ScoringEngine ε] [DecidableEq τ] (u : Unicode) (host : Host)

def manager (s : Client τ ι ε δ) (t : τ) : ProviderManager ι ε :=
  s.mp.chain (s.goroutines t).request.operation.chain

theorem stepRunOp_chains (s : Client τ ι ε δ) (t : τ) (pc : Pc ι δ) (k : ProviderChainType) :
    ((s.stepRunOp host t pc).mp.chains k).config = (s.mp.chains k).config ∧
      ((s.stepRunOp host t pc).mp.chains k).providers = (s.mp.chains k).providers := by
  simp only [stepRunOp,putBack]
  by_cases hk : k = (s.goroutines t).request.operation.chain
  · subst hk
    rw [Function.update_self]
    exact World.step_frame host _ (s.world t) pc
  · rw [Function.update_of_ne hk]
    exact ⟨rfl,rfl⟩

theorem step_chains (s : Client τ ι ε δ) (t : τ) (k : ProviderChainType) :
    ((s.step u host t).mp.chains k).config = (s.mp.chains k).config ∧
      ((s.step u host t).mp.chains k).providers = (s.mp.chains k).providers := by
  apply step_rule (P := fun s' => (s'.mp.chains k).config = (s.mp.chains k).config ∧
    (s'.mp.chains k).providers = (s.mp.chains k).providers)
  case hrunOp => exact fun pc _ _ => s.stepRunOp_chains host t pc k
  case hrecord => exact fun r _ => ⟨rfl,rfl⟩
  case hdone => exact fun r _ => ⟨rfl,rfl⟩

/-- A goroutine has recorded its call, or `runOp` has panicked. -/
def Ended (t : τ) (s : Client τ ι ε δ) : Prop :=
  (s.goroutines t).stage.isRecorded = true ∨
    ∃ panic, (s.goroutines t).stage = .running (.returned (.error panic))

def potential (maxAttempts registered : ℕ) (t : τ) (s : Client τ ι ε δ) : ℕ :=
  match (s.goroutines t).stage with
  | .running pc => pc.potential maxAttempts registered
  | .recorded _ => 0

/-- A goroutine within the policy and the providers of its chain. -/
structure Within (maxAttempts registered : ℕ) (t : τ) (s : Client τ ι ε δ) : Prop where
  attempts : (s.manager t).config.retryPolicy.attempts = maxAttempts
  providers : (s.manager t).providers.length = registered
  bounded : (s.goroutines t).stage.pc.Bounded maxAttempts

section
variable {maxAttempts registered : ℕ} {t : τ} {s : Client τ ι ε δ}

theorem step_own (hs : s.Within maxAttempts registered t) (hnot : ¬s.Ended t) :
    ((s.step u host t).goroutines t).stage.pc.Bounded maxAttempts ∧
      (s.step u host t).potential maxAttempts registered t+1 ≤
        s.potential maxAttempts registered t := by
  apply step_rule (P := fun s' => (s'.goroutines t).stage.pc.Bounded maxAttempts ∧
    s'.potential maxAttempts registered t+1 ≤ s.potential maxAttempts registered t)
  case hrunOp =>
    intro pc hstage hok
    have hreturned : ∀ r, pc ≠ .returned r := by
      rintro (panic | r) rfl
      · exact hnot (.inr ⟨panic,hstage⟩)
      · exact hok r rfl
    have hbounded := hs.bounded
    rw [hstage,← hs.attempts] at hbounded
    have hstep := World.step_progress host (s.goroutines t).request.call (s.world t) hbounded
      hreturned
    simp only [potential,stepRunOp,Function.update_self,Stage.pc,hstage]
    rw [← hs.attempts,← hs.providers]
    exact hstep
  case hrecord =>
    intro r hstage
    simp only [potential,record,Function.update_self,Stage.pc,hstage]
    exact ⟨trivial,Nat.le_succ 1⟩
  case hdone =>
    intro r hstage
    exact absurd (.inl (by simp [hstage,Stage.isRecorded])) hnot

theorem step_ended (hs : s.Ended t) :
    ((s.step u host t).goroutines t).stage = (s.goroutines t).stage := by
  rcases hs with h | ⟨panic,h⟩
  · cases hstage : (s.goroutines t).stage with
    | running pc => simp [hstage,Stage.isRecorded] at h
    | recorded r => simp [step,hstage]
  · simp [step,h,stepRunOp,World.step]

theorem step_within (hs : s.Within maxAttempts registered t) (v : τ) :
    (s.step u host v).Within maxAttempts registered t := by
  obtain ⟨hconfig,hproviders⟩ := s.step_chains u host v (s.goroutines t).request.operation.chain
  refine ⟨?_,?_,?_⟩
  · rw [manager,step_request]
    exact (congrArg (fun config => config.retryPolicy.attempts) hconfig).trans hs.attempts
  · rw [manager,step_request]
    exact (congrArg List.length hproviders).trans hs.providers
  · by_cases h : t = v
    · subst h
      by_cases hended : s.Ended t
      · rw [step_ended u host hended]
        exact hs.bounded
      · exact (step_own u host hs hended).1
    · rw [s.step_of_ne u host h]
      exact hs.bounded

/-- A goroutine pays one of its bound with each of its steps. -/
theorem spends (maxAttempts registered : ℕ) (t : τ) :
    Spends (step u host) (fun v => if v = t then 1 else 0) (fun _ => 0)
      (Within maxAttempts registered t) (Ended t)
      (potential maxAttempts registered t : Client τ ι ε δ → ℕ) where
  keeps s v hs := step_within u host hs v
  stays s v _ hended := by
    have hstage : ((s.step u host v).goroutines t).stage = (s.goroutines t).stage := by
      by_cases h : t = v
      · subst h
        exact step_ended u host hended
      · rw [s.step_of_ne u host h]
    unfold Ended at hended ⊢
    rwa [hstage]
  spends s v hs hnot := by
    by_cases h : v = t
    · subst h
      rw [if_pos rfl]
      exact (step_own u host hs hnot).2
    · rw [if_neg h,potential,s.step_of_ne u host (Ne.symm h)]
      exact le_rfl
  left s _ hnot := by
    unfold potential
    cases hstage : (s.goroutines t).stage with
    | recorded r => exact absurd (.inl (by simp [hstage,Stage.isRecorded])) hnot
    | running pc =>
      cases pc with
      | returned r =>
        cases r with
        | error panic => exact absurd (.inr ⟨panic,hstage⟩) hnot
        | ok r => simp [Pc.potential]
      | _ => simp [Pc.potential]

end
end Client

theorem sum_own_steps [DecidableEq τ] (l : List τ) (t : τ) :
    (l.map fun v => if v = t then 1 else 0).sum = l.count t := by
  induction l with
  | nil => rfl
  | cons v l ih => simp [List.count_cons,ih,Nat.add_comm]

/-- A client whose chains have one provider each and do not retry. -/
def soloClient : MixedProviders Unit Unit := ⟨fun _ => .single noRetryConfig "a",fun _ => none⟩

end ChainKit
