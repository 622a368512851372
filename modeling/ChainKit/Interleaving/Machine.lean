import ChainKit.Lib.Reaches
import ChainKit.RunOp.Rules

/-! `runOp` in steps. Between two steps other goroutines may run: each step is one critical
section of the manager's mutex, one access to shared state outside of it, or one clock reading.
A call that is alone takes its steps to the result of `runOp`. -/
namespace ChainKit
open Lib
variable {ι ε δ : Type}

/-- The variables of the two loops: the attempts on the current provider so far and those on
the providers before it. -/
structure Cursor (ι : Type) where
  start : ℤ
  maxAttempts : ℕ
  provider : ProviderConfig ι
  rest : List (ProviderConfig ι)
  attempts : ℕ
  total : ℕ

/-- Where a call stands, with the values of its local variables that are still needed. -/
inductive Pc (ι δ : Type)
  | entry
  | getAvailable (start : ℤ)
  | narrow (start : ℤ) (providers : List (ProviderConfig ι))
  | readPolicy (start : ℤ) (providers : List (ProviderConfig ι))
  | attempt (c : Cursor ι)
  | inFlight (c : Cursor ι) (began : ℤ) (result : Except GoError δ)
  | recordSuccess (c : Cursor ι) (elapsed : ℤ) (data : δ)
  | recordLatency (c : Cursor ι) (elapsed : ℤ) (data : δ)
  | recordAttempt (c : Cursor ι) (data : δ)
  | recordFailure (c : Cursor ι) (elapsed : ℤ) (err : GoError)
  | updateFailure (c : Cursor ι) (elapsed : ℤ) (err : GoError) (now : ℤ)
  | scoreFailure (c : Cursor ι) (elapsed : ℤ) (err : GoError) (now : ℤ)
  | handleAuthFailure (c : Cursor ι) (err : GoError) (now : ℤ)
  | finish (start : ℤ) (data : Option δ) (providerName : String) (attempts : ℕ)
      (err : Option GoError)
  | returned (r : Except Panic (OpReturn δ))

namespace Pc

/-- The head of the loop over the providers. -/
def nextProvider (start : ℤ) (maxAttempts total : ℕ) (lastErr : Option GoError) :
    List (ProviderConfig ι) → Pc ι δ
  | [] => .finish start none "" total (some (World.allFailed lastErr))
  | p :: ps => .attempt ⟨start,maxAttempts,p,ps,0,total⟩

theorem nextProvider_cases {P : Pc ι δ → Prop} (hattempt : ∀ c, P (.attempt c))
    (hfinish : ∀ start data name attempts err, P (.finish start data name attempts err))
    (start : ℤ) (maxAttempts total : ℕ) (lastErr : Option GoError)
    (ps : List (ProviderConfig ι)) : P (nextProvider start maxAttempts total lastErr ps) := by
  cases ps with
  | nil => exact hfinish _ _ _ _ _
  | cons p ps => exact hattempt _

end Pc

namespace World

/-- The provider is given up with `err`. -/
def giveUp (w : World ι ε δ) (c : Cursor ι) (err : GoError) : World ι ε δ × Pc ι δ :=
  (w.recordFailedProvider c.provider.name,
    .nextProvider c.start c.maxAttempts (c.total+c.attempts) (some err) c.rest)

def afterFailure (w : World ι ε δ) (c : Cursor ι) (err : GoError) : World ι ε δ × Pc ι δ :=
  if c.attempts < c.maxAttempts then (w,.attempt c) else w.giveUp c err

variable [ScoringEngine ε]

def step (host : Host) (call : Call ι δ) : World ι ε δ × Pc ι δ → World ι ε δ × Pc ι δ
  | (w,.entry) => (w.enter call,.getAvailable (w.now host))
  | (w,.getAvailable start) =>
    let r := w.getAvailableProviders host
    match r.1 with
    | .error panic => (r.2,.returned (.error panic))
    | .ok [] =>
      (r.2,.finish start none "" 0
        (some (.wrap "" GoError.ErrProviderNotConfigured ": no available providers")))
    | .ok providers => (r.2,.narrow start providers)
  | (w,.narrow start providers) =>
    match w.narrow host call providers with
    | .error err => (w,.finish start none "" 0 (some err))
    | .ok providers => (w,.readPolicy start providers)
  | (w,.readPolicy start providers) =>
    (w,.nextProvider start w.pm.config.retryPolicy.attempts 0 none providers)
  | (w,.attempt c) =>
    let cancelled := if 0 < c.attempts then call.wait w.waited else none
    let w := if 0 < c.attempts then { w with waited := w.waited+1 } else w
    match cancelled with
    | some err => w.giveUp c err
    | none =>
      (w.dispatch host call c.provider,
        .inFlight c (w.now host) (call.op w.invoked c.provider.provider))
  | (w,.inFlight c began result) =>
    let elapsed := w.now host-began
    let c := { c with attempts := c.attempts+1 }
    match result with
    | .ok data => (w.tick,.recordSuccess c elapsed data)
    | .error err => (w.tick,.recordFailure c elapsed err)
  | (w,.recordSuccess c elapsed data) =>
    (w.recordSuccess host c.provider.name,.recordLatency c elapsed data)
  | (w,.recordLatency c elapsed data) =>
    (w.recordLatency host c.provider.name elapsed,.recordAttempt c data)
  | (w,.recordAttempt c data) =>
    (w.recordAttempt c.provider,
      .finish c.start (some data) c.provider.name (c.total+c.attempts) none)
  | (w,.recordFailure c elapsed err) => (w.tick,.updateFailure c elapsed err (w.now host))
  | (w,.updateFailure c elapsed err now) =>
    ({ w with pm := w.pm.updateFailureState c.provider.name now },
      .scoreFailure c elapsed err now)
  | (w,.scoreFailure c elapsed err now) =>
    let w := { w with
      pm := w.pm.scoreFailure call.metadata c.provider.name err elapsed now }
    if err.isAuth then (w,.handleAuthFailure c err now) else w.afterFailure c err
  | (w,.handleAuthFailure c err now) =>
    ({ w with pm := w.pm.handleAuthFailure c.provider.name now } : World ι ε δ).afterFailure c err
  | (w,.finish start data providerName attempts err) =>
    (w.tick,.returned (.ok ⟨data,providerName,w.now host-start,attempts,err⟩))
  | (w,.returned r) => (w,.returned r)

def stepManager (host : Host) (call : Call ι δ) (w : World ι ε δ) :
    Pc ι δ → ProviderManager ι ε
  | .getAvailable _ => (w.pm.getAvailableProviders (w.now host)).2
  | .recordSuccess c _ _ =>
    w.pm.recordSuccess c.provider.name (host.now w.ticks) (host.now (w.ticks+1))
      (host.now (w.ticks+2))
  | .recordLatency c elapsed _ => w.pm.recordLatency c.provider.name elapsed (w.now host)
  | .recordAttempt c _ => (w.recordAttempt c.provider).pm
  | .updateFailure c _ _ now => w.pm.updateFailureState c.provider.name now
  | .scoreFailure c elapsed err now =>
    w.pm.scoreFailure call.metadata c.provider.name err elapsed now
  | .handleAuthFailure c _ now => w.pm.handleAuthFailure c.provider.name now
  | _ => w.pm

variable (host : Host) (call : Call ι δ)

omit [ScoringEngine ε] in
@[simp] theorem afterFailure_fst_pm (w : World ι ε δ) (c : Cursor ι) (err : GoError) :
    (w.afterFailure c err).1.pm = w.pm := by
  unfold afterFailure
  split_ifs <;> rfl

omit [ScoringEngine ε] in
@[simp] theorem afterFailure_log (w : World ι ε δ) (c : Cursor ι) (err : GoError) :
    (w.afterFailure c err).1.log = w.log := by
  unfold afterFailure
  split_ifs <;> rfl

omit [ScoringEngine ε] in
theorem afterFailure_cases {P : Pc ι δ → Prop} (hattempt : ∀ c, P (.attempt c))
    (hfinish : ∀ start data name attempts err, P (.finish start data name attempts err))
    (w : World ι ε δ) (c : Cursor ι) (err : GoError) : P (w.afterFailure c err).2 := by
  unfold afterFailure
  split_ifs
  · exact hattempt c
  · exact Pc.nextProvider_cases hattempt hfinish _ _ _ _ _

/-- The choice of the providers is made by the checks, whatever comes of it. -/
theorem step_getAvailable_fst (w : World ι ε δ) (start : ℤ) :
    (step host call (w,.getAvailable start)).1 = (w.getAvailableProviders host).2 := by
  simp only [step]
  split <;> rfl

theorem step_narrow_fst (w : World ι ε δ) (start : ℤ) (providers : List (ProviderConfig ι)) :
    (step host call (w,.narrow start providers)).1 = w := by
  simp only [step]
  split <;> rfl

theorem step_pm (w : World ι ε δ) (pc : Pc ι δ) :
    (step host call (w,pc)).1.pm = stepManager host call w pc := by
  cases pc with
  | getAvailable start =>
    rw [step_getAvailable_fst]
    rfl
  | narrow start providers =>
    rw [step_narrow_fst]
    rfl
  | attempt c =>
    simp only [step,stepManager]
    split
    · split_ifs <;> rfl
    · split_ifs <;> rfl
  | inFlight c began result => cases result <;> rfl
  | scoreFailure c elapsed err now =>
    simp only [step,stepManager]
    split_ifs
    · rfl
    · rw [afterFailure_fst_pm]
  | handleAuthFailure c err now =>
    simp only [step,stepManager,afterFailure_fst_pm]
  | _ => rfl

theorem dispatch_reaches (w : World ι ε δ) (c : Cursor ι) :
    (∀ data, call.op w.invoked c.provider.provider = .ok data →
      Reaches (step host call)
        (w.dispatch host call c.provider,.inFlight c (w.now host) (.ok data))
        ((w.attemptOnce host call c.provider).2,
          .recordAttempt { c with attempts := c.attempts+1 } data)) ∧
    ∀ err, call.op w.invoked c.provider.provider = .error err →
      Reaches (step host call)
        (w.dispatch host call c.provider,.inFlight c (w.now host) (.error err))
        ((w.attemptOnce host call c.provider).2.afterFailure
          { c with attempts := c.attempts+1 } err) := by
  constructor
  · intro data hop
    refine ⟨3,?_⟩
    simp only [attemptOnce,hop]
    rfl
  · intro err hop
    simp only [attemptOnce,hop,recordFailureWithError,ProviderManager.recordFailureWithError]
    cases ha : err.isAuth with
    | true =>
      refine ⟨5,?_⟩
      simp only [Function.iterate_succ_apply,Function.iterate_zero,id,step,ha,if_true]
      rfl
    | false =>
      refine ⟨4,?_⟩
      simp only [Function.iterate_succ_apply,Function.iterate_zero,id,step,ha,
        Bool.false_eq_true,if_false]
      rfl

/-- The retry loop with `n` rounds left; without any, the provider is given up. -/
def loopHead (w : World ι ε δ) (c : Cursor ι) : ℕ → Option GoError → World ι ε δ × Pc ι δ
  | 0,some err => w.giveUp c err
  | _,_ => (w,.attempt c)

omit [ScoringEngine ε] in
theorem afterFailure_eq_loopHead (w : World ι ε δ) {c : Cursor ι} {n : ℕ}
    (hn : c.attempts+n = c.maxAttempts) (err : GoError) :
    w.afterFailure c err = w.loopHead c n (some err) := by
  cases n with
  | zero => rw [afterFailure,if_neg (by omega),loopHead]
  | succ n =>
    rw [afterFailure,if_pos (by omega)]
    simp [loopHead]

theorem attemptLoop_reaches (n : ℕ) (c : Cursor ι) (hn : c.attempts+n = c.maxAttempts)
    (lastErr : Option GoError) (hlast : lastErr = none → 0 < n) (w : World ι ε δ) :
    ((attemptLoop host call c.provider n c.attempts lastErr w).1.2.2 = none →
      Reaches (step host call) (w.loopHead c n lastErr)
        ((attemptLoop host call c.provider n c.attempts lastErr w).2.recordAttempt c.provider,
          .finish c.start (attemptLoop host call c.provider n c.attempts lastErr w).1.1
            c.provider.name
            (c.total+(attemptLoop host call c.provider n c.attempts lastErr w).1.2.1) none)) ∧
    ∀ err, (attemptLoop host call c.provider n c.attempts lastErr w).1.2.2 = some err →
      Reaches (step host call) (w.loopHead c n lastErr)
        ((attemptLoop host call c.provider n c.attempts lastErr w).2.giveUp
          { c with attempts := (attemptLoop host call c.provider n c.attempts lastErr w).1.2.1 }
          err) := by
  induction n generalizing c lastErr w with
  | zero =>
    constructor
    · intro hnone
      exact absurd (hlast hnone) (lt_irrefl 0)
    · intro err herr
      simp only [attemptLoop] at herr ⊢
      subst herr
      exact Reaches.refl _ _
  | succ n ih =>
    have hhead : w.loopHead c (n+1) lastErr = (w,.attempt c) := by simp [loopHead]
    rw [hhead]
    simp only [attemptLoop]
    generalize hw : (if 0 < c.attempts then { w with waited := w.waited+1 } else w) = w₁
    cases hcancel : (if 0 < c.attempts then call.wait w.waited else none) with
    | some err =>
      refine ⟨by simp,?_⟩
      intro err' herr
      cases herr
      refine ⟨1,?_⟩
      simp only [Function.iterate_one,step,hw,hcancel]
    | none =>
      have hstep : step host call (w,.attempt c) = (w₁.dispatch host call c.provider,
          .inFlight c (w₁.now host) (call.op w₁.invoked c.provider.provider)) := by
        simp only [step,hw,hcancel]
      obtain ⟨hok,herr⟩ := dispatch_reaches host call w₁ c
      cases hop : call.op w₁.invoked c.provider.provider with
      | ok data =>
        simp only [attemptOnce_fst,hop]
        refine ⟨fun _ => ?_,by simp⟩
        rw [hop] at hstep
        exact Reaches.head hstep ((hok data hop).trans ⟨1,rfl⟩)
      | error err =>
        simp only [attemptOnce_fst,hop]
        rw [hop] at hstep
        have hreach := Reaches.head hstep (herr err hop)
        rw [afterFailure_eq_loopHead _ (show c.attempts+1+n = c.maxAttempts by omega)] at hreach
        obtain ⟨ihok,iherr⟩ := ih { c with attempts := c.attempts+1 }
          (show c.attempts+1+n = c.maxAttempts by omega) (some err) (by simp)
          (w₁.attemptOnce host call c.provider).2
        refine ⟨?_,?_⟩
        · intro hnone
          exact hreach.trans (ihok hnone)
        · intro err' herr'
          exact hreach.trans (iherr err' herr')

theorem runOpLoop_reaches (policy : RetryPolicy) (start : ℤ) (ps : List (ProviderConfig ι))
    (total : ℕ) (lastErr : Option GoError) (w : World ι ε δ) :
    Reaches (step host call) (w,.nextProvider start policy.attempts total lastErr ps)
      ((runOpLoop host call policy start ps total lastErr w).2,
        .returned (.ok (runOpLoop host call policy start ps total lastErr w).1)) := by
  induction ps generalizing total lastErr w with
  | nil => exact ⟨1,rfl⟩
  | cons p ps ih =>
    obtain ⟨hok,herr⟩ := attemptLoop_reaches host call policy.attempts
      ⟨start,policy.attempts,p,ps,0,total⟩ (Nat.zero_add _) none (fun _ => policy.attempts_pos) w
    have hhead : w.loopHead ⟨start,policy.attempts,p,ps,0,total⟩ policy.attempts none =
        (w,.attempt ⟨start,policy.attempts,p,ps,0,total⟩) := by
      unfold loopHead
      split
      · simp_all
      · rfl
    rw [hhead] at hok herr
    simp only [runOpLoop,attemptWithRetry]
    cases hr : (attemptLoop host call p policy.attempts 0 none w).1.2.2 with
    | none => exact (hok hr).trans ⟨1,rfl⟩
    | some err => exact (herr err hr).trans (ih _ _ _)

/-- Where the choice of the candidates leads. -/
def afterCandidates (start : ℤ) : Except Panic (Except GoError (List (ProviderConfig ι))) → Pc ι δ
  | .error panic => .returned (.error panic)
  | .ok (.error err) => .finish start none "" 0 (some err)
  | .ok (.ok providers) => .readPolicy start providers

theorem candidates_reaches (start : ℤ) (w : World ι ε δ) :
    Reaches (step host call) (w,.getAvailable start)
      ((w.candidates host call).2,afterCandidates start (w.candidates host call).1) := by
  cases hav : (w.getAvailableProviders host).1 with
  | error panic =>
    refine ⟨1,?_⟩
    simp only [Function.iterate_one,step,candidates,hav,afterCandidates]
  | ok providers =>
    cases providers with
    | nil =>
      refine ⟨1,?_⟩
      simp only [Function.iterate_one,step,candidates,hav,afterCandidates]
    | cons p ps =>
      refine ⟨2,?_⟩
      simp only [Function.iterate_succ_apply,Function.iterate_zero,id,step,candidates,hav]
      cases (w.getAvailableProviders host).2.narrow host call (p :: ps) <;> rfl

/-- A call that runs alone comes to rest with the result of `runOp`. -/
theorem runOp_reaches (w : World ι ε δ) :
    Reaches (step host call) (w,.entry)
      ((w.runOp host call).2,.returned (w.runOp host call).1) := by
  have hcand := candidates_reaches host call (w.now host) (w.enter call)
  refine Reaches.head rfl (hcand.trans ?_)
  simp only [runOp]
  cases hc : ((w.enter call).candidates host call).1 with
  | error panic => exact Reaches.refl _ _
  | ok r =>
    cases r with
    | error err => exact ⟨1,rfl⟩
    | ok providers =>
      refine Reaches.head rfl ?_
      exact runOpLoop_reaches host call _ _ _ _ _ _

end World
end ChainKit
