import ChainKit.Interleaving.Progress

/-! Cancellation of a call. The context is looked at only while a retry waits, and the loop over
the providers takes an interrupted wait for a failure of the provider: it goes on with the next. -/
namespace ChainKit
open Lib
variable {ι ε δ : Type}

namespace World
variable [ScoringEngine ε] (host : Host) (call : Call ι δ)

/-- The call after `n` more steps from its start. -/
def running (w : World ι ε δ) (n : ℕ) : World ι ε δ × Pc ι δ :=
  (step host call)^[n] (w.enter call,.getAvailable (w.now host))

/-- Nothing is left to invoke: no provider was found, the operation has succeeded, or the last
provider is being tried and the policy allows no further attempt, or the wait before it is
interrupted. -/
def Spent : World ι ε δ × Pc ι δ → Prop
  | (w,.entry) => ∀ ps, ((w.enter call).candidates host call).1 = .ok (.ok ps) → ps = []
  | (w,.getAvailable _) => ∀ ps, (w.candidates host call).1 = .ok (.ok ps) → ps = []
  | (w,.narrow _ providers) => ∀ ps, w.narrow host call providers = .ok ps → ps = []
  | (_,.readPolicy _ providers) => providers = []
  | (w,.attempt c) => (w.cancelled call c).isSome ∧ c.rest = []
  | (w,.inFlight c _ (.error _)) => (c.attempts+1 < c.maxAttempts →
      (w.cancelled call { c with attempts := c.attempts+1 }).isSome) ∧ c.rest = []
  | (w,.recordFailure c _ _) =>
    (c.attempts < c.maxAttempts → (w.cancelled call c).isSome) ∧ c.rest = []
  | (w,.updateFailure c _ _ _) =>
    (c.attempts < c.maxAttempts → (w.cancelled call c).isSome) ∧ c.rest = []
  | (w,.scoreFailure c _ _ _) =>
    (c.attempts < c.maxAttempts → (w.cancelled call c).isSome) ∧ c.rest = []
  | (w,.handleAuthFailure c _ _) =>
    (c.attempts < c.maxAttempts → (w.cancelled call c).isSome) ∧ c.rest = []
  | _ => True

variable {host call}

theorem spent_nextProvider (w : World ι ε δ) (start : ℤ) (maxAttempts total : ℕ)
    (lastErr : Option GoError) (ps : List (ProviderConfig ι)) :
    Spent host call (w,.nextProvider start maxAttempts total lastErr ps) ↔ ps = [] := by
  cases ps with
  | nil => simp [Pc.nextProvider,Spent]
  | cons p ps => simp [Pc.nextProvider,Spent,cancelled]

theorem spent_afterFailure (w : World ι ε δ) (c : Cursor ι) (err : GoError) :
    Spent host call (w.afterFailure c err) ↔
      (c.attempts < c.maxAttempts → (w.cancelled call c).isSome) ∧ c.rest = [] := by
  unfold afterFailure
  split_ifs with hlt
  · simp [Spent,hlt]
  · simp [giveUp,spent_nextProvider,hlt]

/-- One step: nothing is left exactly when the step invokes nothing and leaves nothing. -/
theorem spent_step (w : World ι ε δ) (pc : Pc ι δ) :
    Spent host call (w,pc) ↔
      w.invokedNext host call pc = [] ∧ Spent host call (step host call (w,pc)) := by
  cases pc with
  | entry => simp [Spent,invokedNext,step]
  | getAvailable start =>
    simp only [Spent,invokedNext,true_and,step,candidates]
    cases (w.getAvailableProviders host).1 with
    | error panic => simp
    | ok providers =>
      cases providers with
      | nil => simp
      | cons p ps => simp
  | narrow start providers =>
    simp only [Spent,invokedNext,true_and,step]
    cases w.narrow host call providers with
    | error err => simp
    | ok ps => simp
  | readPolicy start providers =>
    simp only [step,invokedNext,true_and,spent_nextProvider]
    rfl
  | attempt c =>
    cases hc : w.cancelled call c with
    | some err =>
      rw [step_attempt_cancelled host call hc]
      simp only [invokedNext,hc,giveUp,spent_nextProvider,true_and]
      simp [Spent,hc]
    | none => simp [Spent,invokedNext,hc]
  | inFlight c began result =>
    cases result with
    | ok data => simp [Spent,invokedNext,step]
    | error err => simp only [Spent,invokedNext,true_and,step]; rfl
  | scoreFailure c elapsed err now =>
    simp only [invokedNext,true_and,step]
    split_ifs
    · rfl
    · rw [spent_afterFailure]
      rfl
  | handleAuthFailure c err now =>
    simp only [invokedNext,true_and,step]
    rw [spent_afterFailure]
    rfl
  | recordFailure c elapsed err => simp only [Spent,invokedNext,true_and,step]; rfl
  | updateFailure c elapsed err now => simp only [Spent,invokedNext,true_and,step]; rfl
  | _ => simp [Spent,invokedNext,step]

/-- A run: nothing is left exactly when nothing is invoked up to its end and nothing is left
there. -/
theorem spent_reaches {s s' : World ι ε δ × Pc ι δ} (h : Reaches (step host call) s s') :
    Spent host call s ↔ s'.1.log = s.1.log ∧ Spent host call s' := by
  obtain ⟨n,rfl⟩ := h
  induction n generalizing s with
  | zero => simp
  | succ n ih =>
    obtain ⟨w,pc⟩ := s
    have hgrow := reaches_log_grows host call
      (⟨n,rfl⟩ : Reaches (step host call) (step host call (w,pc)) _)
    rw [spent_step,ih,Function.iterate_succ_apply]
    rw [step_log] at hgrow ⊢
    -- the log at the end can only be the one at the start if the first step adds nothing
    constructor
    · rintro ⟨hnone,hlog,hspent⟩
      rw [hnone,List.append_nil] at hlog
      exact ⟨hlog,hspent⟩
    · rintro ⟨hlog,hspent⟩
      have hnone : w.invokedNext host call pc = [] := by
        have hlen := hgrow.length_le
        simp only [hlog,List.length_append] at hlen
        exact List.length_eq_zero_iff.mp (by omega)
      rw [hnone,List.append_nil]
      exact ⟨rfl,hlog,hspent⟩

theorem step_waited (w : World ι ε δ) (pc : Pc ι δ) :
    (step host call (w,pc)).1.waited =
      match pc with
      | .entry => 0
      | .attempt c => (w.afterWait c).waited
      | _ => w.waited := by
  have hafter : ∀ (w : World ι ε δ) (c : Cursor ι) (err : GoError),
      (w.afterFailure c err).1.waited = w.waited := by
    intro w c err
    unfold afterFailure
    split_ifs <;> rfl
  cases pc with
  | getAvailable start =>
    rw [step_getAvailable_fst]
    rfl
  | narrow start providers => rw [step_narrow_fst]
  | attempt c =>
    cases hc : w.cancelled call c with
    | some err => rw [step_attempt_cancelled host call hc]; rfl
    | none => rw [step_attempt_invokes host call hc]; rfl
  | inFlight c began result => cases result <;> rfl
  | scoreFailure c elapsed err now =>
    simp only [step]
    split_ifs
    · rfl
    · rw [hafter]
  | handleAuthFailure c err now => simp only [step,hafter]
  | _ => rfl

/-- The call ends with the failure of all providers and `err` as the last error. -/
def EndsWith (err : GoError) : Pc ι δ → Prop
  | .finish _ _ _ _ e => e = some (allFailed (some err))
  | .returned (.ok r) => r.err = some (allFailed (some err))
  | _ => False

theorem endsWith_step {err : GoError} (herr : ∀ k e, call.wait k = some e → e = err)
    (w : World ι ε δ) (pc : Pc ι δ) (hspent : Spent host call (w,pc))
    (h : (∀ k < w.waited, call.wait k = none) ∨ EndsWith err pc) :
    (∀ k < (step host call (w,pc)).1.waited, call.wait k = none) ∨
      EndsWith err (step host call (w,pc)).2 := by
  rw [step_waited]
  cases pc with
  | entry => exact Or.inl (fun k hk => absurd hk (Nat.not_lt_zero k))
  | attempt c =>
    obtain ⟨hc,hrest⟩ := hspent
    obtain ⟨e,he⟩ := Option.isSome_iff_exists.mp hc
    have hwait : call.wait w.waited = some e := by
      unfold cancelled at he
      split_ifs at he
      exact he
    rw [step_attempt_cancelled host call he,herr _ _ hwait]
    simp only [giveUp,hrest]
    exact Or.inr rfl
  | finish start data name attempts e =>
    rcases h with h | h
    · exact Or.inl h
    · exact Or.inr h
  | returned r => exact h
  | _ =>
    rcases h with h | h
    · exact Or.inl h
    · cases h

theorem endsWith_reaches {err : GoError} (herr : ∀ k e, call.wait k = some e → e = err)
    {s s' : World ι ε δ × Pc ι δ} (h : Reaches (step host call) s s')
    (hspent : Spent host call s) (hbefore : ∀ k < s.1.waited, call.wait k = none) :
    (∀ k < s'.1.waited, call.wait k = none) ∨ EndsWith err s'.2 := by
  have hboth : Spent host call s' ∧
      ((∀ k < s'.1.waited, call.wait k = none) ∨ EndsWith err s'.2) := by
    refine h.invariant (I := fun t => Spent host call t ∧
      ((∀ k < t.1.waited, call.wait k = none) ∨ EndsWith err t.2)) ⟨hspent,Or.inl hbefore⟩ ?_
    rintro ⟨w,pc⟩ ⟨hs,ht⟩
    exact ⟨((spent_step w pc).mp hs).2,endsWith_step herr w pc hs ht⟩
  exact hboth.2

end World

/-- From a point on at which the context is done with `err`, a call invokes nothing and reports
`err` for an interrupted wait if and only if nothing was left to invoke at that point. A failure
is recorded only for the provider of the last invocation, with the error that it had. -/
theorem cancelled_stops_iff [ScoringEngine ε] (w : World ι ε δ) (host : Host) (call : Call ι δ)
    (err : GoError) (herr : ∀ k e, call.wait k = some e → e = err) (n : ℕ)
    (hbefore : ∀ k < (w.running host call n).1.waited, call.wait k = none) :
    ((w.runOp host call).2.log = (w.running host call n).1.log ∧
        ((∃ k < (w.runOp host call).2.waited, call.wait k ≠ none) →
          ∃ r e, (w.runOp host call).1 = .ok r ∧ r.err = some e ∧ e.is err = true) ↔
      World.Spent host call (w.running host call n)) ∧
    ∀ w' c elapsed e, Reaches (World.step host call) (w,.entry) (w',.recordFailure c elapsed e) →
      ∃ ds d, w'.log = w.log ++ ds ++ [d] ∧ d.provider = c.provider ∧ d.result = .error e := by
  have hend : Reaches (World.step host call) (w.running host call n)
      ((w.runOp host call).2,.returned (w.runOp host call).1) := by
    have h := (World.runOp_reaches host call w).of_iterate rfl (n+1)
    rw [Function.iterate_succ_apply] at h
    exact h
  have hspent := World.spent_reaches hend
  refine ⟨⟨?_,?_⟩,?_⟩
  · rintro ⟨hlog,-⟩
    exact hspent.mpr ⟨hlog,trivial⟩
  · intro hs
    refine ⟨(hspent.mp hs).1,?_⟩
    rintro ⟨k,hk,hwait⟩
    rcases World.endsWith_reaches herr hend hs hbefore with hnone | hlast
    · exact absurd (hnone k hk) hwait
    · cases hr : (w.runOp host call).1 with
      | error panic =>
        rw [hr] at hlast
        cases hlast
      | ok r =>
        rw [hr] at hlast
        refine ⟨r,_,rfl,hlast,?_⟩
        simp [World.allFailed,GoError.is]
  · intro w' c elapsed e hreach
    exact World.reaches_outcome host call hreach rfl

/-- A failing operation whose first retry is interrupted. -/
def cancelledRetry : Call Unit ℕ := { failingCall with wait := fun _ => some (.sentinel .canceled) }

/-- With one provider the interrupted wait is the end of the call. -/
theorem cancelled_stops_iff_single :
    ((World.start (.single (defaultChainConfig .balanceFetchers) "a")).runOp (.frozen 0)
      cancelledRetry).2.log =
    ((World.start (.single (defaultChainConfig .balanceFetchers) "a")).running (.frozen 0)
      cancelledRetry 4).1.log := by
  have herr : ∀ k e, cancelledRetry.wait k = some e → e = .sentinel .canceled := by
    intro k e h
    exact (Option.some.inj h).symm
  exact ((cancelled_stops_iff (World.start (.single (defaultChainConfig .balanceFetchers) "a"))
    (.frozen 0) cancelledRetry (.sentinel .canceled) herr 4
    (fun k hk => absurd hk (Nat.not_lt_zero k))).1.mpr ⟨fun _ => rfl,rfl⟩).1

/-- "a" fails and its retry is interrupted; "b" would succeed. -/
def cancelledOnA : Call String ℕ where
  op _ p := if p = "a" then .error (.plain "failed") else .ok 7
  wait _ := some (.sentinel .canceled)

/-- The context is done while the operation runs on "a". The wait of the retry is interrupted, "b"
is invoked all the same, and the call returns no error. -/
theorem cancelled_goes_on :
    ((World.start (.pair (defaultChainConfig .balanceFetchers)) : World String Unit ℕ).running
      (.frozen 0) cancelledOnA 4).1.log.map (fun d => d.provider.name) = ["a"] ∧
    ((World.start (.pair (defaultChainConfig .balanceFetchers)) : World String Unit ℕ).runOp
      (.frozen 0) cancelledOnA).2.log.map (fun d => d.provider.name) = ["a","b"] ∧
    ((World.start (.pair (defaultChainConfig .balanceFetchers)) : World String Unit ℕ).runOp
      (.frozen 0) cancelledOnA).2.waited = 1 ∧
    ∃ r, ((World.start (.pair (defaultChainConfig .balanceFetchers)) :
      World String Unit ℕ).runOp (.frozen 0) cancelledOnA).1 = .ok r ∧ r.err = none :=
  ⟨rfl,rfl,rfl,_,rfl,rfl⟩

end ChainKit
