import ChainKit.Interleaving.Machine

/-! How the steps of a call get on: which of them invoke the operation, and which invocation an
outcome belongs to while it is recorded. -/
namespace ChainKit
open Lib
variable {ι ε δ : Type}

/-- The outcome that a call has in hand, with the provider it is about. -/
def Pc.outcome : Pc ι δ → Option (ProviderConfig ι × Except GoError δ)
  | .inFlight c _ result => some (c.provider,result)
  | .recordSuccess c _ data => some (c.provider,.ok data)
  | .recordLatency c _ data => some (c.provider,.ok data)
  | .recordAttempt c data => some (c.provider,.ok data)
  | .recordFailure c _ err => some (c.provider,.error err)
  | .updateFailure c _ err _ => some (c.provider,.error err)
  | .scoreFailure c _ err _ => some (c.provider,.error err)
  | .handleAuthFailure c err _ => some (c.provider,.error err)
  | _ => none

/-- Before the providers have been chosen. -/
def Pc.fresh : Pc ι δ → Bool
  | .entry => true
  | .getAvailable _ => true
  | _ => false

@[simp] theorem Pc.nextProvider_fresh (start : ℤ) (maxAttempts total : ℕ) (lastErr : Option GoError)
    (ps : List (ProviderConfig ι)) :
    (Pc.nextProvider start maxAttempts total lastErr ps : Pc ι δ).fresh = false :=
  nextProvider_cases (P := fun pc => pc.fresh = false) (fun _ => rfl) (fun _ _ _ _ _ => rfl)
    _ _ _ _ _

namespace World
variable (host : Host) (call : Call ι δ)

/-- What the wait before the next round answers; there is none before the first. -/
def cancelled (w : World ι ε δ) (c : Cursor ι) : Option GoError :=
  if 0 < c.attempts then call.wait w.waited else none

def afterWait (w : World ι ε δ) (c : Cursor ι) : World ι ε δ :=
  if 0 < c.attempts then { w with waited := w.waited+1 } else w

@[simp] theorem afterWait_log (w : World ι ε δ) (c : Cursor ι) :
    (w.afterWait c).log = w.log := by
  unfold afterWait
  split_ifs <;> rfl

@[simp] theorem afterWait_failedProviders (w : World ι ε δ) (c : Cursor ι) :
    (w.afterWait c).failedProviders = w.failedProviders := by
  unfold afterWait
  split_ifs <;> rfl

def invokedNext (w : World ι ε δ) : Pc ι δ → List (Dispatch ι δ)
  | .attempt c =>
    match w.cancelled call c with
    | some _ => []
    | none => [(w.afterWait c).invocation host call c.provider]
  | _ => []

variable [ScoringEngine ε]

theorem step_attempt_cancelled {w : World ι ε δ} {c : Cursor ι} {err : GoError}
    (h : w.cancelled call c = some err) :
    step host call (w,.attempt c) = (w.afterWait c).giveUp c err := by
  simp only [cancelled] at h
  simp only [step,h,afterWait]

theorem step_attempt_invokes {w : World ι ε δ} {c : Cursor ι} (h : w.cancelled call c = none) :
    step host call (w,.attempt c) = ((w.afterWait c).dispatch host call c.provider,
      .inFlight c ((w.afterWait c).now host)
        (call.op (w.afterWait c).invoked c.provider.provider)) := by
  simp only [cancelled] at h
  simp only [step,h,afterWait]

theorem step_log (w : World ι ε δ) (pc : Pc ι δ) :
    (step host call (w,pc)).1.log = w.log ++ w.invokedNext host call pc := by
  cases pc with
  | getAvailable start =>
    simp only [step_getAvailable_fst,invokedNext,List.append_nil]
    rfl
  | narrow start providers => simp only [step_narrow_fst,invokedNext,List.append_nil]
  | attempt c =>
    cases h : w.cancelled call c with
    | some err =>
      rw [step_attempt_cancelled host call h]
      simp [invokedNext,h,giveUp,recordFailedProvider]
    | none =>
      rw [step_attempt_invokes host call h]
      simp [invokedNext,h,dispatch]
  | inFlight c began result => cases result <;> simp [step,invokedNext,tick]
  | scoreFailure c elapsed err now =>
    simp only [step,invokedNext,List.append_nil]
    split_ifs
    · rfl
    · rw [afterFailure_log]
  | handleAuthFailure c err now => simp [step,invokedNext]
  | _ => simp [step,invokedNext,enter,tick,recordSuccess,recordLatency,recordAttempt]

theorem step_log_grows (s : World ι ε δ × Pc ι δ) : s.1.log <+: (step host call s).1.log := by
  obtain ⟨w,pc⟩ := s
  rw [step_log]
  exact List.prefix_append _ _

theorem reaches_log_grows {s s' : World ι ε δ × Pc ι δ} (h : Reaches (step host call) s s') :
    s.1.log <+: s'.1.log :=
  h.invariant (I := fun t => s.1.log <+: t.1.log) List.prefix_rfl
    (fun t ht => ht.trans (step_log_grows host call t))

omit [ScoringEngine ε] in
theorem afterFailure_outcome (w : World ι ε δ) (c : Cursor ι) (err : GoError) :
    (w.afterFailure c err).2.outcome = none :=
  afterFailure_cases (P := fun pc => pc.outcome = none) (fun _ => rfl)
    (fun _ _ _ _ _ => rfl) w c err

theorem step_outcome (w : World ι ε δ) (pc : Pc ι δ) {x : ProviderConfig ι × Except GoError δ}
    (h : (step host call (w,pc)).2.outcome = some x) :
    (pc.outcome = some x ∧ w.invokedNext host call pc = []) ∨
      ∃ d, w.invokedNext host call pc = [d] ∧ (d.provider,d.result) = x := by
  cases pc with
  | getAvailable start =>
    simp only [step] at h
    split at h <;> cases h
  | narrow start providers =>
    simp only [step] at h
    split at h <;> cases h
  | readPolicy start providers =>
    cases providers <;> cases h
  | attempt c =>
    cases hc : w.cancelled call c with
    | some err =>
      rw [step_attempt_cancelled host call hc] at h
      simp only [giveUp] at h
      cases hrest : c.rest with
      | nil =>
        rw [hrest] at h
        cases h
      | cons p ps =>
        rw [hrest] at h
        cases h
    | none =>
      rw [step_attempt_invokes host call hc] at h
      cases h
      exact Or.inr ⟨(w.afterWait c).invocation host call c.provider,
        by simp only [invokedNext,hc],rfl⟩
  | inFlight c began result =>
    cases result with
    | ok data => exact Or.inl ⟨h,rfl⟩
    | error err => exact Or.inl ⟨h,rfl⟩
  | scoreFailure c elapsed err now =>
    simp only [step] at h
    split_ifs at h
    · exact Or.inl ⟨h,rfl⟩
    · rw [afterFailure_outcome] at h
      cases h
  | handleAuthFailure c err now =>
    simp only [step,afterFailure_outcome] at h
    cases h
  | recordSuccess | recordLatency | recordFailure | updateFailure => exact Or.inl ⟨h,rfl⟩
  | entry | recordAttempt | finish | returned => cases h

omit [ScoringEngine ε] in
theorem invokedNext_cases (w : World ι ε δ) (pc : Pc ι δ) :
    w.invokedNext host call pc = [] ∨ ∃ c, pc = .attempt c ∧ w.cancelled call c = none ∧
      w.invokedNext host call pc = [(w.afterWait c).invocation host call c.provider] := by
  cases pc with
  | attempt c =>
    cases hc : w.cancelled call c with
    | some err => exact Or.inl (by simp only [invokedNext,hc])
    | none => exact Or.inr ⟨c,rfl,hc,by simp only [invokedNext,hc]⟩
  | _ => exact Or.inl rfl

/-- Every invocation of a run was in flight, when the log had come up to it. -/
theorem reaches_inFlight {s s' : World ι ε δ × Pc ι δ} (h : Reaches (step host call) s s')
    {ds ds' : List (Dispatch ι δ)} {d : Dispatch ι δ}
    (hlog : s'.1.log = s.1.log ++ ds ++ d :: ds') :
    ∃ w' c began, Reaches (step host call) s (w',.inFlight c began d.result) ∧
      w'.log = s.1.log ++ ds ++ [d] ∧ c.provider = d.provider := by
  obtain ⟨n,rfl⟩ := h
  induction n generalizing ds' with
  | zero =>
    have hlen := congrArg List.length hlog
    simp at hlen
  | succ n ih =>
    rw [Function.iterate_succ_apply'] at hlog
    obtain ⟨⟨w₁,pc₁⟩,hs⟩ : ∃ t, (step host call)^[n] s = t := ⟨_,rfl⟩
    rw [hs] at hlog ih
    rw [step_log] at hlog
    rcases invokedNext_cases host call w₁ pc₁ with hnone | ⟨c,rfl,hc,hone⟩
    · rw [hnone,List.append_nil] at hlog
      exact ih hlog
    · rw [hone] at hlog
      rcases List.eq_nil_or_concat ds' with rfl | ⟨before,last,rfl⟩
      · -- the invocation that the step makes is the one in question
        obtain ⟨hbefore,hd⟩ := List.append_inj' hlog rfl
        cases hd
        refine ⟨(w₁.afterWait c).dispatch host call c.provider,c,(w₁.afterWait c).now host,
          ⟨n+1,?_⟩,?_,rfl⟩
        · rw [Function.iterate_succ_apply',hs]
          exact step_attempt_invokes host call hc
        · simp only [dispatch,tick,afterWait_log]
          rw [hbefore]
      · have hsplit : s.1.log ++ ds ++ d :: before.concat last =
            (s.1.log ++ ds ++ d :: before) ++ [last] := by simp
        rw [hsplit] at hlog
        exact ih (List.append_inj' hlog rfl).1

/-- Wherever a call has an outcome in hand, its last invocation has had it. -/
theorem reaches_outcome {w w' : World ι ε δ} {pc : Pc ι δ}
    (h : Reaches (step host call) (w,.entry) (w',pc)) {p : ProviderConfig ι}
    {result : Except GoError δ} (hp : pc.outcome = some (p,result)) :
    ∃ ds d, w'.log = w.log ++ ds ++ [d] ∧ d.provider = p ∧ d.result = result := by
  let Known (s : World ι ε δ × Pc ι δ) : Prop := w.log <+: s.1.log ∧
    ∀ x, s.2.outcome = some x →
      ∃ ds d, s.1.log = w.log ++ ds ++ [d] ∧ (d.provider,d.result) = x
  have hstart : Known (w,.entry) := ⟨List.prefix_rfl,fun x hx => by cases hx⟩
  have hknown : Known (w',pc) := by
    refine h.invariant (I := Known) hstart ?_
    rintro ⟨w₁,pc₁⟩ ⟨⟨ds,hds⟩,houtcome⟩
    refine ⟨List.IsPrefix.trans ⟨ds,hds⟩ (step_log_grows host call _),?_⟩
    intro x hx
    rcases step_outcome host call w₁ pc₁ hx with ⟨hsame,hnone⟩ | ⟨d,hd,hdx⟩
    · obtain ⟨ds',d,hlog,hdx⟩ := houtcome x hsame
      exact ⟨ds',d,by rw [step_log,hnone,List.append_nil,hlog],hdx⟩
    · refine ⟨ds,d,?_,hdx⟩
      rw [step_log,hd,hds]
  obtain ⟨ds,d,hlog,hd⟩ := hknown.2 _ hp
  cases hd
  exact ⟨ds,d,hlog,rfl,rfl⟩

omit [ScoringEngine ε] in
@[simp] theorem afterFailure_fresh (w : World ι ε δ) (c : Cursor ι) (err : GoError) :
    (w.afterFailure c err).2.fresh = false :=
  afterFailure_cases (P := fun pc => pc.fresh = false) (fun _ => rfl) (fun _ _ _ _ _ => rfl)
    w c err

theorem eq_entry_of_step_fresh {w : World ι ε δ} {pc : Pc ι δ}
    (h : (step host call (w,pc)).2.fresh = true) : pc = .entry := by
  cases pc with
  | entry => rfl
  | getAvailable start =>
    simp only [step] at h
    split at h <;> exact absurd h Bool.false_ne_true
  | narrow start providers =>
    simp only [step] at h
    split at h <;> exact absurd h Bool.false_ne_true
  | attempt c =>
    simp only [step] at h
    split at h
    · simp [giveUp] at h
    · exact absurd h Bool.false_ne_true
  | inFlight c began result => cases result <;> exact absurd h Bool.false_ne_true
  | scoreFailure c elapsed err now =>
    simp only [step] at h
    split_ifs at h
    · exact absurd h Bool.false_ne_true
    · simp at h
  | readPolicy start providers => simp [step] at h
  | handleAuthFailure c err now => simp [step] at h
  | _ => exact absurd h Bool.false_ne_true

theorem step_fresh (w : World ι ε δ) {pc : Pc ι δ} (h : pc.fresh = false) :
    (step host call (w,pc)).2.fresh = false := by
  rw [← Bool.not_eq_true]
  intro hfresh
  rw [eq_entry_of_step_fresh host call hfresh] at h
  cases h

theorem step_ne_entry (w : World ι ε δ) (pc : Pc ι δ) : (step host call (w,pc)).2 ≠ .entry := by
  intro h
  have hfresh : (step host call (w,pc)).2.fresh = true := by rw [h]; rfl
  obtain rfl := eq_entry_of_step_fresh host call hfresh
  cases h

end World
end ChainKit
