import ChainKit.Interleaving.Progress

/-! Auth failures and the retry loop. What an error is about is only looked at where it is
recorded: the retry loop goes on after an auth failure as after any other, and so does the loop over
the providers, which comes to a provider again that is registered twice. -/
namespace ChainKit
open Lib
variable {ι ε δ : Type}

/-- The invocation came back with an error that wraps `ErrAuthFailure`. -/
def Dispatch.isAuthFailure (d : Dispatch ι δ) : Bool :=
  match d.result with
  | .ok _ => false
  | .error err => err.isAuth

namespace World
variable [ScoringEngine ε] (host : Host) (call : Call ι δ)

/-- The loop over the list `l` has come to one of its entries, and the invocations `ds` are on the
entries up to it. -/
def Passed (l : List (ProviderConfig ι)) (ds : List (Dispatch ι δ)) : Pc ι δ → Prop
  | .attempt c | .inFlight c _ _ | .recordSuccess c _ _ | .recordLatency c _ _ | .recordAttempt c _
  | .recordFailure c _ _ | .updateFailure c _ _ _ | .scoreFailure c _ _ _
  | .handleAuthFailure c _ _ =>
    ∃ tried, l = tried ++ c.provider :: c.rest ∧ ∀ d ∈ ds, d.provider ∈ tried ++ [c.provider]
  | .finish _ _ _ _ _ | .returned _ => ∀ d ∈ ds, d.provider ∈ l
  | _ => False

/-- The call succeeds on an entry of its list that comes before the next one of the provider. -/
def SucceedsBefore (s : World ι ε δ × Pc ι δ) (c : Cursor ι) : Prop :=
  ∃ w' c' elapsed data tried, Reaches (step host call) s (w',.recordSuccess c' elapsed data) ∧
    c.rest = tried ++ c'.provider :: c'.rest ∧
      c.provider.name ∉ (tried ++ [c'.provider]).map ProviderConfig.name

/-- Whenever an auth failure is handled, the policy allows no further attempt on the provider or the
wait before it is interrupted, and no entry of its name is further down the list of the call, unless
the call succeeds before it comes there. -/
def AuthFailuresFinal (w : World ι ε δ) : Prop :=
  ∀ w' c err now, Reaches (step host call) (w,.entry) (w',.handleAuthFailure c err now) →
    (c.attempts < c.maxAttempts → (w'.cancelled call c).isSome) ∧
    (c.provider.name ∈ c.rest.map ProviderConfig.name →
      SucceedsBefore host call (w',.handleAuthFailure c err now) c)

/-- No provider is invoked after one of its invocations by the call had an auth failure. As
everywhere in the manager, a provider is known by its name. -/
def NotInvokedAgain (w : World ι ε δ) : Prop :=
  ∃ ds, (w.runOp host call).2.log = w.log ++ ds ∧
    ds.Pairwise (fun d d' => d.isAuthFailure = true → d'.provider.name ≠ d.provider.name)

/-- From an auth failure the call gets to the rest of its list without another invocation, and all
further invocations are on providers of the rest. -/
def MovesOn (w w' : World ι ε δ) (c : Cursor ι) (err : GoError) (now : ℤ) : Prop :=
  (∃ w'' total lastErr, Reaches (step host call) (w',.handleAuthFailure c err now)
      (w'',.nextProvider c.start c.maxAttempts total lastErr c.rest) ∧ w''.log = w'.log) ∧
    ∃ ds, (w.runOp host call).2.log = w'.log ++ ds ∧ ∀ d ∈ ds, d.provider ∈ c.rest

variable {host call} {l : List (ProviderConfig ι)} {ds : List (Dispatch ι δ)}

omit [ScoringEngine ε] in
theorem passed_nextProvider (start : ℤ) (maxAttempts total : ℕ) (lastErr : Option GoError) :
    Passed l [] (.nextProvider start maxAttempts total lastErr l : Pc ι δ) := by
  cases l with
  | nil =>
    intro d hd
    cases hd
  | cons p ps => exact ⟨[],rfl,by simp⟩

omit [ScoringEngine ε] in
theorem passed_giveUp (w : World ι ε δ) {c : Cursor ι} (h : Passed l ds (.attempt c))
    (err : GoError) : Passed l ds (w.giveUp c err).2 := by
  obtain ⟨tried,hl,hds⟩ := h
  have hl' : l = (tried ++ [c.provider]) ++ c.rest := by simp [hl]
  simp only [giveUp]
  cases hrest : c.rest with
  | nil =>
    intro d hd
    rw [hl']
    exact List.mem_append_left _ (hds d hd)
  | cons p ps =>
    refine ⟨tried ++ [c.provider],by rw [hl',hrest],?_⟩
    intro d hd
    exact List.mem_append_left _ (hds d hd)

omit [ScoringEngine ε] in
theorem passed_afterFailure (w : World ι ε δ) {c : Cursor ι} (h : Passed l ds (.attempt c))
    (err : GoError) : Passed l ds (w.afterFailure c err).2 := by
  unfold afterFailure
  split_ifs
  · exact h
  · exact passed_giveUp w h err

theorem passed_step (w : World ι ε δ) (pc : Pc ι δ) (h : Passed l ds pc) :
    Passed l (ds ++ w.invokedNext host call pc) (step host call (w,pc)).2 := by
  cases pc with
  | attempt c =>
    cases hc : w.cancelled call c with
    | some err =>
      rw [step_attempt_cancelled host call hc,invokedNext,hc,List.append_nil]
      exact passed_giveUp _ h err
    | none =>
      obtain ⟨tried,hl,hds⟩ := h
      rw [step_attempt_invokes host call hc,invokedNext,hc]
      refine ⟨tried,hl,?_⟩
      intro d hd
      rcases List.mem_append.mp hd with hd | hd
      · exact hds d hd
      · rw [List.mem_singleton.mp hd]
        exact List.mem_append_right _ List.mem_cons_self
  | inFlight c began result =>
    simp only [invokedNext,List.append_nil]
    cases result <;> exact h
  | scoreFailure c elapsed err now =>
    simp only [step,invokedNext,List.append_nil]
    split_ifs
    · exact h
    · exact passed_afterFailure _ h err
  | handleAuthFailure c err now =>
    simp only [invokedNext,List.append_nil]
    exact passed_afterFailure _ h err
  | recordAttempt c data =>
    obtain ⟨tried,rfl,hds⟩ := h
    intro d hd
    simp only [invokedNext,List.append_nil] at hd
    rw [List.append_cons]
    exact List.mem_append_left _ (hds d hd)
  | recordSuccess | recordLatency | recordFailure | updateFailure | finish | returned =>
    simp only [invokedNext,List.append_nil]
    exact h
  | entry | getAvailable | narrow | readPolicy => exact h.elim

theorem passed_reaches {s s' : World ι ε δ × Pc ι δ} (h : Reaches (step host call) s s')
    (hs : Passed l [] s.2) : ∃ ds, s'.1.log = s.1.log ++ ds ∧ Passed l ds s'.2 := by
  refine h.invariant (I := fun t => ∃ ds, t.1.log = s.1.log ++ ds ∧ Passed l ds t.2)
    ⟨[],by simp,hs⟩ ?_
  rintro ⟨w,pc⟩ ⟨ds,hlog,ht⟩
  exact ⟨ds ++ w.invokedNext host call pc,by rw [step_log,hlog,List.append_assoc],
    passed_step w pc ht⟩

variable (host call) in
theorem step_handleAuthFailure_retries (w : World ι ε δ) {c : Cursor ι}
    (hlt : c.attempts < c.maxAttempts) (err : GoError) (now : ℤ) :
    step host call (w,.handleAuthFailure c err now) =
      ({ w with pm := w.pm.handleAuthFailure c.provider.name now },.attempt c) := by
  simp only [step,afterFailure,if_pos hlt]

variable (host call) in
theorem step_handleAuthFailure_givesUp (w : World ι ε δ) {c : Cursor ι}
    (hlt : ¬c.attempts < c.maxAttempts) (err : GoError) (now : ℤ) :
    step host call (w,.handleAuthFailure c err now) =
      ({ w with pm := w.pm.handleAuthFailure c.provider.name now } : World ι ε δ).giveUp c err := by
  simp only [step,afterFailure,if_neg hlt]

variable (host call) in
theorem reaches_handleAuthFailure (w : World ι ε δ) (c : Cursor ι) (began : ℤ) {err : GoError}
    (hauth : err.isAuth = true) :
    ∃ w' now, Reaches (step host call) (w,.inFlight c began (.error err))
      (w',.handleAuthFailure { c with attempts := c.attempts+1 } err now) ∧ w'.log = w.log := by
  have hscore : ∀ (w : World ι ε δ) (c : Cursor ι) (elapsed now : ℤ),
      step host call (w,.scoreFailure c elapsed err now) =
        ({ w with pm := w.pm.scoreFailure call.metadata c.provider.name err elapsed now },
          .handleAuthFailure c err now) := by
    intro w c elapsed now
    simp only [step,hauth,if_true]
  exact ⟨_,_,Reaches.head rfl (Reaches.head rfl (Reaches.head rfl ⟨1,hscore _ _ _ _⟩)),rfl⟩

theorem movesOn_of_ended {w w' : World ι ε δ} {c : Cursor ι} {err : GoError} {now : ℤ}
    (hreach : Reaches (step host call) (w,.entry) (w',.handleAuthFailure c err now))
    (hend : c.attempts < c.maxAttempts → (w'.cancelled call c).isSome) :
    MovesOn host call w w' c err now := by
  have hnext : ∃ w'' total lastErr, Reaches (step host call) (w',.handleAuthFailure c err now)
      (w'',.nextProvider c.start c.maxAttempts total lastErr c.rest) ∧ w''.log = w'.log := by
    by_cases hlt : c.attempts < c.maxAttempts
    · obtain ⟨e,he⟩ := Option.isSome_iff_exists.mp (hend hlt)
      refine ⟨_,_,_,Reaches.head (step_handleAuthFailure_retries host call w' hlt err now)
        ⟨1,step_attempt_cancelled host call he⟩,?_⟩
      simp [recordFailedProvider]
    · exact ⟨_,_,_,⟨1,step_handleAuthFailure_givesUp host call w' hlt err now⟩,rfl⟩
  refine ⟨hnext,?_⟩
  obtain ⟨w'',total,lastErr,hmove,hlog⟩ := hnext
  obtain ⟨n,hn⟩ := hreach.trans hmove
  have hlast := (runOp_reaches host call w).of_iterate rfl n
  rw [hn] at hlast
  obtain ⟨ds,hds,hrest⟩ := passed_reaches hlast
    (passed_nextProvider c.start c.maxAttempts total lastErr)
  exact ⟨ds,by rw [hds,hlog],hrest⟩

theorem served_reaches {w w' : World ι ε δ} {c : Cursor ι} {elapsed : ℤ} {data : δ} {pc : Pc ι δ}
    (h : Reaches (step host call) (w,.recordSuccess c elapsed data) (w',pc)) :
    w'.log = w.log ∧ ∀ c', pc ≠ .attempt c' := by
  let Served (s : World ι ε δ × Pc ι δ) : Prop := s.1.log = w.log ∧
    ((∃ c elapsed data, s.2 = .recordSuccess c elapsed data) ∨
      (∃ c elapsed data, s.2 = .recordLatency c elapsed data) ∨
      (∃ c data, s.2 = .recordAttempt c data) ∨
      (∃ start data name attempts err, s.2 = .finish start data name attempts err) ∨
      ∃ r, s.2 = .returned r)
  have hserved : Served (w',pc) := by
    refine h.invariant (I := Served) ⟨rfl,.inl ⟨c,elapsed,data,rfl⟩⟩ ?_
    rintro ⟨w₁,pc₁⟩ ⟨hlog,hpc⟩
    simp only at hlog hpc
    rcases hpc with ⟨c,elapsed,data,rfl⟩ | ⟨c,elapsed,data,rfl⟩ | ⟨c,data,rfl⟩ |
      ⟨start,data,name,attempts,err,rfl⟩ | ⟨r,rfl⟩
    · exact ⟨hlog,.inr (.inl ⟨_,_,_,rfl⟩)⟩
    · exact ⟨hlog,.inr (.inr (.inl ⟨_,_,rfl⟩))⟩
    · exact ⟨hlog,.inr (.inr (.inr (.inl ⟨_,_,_,_,_,rfl⟩)))⟩
    · exact ⟨hlog,.inr (.inr (.inr (.inr ⟨_,rfl⟩)))⟩
    · exact ⟨hlog,.inr (.inr (.inr (.inr ⟨_,rfl⟩)))⟩
  refine ⟨hserved.1,?_⟩
  rintro c' rfl
  rcases hserved.2 with ⟨_,_,_,h⟩ | ⟨_,_,_,h⟩ | ⟨_,_,h⟩ | ⟨_,_,_,_,_,h⟩ | ⟨_,h⟩ <;> cases h

theorem invoked_before {w w' : World ι ε δ} {c : Cursor ι} {err : GoError} {now : ℤ}
    (hreach : Reaches (step host call) (w,.entry) (w',.handleAuthFailure c err now))
    (hmoves : MovesOn host call w w' c err now) (hrest : c.rest ≠ [])
    (hbefore : SucceedsBefore host call (w',.handleAuthFailure c err now) c)
    {ds : List (Dispatch ι δ)} (hds : (w.runOp host call).2.log = w'.log ++ ds) :
    ∀ d ∈ ds, d.provider.name ≠ c.provider.name := by
  obtain ⟨⟨w₁,total,lastErr,hmove,hlog₁⟩,-⟩ := hmoves
  obtain ⟨w₂,c',elapsed,data,tried,hserves,hsplit,hnot⟩ := hbefore
  have hafter : Reaches (step host call)
      (w₁,.nextProvider c.start c.maxAttempts total lastErr c.rest)
      (w₂,.recordSuccess c' elapsed data) := by
    refine (hmove.total hserves).resolve_right ?_
    intro hback
    obtain ⟨p,ps,hcons⟩ := List.exists_cons_of_ne_nil hrest
    rw [hcons] at hback
    exact (served_reaches hback).2 _ rfl
  obtain ⟨ds',hlog₂,tried',hsplit',hds'⟩ := passed_reaches hafter
    (passed_nextProvider c.start c.maxAttempts total lastErr)
  obtain ⟨n,hn⟩ := hreach.trans hserves
  have hlast := (runOp_reaches host call w).of_iterate rfl n
  rw [hn] at hlast
  have hsame : ds = ds' := by
    have hfinal := (served_reaches hlast).1
    simp only at hlog₂
    rw [hds,hlog₂,hlog₁,List.append_cancel_left_eq] at hfinal
    exact hfinal
  have htried : tried' = tried := by
    rw [hsplit] at hsplit'
    exact (List.append_cancel_right_eq ..).mp hsplit'.symm
  intro d hd heq
  rw [hsame] at hd
  have hd' := hds' d hd
  rw [htried] at hd'
  exact hnot (heq ▸ List.mem_map_of_mem hd')

/-- After an invocation with an auth failure, the provider is not invoked again. -/
theorem notRetried_of_final {w : World ι ε δ} (hfinal : w.AuthFailuresFinal host call)
    {ds ds' : List (Dispatch ι δ)} {d : Dispatch ι δ}
    (hlog : (w.runOp host call).2.log = w.log ++ ds ++ d :: ds') (hd : d.isAuthFailure = true) :
    ∀ d' ∈ ds', d'.provider.name ≠ d.provider.name := by
  obtain ⟨w₁,c,began,hreach,hlog₁,hprov⟩ :=
    reaches_inFlight host call (runOp_reaches host call w) hlog
  cases hres : d.result with
  | ok data => simp [Dispatch.isAuthFailure,hres] at hd
  | error err =>
    have hauth : err.isAuth = true := by simpa [Dispatch.isAuthFailure,hres] using hd
    rw [hres] at hreach
    obtain ⟨w₂,now,hhandle,hlog₂⟩ := reaches_handleAuthFailure host call w₁ c began hauth
    have hboth := hreach.trans hhandle
    obtain ⟨hend,hagain⟩ := hfinal _ _ _ _ hboth
    have hmoves := movesOn_of_ended hboth hend
    have hlater : (w.runOp host call).2.log = w₂.log ++ ds' := by
      rw [hlog,hlog₂,hlog₁]
      simp
    rw [← hprov]
    by_cases hmem : c.provider.name ∈ c.rest.map ProviderConfig.name
    · have hne : c.rest ≠ [] := by
        rintro hnil
        simp [hnil] at hmem
      exact invoked_before hboth hmoves hne (hagain hmem) hlater
    · obtain ⟨-,later,hlog₃,hrest⟩ := hmoves
      rw [hlater,List.append_cancel_left_eq] at hlog₃
      intro d' hd' heq
      rw [hlog₃] at hd'
      exact hmem (heq ▸ List.mem_map_of_mem (hrest d' hd'))

omit [ScoringEngine ε] in
theorem afterFailure_ne_handleAuthFailure (w : World ι ε δ) (c c' : Cursor ι) (err err' : GoError)
    (now : ℤ) : (w.afterFailure c err).2 ≠ .handleAuthFailure c' err' now :=
  afterFailure_cases (P := fun pc => pc ≠ .handleAuthFailure c' err' now) (by simp) (by simp) w c
    err

theorem isAuth_of_step {w w' : World ι ε δ} {pc : Pc ι δ} {c : Cursor ι} {err : GoError} {now : ℤ}
    (h : step host call (w,pc) = (w',.handleAuthFailure c err now)) : err.isAuth = true := by
  have hpc := congrArg Prod.snd h
  have hnext := Pc.nextProvider_cases (P := fun pc : Pc ι δ => pc ≠ .handleAuthFailure c err now)
    (by simp) (by simp)
  cases pc with
  | scoreFailure c₁ elapsed err₁ now₁ =>
    simp only [step] at hpc
    split_ifs at hpc with hauth
    · cases hpc
      exact hauth
    · exact absurd hpc (afterFailure_ne_handleAuthFailure _ _ _ _ _ _)
  | handleAuthFailure c₁ err₁ now₁ =>
    exact absurd hpc (afterFailure_ne_handleAuthFailure _ _ _ _ _ _)
  | getAvailable | narrow =>
    simp only [step] at hpc
    split at hpc <;> cases hpc
  | readPolicy start providers => exact absurd hpc (hnext _ _ _ _ _)
  | attempt c₁ =>
    cases hc : w.cancelled call c₁ with
    | some err₁ =>
      rw [step_attempt_cancelled host call hc] at hpc
      exact absurd hpc (hnext _ _ _ _ _)
    | none =>
      rw [step_attempt_invokes host call hc] at hpc
      cases hpc
  | inFlight c₁ began result => cases result <;> cases hpc
  | entry | recordSuccess | recordLatency | recordAttempt | recordFailure | updateFailure | finish
  | returned => cases hpc

theorem reaches_authFailure {w w' : World ι ε δ} {c : Cursor ι} {err : GoError} {now : ℤ}
    (h : Reaches (step host call) (w,.entry) (w',.handleAuthFailure c err now)) :
    ∃ ds d, w'.log = w.log ++ ds ++ [d] ∧ d.provider = c.provider ∧ d.isAuthFailure = true := by
  obtain ⟨ds,d,hlog,hprovider,hresult⟩ := reaches_outcome host call h rfl
  obtain ⟨n,hn⟩ := h
  cases n with
  | zero => cases hn
  | succ n =>
    rw [Function.iterate_succ_apply'] at hn
    refine ⟨ds,d,hlog,hprovider,?_⟩
    rw [Dispatch.isAuthFailure,hresult]
    exact isAuth_of_step hn

/-- If nothing is invoked again after an auth failure, then the call does not come to another
attempt on its provider. -/
theorem not_attempted_again {w w' w₁ : World ι ε δ} {c c₁ : Cursor ι} {err : GoError} {now : ℤ}
    (h : w.NotInvokedAgain host call)
    (hreach : Reaches (step host call) (w,.entry) (w',.handleAuthFailure c err now))
    (hagain : Reaches (step host call) (w',.handleAuthFailure c err now) (w₁,.attempt c₁))
    (hnone : w₁.cancelled call c₁ = none) : c₁.provider.name ≠ c.provider.name := by
  obtain ⟨ds,hds,hpairs⟩ := h
  obtain ⟨before,d,hlog,hprovider,hauth⟩ := reaches_authFailure hreach
  obtain ⟨between,hbetween⟩ := reaches_log_grows host call hagain
  obtain ⟨n,hn⟩ := (hreach.trans hagain).trans ⟨1,step_attempt_invokes host call hnone⟩
  have hlast := (runOp_reaches host call w).of_iterate rfl n
  rw [hn] at hlast
  obtain ⟨after,hafter⟩ := reaches_log_grows host call hlast
  simp only [dispatch,tick,afterWait_log] at hafter hbetween
  rw [← hbetween,hlog,hds] at hafter
  have hsplit : ds = before ++ d ::
      (between ++ (w₁.afterWait c₁).invocation host call c₁.provider :: after) := by
    rw [← List.append_cancel_left_eq w.log,← hafter]
    simp
  rw [hsplit] at hpairs
  have hrel := List.rel_of_pairwise_cons (List.pairwise_append.mp hpairs).2.1
    (List.mem_append_right between List.mem_cons_self) hauth
  rw [hprovider] at hrel
  exact hrel

theorem attempt_ends (w : World ι ε δ) (c : Cursor ι) :
    (∃ w' c' elapsed data, Reaches (step host call) (w,.attempt c)
      (w',.recordSuccess c' elapsed data) ∧ c'.provider = c.provider ∧ c'.rest = c.rest) ∨
    ∃ w' total lastErr, Reaches (step host call) (w,.attempt c)
      (w',.nextProvider c.start c.maxAttempts total lastErr c.rest) := by
  induction hn : c.maxAttempts-c.attempts using Nat.strong_induction_on generalizing w c with
  | h n ih =>
    cases hc : w.cancelled call c with
    | some err => exact .inr ⟨_,_,_,⟨1,step_attempt_cancelled host call hc⟩⟩
    | none =>
      have hstep := step_attempt_invokes host call hc
      obtain ⟨-,herror⟩ := dispatch_reaches host call (w.afterWait c) c
      cases hop : call.op (w.afterWait c).invoked c.provider.provider with
      | ok data =>
        rw [hop] at hstep
        exact .inl ⟨_,_,_,_,Reaches.head hstep ⟨1,rfl⟩,rfl,rfl⟩
      | error err =>
        rw [hop] at hstep
        have hfailed := Reaches.head hstep (herror err hop)
        unfold afterFailure at hfailed
        split_ifs at hfailed with hlt
        · simp only at hlt
          rcases ih (c.maxAttempts-(c.attempts+1)) (by omega)
              ((w.afterWait c).attemptOnce host call c.provider).2
              { c with attempts := c.attempts+1 } rfl with
            ⟨w',c',elapsed,data,hserves,hp,hr⟩ | ⟨w',total,lastErr,hnext⟩
          · exact .inl ⟨w',c',elapsed,data,hfailed.trans hserves,hp,hr⟩
          · exact .inr ⟨w',total,lastErr,hfailed.trans hnext⟩
        · exact .inr ⟨_,_,_,hfailed⟩

/-- The loop over the providers comes to an entry unless one before it serves. -/
theorem nextProvider_ends (start : ℤ) (maxAttempts : ℕ) (front back : List (ProviderConfig ι))
    (total : ℕ) (lastErr : Option GoError) (w : World ι ε δ) :
    (∃ w' c' elapsed data tried later, Reaches (step host call)
      (w,.nextProvider start maxAttempts total lastErr (front ++ back))
      (w',.recordSuccess c' elapsed data) ∧ front = tried ++ c'.provider :: later ∧
        c'.rest = later ++ back) ∨
    ∃ w' total' lastErr', Reaches (step host call)
      (w,.nextProvider start maxAttempts total lastErr (front ++ back))
      (w',.nextProvider start maxAttempts total' lastErr' back) := by
  induction front generalizing total lastErr w with
  | nil => exact .inr ⟨_,_,_,Reaches.refl _ _⟩
  | cons p front ih =>
    rcases attempt_ends w ⟨start,maxAttempts,p,front ++ back,0,total⟩ with
      ⟨w',c',elapsed,data,hserves,hp,hr⟩ | ⟨w',total',lastErr',hnext⟩
    · exact .inl ⟨w',c',elapsed,data,[],front,hserves,by rw [hp,List.nil_append],hr⟩
    · rcases ih total' lastErr' w' with
        ⟨w₁,c',elapsed,data,tried,later,hserves,hfront,hr⟩ | ⟨w₁,total₁,lastErr₁,hback⟩
      · exact .inl ⟨w₁,c',elapsed,data,p :: tried,later,hnext.trans hserves,
          by rw [hfront,List.cons_append],hr⟩
      · exact .inr ⟨w₁,total₁,lastErr₁,hnext.trans hback⟩

/-- If no provider is invoked again after an auth failure, the auth failures are final. -/
theorem final_of_notInvokedAgain {w : World ι ε δ} (h : w.NotInvokedAgain host call) :
    w.AuthFailuresFinal host call := by
  intro w' c err now hreach
  have hend : c.attempts < c.maxAttempts → (w'.cancelled call c).isSome := by
    intro hlt
    by_contra hnone
    rw [Option.not_isSome_iff_eq_none] at hnone
    exact not_attempted_again h hreach
      ⟨1,step_handleAuthFailure_retries host call w' hlt err now⟩ hnone rfl
  refine ⟨hend,?_⟩
  intro hmem
  obtain ⟨names,names',hnames,hnot⟩ := List.eq_append_cons_of_mem hmem
  obtain ⟨front,tail,hrest,rfl,htail⟩ := List.map_eq_append_iff.mp hnames
  obtain ⟨p,back,rfl,hname,-⟩ := List.map_eq_cons_iff.mp htail
  obtain ⟨⟨w₁,total,lastErr,hmove,-⟩,-⟩ := movesOn_of_ended hreach hend
  rw [hrest] at hmove
  rcases nextProvider_ends c.start c.maxAttempts front (p :: back) total lastErr w₁ with
    ⟨w₂,c',elapsed,data,tried,later,hserves,hfront,hr⟩ | ⟨w₂,total',lastErr',hback⟩
  · refine ⟨w₂,c',elapsed,data,tried,hmove.trans hserves,by rw [hrest,hfront,hr]; simp,?_⟩
    intro hin
    apply hnot
    rw [hfront,List.append_cons,List.map_append]
    exact List.mem_append_left _ hin
  · have hagain : Reaches (step host call) (w',.handleAuthFailure c err now)
        (w₂,.attempt ⟨c.start,c.maxAttempts,p,back,0,total'⟩) := hmove.trans hback
    have hfirst : w₂.cancelled call ⟨c.start,c.maxAttempts,p,back,0,total'⟩ = none := rfl
    exact (not_attempted_again h hreach hagain hfirst hname).elim

end World

/-- An operation whose credentials are rejected by the provider `a`. -/
def rejectedByFirst : Call String ℕ where
  op _ p := if p = "a" then .error GoError.ErrAuthFailure else .ok 7

/-- An operation whose credentials are rejected. -/
def rejectedCall : Call Unit ℕ where
  op _ _ := .error GoError.ErrAuthFailure

end ChainKit
