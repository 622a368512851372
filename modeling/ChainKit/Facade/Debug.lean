import ChainKit.Facade

/-! What the debug context of a call and a provider selector tell and guarantee. The trail of failed
providers is exact; the provider that is reported is the one that the context asks for, not the one
that has served. A selector keeps every call on its provider. -/
namespace ChainKit
open Lib
variable {τ κ ι ε δ : Type}

def Call.withDebugContext (call : Call ι δ) : Call ι δ := { call with failedProviders := some [] }

structure DebugInfo where
  provider : String
  failedProviders : List String
  processedAt : ℤ

/-- `ExtractDebugInfo` on a context with its values. -/
def extractDebugInfo (providerName : Option String) (failedProviders : Option (List String))
    (now : ℤ) : DebugInfo where
  provider := providerName.getD "unknown"
  failedProviders := failedProviders.getD []
  processedAt := now

structure ProviderSelector where
  selectedProvider : String

/-- `ctxWithProvider`. The name that is attached last is the one that is found. -/
def ProviderSelector.ctxWithProvider (ps : ProviderSelector) (call : Call ι δ) : Call ι δ :=
  if ps.selectedProvider ≠ "" then { call with providerName := some ps.selectedProvider } else call

/-- An operation of a selector, handed on to the client. -/
def ProviderSelector.request (ps : ProviderSelector) (request : Request ι δ) : Request ι δ :=
  { request with call := ps.ctxWithProvider request.call }

/-- After it is narrowed, a call has one provider, which has a property. -/
def Pc.Pinned (P : ProviderConfig ι → Prop) : Pc ι δ → Prop
  | .readPolicy _ providers => ∃ p, providers = [p] ∧ P p
  | .attempt c | .inFlight c _ _ | .recordSuccess c _ _ | .recordLatency c _ _
  | .recordAttempt c _ | .recordFailure c _ _ | .updateFailure c _ _ _ | .scoreFailure c _ _ _
  | .handleAuthFailure c _ _ => P c.provider ∧ c.rest = []
  | _ => True

theorem GivenUp.exists_of_mem {names : List String} {ds : List (Dispatch ι δ)}
    (h : GivenUp names ds) {name : String} (hname : name ∈ names) :
    ∃ d ∈ ds, d.provider.name = name := by
  induction h with
  | nil => simp at hname
  | @snoc names gone round p h hne hround hfailed ih =>
    rcases List.mem_append.mp hname with hname | hname
    · obtain ⟨d,hd,hd'⟩ := ih hname
      exact ⟨d,List.mem_append_left _ hd,hd'⟩
    · obtain ⟨d,hd⟩ := List.exists_mem_of_ne_nil round hne
      rw [List.mem_singleton.mp hname]
      exact ⟨d,List.mem_append_right _ hd,by rw [hround d hd]⟩

namespace World
variable {w : World ι ε δ} {host : Host} {call : Call ι δ} {name : String}

theorem narrow_pinned (hcall : call.providerName = some name)
    {providers ps : List (ProviderConfig ι)} (h : w.narrow host call providers = .ok ps) :
    ∃ p, ps = [p] ∧ host.toLower p.name = host.toLower name := by
  simp only [narrow,hcall] at h
  split at h
  next p hfound =>
    obtain rfl := Except.ok.inj h
    have hp := List.find?_some hfound
    exact ⟨p,rfl,by simpa using hp⟩
  · cases h

/-- The name that the next step passes to `recordFailedProvider`. -/
def gaveUpNext (call : Call ι δ) (w : World ι ε δ) : Pc ι δ → Option String
  | .attempt c => (w.cancelled call c).map fun _ => c.provider.name
  | .scoreFailure c _ err _ =>
    if err.isAuth ∨ c.attempts < c.maxAttempts then none else some c.provider.name
  | .handleAuthFailure c _ _ => if c.attempts < c.maxAttempts then none else some c.provider.name
  | _ => none

theorem afterFailure_failedProviders (c : Cursor ι) (err : GoError) :
    (w.afterFailure c err).1.failedProviders = w.failedProviders.map
      (· ++ (if c.attempts < c.maxAttempts then none else some c.provider.name).toList) := by
  unfold afterFailure
  split_ifs
  · simp
  · simp [giveUp,recordFailedProvider]

/-- A call adds to its trail what it gives up, and nothing else. -/
theorem step_failedProviders [ScoringEngine ε] (host : Host) (w : World ι ε δ) {pc : Pc ι δ}
    (hentered : pc ≠ .entry) : (step host call (w,pc)).1.failedProviders =
      w.failedProviders.map (· ++ (w.gaveUpNext call pc).toList) := by
  have hnone : w.failedProviders = w.failedProviders.map (· ++ []) := by simp
  cases pc with
  | entry => exact absurd rfl hentered
  | getAvailable start =>
    rw [step_getAvailable_fst]
    exact hnone
  | narrow start providers =>
    rw [step_narrow_fst]
    exact hnone
  | attempt c =>
    cases hc : w.cancelled call c with
    | some err =>
      rw [step_attempt_cancelled host call hc,gaveUpNext,hc]
      simp [giveUp,recordFailedProvider]
    | none =>
      rw [step_attempt_invokes host call hc,gaveUpNext,hc]
      exact (w.afterWait_failedProviders c).trans hnone
  | inFlight c began result => cases result <;> exact hnone
  | scoreFailure c elapsed err now =>
    simp only [step,gaveUpNext]
    by_cases hauth : err.isAuth = true
    · simp only [hauth,if_true,true_or]
      exact hnone
    · simp only [hauth,if_false,false_or,Bool.false_eq_true]
      exact afterFailure_failedProviders c err
  | handleAuthFailure c err now => exact afterFailure_failedProviders c err
  | _ => exact hnone

theorem giveUp_pinned {P : ProviderConfig ι → Prop} {c : Cursor ι} (hrest : c.rest = [])
    (err : GoError) : (w.giveUp c err).2.Pinned P := by
  simp only [giveUp,hrest]
  trivial

theorem afterFailure_pinned {P : ProviderConfig ι → Prop} {c : Cursor ι}
    (hc : P c.provider ∧ c.rest = []) (err : GoError) : (w.afterFailure c err).2.Pinned P := by
  unfold afterFailure
  split_ifs
  · exact hc
  · exact giveUp_pinned hc.2 err

variable [ScoringEngine ε] (host) (w)

theorem step_pinned (hcall : call.providerName = some name) {pc : Pc ι δ}
    (h : pc.Pinned fun p => host.toLower p.name = host.toLower name) :
    (step host call (w,pc)).2.Pinned (fun p => host.toLower p.name = host.toLower name) ∧
      ∀ d ∈ w.invokedNext host call pc, host.toLower d.provider.name = host.toLower name := by
  cases pc with
  | getAvailable start =>
    simp only [step,invokedNext]
    split <;> exact ⟨trivial,by simp⟩
  | narrow start providers =>
    simp only [step,invokedNext]
    split
    · exact ⟨trivial,by simp⟩
    next hnarrow => exact ⟨narrow_pinned hcall hnarrow,by simp⟩
  | readPolicy start providers =>
    obtain ⟨p,rfl,hp⟩ := h
    exact ⟨⟨hp,rfl⟩,by simp [invokedNext]⟩
  | attempt c =>
    cases hc : w.cancelled call c with
    | some err =>
      rw [step_attempt_cancelled host call hc,invokedNext,hc]
      exact ⟨giveUp_pinned h.2 err,by simp⟩
    | none =>
      rw [step_attempt_invokes host call hc,invokedNext,hc]
      refine ⟨h,?_⟩
      intro d hd
      rw [List.mem_singleton.mp hd]
      exact h.1
  | inFlight c began result => cases result <;> exact ⟨h,by simp [invokedNext]⟩
  | scoreFailure c elapsed err now =>
    simp only [step,invokedNext]
    split_ifs
    · exact ⟨h,by simp⟩
    · exact ⟨afterFailure_pinned ⟨h.1,h.2⟩ err,by simp⟩
  | handleAuthFailure c err now =>
    simp only [step,invokedNext]
    exact ⟨afterFailure_pinned ⟨h.1,h.2⟩ err,by simp⟩
  | recordSuccess | recordLatency | recordFailure | updateFailure => exact ⟨h,by simp [invokedNext]⟩
  | entry | recordAttempt | finish | returned => exact ⟨trivial,by simp [invokedNext]⟩

end World

namespace Client
variable [ScoringEngine ε] [DecidableEq τ] (u : Unicode) (host : Host)
  (mp : MixedProviders ι ε) (requests : τ → Request ι δ) (l : List τ) {t : τ} {name : String}

theorem run_pinned (hcall : (requests t).call.providerName = some name) :
    (((start mp requests).run u host l).goroutines t).stage.pc.Pinned
        (fun p => host.toLower p.name = host.toLower name) ∧
      ∀ d ∈ (start mp requests).invocations u host t l,
        host.toLower d.provider.name = host.toLower name := by
  induction l using List.reverseRecOn with
  | nil => exact ⟨trivial,by simp [invocations]⟩
  | append_singleton l v ih =>
    rw [run_concat,invocations_concat]
    by_cases h : v = t
    · subst h
      rw [if_pos rfl,invokedNext]
      have hrequest := run_request u host mp requests l v
      generalize (start mp requests).run u host l = s at ih hrequest ⊢
      rw [← hrequest] at hcall
      obtain ⟨hnext,hinvoked⟩ := (s.world v).step_pinned host hcall ih.1
      constructor
      · apply step_rule (P := fun s' => (s'.goroutines v).stage.pc.Pinned _)
        case hrunOp =>
          intro pc hstage _
          simp only [stepRunOp,Function.update_self,Stage.pc]
          rw [hstage] at hnext
          exact hnext
        case hrecord => exact fun r _ => by simp [record,Stage.pc,Pc.Pinned]
        case hdone => exact fun r _ => ih.1
      · intro d hd
        rcases List.mem_append.mp hd with hd | hd
        · exact ih.2 d hd
        · exact hinvoked d hd
    · rw [if_neg h,List.append_nil,step_of_ne u host _ (Ne.symm h)]
      exact ih

variable [DecidableEq κ]

/-- What a debug state holds after a run. It is shared by all goroutines whose contexts carry it:
`earlier` is followed by every name that one of these has passed to `recordFailedProvider`. -/
def debugState (context : τ → κ) (state : κ) (earlier : List String) (s : Client τ ι ε δ) :
    List String :=
  earlier ++ observe (step u host)
    (fun s t => if context t = state then
      (s.world t).gaveUpNext (s.goroutines t).request.call (s.goroutines t).stage.pc else none) s l

theorem debugState_concat (context : τ → κ) (state : κ) (earlier : List String)
    (s : Client τ ι ε δ) (v : τ) :
    s.debugState u host (l ++ [v]) context state earlier =
      s.debugState u host l context state earlier ++ (if context v = state then
        ((s.run u host l).world v).gaveUpNext ((s.run u host l).goroutines v).request.call
          ((s.run u host l).goroutines v).stage.pc else none).toList := by
  rw [debugState,observe_concat,← List.append_assoc]
  rfl

/-- The trail of a call that has begun is what its debug state holds. -/
structure Trails (s : Client τ ι ε δ) (t : τ) (earlier state : List String) : Prop where
  before : (s.goroutines t).stage.pc = .entry → state = earlier
  begun : (s.goroutines t).stage.pc ≠ .entry → (s.goroutines t).failedProviders = some state

omit [DecidableEq κ] in
theorem Trails.step {s : Client τ ι ε δ} {earlier state : List String}
    (h : s.Trails t earlier state)
    (hdebug : (s.goroutines t).request.call.failedProviders = some earlier) :
    (s.step u host t).Trails t earlier (state ++ ((s.world t).gaveUpNext
      (s.goroutines t).request.call (s.goroutines t).stage.pc).toList) := by
  apply step_rule (P := fun s' => s'.Trails t earlier _)
  case hrunOp =>
    intro pc hstage _
    have hpc : (s.goroutines t).stage.pc = pc := by rw [hstage]; rfl
    rw [hpc]
    constructor
    · intro hentry
      simp only [stepRunOp,Function.update_self,Stage.pc] at hentry
      exact absurd hentry (World.step_ne_entry host _ _ pc)
    · intro _
      simp only [stepRunOp,Function.update_self]
      by_cases hentry : pc = .entry
      · subst hentry
        rw [h.before hpc]
        simpa [World.gaveUpNext,World.step,World.enter] using hdebug
      · rw [World.step_failedProviders host (s.world t) hentry]
        simp [world,h.begun (hpc ▸ hentry)]
  case hrecord =>
    intro r hstage
    have hpc : (s.goroutines t).stage.pc = .returned (.ok r) := by rw [hstage]; rfl
    refine ⟨fun hentry => ?_,fun _ => ?_⟩
    · simp [record,Stage.pc] at hentry
    · simpa [record,hpc,World.gaveUpNext] using h.begun (by simp [hpc])
  case hdone =>
    intro r hstage
    have hpc : (s.goroutines t).stage.pc = .returned (.ok r) := by rw [hstage]; rfl
    simpa [hpc,World.gaveUpNext] using h

/-- A call that has its debug state for itself finds there what its own steps have put there. -/
theorem run_trails {context : τ → κ} (halone : ∀ v, context v = context t → v = t)
    {earlier : List String} (hdebug : (requests t).call.failedProviders = some earlier) :
    ((start mp requests).run u host l).Trails t earlier
      ((start mp requests).debugState u host l context (context t) earlier) := by
  induction l using List.reverseRecOn with
  | nil => exact ⟨fun _ => List.append_nil _,fun h => absurd rfl h⟩
  | append_singleton l v ih =>
    rw [run_concat,debugState_concat]
    by_cases h : v = t
    · subst h
      rw [if_pos rfl]
      apply ih.step
      rw [run_request]
      exact hdebug
    · have hother : context v ≠ context t := fun hsame => h (halone v hsame)
      rw [if_neg hother,Option.toList_none,List.append_nil]
      have hsame := ((start mp requests).run u host l).step_of_ne u host (Ne.symm h)
      constructor
      · rw [hsame]
        exact ih.before
      · rw [hsame]
        exact ih.begun

end Client

/-- For every client, all requests and every interleaving: when a call has come to its end and no
other call has its debug context, the trail that the context held is followed by the names of the
providers that the call has given up, in the order in which it has tried them, each with all of its
invocations on them, and these have failed. What is left of its invocations is those on the
provider that has served, and nothing if none has. -/
theorem debugInfo_exact [ScoringEngine ε] [DecidableEq τ] [DecidableEq κ] (u : Unicode)
    (host : Host) (mp : MixedProviders ι ε) (requests : τ → Request ι δ) (l : List τ) {t : τ}
    {r : OpReturn δ} (context : τ → κ) (halone : ∀ v, context v = context t → v = t)
    {earlier : List String} (hdebug : (requests t).call.failedProviders = some earlier)
    (hended : (((Client.start mp requests).run u host l).goroutines t).stage = .recorded r)
    (now : ℤ) :
    let info := extractDebugInfo (requests t).call.providerName
      (some ((Client.start mp requests).debugState u host l context (context t) earlier)) now
    ∃ names, info.failedProviders = earlier ++ names ∧
      ((∃ err, r.err = some err) →
        GivenUp names ((Client.start mp requests).invocations u host t l)) ∧
      (r.err = none → ∃ data, ServedBy names
        ((Client.start mp requests).invocations u host t l) r.providerName data) := by
  intro info
  obtain ⟨names,hr,htrail⟩ := Client.recorded_accounted u host mp requests l hended
  refine ⟨names,?_,?_,?_⟩
  · have hstate := (Client.run_trails u host mp requests l halone hdebug).begun
      (by simp [hended,Stage.pc])
    rw [htrail,hdebug,Option.map_some,Option.some.injEq] at hstate
    exact hstate.symm
  · rintro ⟨err,herr⟩
    exact (hr.failed err herr).2.2.1
  · intro hnone
    obtain ⟨data,_,hserved⟩ := hr.served hnone
    exact ⟨data,hserved⟩

/-- A client whose chains have two providers each and do not retry. -/
def pairClient : MixedProviders String Unit := ⟨fun _ => .pair noRetryConfig,fun _ => none⟩

/-- A call of `GetBalance` that only the second provider serves. -/
def secondServes : Request String ℕ where
  operation := .getBalance
  call := Call.withDebugContext
    { op := fun _ p => if p = "a" then Except.error (GoError.plain "failed") else .ok 7 }

/-- Two goroutines take turns, each with a debug context of its own. In both calls the first
provider fails and the second one serves. -/
theorem debugInfo_exact_fallback :
    let requests (_ : Bool) := secondServes
    let turns := (List.replicate 16 [true,false]).flatten
    let trail := (Client.start pairClient requests).debugState .ascii (.frozen 0) turns id true []
    ∃ r, (((Client.start pairClient requests).run .ascii (.frozen 0) turns).goroutines
        true).stage = .recorded r ∧ r.providerName = "b" ∧ trail = ["a"] ∧
      ∃ names, (extractDebugInfo none (some trail) 0).failedProviders = [] ++ names ∧
        ∃ data, ServedBy names ((Client.start pairClient requests).invocations .ascii (.frozen 0)
          true turns) "b" data := by
  intro requests turns trail
  have hended : (match (((Client.start pairClient requests).run .ascii (.frozen 0)
        turns).goroutines true).stage with
      | .recorded r => r.providerName == "b" && r.err.isNone
      | .running _ => false) = true := by decide +kernel
  split at hended
  next r hstage =>
    rw [Bool.and_eq_true,beq_iff_eq,Option.isNone_iff_eq_none] at hended
    obtain ⟨names,hnames,_,hserved⟩ := debugInfo_exact .ascii (.frozen 0) pairClient requests
      turns id (fun _ => id) rfl hstage 0
    rw [hended.1] at hserved
    exact ⟨r,hstage,hended.1,by decide +kernel,names,hnames,hserved hended.2⟩
  next => cases hended

/-- For every client, all requests and every interleaving: a call through a selector with a name
invokes only providers of that name, up to lower case, whatever name its own context asks for; and
so are the provider that the recorder is told of and all names that are added to the debug trail. -/
theorem selector_confines [ScoringEngine ε] [DecidableEq τ] (u : Unicode) (host : Host)
    (mp : MixedProviders ι ε) (requests : τ → Request ι δ) (l : List τ) (t : τ)
    (ps : ProviderSelector) (request : Request ι δ) (hname : ps.selectedProvider ≠ "")
    (hrequest : requests t = ps.request request) :
    (∀ d ∈ (Client.start mp requests).invocations u host t l,
      host.toLower d.provider.name = host.toLower ps.selectedProvider) ∧
    ∀ r, (((Client.start mp requests).run u host l).goroutines t).stage = .recorded r →
      (r.providerName = "" ∨
        host.toLower r.providerName = host.toLower ps.selectedProvider) ∧
      ∃ names, (((Client.start mp requests).run u host l).goroutines t).failedProviders =
          request.call.failedProviders.map (· ++ names) ∧
        ∀ name ∈ names, host.toLower name = host.toLower ps.selectedProvider := by
  have hcall : (requests t).call.providerName = some ps.selectedProvider := by
    rw [hrequest,ProviderSelector.request,ProviderSelector.ctxWithProvider,if_pos hname]
  have htrail₀ : (requests t).call.failedProviders = request.call.failedProviders := by
    rw [hrequest,ProviderSelector.request,ProviderSelector.ctxWithProvider,if_pos hname]
  have hconfined := (Client.run_pinned u host mp requests l hcall).2
  refine ⟨hconfined,?_⟩
  intro r hended
  obtain ⟨names,hr,htrail⟩ := Client.recorded_accounted u host mp requests l hended
  rw [htrail₀] at htrail
  cases herr : r.err with
  | none =>
    obtain ⟨_,_,gone,round,d,hds,hgone,_,_,hserver⟩ := hr.served herr
    refine ⟨.inr ?_,names,htrail,?_⟩
    · rw [← hserver]
      exact hconfined d (by simp [hds])
    · intro name hmem
      obtain ⟨d',hd',rfl⟩ := hgone.exists_of_mem hmem
      exact hconfined d' (by simp [hds,hd'])
  | some err =>
    obtain ⟨_,hserver,hgone,_⟩ := hr.failed err herr
    refine ⟨.inl hserver,names,htrail,?_⟩
    intro name hmem
    obtain ⟨d',hd',rfl⟩ := hgone.exists_of_mem hmem
    exact hconfined d' hd'

/-- A selector for the second provider, on a call whose own context asks for the first. -/
theorem selector_confines_second :
    let request : Request String ℕ :=
      { secondServes with call := { secondServes.call with providerName := some "a" } }
    let ds := (Client.start pairClient fun _ : Unit => (ProviderSelector.mk "b").request
      request).invocations .ascii (.frozen 0) () (List.replicate 20 ())
    ds.length = 1 ∧ ∀ d ∈ ds, d.provider.name = "b" := by
  intro request ds
  exact ⟨by decide +kernel,
    (selector_confines .ascii (.frozen 0) pairClient _ _ () ⟨"b"⟩ request (by decide) rfl).1⟩

end ChainKit
