import ChainKit.RunOp.Rules
import ChainKit.Scoring.Engine

/-! What the engine counts along a sequence of calls. A successful invocation is reported
twice, by `recordSuccess` and by `recordSuccessWithLatency`; a failed one is reported once, and
counted only where its error is classified as a failed operation. -/
namespace ChainKit
variable {ι δ : Type}

/-- The part of a score that counts operations, with the penalty that successes reduce. -/
structure Tally where
  successfulOps : ℕ
  failedOps : ℕ
  totalOperations : ℕ
  errorPenalty : ℚ

def ProviderScore.tally (ps : ProviderScore) : Tally :=
  ⟨ps.successfulOps,ps.failedOps,ps.totalOperations,ps.errorPenalty⟩

namespace Tally

def success (config : ScoringConfig) (t : Tally) : Tally where
  successfulOps := t.successfulOps+1
  failedOps := t.failedOps
  totalOperations := t.totalOperations+1
  errorPenalty := applyBonus config.successBonus t.errorPenalty

def failure (config : ScoringConfig) (t : Tally) : Tally where
  successfulOps := t.successfulOps
  failedOps := t.failedOps+1
  totalOperations := t.totalOperations+1
  errorPenalty := addPenalty config.maxPenalty t.errorPenalty config.operationFailPenalty

def event (config : ScoringConfig) (type : ScoreEventType) (t : Tally) : Tally :=
  match type with
  | .operationSuccess => t.success config
  | .operationFailed => t.failure config
  | _ => t

end Tally

namespace Engine

def tally (e : Engine) (name : String) : Option Tally := (e.scores name).map ProviderScore.tally

theorem tally_updateScore (e : Engine) (provider name : String) {f : ProviderScore → ProviderScore}
    {g : Tally → Tally} (h : ∀ ps, (f ps).tally = g ps.tally) :
    (e.updateScore provider f).tally name =
      if provider = name then (e.tally name).map g else e.tally name := by
  by_cases hn : provider = name
  · subst hn
    simp only [tally,updateScore,Function.update_self,Option.map_map,if_true]
    congr 1
    funext ps
    exact h ps
  · simp only [tally,updateScore,Function.update_of_ne (Ne.symm hn),if_neg hn]

theorem tally_updateScore_same (e : Engine) (provider name : String)
    {f : ProviderScore → ProviderScore} (h : ∀ ps, (f ps).tally = ps.tally) :
    (e.updateScore provider f).tally name = e.tally name := by
  rw [tally_updateScore e provider name (g := id) h]
  simp

theorem tally_updateLatencyPenalty (e : Engine) (provider name : String) :
    (e.updateLatencyPenalty provider).tally name = e.tally name := by
  unfold updateLatencyPenalty
  split_ifs
  · rfl
  · exact tally_updateScore_same e provider name (fun _ => rfl)

theorem tally_recordLatency (e : Engine) (provider name : String) (responseTime : ℤ) :
    (e.recordLatency provider responseTime).tally name = e.tally name := by
  unfold recordLatency
  rw [tally_updateLatencyPenalty]
  exact tally_updateScore_same _ provider name (fun _ => rfl)

@[simp] theorem recordLatency_config (e : Engine) (provider : String) (responseTime : ℤ) :
    (e.recordLatency provider responseTime).config = e.config := by
  simp only [recordLatency,updateLatencyPenalty]
  split_ifs <;> rfl

theorem applyEvent_tally (config : ScoringConfig) (type : ScoreEventType) (ps : ProviderScore) :
    (applyEvent config type ps).tally = ps.tally.event config type := by
  cases type <;> rfl

@[simp] theorem recordEvent_config (e : Engine) (event : ScoreEvent) :
    (e.recordEvent event).config = e.config := by
  simp only [recordEvent]
  split_ifs
  · exact recordLatency_config e _ _
  · rfl
  · rfl

/-- One event moves the tally of its provider, and no other. -/
theorem tally_recordEvent {e : Engine} (he : e.config.enabled = true) (event : ScoreEvent)
    (name : String) :
    (e.recordEvent event).tally name =
      if event.provider = name then (e.tally name).map (Tally.event e.config event.type)
      else e.tally name := by
  simp only [recordEvent,he,Bool.true_and]
  split
  · rw [tally_updateScore _ _ _ (applyEvent_tally _ _)]
    by_cases hlat : 0 < event.responseTime
    · simp only [if_pos hlat,tally_recordLatency,recordLatency_config]
    · simp only [if_neg hlat]
  next hnone =>
    by_cases hn : event.provider = name
    · subst hn
      simp [tally,Option.not_isSome_iff_eq_none.mp hnone]
    · rw [if_neg hn]

end Engine

/-- The type of the event that reports a failed attempt. -/
def GoError.eventType (err : GoError) : ScoreEventType :=
  if err.isAuth then .operationAuthFail
  else (classifyOperationEvent "" 0 (some err) 0).type

/-- The engine counts the attempt as a failed operation. -/
def GoError.counted (err : GoError) : Bool :=
  !err.isAuth && !containsAuthFailureIndicator err.error && !containsRateLimitIndicator err.error

theorem GoError.eventType_event (err : GoError) (config : ScoringConfig) (t : Tally) :
    t.event config err.eventType = if err.counted then t.failure config else t := by
  unfold GoError.eventType GoError.counted
  simp only [classifyOperationEvent]
  cases err.isAuth with
  | true => simp [Tally.event]
  | false =>
    cases containsAuthFailureIndicator err.error with
    | true => simp [Tally.event]
    | false =>
      cases containsRateLimitIndicator err.error with
      | true => simp [Tally.event]
      | false => simp [Tally.event]

/-- What one invocation does to the tally of a name. -/
def Tally.attempt (config : ScoringConfig) (name : String) (t : Tally) (d : Dispatch ι δ) :
    Tally :=
  if d.provider.name = name then
    match d.err with
    | none => (t.success config).success config
    | some err => if err.counted then t.failure config else t
  else t

namespace ProviderManager

/-- An engine is attached, switched on and has the configuration, and `tally` is what it has
counted for each name. -/
structure Counts (pm : ProviderManager ι Engine) (address : ℕ) (config : ScoringConfig)
    (tally : String → Option Tally) : Prop where
  attached : pm.scoringEngine = some address
  engine : ∃ e, pm.engines address = some e ∧ e.config = config ∧ ∀ name, e.tally name = tally name

variable {pm : ProviderManager ι Engine} {address : ℕ} {config : ScoringConfig}
  {tally : String → Option Tally}

theorem Counts.congr (h : pm.Counts address config tally) {tally' : String → Option Tally}
    (heq : ∀ name, tally name = tally' name) : pm.Counts address config tally' := by
  obtain ⟨ha,e,he,hc,ht⟩ := h
  exact ⟨ha,e,he,hc,fun name => (ht name).trans (heq name)⟩

theorem Counts.recordEvent (h : pm.Counts address config tally) (hon : config.enabled = true)
    (event : ScoreEvent) :
    (pm.recordEvent event).Counts address config (fun name =>
      if event.provider = name then (tally name).map (Tally.event config event.type)
      else tally name) := by
  obtain ⟨ha,e,he,rfl,ht⟩ := h
  refine ⟨ha,e.recordEvent event,?_,by simp,?_⟩
  · simp only [ProviderManager.recordEvent,ha,Function.update_self,he]
    rfl
  · intro name
    rw [Engine.tally_recordEvent hon,ht]

theorem Counts.recordSuccess (h : pm.Counts address config tally) (hon : config.enabled = true)
    (name : String) (closedAt requestAt scoredAt : ℤ) :
    (pm.recordSuccess name closedAt requestAt scoredAt).Counts address config (fun n =>
      if name = n then (tally n).map (Tally.success config) else tally n) := by
  have h' : (pm.updateState name (fun st => st.recordSuccess pm.config closedAt requestAt)
      (fun _ => ProviderState.recordSuccess_tracked pm.config closedAt requestAt)).Counts
        address config tally := ⟨h.attached,h.engine⟩
  exact h'.recordEvent hon _

theorem Counts.recordLatency (h : pm.Counts address config tally) (hon : config.enabled = true)
    (name : String) (responseTime scoredAt : ℤ) :
    (pm.recordLatency name responseTime scoredAt).Counts address config (fun n =>
      if name = n then (tally n).map (Tally.success config) else tally n) :=
  h.recordEvent hon _

theorem Counts.recordFailureWithError (h : pm.Counts address config tally)
    (hon : config.enabled = true) (metadata : Option OperationMetadata) (name : String)
    (err : GoError) (responseTime now : ℤ) :
    (pm.recordFailureWithError metadata name err responseTime now).Counts address config (fun n =>
      if name = n then (tally n).map (Tally.event config err.eventType) else tally n) := by
  have hu : (pm.updateFailureState name now).Counts address config tally :=
    ⟨h.attached,h.engine⟩
  have hs : ((pm.updateFailureState name now).scoreFailure metadata name err responseTime
      now).Counts address config (fun n =>
        if name = n then (tally n).map (Tally.event config err.eventType) else tally n) := by
    simp only [scoreFailure,GoError.eventType]
    cases metadata with
    | none => cases err.isAuth <;> exact hu.recordEvent hon _
    | some m => cases err.isAuth <;> exact hu.recordEvent hon _
  simp only [ProviderManager.recordFailureWithError]
  split_ifs
  · exact ⟨hs.attached,hs.engine⟩
  · exact hs

theorem Counts.getAvailableProviders (h : pm.Counts address config tally) (now : ℤ) :
    (pm.getAvailableProviders now).2.Counts address config tally := by
  simp only [ProviderManager.getAvailableProviders]
  split
  · exact ⟨h.attached,h.engine⟩
  · exact ⟨h.attached,h.engine⟩

end ProviderManager

namespace World
variable {address : ℕ} {config : ScoringConfig} {tally : String → Option Tally}

theorem attemptOnce_counts {w : World ι Engine δ} (h : w.pm.Counts address config tally)
    (hon : config.enabled = true) (host : Host) (call : Call ι δ) (p : ProviderConfig ι) :
    (w.attemptOnce host call p).2.pm.Counts address config (fun name =>
      (tally name).map (fun t => t.attempt config name (w.invocation host call p))) := by
  simp only [attemptOnce]
  cases hop : call.op w.invoked p.provider with
  | ok data =>
    simp only [recordSuccessWithLatency,World.recordLatency,World.recordSuccess]
    have h₁ : (w.dispatch host call p).tick.pm.Counts address config tally := h
    refine ((h₁.recordSuccess hon p.name _ _ _).recordLatency hon p.name _ _).congr ?_
    intro name
    by_cases hn : p.name = name
    · simp [Tally.attempt,invocation,Dispatch.err,hop,hn,Function.comp_def]
    · simp [Tally.attempt,invocation,hn]
  | error err =>
    simp only [World.recordFailureWithError]
    have h₁ : (w.dispatch host call p).tick.pm.Counts address config tally := h
    refine (h₁.recordFailureWithError hon call.metadata p.name err _ _).congr ?_
    intro name
    by_cases hn : p.name = name
    · simp only [Tally.attempt,invocation,Dispatch.err,hop,hn,if_true]
      congr 1
      funext t
      exact err.eventType_event config t
    · simp [Tally.attempt,invocation,hn]

/-- The log has grown by some invocations since `log`, and the engine has counted these. -/
def Scored (address : ℕ) (config : ScoringConfig) (tally : String → Option Tally)
    (log : List (Dispatch ι δ)) (w : World ι Engine δ) : Prop :=
  ∃ ds, w.log = log ++ ds ∧ w.pm.Counts address config (fun name =>
    (tally name).map (fun t => ds.foldl (Tally.attempt config name) t))

theorem Scored.attemptOnce {log : List (Dispatch ι δ)} {w : World ι Engine δ}
    (h : w.Scored address config tally log) (hon : config.enabled = true) (host : Host)
    (call : Call ι δ) (p : ProviderConfig ι) :
    (w.attemptOnce host call p).2.Scored address config tally log := by
  obtain ⟨ds,hlog,hcounts⟩ := h
  refine ⟨ds ++ [w.invocation host call p],?_,?_⟩
  · rw [attemptOnce_log,hlog,List.append_assoc]
  · refine (attemptOnce_counts hcounts hon host call p).congr ?_
    intro name
    simp [Function.comp_def]

theorem Scored.runOp {log : List (Dispatch ι δ)} {w : World ι Engine δ}
    (h : w.Scored address config tally log) (hon : config.enabled = true) (host : Host)
    (call : Call ι δ) : (w.runOp host call).2.Scored address config tally log := by
  apply World.runOp_keeps (I := fun w₀ => w₀.Scored address config tally log)
  · exact fun _ h => h
  · exact fun _ _ h => h
  · exact fun p _ h => h.attemptOnce hon host call p
  · rintro p w₀ ⟨ds,hlog,hcounts⟩
    exact ⟨ds,hlog,hcounts.attached,hcounts.engine⟩
  · exact fun _ h => h
  · obtain ⟨ds,hlog,hcounts⟩ := h
    refine ⟨ds,?_,?_⟩
    · rw [enter_candidates_log,hlog]
    · rw [candidates_snd]
      exact hcounts.getAvailableProviders _

/-- Along a sequence of calls the engine counts the invocations that the log has gained. -/
theorem runCalls_scored {w : World ι Engine δ} (h : w.pm.Counts address config tally)
    (hon : config.enabled = true) (host : Host) (calls : List (Call ι δ)) :
    (w.runCalls host calls).Scored address config tally w.log := by
  apply runCalls_invariant (I := Scored address config tally w.log)
  · refine ⟨[],by simp,?_⟩
    simpa using h
  · intro before call after _ h
    exact h.runOp hon host call

end World

/-- The invocations on a name that meet a condition on their error. -/
def invocationsOn (name : String) (P : Option GoError → Bool) (ds : List (Dispatch ι δ)) : ℕ :=
  ds.countP (fun d => decide (d.provider.name = name) && P d.err)

theorem foldl_attempt_counts (config : ScoringConfig) (name : String) (ds : List (Dispatch ι δ))
    (t : Tally) :
    (ds.foldl (Tally.attempt config name) t).successfulOps =
      t.successfulOps+2*invocationsOn name Option.isNone ds ∧
    (ds.foldl (Tally.attempt config name) t).failedOps =
      t.failedOps+invocationsOn name (fun err => err.any GoError.counted) ds ∧
    (ds.foldl (Tally.attempt config name) t).totalOperations =
      t.totalOperations+2*invocationsOn name Option.isNone ds+
        invocationsOn name (fun err => err.any GoError.counted) ds := by
  induction ds generalizing t with
  | nil => simp [invocationsOn]
  | cons d ds ih =>
    obtain ⟨hs,hf,ht⟩ := ih (t.attempt config name d)
    simp only [List.foldl_cons,hs,hf,ht]
    simp only [invocationsOn,List.countP_cons,Tally.attempt]
    by_cases hn : d.provider.name = name
    · cases herr : d.err with
      | none =>
        simp [hn,Tally.success]
        omega
      | some err =>
        cases hc : err.counted with
        | true =>
          simp [hn,hc,Tally.failure]
          omega
        | false => simp [hn,hc]
    · simp [hn]

/-- Every attempt on the name has been scored exactly once: the operations are counted by their
outcome, and the error penalty is what the bonus of each success, taken once, leaves. -/
structure ScoredOnce (config : ScoringConfig) (name : String) (ds : List (Dispatch ι δ))
    (before after : Tally) : Prop where
  successes : after.successfulOps = before.successfulOps+invocationsOn name Option.isNone ds
  failures : after.failedOps = before.failedOps+invocationsOn name Option.isSome ds
  total : after.totalOperations = before.totalOperations+invocationsOn name (fun _ => true) ds
  bonus : after.errorPenalty = ds.foldl (fun penalty d =>
    if d.provider.name = name then
      match d.err with
      | none => applyBonus config.successBonus penalty
      | some err =>
        if err.counted then addPenalty config.maxPenalty penalty config.operationFailPenalty
        else penalty
    else penalty) before.errorPenalty

/-- Where each attempt on the name fails with a counted error, or there is none, the law of the
engine is the one of `ScoredOnce`. -/
theorem foldl_attempt_errorPenalty (config : ScoringConfig) (name : String)
    (ds : List (Dispatch ι δ))
    (h : ∀ d ∈ ds, d.provider.name = name → ∃ err, d.err = some err ∧ err.counted = true)
    (t : Tally) :
    (ds.foldl (Tally.attempt config name) t).errorPenalty = ds.foldl (fun penalty d =>
      if d.provider.name = name then
        match d.err with
        | none => applyBonus config.successBonus penalty
        | some err =>
          if err.counted then addPenalty config.maxPenalty penalty config.operationFailPenalty
          else penalty
      else penalty) t.errorPenalty := by
  induction ds generalizing t with
  | nil => rfl
  | cons d ds ih =>
    rw [List.foldl_cons,List.foldl_cons,ih (fun d' hd' => h d' (by simp [hd']))]
    congr 1
    by_cases hn : d.provider.name = name
    · obtain ⟨err,herr,hc⟩ := h d (by simp) hn
      simp [Tally.attempt,hn,herr,hc,Tally.failure]
    · simp [Tally.attempt,hn]

theorem invocationsOn_eq_iff (name : String) (ds : List (Dispatch ι δ)) :
    (invocationsOn name Option.isNone ds = 0 ∧
      invocationsOn name (fun err => err.any GoError.counted) ds =
        invocationsOn name Option.isSome ds) ↔
    ∀ d ∈ ds, d.provider.name = name → ∃ err, d.err = some err ∧ err.counted = true := by
  have hle : ∀ ds : List (Dispatch ι δ),
      invocationsOn name (fun err => err.any GoError.counted) ds ≤
        invocationsOn name Option.isSome ds := by
    intro ds
    apply List.countP_mono_left
    intro d _ hd
    simp only [Bool.and_eq_true] at hd ⊢
    refine ⟨hd.1,?_⟩
    cases herr : d.err with
    | none => simp [herr] at hd
    | some err => rfl
  induction ds with
  | nil => simp [invocationsOn]
  | cons d ds ih =>
    have hds := hle ds
    simp only [List.forall_mem_cons,← ih]
    simp only [invocationsOn,List.countP_cons] at hds ⊢
    by_cases hn : d.provider.name = name
    · cases herr : d.err with
      | none => simp [hn]
      | some err =>
        cases hc : err.counted with
        | true => simp [hn,hc]
        | false =>
          simp [hn,hc]
          omega
    · simp [hn]

theorem invocationsOn_total (name : String) (ds : List (Dispatch ι δ)) :
    invocationsOn name (fun _ => true) ds =
      invocationsOn name Option.isNone ds+invocationsOn name Option.isSome ds := by
  induction ds with
  | nil => simp [invocationsOn]
  | cons d ds ih =>
    simp only [invocationsOn,List.countP_cons] at ih ⊢
    by_cases hn : d.provider.name = name
    · cases herr : d.err with
      | none =>
        simp [hn] at ih ⊢
        omega
      | some err =>
        simp [hn] at ih ⊢
        omega
    · simpa [hn] using ih

/-- After any sequence of calls the attempts on a registered name have been scored exactly once
if and only if none of them succeeded and each failed with an error that the engine counts as a
failed operation. -/
theorem runCalls_scoredOnce_iff (host : Host) (w : World ι Engine δ) (calls : List (Call ι δ))
    {address : ℕ} {e : Engine} {name : String} {score : ProviderScore}
    (hattached : w.pm.scoringEngine = some address) (hengine : w.pm.engines address = some e)
    (hon : e.config.enabled = true) (hname : e.scores name = some score) :
    ∃ ds e' score', (w.runCalls host calls).log = w.log ++ ds ∧
      (w.runCalls host calls).pm.engines address = some e' ∧ e'.scores name = some score' ∧
      (ScoredOnce e.config name ds score.tally score'.tally ↔
        ∀ d ∈ ds, d.provider.name = name → ∃ err, d.err = some err ∧ err.counted = true) := by
  have hcounts : w.pm.Counts address e.config e.tally := ⟨hattached,e,hengine,rfl,fun _ => rfl⟩
  obtain ⟨ds,hlog,-,e',he',-,htally⟩ := World.runCalls_scored hcounts hon host calls
  have ht := htally name
  simp only [Engine.tally,hname,Option.map_some] at ht
  obtain ⟨score',hscore',hst⟩ := Option.map_eq_some_iff.mp ht
  refine ⟨ds,e',score',hlog,he',hscore',?_⟩
  obtain ⟨hs,hf,htot⟩ := foldl_attempt_counts e.config name ds score.tally
  rw [hst]
  constructor
  · intro h
    apply (invocationsOn_eq_iff name ds).mp
    have h₁ := h.successes
    have h₂ := h.failures
    rw [hs] at h₁
    rw [hf] at h₂
    constructor <;> omega
  · intro h
    obtain ⟨hnone,hall⟩ := (invocationsOn_eq_iff name ds).mpr h
    have hsum := invocationsOn_total name ds
    exact
      { successes := by rw [hs]; omega
        failures := by rw [hf]; omega
        total := by rw [htot]; omega
        bonus := foldl_attempt_errorPenalty e.config name ds h score.tally }

/-- A chain with one provider and an engine with the default settings. -/
def scoredSingle : World Unit Engine ℕ :=
  .start (((ProviderManager.empty (fun _ => 0) noRetryConfig).addProvider .insertion (some ()) 1 "a"
    0 0 0).setScoringEngine (some (0,.new defaultScoringConfig)))

/-- Two calls that fail on the one provider are scored once each. -/
theorem runCalls_scoredOnce_failing :
    ∃ ds e' score', ds.length = 2 ∧
      (scoredSingle.runCalls (.frozen 0) [failingCall,failingCall]).log = scoredSingle.log ++ ds ∧
      (scoredSingle.runCalls (.frozen 0) [failingCall,failingCall]).pm.engines 0 = some e' ∧
      e'.scores "a" = some score' ∧
      ScoredOnce (Engine.new defaultScoringConfig).config "a" ds
        (newProviderScore 1 100).tally score'.tally := by
  have hfailed : ∀ d ∈ (scoredSingle.runCalls (.frozen 0) [failingCall,failingCall]).log,
      d.err.any (·.counted) = true := by decide +kernel
  have hlength : (scoredSingle.runCalls (.frozen 0) [failingCall,failingCall]).log.length = 2 := by
    decide +kernel
  have hregistered : ((Engine.new defaultScoringConfig).registerProvider "a" 1).scores "a" =
      some (newProviderScore 1 100) := rfl
  obtain ⟨ds,e',score',hlog,hengine,hscore,honce⟩ := runCalls_scoredOnce_iff (.frozen 0)
    scoredSingle [failingCall,failingCall] rfl rfl rfl hregistered
  rw [hlog] at hfailed hlength
  refine ⟨ds,e',score',hlength,hlog,hengine,hscore,honce.mpr ?_⟩
  intro d hd _
  exact (Option.any_eq_true _ _).mp (hfailed d (List.mem_append_right _ hd))

/-- One call, one successful invocation, and two successes on the score. -/
theorem runCalls_success_scored_twice :
    ∃ e score, (scoredSingle.runCalls (.frozen 0) [{ op := fun _ _ => .ok 7 }]).log.length = 1 ∧
      (scoredSingle.runCalls (.frozen 0) [{ op := fun _ _ => .ok 7 }]).pm.engines 0 = some e ∧
      e.scores "a" = some score ∧ score.successfulOps = 2 ∧ score.totalOperations = 2 :=
  ⟨_,_,rfl,rfl,rfl,rfl,rfl⟩

end ChainKit
