import ChainKit.Lib.Observation
import ChainKit.Scoring.State

/-! Scores that goroutines share. `RecordEvent` looks the score of its provider up under the lock of
the engine and changes it later under the lock of the score, so it may meanwhile have been removed
or replaced. A step is one critical section. -/
namespace ChainKit
open Lib
variable {τ : Type}

/-- What is done to the scores, besides `RecordEvent`: `ApplyDecay` and the loop body of `Reset` for
one score, one row of `LoadFromStore`, and the change that `Reset` and `LoadFromStore` make to the
latencies of all. -/
inductive ScoreAct
  | register (name : String) (priority : ℤ)
  | unregister (name : String)
  | decay (name : String)
  | reset (name : String)
  | load (name : String) (row : ProviderScore)
  | track (latencies : LatencyTracker)

/-- A goroutine takes its next step, or something else is done to the scores. -/
inductive ScoreStep (τ : Type)
  | record (t : τ)
  | act (a : ScoreAct)

namespace Engine

def perform (e : Engine) : ScoreAct → Engine
  | .register name priority => e.registerProvider name priority
  | .unregister name => e.unregisterProvider name
  | .decay name => e.updateScore name (·.applyDecay e.config.decayRate)
  | .reset name => e.updateScore name ProviderScore.reset
  | .load name row => { e with scores := Function.update e.scores name (some row) }
  | .track latencies => { e with latencyTracker := latencies }

/-- A step of the engine that nobody shares, where a call is made as a whole. -/
def serial (events : τ → ScoreEvent) (e : Engine) : ScoreStep τ → Engine
  | .record t => e.recordEvent (events t)
  | .act a => e.perform a

end Engine

structure SharedEngine where
  config : ScoringConfig
  scores : String → Option ℕ
  objects : ℕ → ProviderScore
  next : ℕ
  latencyTracker : LatencyTracker

inductive RecordPc
  | lookup
  | trackLatency (score : ℕ)
  | scoreLatency (score : ℕ)
  | globalStats (score : ℕ)
  | providerSamples (score : ℕ)
  | slownessFactor (score : ℕ) (samples : List ℤ)
  | lookupAgain (score : ℕ) (excess : ℚ)
  | latencyPenalty (score current : ℕ) (excess : ℚ)
  | apply (score : ℕ)
  | done
  deriving DecidableEq

structure RecordCall where
  event : ScoreEvent
  pc : RecordPc := .lookup

namespace SharedEngine

def setObject (e : SharedEngine) (a : ℕ) (f : ProviderScore → ProviderScore) : SharedEngine :=
  { e with objects := Function.update e.objects a (f (e.objects a)) }

def place (e : SharedEngine) (name : String) (ps : ProviderScore) : SharedEngine :=
  { e with
    scores := Function.update e.scores name (some e.next)
    objects := Function.update e.objects e.next ps
    next := e.next+1 }

def perform (e : SharedEngine) : ScoreAct → SharedEngine
  | .register name priority =>
    match e.scores name with
    | some _ => e
    | none => e.place name (newProviderScore priority e.config.latencyWindowSize)
  | .unregister name => { e with scores := Function.update e.scores name none }
  | .decay name =>
    match e.scores name with
    | some a => e.setObject a (·.applyDecay e.config.decayRate)
    | none => e
  | .reset name =>
    match e.scores name with
    | some a => e.setObject a ProviderScore.reset
    | none => e
  | .load name row => e.place name row
  | .track latencies => { e with latencyTracker := latencies }

/-- How far the samples of a provider are above the threshold, against the statistics of now. -/
def excess (e : SharedEngine) (samples : List ℤ) : ℚ :=
  let globalStats := e.latencyTracker.getGlobalStats
  let slownessFactor : ℚ := if samples = [] then 0
    else if globalStats.stdDev = 0 then 0
    else ((samples.sum.tdiv samples.length-globalStats.mean : ℤ) : ℚ)/globalStats.stdDev
  if slownessFactor < e.config.slowThresholdStdDev then 0
  else slownessFactor-e.config.slowThresholdStdDev

def recordStep (e : SharedEngine) (event : ScoreEvent) : RecordPc → SharedEngine × RecordPc
  | .lookup =>
    if e.config.enabled then
      match e.scores event.provider with
      | some a => (e,if 0 < event.responseTime then .trackLatency a else .apply a)
      | none => (e,.done)
    else (e,.done)
  | .trackLatency a =>
    ({ e with
        latencyTracker := e.latencyTracker.recordLatency event.provider event.responseTime },
      .scoreLatency a)
  | .scoreLatency a => (e.setObject a (·.recordLatency event.responseTime),.globalStats a)
  | .globalStats a =>
    if (e.latencyTracker.getGlobalStats.sampleCount : ℤ) < e.config.minSamplesForLatencyComparison
    then (e,.apply a)
    else (e,.providerSamples a)
  | .providerSamples a =>
    (e,.slownessFactor a (e.latencyTracker.providerSamples event.provider))
  | .slownessFactor a samples => (e,.lookupAgain a (e.excess samples))
  | .lookupAgain a excess =>
    match e.scores event.provider with
    | some current => (e,.latencyPenalty a current excess)
    | none => (e,.apply a)
  | .latencyPenalty a current excess =>
    (e.setObject current (·.updateLatencyPenalty excess e.config.slowResponsePenalty),.apply a)
  | .apply a => (e.setObject a (Engine.applyEvent e.config event.type),.done)
  | .done => (e,.done)

end SharedEngine

structure Scoring (τ : Type) where
  engine : SharedEngine
  calls : τ → RecordCall

namespace Scoring

/-- An engine without scores, and the calls that will be made on it. -/
def start (config : ScoringConfig) (events : τ → ScoreEvent) : Scoring τ where
  engine :=
    { config := config.validate
      scores := fun _ => none
      objects := fun _ => newProviderScore 0 0
      next := 0
      latencyTracker := .new config.validate.latencyWindowSize }
  calls t := { event := events t }

variable [DecidableEq τ]

def step (s : Scoring τ) : ScoreStep τ → Scoring τ
  | .record t =>
    let r := s.engine.recordStep (s.calls t).event (s.calls t).pc
    { engine := r.1, calls := Function.update s.calls t { s.calls t with pc := r.2 } }
  | .act a => { s with engine := s.engine.perform a }

def run (s : Scoring τ) (steps : List (ScoreStep τ)) : Scoring τ := steps.foldl step s

def score (s : Scoring τ) (name : String) : Option ProviderScore :=
  (s.engine.scores name).map s.engine.objects

/-- A call of `RecordEvent` takes effect when it changes the score that the engine has for its
provider, or when it is ignored. -/
def takesEffect (s : Scoring τ) : ScoreStep τ → Bool
  | .record t =>
    match (s.calls t).pc with
    | .lookup => !s.engine.config.enabled || (s.engine.scores (s.calls t).event.provider).isNone
    | .apply a => s.engine.scores (s.calls t).event.provider == some a
    | _ => false
  | .act _ => true

def effect (s : Scoring τ) (step : ScoreStep τ) : Option (ScoreStep τ) :=
  if s.takesEffect step then some step else none

end Scoring

/-- A score without what is measured of its latency. -/
def ProviderScore.core (ps : ProviderScore) : ProviderScore :=
  { ps with latencyPenalty := 0, recentLatencies := [], latencyWindowSize := 0 }

section Core
variable {ps ps' : ProviderScore}

@[simp] theorem core_recordLatency (latency : ℤ) : (ps.recordLatency latency).core = ps.core := rfl

@[simp] theorem core_updateLatencyPenalty (factor perStdDev : ℚ) :
    (ps.updateLatencyPenalty factor perStdDev).core = ps.core := rfl

theorem core_applyEvent (config : ScoringConfig) (type : ScoreEventType) (h : ps.core = ps'.core) :
    (Engine.applyEvent config type ps).core = (Engine.applyEvent config type ps').core := by
  have happly : ∀ ps : ProviderScore,
      (Engine.applyEvent config type ps).core = Engine.applyEvent config type ps.core := by
    intro ps
    cases type <;> rfl
  rw [happly,happly,h]

theorem core_applyDecay (rate : ℚ) (h : ps.core = ps'.core) :
    (ps.applyDecay rate).core = (ps'.applyDecay rate).core := by
  have hdecay : ∀ ps : ProviderScore, (ps.applyDecay rate).core = (ps.core.applyDecay rate).core :=
    fun ps => rfl
  rw [hdecay,hdecay ps',h]

theorem core_reset (h : ps.core = ps'.core) : ps.reset.core = ps'.reset.core := by
  have hreset : ∀ ps : ProviderScore, ps.reset.core = ps.core.reset := fun ps => rfl
  rw [hreset,hreset,h]

end Core

namespace Engine
variable (e : Engine)

def coreOf (name : String) : Option ProviderScore := (e.scores name).map ProviderScore.core

theorem coreOf_updateScore {f : ProviderScore → ProviderScore} (hf : ∀ ps, (f ps).core = ps.core)
    (name : String) : (e.updateScore name f).coreOf = e.coreOf := by
  funext n
  by_cases h : n = name
  · subst h
    simp [coreOf,updateScore,Function.comp_def,hf]
  · simp [coreOf,updateScore,Function.update_of_ne h]

theorem coreOf_updateLatencyPenalty (name : String) :
    (e.updateLatencyPenalty name).coreOf = e.coreOf := by
  unfold updateLatencyPenalty
  split_ifs
  · rfl
  · apply e.coreOf_updateScore
    exact fun ps => core_updateLatencyPenalty _ _

theorem coreOf_recordLatency (name : String) (responseTime : ℤ) :
    (e.recordLatency name responseTime).coreOf = e.coreOf := by
  rw [recordLatency,coreOf_updateLatencyPenalty]
  apply coreOf_updateScore
  exact fun ps => core_recordLatency _

theorem map_core_congr {f : ProviderScore → ProviderScore}
    (hf : ∀ {ps ps' : ProviderScore}, ps.core = ps'.core → (f ps).core = (f ps').core)
    {o o' : Option ProviderScore} (h : o.map ProviderScore.core = o'.map ProviderScore.core) :
    (o.map f).map ProviderScore.core = (o'.map f).map ProviderScore.core := by
  cases o with
  | none =>
    cases o' with
    | none => rfl
    | some ps' => cases h
  | some ps =>
    cases o' with
    | none => cases h
    | some ps' => exact congrArg some (hf (Option.some.inj h))

theorem coreOf_recordEvent (event : ScoreEvent) : (e.recordEvent event).coreOf =
    if e.config.enabled = true then
      (e.updateScore event.provider (applyEvent e.config event.type)).coreOf
    else e.coreOf := by
  have hconfig : (e.recordLatency event.provider event.responseTime).config = e.config := by
    simp only [recordLatency,updateLatencyPenalty]
    split_ifs <;> rfl
  have hlatency : ((e.recordLatency event.provider event.responseTime).updateScore event.provider
      (applyEvent e.config event.type)).coreOf =
      (e.updateScore event.provider (applyEvent e.config event.type)).coreOf := by
    have hcore := e.coreOf_recordLatency event.provider event.responseTime
    funext name
    by_cases h : name = event.provider
    · subst h
      simp only [coreOf,updateScore,Function.update_self]
      exact map_core_congr (core_applyEvent _ _) (congrFun hcore event.provider)
    · simp only [coreOf,updateScore,Function.update_of_ne h]
      exact congrFun hcore name
  unfold recordEvent
  by_cases hon : e.config.enabled = true
  · rw [if_pos hon]
    cases hs : e.scores event.provider with
    | some ps =>
      simp only [hon,Option.isSome_some,Bool.and_true,if_true]
      split_ifs
      · rw [hconfig,hlatency]
      · rfl
    | none =>
      simp only [Option.isSome_none,Bool.and_false,Bool.false_eq_true,if_false]
      rw [updateScore,hs,Option.map_none,← hs,Function.update_eq_self]
  · simp [hon]

end Engine

namespace SharedEngine
variable (e : SharedEngine)

def coreOf (name : String) : Option ProviderScore :=
  ((e.scores name).map e.objects).map ProviderScore.core

/-- No two names have the same score, and new scores are new objects. -/
structure Apart : Prop where
  inj : ∀ name name' a, e.scores name = some a → e.scores name' = some a → name = name'
  fresh : ∀ name a, e.scores name = some a → a < e.next

variable {e}

theorem coreOf_setObject_of_ne {name : String} {a : ℕ} (h : e.scores name ≠ some a)
    (f : ProviderScore → ProviderScore) : (e.setObject a f).coreOf name = e.coreOf name := by
  unfold coreOf setObject
  cases hn : e.scores name with
  | none => rfl
  | some b =>
    have hne : b ≠ a := by
      rintro rfl
      exact h hn
    simp [Function.update_of_ne hne]

theorem coreOf_setObject_of_core {f : ProviderScore → ProviderScore}
    (hf : ∀ ps, (f ps).core = ps.core) (a : ℕ) : (e.setObject a f).coreOf = e.coreOf := by
  funext name
  by_cases h : e.scores name = some a
  · simp [coreOf,setObject,h,hf]
  · exact coreOf_setObject_of_ne h f

theorem coreOf_setObject (he : e.Apart) {name : String} {a : ℕ} (ha : e.scores name = some a)
    (f : ProviderScore → ProviderScore) : (e.setObject a f).coreOf =
      Function.update e.coreOf name (some (f (e.objects a)).core) := by
  funext n
  by_cases h : n = name
  · subst h
    simp [coreOf,setObject,ha]
  · rw [Function.update_of_ne h]
    exact coreOf_setObject_of_ne (fun hn => h (he.inj n name a hn ha)) f

theorem coreOf_place (he : e.Apart) (name : String) (ps : ProviderScore) :
    (e.place name ps).coreOf = Function.update e.coreOf name (some ps.core) := by
  funext n
  by_cases h : n = name
  · subst h
    simp [coreOf,place]
  · rw [Function.update_of_ne h]
    simp only [coreOf,place,Function.update_of_ne h]
    cases hn : e.scores n with
    | none => rfl
    | some b =>
      have hne : b ≠ e.next := (he.fresh n b hn).ne
      simp [Function.update_of_ne hne]

theorem place_apart (he : e.Apart) (name : String) (ps : ProviderScore) :
    (e.place name ps).Apart := by
  refine ⟨?_,?_⟩
  · intro n n' a hn hn'
    simp only [place,Function.update_apply] at hn hn'
    split_ifs at hn hn' with h h' h'
    · rw [h,h']
    · obtain rfl := Option.some.inj hn
      exact absurd (he.fresh n' _ hn') (lt_irrefl _)
    · obtain rfl := Option.some.inj hn'
      exact absurd (he.fresh n _ hn) (lt_irrefl _)
    · exact he.inj n n' a hn hn'
  · intro n a hn
    simp only [place,Function.update_apply] at hn ⊢
    split_ifs at hn with h
    · obtain rfl := Option.some.inj hn
      omega
    · have hlt := he.fresh n a hn
      omega

/-- An engine agrees with one that nobody shares, up to latencies. -/
structure Agrees (e : SharedEngine) (alone : Engine) : Prop where
  config : e.config = alone.config
  core : e.coreOf = alone.coreOf

variable {alone : Engine}

theorem Agrees.isSome (h : e.Agrees alone) (name : String) :
    (e.scores name).isSome = (alone.scores name).isSome := by
  have hname := congrArg Option.isSome (congrFun h.core name)
  simpa [coreOf,Engine.coreOf] using hname

theorem Agrees.updateScore_none (h : e.Agrees alone) {name : String} (hs : e.scores name = none)
    (f : ProviderScore → ProviderScore) : e.Agrees (alone.updateScore name f) := by
  have hnone : alone.scores name = none := by simpa [hs] using h.isSome name
  refine ⟨h.config,?_⟩
  rw [Engine.updateScore,hnone,Option.map_none,← hnone,Function.update_eq_self]
  exact h.core

theorem Agrees.setObject (h : e.Agrees alone) (he : e.Apart) {name : String} {a : ℕ}
    (ha : e.scores name = some a) {f : ProviderScore → ProviderScore}
    (hf : ∀ {ps ps' : ProviderScore}, ps.core = ps'.core → (f ps).core = (f ps').core) :
    (e.setObject a f).coreOf = (alone.updateScore name f).coreOf := by
  rw [coreOf_setObject he ha]
  funext n
  by_cases hn : n = name
  · subst hn
    rw [Function.update_self]
    have hcore := Engine.map_core_congr hf (congrFun h.core n)
    rw [ha] at hcore
    simpa [Engine.coreOf,Engine.updateScore] using hcore
  · rw [Function.update_of_ne hn,h.core]
    simp [Engine.coreOf,Engine.updateScore,Function.update_of_ne hn]

theorem Agrees.place (h : e.Agrees alone) (he : e.Apart) (name : String) (ps : ProviderScore) :
    (e.place name ps).coreOf =
      ({ alone with scores := Function.update alone.scores name (some ps) } : Engine).coreOf := by
  rw [coreOf_place he,h.core]
  funext n
  by_cases hn : n = name
  · subst hn
    simp [Engine.coreOf]
  · simp [Engine.coreOf,Function.update_of_ne hn]

/-- What is done to the scores is done alike to the engine that nobody shares. -/
theorem perform_agrees (h : e.Agrees alone) (he : e.Apart) (a : ScoreAct) :
    (e.perform a).Agrees (alone.perform a) := by
  have hconfig := h.config
  cases a with
  | register name priority =>
    simp only [perform,Engine.perform,Engine.registerProvider]
    have hsome := h.isSome name
    cases hs : e.scores name with
    | some b =>
      obtain ⟨ps,hps⟩ := Option.isSome_iff_exists.mp (hsome.symm.trans (by simp [hs]))
      rw [hps]
      exact h
    | none =>
      have hnone : alone.scores name = none := by simpa [hs] using hsome
      rw [hnone]
      refine ⟨hconfig,?_⟩
      simp only [← hconfig]
      exact h.place he name _
  | unregister name =>
    refine ⟨hconfig,?_⟩
    funext n
    have hname := congrFun h.core n
    by_cases hn : n = name
    · subst hn
      simp [perform,Engine.perform,Engine.unregisterProvider,coreOf,Engine.coreOf]
    · simpa [perform,Engine.perform,Engine.unregisterProvider,coreOf,Engine.coreOf,
        Function.update_of_ne hn] using hname
  | decay name =>
    simp only [perform,Engine.perform]
    cases hs : e.scores name with
    | some b =>
      refine ⟨hconfig,?_⟩
      rw [← hconfig]
      exact h.setObject he hs (core_applyDecay _)
    | none => exact h.updateScore_none hs _
  | reset name =>
    simp only [perform,Engine.perform]
    cases hs : e.scores name with
    | some b => exact ⟨hconfig,h.setObject he hs core_reset⟩
    | none => exact h.updateScore_none hs _
  | load name row => exact ⟨hconfig,h.place he name row⟩
  | track latencies => exact ⟨hconfig,h.core⟩

/-- Objects are not used again: a name has one of the objects so far only if it had it before. -/
structure Newer (e e' : SharedEngine) : Prop where
  config : e'.config = e.config
  apart : e'.Apart
  next : e.next ≤ e'.next
  old : ∀ name a, a < e.next → e'.scores name = some a → e.scores name = some a

theorem Newer.of_scores {e' : SharedEngine} (he : e.Apart) (hconfig : e'.config = e.config)
    (hscores : e'.scores = e.scores) (hnext : e'.next = e.next) : e.Newer e' := by
  refine ⟨hconfig,⟨?_,?_⟩,hnext.ge,?_⟩
  · rw [hscores]
    exact he.inj
  · rw [hscores,hnext]
    exact he.fresh
  · rw [hscores]
    exact fun _ _ _ h => h

theorem place_newer (he : e.Apart) (name : String) (ps : ProviderScore) :
    e.Newer (e.place name ps) := by
  refine ⟨rfl,place_apart he name ps,Nat.le_succ _,?_⟩
  intro n a ha hn
  simp only [place,Function.update_apply] at hn
  split_ifs at hn with h
  · obtain rfl := Option.some.inj hn
    exact absurd ha (lt_irrefl _)
  · exact hn

theorem perform_newer (he : e.Apart) (a : ScoreAct) : e.Newer (e.perform a) := by
  cases a with
  | register name priority =>
    simp only [perform]
    split
    · exact .of_scores he rfl rfl rfl
    · exact place_newer he name _
  | unregister name =>
    have hkept : ∀ n a, (e.perform (.unregister name)).scores n = some a →
        e.scores n = some a := by
      intro n a hn
      simp only [perform,Function.update_apply] at hn
      split_ifs at hn
      exact hn
    refine ⟨rfl,⟨?_,?_⟩,le_rfl,?_⟩
    · intro n n' a hn hn'
      exact he.inj n n' a (hkept n a hn) (hkept n' a hn')
    · intro n a hn
      exact he.fresh n a (hkept n a hn)
    · intro n a _ hn
      exact hkept n a hn
  | decay name =>
    simp only [perform]
    split <;> exact .of_scores he rfl rfl rfl
  | reset name =>
    simp only [perform]
    split <;> exact .of_scores he rfl rfl rfl
  | load name row => exact place_newer he name row
  | track latencies => exact .of_scores he rfl rfl rfl

theorem recordStep_lookup (event : ScoreEvent) : e.recordStep event .lookup = (e,
    match if e.config.enabled = true then e.scores event.provider else none with
    | some a => if 0 < event.responseTime then .trackLatency a else .apply a
    | none => .done) := by
  by_cases hon : e.config.enabled = true
  · simp only [recordStep,if_pos hon]
    cases e.scores event.provider <;> rfl
  · simp only [recordStep,if_neg hon]

theorem recordStep_scores (event : ScoreEvent) (pc : RecordPc) :
    (e.recordStep event pc).1.config = e.config ∧
      (e.recordStep event pc).1.scores = e.scores ∧ (e.recordStep event pc).1.next = e.next := by
  cases pc with
  | lookup =>
    rw [recordStep_lookup]
    exact ⟨rfl,rfl,rfl⟩
  | globalStats a =>
    simp only [recordStep]
    split_ifs <;> exact ⟨rfl,rfl,rfl⟩
  | lookupAgain a excess =>
    simp only [recordStep]
    split <;> exact ⟨rfl,rfl,rfl⟩
  | _ => exact ⟨rfl,rfl,rfl⟩

end SharedEngine

def RecordPc.score : RecordPc → Option ℕ
  | .trackLatency a | .scoreLatency a | .globalStats a | .providerSamples a
  | .slownessFactor a _ | .lookupAgain a _ | .latencyPenalty a _ _ | .apply a => some a
  | .lookup | .done => none

namespace SharedEngine
variable {e : SharedEngine}

theorem recordStep_score (event : ScoreEvent) (pc : RecordPc) {a : ℕ}
    (h : (e.recordStep event pc).2.score = some a) :
    pc.score = some a ∨ e.config.enabled = true ∧ e.scores event.provider = some a := by
  cases pc with
  | lookup =>
    rw [recordStep_lookup] at h
    split at h
    next b hb =>
      obtain ⟨hon,hs⟩ : e.config.enabled = true ∧ e.scores event.provider = some b := by
        simpa using hb
      refine .inr ⟨hon,?_⟩
      rw [hs]
      split_ifs at h
      · exact h
      · exact h
    · cases h
  | globalStats b =>
    simp only [recordStep] at h
    split_ifs at h
    · exact .inl h
    · exact .inl h
  | lookupAgain b excess =>
    simp only [recordStep] at h
    split at h
    · exact .inl h
    · exact .inl h
  | apply b => cases h
  | done => cases h
  | trackLatency | scoreLatency | providerSamples | slownessFactor | latencyPenalty => exact .inl h

/-- Before its last step a call changes nothing but latencies. -/
theorem recordStep_core (event : ScoreEvent) {pc : RecordPc} (h : ∀ a, pc ≠ .apply a) :
    (e.recordStep event pc).1.coreOf = e.coreOf := by
  cases pc with
  | lookup => rw [recordStep_lookup]
  | scoreLatency a => exact coreOf_setObject_of_core (fun _ => core_recordLatency _) a
  | latencyPenalty a b excess =>
    exact coreOf_setObject_of_core (fun _ => core_updateLatencyPenalty _ _) b
  | globalStats a =>
    simp only [recordStep]
    split_ifs <;> rfl
  | lookupAgain a excess =>
    simp only [recordStep]
    split <;> rfl
  | apply a => exact absurd rfl (h a)
  | trackLatency | providerSamples | slownessFactor | done => rfl

end SharedEngine
end ChainKit
