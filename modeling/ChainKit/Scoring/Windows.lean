import ChainKit.Scoring.FailedLoad
import ChainKit.Scoring.Restart

/-! The latency windows over runs in which stores are loaded and the configuration is updated. The
size of a window is copied when the tracker or the score is made, and a window that is full drops
one sample for every new one. -/
namespace ChainKit
open Lib

/-- The samples that the tracker and the score of each provider were given, the loaded ones
first. -/
structure SampleLog where
  tracker : String → List ℤ
  score : String → List ℤ

/-- A call on an engine or a step of its decay manager, `LoadFromStore` with the answers of the
store, and `UpdateConfig` with the composition of its options. -/
inductive EngineCall
  | op (op : EngineOp)
  | load (reply : StoreReply)
  | update (opts : FullConfig → FullConfig)

namespace FullEngine

/-- `UpdateConfig`, which leaves the tracker and the scores alone. -/
def updateConfig (e : FullEngine) (opts : FullConfig → FullConfig) : FullEngine :=
  { e with config := (opts e.config).validate }

def call (e : FullEngine) (now : ℕ → ℤ) : EngineCall → FullEngine
  | .op op => e.exec now op
  | .load reply => (e.loadFromStore reply).2
  | .update opts => e.updateConfig opts

def Takes (e : FullEngine) (event : ScoreEvent) : Prop :=
  e.config.enabled = true ∧ (e.scores.get event.provider).isSome = true ∧ 0 < event.responseTime

instance (e : FullEngine) (event : ScoreEvent) : Decidable (e.Takes event) :=
  inferInstanceAs (Decidable (_ ∧ _))

def loadedSamples (reply : StoreReply) : Option (String → List ℤ) :=
  match reply.scores,reply.latency with
  | .ok _,.ok (some data) => some fun name => (data.providerSamples.lookup name).getD []
  | _,_ => none

/-- The samples after a call. A provider that is registered starts with none in its score, while
the tracker keeps what it has. -/
def logCall (e : FullEngine) (log : SampleLog) : EngineCall → SampleLog
  | .op (.register name _) =>
    if e.scores.get name = none then { log with score := Function.update log.score name [] }
    else log
  | .op (.unregister _) => log
  | .op (.record event) =>
    if e.Takes event then
      { tracker := Function.update log.tracker event.provider
          (log.tracker event.provider ++ [event.responseTime])
        score := Function.update log.score event.provider
          (log.score event.provider ++ [event.responseTime]) }
    else log
  | .op .decay => log
  | .op .reset => ⟨fun _ => [],fun _ => []⟩
  | .load reply =>
    { tracker := (loadedSamples reply).getD log.tracker
      score := fun name =>
        ((e.fromStore reply name).map fun ps => ps.recentLatencies).getD (log.score name) }
  | .update _ => log

end FullEngine

structure LoggedEngine where
  engine : FullEngine
  log : SampleLog

namespace LoggedEngine

def new (config : FullConfig) (hasPenaltyStore : Bool) : LoggedEngine :=
  ⟨.new config hasPenaltyStore,⟨fun _ => [],fun _ => []⟩⟩

def step (s : LoggedEngine) (c : EngineCall × (ℕ → ℤ)) : LoggedEngine :=
  ⟨s.engine.call c.2 c.1,s.engine.logCall s.log c.1⟩

def run (s : LoggedEngine) (calls : List (EngineCall × (ℕ → ℤ))) : LoggedEngine :=
  calls.foldl step s

end LoggedEngine

/-- What the rules for a relation between a window and its log are: a new window is empty, and a
sample goes to the end of both. -/
structure WindowRule (R : ℤ → List ℤ → List ℤ → Prop) : Prop where
  fresh : ∀ size, R size [] []
  push : ∀ size samples l x, R size samples l → R size (pushSample size samples x) (l ++ [x])

namespace Engine

/-- The size of the window of a score, and the samples in it. -/
def window (e : Engine) (name : String) : Option (ℤ × List ℤ) :=
  (e.scores name).map fun ps => (ps.latencyWindowSize,ps.recentLatencies)

variable {e : Engine}

theorem window_updateScore {f : ProviderScore → ProviderScore} {g : ℤ × List ℤ → ℤ × List ℤ}
    (hf : ∀ ps, ((f ps).latencyWindowSize,(f ps).recentLatencies) =
      g (ps.latencyWindowSize,ps.recentLatencies)) (name other : String) :
    (e.updateScore name f).window other =
      if other = name then (e.window name).map g else e.window other := by
  unfold window updateScore
  split_ifs with hother
  · subst hother
    simp [Function.comp_def,hf]
  · simp [hother]

theorem window_updateScore_id {f : ProviderScore → ProviderScore}
    (hf : ∀ ps, ((f ps).latencyWindowSize,(f ps).recentLatencies) =
      (ps.latencyWindowSize,ps.recentLatencies)) (name : String) :
    (e.updateScore name f).window = e.window := by
  funext other
  rw [window_updateScore (g := id) hf,Option.map_id]
  split_ifs with hother
  · rw [hother]
    rfl
  · rfl

theorem window_applyEvent (config : ScoringConfig) (type : ScoreEventType) (ps : ProviderScore) :
    ((applyEvent config type ps).latencyWindowSize,(applyEvent config type ps).recentLatencies) =
      (ps.latencyWindowSize,ps.recentLatencies) := by
  cases type <;> rfl

theorem window_updateLatencyPenalty (e : Engine) (name : String) :
    (e.updateLatencyPenalty name).window = e.window := by
  rw [updateLatencyPenalty_eq]
  split_ifs
  · exact window_updateScore_id
      (f := (·.updateLatencyPenalty (e.excess name) e.config.slowResponsePenalty))
      (fun _ => rfl) name
  · rfl

theorem window_recordLatency (name : String) (responseTime : ℤ) (other : String) :
    (e.recordLatency name responseTime).window other = if other = name then
      (e.window name).map fun w => (w.1,pushSample w.1 w.2 responseTime) else e.window other := by
  unfold recordLatency
  simp only
  rw [window_updateLatencyPenalty]
  exact window_updateScore (e := e.sampled name responseTime)
    (g := fun w => (w.1,pushSample w.1 w.2 responseTime)) (fun _ => rfl) name other

/-- The samples follow the log: the ones of the tracker and those of every score are in the
relation `R` to what they were given, which may depend on the size of the window. -/
structure Follows (R : ℤ → List ℤ → List ℤ → Prop) (log : SampleLog) (e : Engine) : Prop where
  tracker : ∀ name, R e.latencyTracker.windowSize (e.latencyTracker.providerSamples name)
    (log.tracker name)
  score : ∀ name, ∀ w ∈ e.window name, R w.1 w.2 (log.score name)

variable {R : ℤ → List ℤ → List ℤ → Prop} {log : SampleLog}

theorem Follows.of_same (h : e.Follows R log) {e' : Engine} (hwindow : e'.window = e.window)
    (htracker : e'.latencyTracker = e.latencyTracker) : e'.Follows R log :=
  ⟨htracker ▸ h.tracker,hwindow ▸ h.score⟩

theorem Follows.recordLatency (h : e.Follows R log) (hrule : WindowRule R) (name : String)
    (x : ℤ) : (e.recordLatency name x).Follows R
      ⟨Function.update log.tracker name (log.tracker name ++ [x]),
        Function.update log.score name (log.score name ++ [x])⟩ := by
  constructor
  · intro other
    rw [latencyTracker_recordLatency,LatencyTracker.providerSamples_recordLatency]
    split_ifs with hother
    · subst hother
      simp only [Function.update_self]
      exact hrule.push _ _ _ x (h.tracker other)
    · simp only [Function.update_of_ne hother]
      exact h.tracker other
  · intro other w hw
    rw [window_recordLatency] at hw
    split_ifs at hw with hother
    · subst hother
      obtain ⟨old,hold,rfl⟩ := Option.map_eq_some_iff.mp hw
      simp only [Function.update_self]
      exact hrule.push _ _ _ x (h.score other old hold)
    · simp only [Function.update_of_ne hother]
      exact h.score other w hw

theorem Follows.recordEvent (h : e.Follows R log) (hrule : WindowRule R) (event : ScoreEvent) :
    (e.recordEvent event).Follows R
      (if e.config.enabled = true ∧ (e.scores event.provider).isSome = true ∧
          0 < event.responseTime then
        ⟨Function.update log.tracker event.provider
            (log.tracker event.provider ++ [event.responseTime]),
          Function.update log.score event.provider
            (log.score event.provider ++ [event.responseTime])⟩
      else log) := by
  unfold Engine.recordEvent
  by_cases hknown : e.config.enabled = true ∧ (e.scores event.provider).isSome = true
  · have hon : (e.config.enabled && (e.scores event.provider).isSome) = true := by
      simpa using hknown
    rw [if_pos hon]
    by_cases hpositive : 0 < event.responseTime
    · rw [if_pos hpositive,if_pos ⟨hknown.1,hknown.2,hpositive⟩]
      exact (h.recordLatency hrule event.provider event.responseTime).of_same
        (window_updateScore_id (window_applyEvent _ _) _) rfl
    · rw [if_neg hpositive,if_neg (fun htakes => hpositive htakes.2.2)]
      exact h.of_same (window_updateScore_id (window_applyEvent _ _) _) rfl
  · have hoff : ¬(e.config.enabled && (e.scores event.provider).isSome) = true := by
      simpa using hknown
    rw [if_neg hoff,if_neg (fun htakes => hknown ⟨htakes.1,htakes.2.1⟩)]
    exact h

theorem Follows.registerProvider (h : e.Follows R log) (hrule : WindowRule R) (name : String)
    (priority : ℤ) : (e.registerProvider name priority).Follows R
      (if e.scores name = none then { log with score := Function.update log.score name [] }
      else log) := by
  unfold Engine.registerProvider
  cases hget : e.scores name with
  | some ps => exact h
  | none =>
    rw [if_pos rfl]
    refine ⟨h.tracker,fun other w hw => ?_⟩
    by_cases hother : other = name
    · subst hother
      simp only [window,Function.update_self,Option.map_some,Option.mem_def,
        Option.some.injEq] at hw
      simp only [Function.update_self,← hw]
      exact hrule.fresh _
    · simp only [Function.update_of_ne hother]
      apply h.score other w
      simpa only [window,Function.update_of_ne hother] using hw

theorem Follows.unregisterProvider (h : e.Follows R log) (name : String) :
    (e.unregisterProvider name).Follows R log := by
  refine ⟨h.tracker,fun other w hw => ?_⟩
  by_cases hother : other = name
  · subst hother
    simp [window,Engine.unregisterProvider] at hw
  · apply h.score other w
    simpa only [window,Engine.unregisterProvider,Function.update_of_ne hother] using hw

theorem Follows.applyDecay (h : e.Follows R log) : e.applyDecay.Follows R log := by
  refine h.of_same ?_ rfl
  funext name
  simp [window,Engine.applyDecay,Function.comp_def,ProviderScore.applyDecay]

theorem follows_reset (hrule : WindowRule R) (e : Engine) :
    e.reset.Follows R ⟨fun _ => [],fun _ => []⟩ := by
  constructor
  · intro name
    exact hrule.fresh _
  · intro name w hw
    obtain ⟨ps,hps,rfl⟩ := Option.map_eq_some_iff.mp hw
    obtain ⟨old,_,rfl⟩ := Option.map_eq_some_iff.mp hps
    exact hrule.fresh _

end Engine

theorem windowRule_suffix : WindowRule fun _ samples l => samples <:+ l := by
  refine ⟨fun _ => List.suffix_refl _,fun size samples l x h => ?_⟩
  have hconcat : samples ++ [x] <:+ l ++ [x] := by
    obtain ⟨before,rfl⟩ := h
    exact ⟨before,by simp⟩
  unfold pushSample
  simp only
  split_ifs
  · exact (List.drop_suffix 1 _).trans hconcat
  · exact hconcat

/-- A window that never has too many samples has as many as there is room for. -/
theorem windowRule_newest : WindowRule fun size samples l => samples = newest size.toNat l := by
  refine ⟨fun _ => by simp [newest],fun size samples l x h => ?_⟩
  have hlength : samples.length ≤ size.toNat := by
    rw [h,newest,List.length_drop]
    omega
  have happend := newest_append_newest size.toNat l [x]
  rw [← h] at happend
  rw [← happend]
  unfold pushSample newest
  simp only [List.length_append,List.length_singleton]
  split_ifs with hfull
  · congr 1
    omega
  · rw [Nat.sub_eq_zero_of_le (by omega),List.drop_zero]

namespace LoggedEngine

def Follows (R : ℤ → List ℤ → List ℤ → Prop) (s : LoggedEngine) : Prop :=
  s.engine.toEngine.Follows R s.log

variable {R : ℤ → List ℤ → List ℤ → Prop} {s : LoggedEngine}

theorem follows_new (hrule : WindowRule R) (config : FullConfig) (hasPenaltyStore : Bool) :
    (new config hasPenaltyStore).Follows R := by
  constructor
  · intro name
    exact hrule.fresh _
  · intro name w hw
    simp [new,FullEngine.new,Engine.window,FullEngine.toEngine] at hw

theorem Follows.exec (h : s.Follows R) (hrule : WindowRule R) (op : EngineOp) (now : ℕ → ℤ) :
    (s.step (.op op,now)).Follows R := by
  unfold Follows step FullEngine.call
  simp only [FullEngine.toEngine_exec]
  cases op with
  | register name priority =>
    have hnone : s.engine.toEngine.scores name = none ↔ s.engine.scores.get name = none := by
      simp [FullEngine.toEngine]
    have hregister := Engine.Follows.registerProvider h hrule name priority
    simp only [hnone] at hregister
    exact hregister
  | unregister name => exact Engine.Follows.unregisterProvider h name
  | record event =>
    have hsome : (s.engine.toEngine.scores event.provider).isSome =
        (s.engine.scores.get event.provider).isSome := by simp [FullEngine.toEngine]
    have hrecord := Engine.Follows.recordEvent h hrule event
    rw [hsome] at hrecord
    exact hrecord
  | decay => exact Engine.Follows.applyDecay h
  | reset => exact Engine.follows_reset hrule _

end LoggedEngine

namespace FullEngine
variable {e : FullEngine} {reply : StoreReply}

theorem latencyTracker_load (e : FullEngine) (reply : StoreReply) :
    match loadedSamples reply with
    | none => (e.loadFromStore reply).2.latencyTracker = e.latencyTracker
    | some samples =>
      (e.loadFromStore reply).2.latencyTracker.windowSize =
          (LatencyTracker.new e.config.latencyWindowSize).windowSize ∧
        (e.loadFromStore reply).2.latencyTracker.providerSamples = samples := by
  unfold loadedSamples loadFromStore
  cases reply.scores with
  | error err => rfl
  | ok data =>
    cases reply.latency with
    | error err => rfl
    | ok latency =>
      cases latency with
      | none => rfl
      | some latencyData =>
        refine ⟨rfl,funext fun name => ?_⟩
        exact LatencyTracker.providerSamples_sampled latencyData.nodup name

/-- What is loaded into a window is all that it was given. -/
structure Loads (R : ℤ → List ℤ → List ℤ → Prop) (e : FullEngine) (reply : StoreReply) : Prop where
  tracker : ∀ samples ∈ loadedSamples reply, ∀ name,
    R (LatencyTracker.new e.config.latencyWindowSize).windowSize (samples name) (samples name)
  score : ∀ name, ∀ ps ∈ e.fromStore reply name,
    R ps.latencyWindowSize ps.recentLatencies ps.recentLatencies

end FullEngine

namespace LoggedEngine
variable {R : ℤ → List ℤ → List ℤ → Prop} {s : LoggedEngine}

theorem Follows.load (h : s.Follows R) {reply : StoreReply} (hload : s.engine.Loads R reply)
    (now : ℕ → ℤ) : (s.step (.load reply,now)).Follows R := by
  constructor
  · intro name
    have htracker := FullEngine.latencyTracker_load s.engine reply
    simp only [step,FullEngine.call,FullEngine.logCall,FullEngine.toEngine]
    cases hsamples : FullEngine.loadedSamples reply with
    | none =>
      rw [hsamples] at htracker
      rw [htracker]
      exact h.tracker name
    | some samples =>
      rw [hsamples] at htracker
      rw [htracker.1,htracker.2]
      exact hload.tracker samples hsamples name
  · intro name w hw
    simp only [step,FullEngine.call,FullEngine.logCall,FullEngine.toEngine,Engine.window,
      FullEngine.get_loadFromStore] at hw ⊢
    cases hps : s.engine.fromStore reply name with
    | none =>
      rw [hps,Option.none_or] at hw
      exact h.score name w hw
    | some ps =>
      rw [hps] at hw
      cases hw
      exact hload.score name ps hps

theorem Follows.update (h : s.Follows R) (opts : FullConfig → FullConfig) (now : ℕ → ℤ) :
    (s.step (.update opts,now)).Follows R := h.of_same rfl rfl

/-- What is in a window is the end of what it was given, whatever is loaded or updated. -/
theorem follows_suffix (config : FullConfig) (hasPenaltyStore : Bool)
    (calls : List (EngineCall × (ℕ → ℤ))) :
    ((new config hasPenaltyStore).run calls).Follows fun _ samples l => samples <:+ l := by
  refine foldl_invariant (follows_new windowRule_suffix config hasPenaltyStore) ?_
  rintro before ⟨call,now⟩ after _ h
  cases call with
  | op op => exact h.exec windowRule_suffix op now
  | load reply =>
    exact h.load ⟨fun _ _ _ => List.suffix_refl _,fun _ _ _ => List.suffix_refl _⟩ now
  | update opts => exact h.update opts now

/-- The size in the configuration is the one of the tracker and of every score. -/
structure Sized (s : LoggedEngine) : Prop where
  large : 10 ≤ s.engine.config.latencyWindowSize
  tracker : s.engine.latencyTracker.windowSize = s.engine.config.latencyWindowSize
  score : s.engine.toEngine.All (·.latencyWindowSize = s.engine.config.latencyWindowSize)

/-- An update keeps the size of the windows, and a load brings no more samples of a provider than
fit. -/
def Steady (s : LoggedEngine) : EngineCall → Prop
  | .op _ => True
  | .load reply =>
    (∀ samples ∈ FullEngine.loadedSamples reply, ∀ name,
      (samples name).length ≤ s.engine.config.latencyWindowSize) ∧
    ∀ name, ∀ ps ∈ s.engine.fromStore reply name,
      ps.recentLatencies.length ≤ s.engine.config.latencyWindowSize
  | .update opts => (opts s.engine.config).validate.latencyWindowSize =
      s.engine.config.latencyWindowSize

theorem sized_new (config : FullConfig) (hasPenaltyStore : Bool) :
    (new config hasPenaltyStore).Sized := by
  have hlarge := Engine.validate_window config.toScoringConfig
  refine ⟨hlarge,Engine.window_new hlarge,?_⟩
  rw [new,FullEngine.toEngine_new]
  exact Engine.all_new _

theorem Sized.exec (h : s.Sized) (op : EngineOp) (now : ℕ → ℤ) : (s.step (.op op,now)).Sized := by
  have hengine := FullEngine.toEngine_exec s.engine now op
  have hconfig : (s.engine.exec now op).config.latencyWindowSize =
      s.engine.config.latencyWindowSize :=
    congrArg ScoringConfig.latencyWindowSize
      ((congrArg Engine.config hengine).trans (Engine.exec_config _ op))
  have htracker : (s.engine.exec now op).latencyTracker.windowSize =
      s.engine.latencyTracker.windowSize :=
    (congrArg (fun e : Engine => e.latencyTracker.windowSize) hengine).trans
      (Engine.exec_window _ op)
  refine ⟨?_,?_,?_⟩
  · exact hconfig ▸ h.large
  · exact htracker.trans (h.tracker.trans hconfig.symm)
  · simp only [step,FullEngine.call,hconfig,hengine]
    exact Engine.all_window_exec rfl h.score op

theorem fromStore_window {e : FullEngine} {reply : StoreReply} {name : String} {ps : ScoreRecord}
    (h : e.fromStore reply name = some ps) : ps.latencyWindowSize = e.config.latencyWindowSize := by
  unfold FullEngine.fromStore at h
  split at h
  · cases h
  · rcases KeyedMap.mem_of_get_setAll h with hmem | hnone
    · obtain ⟨data,_,rfl⟩ := List.mem_map.mp hmem
      rfl
    · rw [KeyedMap.get_empty] at hnone
      cases hnone

theorem Sized.load (h : s.Sized) (reply : StoreReply) (now : ℕ → ℤ) :
    (s.step (.load reply,now)).Sized := by
  have hconfig := FullEngine.config_load s.engine reply
  refine ⟨?_,?_,?_⟩
  · simp only [step,FullEngine.call,hconfig]
    exact h.large
  · simp only [step,FullEngine.call,hconfig]
    have htracker := FullEngine.latencyTracker_load s.engine reply
    split at htracker
    · rw [htracker]
      exact h.tracker
    · rw [htracker.1,Engine.window_new h.large]
  · simp only [step,FullEngine.call,hconfig,FullEngine.all_toEngine]
    intro name ps hps
    rw [FullEngine.get_loadFromStore] at hps
    cases hstore : s.engine.fromStore reply name with
    | none =>
      rw [hstore,Option.none_or] at hps
      exact (FullEngine.all_toEngine _ _).mp h.score name ps hps
    | some loaded =>
      rw [hstore] at hps
      cases hps
      exact fromStore_window hstore

theorem Sized.update (h : s.Sized) {opts : FullConfig → FullConfig}
    (hsteady : s.Steady (.update opts)) (now : ℕ → ℤ) : (s.step (.update opts,now)).Sized := by
  have hconfig : (s.step (.update opts,now)).engine.config.latencyWindowSize =
      s.engine.config.latencyWindowSize := hsteady
  refine ⟨hconfig ▸ h.large,h.tracker.trans hconfig.symm,?_⟩
  rw [hconfig]
  exact h.score

/-- As long as no update changes the size of the windows and no load brings more samples of a
provider than fit, the windows have the latest samples, as many as there is room for. -/
structure Latest (s : LoggedEngine) : Prop where
  sized : s.Sized
  follows : s.Follows fun size samples l => samples = newest size.toNat l

theorem Latest.step (h : s.Latest) {c : EngineCall × (ℕ → ℤ)} (hsteady : s.Steady c.1) :
    (s.step c).Latest := by
  obtain ⟨call,now⟩ := c
  cases call with
  | op op => exact ⟨h.sized.exec op now,h.follows.exec windowRule_newest op now⟩
  | load reply =>
    refine ⟨h.sized.load reply now,h.follows.load ⟨?_,?_⟩ now⟩
    · intro samples hsamples name
      have hfits := hsteady.1 samples hsamples name
      rw [Engine.window_new h.sized.large,newest_of_le (by omega)]
    · intro name ps hps
      have hfits := hsteady.2 name ps hps
      rw [fromStore_window hps,newest_of_le (by omega)]
  | update opts => exact ⟨h.sized.update hsteady now,h.follows.update opts now⟩

theorem latest_run (config : FullConfig) (hasPenaltyStore : Bool)
    {calls : List (EngineCall × (ℕ → ℤ))}
    (hsteady : ∀ before c after, calls = before ++ c :: after →
      ((new config hasPenaltyStore).run before).Steady c.1) :
    ((new config hasPenaltyStore).run calls).Latest := by
  refine foldl_invariant (I := Latest)
    ⟨sized_new config hasPenaltyStore,follows_new windowRule_newest config hasPenaltyStore⟩ ?_
  intro before c after hsplit h
  exact h.step (hsteady before c after hsplit)

/-- In every state of every run the windows of a registered provider have the end of the samples
that they were given. They have the latest ones, as many as the size in the configuration, if no
update changed that size and no load brought more samples of a provider than fit. -/
theorem windows_latest (config : FullConfig) (hasPenaltyStore : Bool)
    (calls : List (EngineCall × (ℕ → ℤ))) (name : String) {ps : ScoreRecord}
    (hps : ((new config hasPenaltyStore).run calls).engine.scores.get name = some ps) :
    let s := (new config hasPenaltyStore).run calls
    let size := s.engine.config.latencyWindowSize.toNat
    (s.engine.latencyTracker.providerSamples name <:+ s.log.tracker name ∧
      ps.recentLatencies <:+ s.log.score name) ∧
    ((∀ before c after, calls = before ++ c :: after →
        ((new config hasPenaltyStore).run before).Steady c.1) →
      s.engine.latencyTracker.providerSamples name = newest size (s.log.tracker name) ∧
        ps.recentLatencies = newest size (s.log.score name)) := by
  intro s size
  have hwindow : (ps.latencyWindowSize,ps.recentLatencies) ∈ s.engine.toEngine.window name := by
    simp [Engine.window,FullEngine.toEngine,s,hps]
  have hsuffix := follows_suffix config hasPenaltyStore calls
  refine ⟨⟨hsuffix.tracker name,hsuffix.score name _ hwindow⟩,fun hsteady => ?_⟩
  have hlatest := latest_run config hasPenaltyStore hsteady
  have htracker := hlatest.follows.tracker name
  have hscore := hlatest.follows.score name _ hwindow
  have hsize : ps.latencyWindowSize = s.engine.config.latencyWindowSize :=
    (FullEngine.all_toEngine _ _).mp hlatest.sized.score name ps hps
  have hroom : s.engine.latencyTracker.windowSize.toNat = size :=
    congrArg Int.toNat hlatest.sized.tracker
  have hroom' : ps.latencyWindowSize.toNat = size := congrArg Int.toNat hsize
  constructor
  · rw [← hroom]
    exact htracker
  · rw [← hroom']
    exact hscore

def smallConfig : FullConfig := ⟨{ defaultScoringConfig with latencyWindowSize := 10 },50⟩

def answered (responseTime : ℤ) : EngineCall × (ℕ → ℤ) :=
  (.op (.record { type := .operationSuccess, provider := "a", timestamp := 1
                  responseTime := responseTime }),fun _ => 1)

def samplesStored (samples : List ℤ) : StoreReply where
  scores := .ok [some ⟨"a",⟨100,0,0,0,0,0,0,0,0,0,0,samples⟩⟩]
  latency := .ok (some ⟨[("a",samples)],0,by simp⟩)

theorem steady_samplesStored {s : LoggedEngine} {samples : List ℤ}
    (h : samples.length ≤ s.engine.config.latencyWindowSize) :
    s.Steady (.load (samplesStored samples)) := by
  constructor
  · intro f hf name
    cases hf
    by_cases hname : name = "a"
    · simpa [hname] using h
    · have hbeq : (name == "a") = false := by simpa using hname
      simp only [List.lookup_cons,hbeq,List.lookup_nil,Option.getD_none,List.length_nil]
      omega
  · intro name ps hps
    rcases KeyedMap.mem_of_get_setAll hps with hmem | hnone
    · simp only [FullEngine.loaded,List.mem_map,List.mem_filter,List.mem_filterMap,
        List.mem_singleton] at hmem
      obtain ⟨data,⟨⟨_,rfl,hdata⟩,_⟩,rfl⟩ := hmem
      cases hdata
      exact h
    · rw [KeyedMap.get_empty] at hnone
      cases hnone

def loadedThenAnswered : List (EngineCall × (ℕ → ℤ)) :=
  [(.load (samplesStored [1,2]),fun _ => 1),
    (.update fun c => { c with maxPenalty := 50 },fun _ => 1),answered 3]

theorem windows_latest_loaded :
    ((new smallConfig false).run loadedThenAnswered).engine.latencyTracker.providerSamples "a" =
      [1,2,3] ∧
    ((new smallConfig false).run loadedThenAnswered).engine.latencyTracker.providerSamples "a" =
      newest ((new smallConfig false).run loadedThenAnswered).engine.config.latencyWindowSize.toNat
        (((new smallConfig false).run loadedThenAnswered).log.tracker "a") := by
  have hsteady : Along step (fun s c => s.Steady c.1) (new smallConfig false) loadedThenAnswered :=
    ⟨steady_samplesStored (by decide +kernel),rfl,trivial,trivial⟩
  have hsome : (((new smallConfig false).run loadedThenAnswered).engine.scores.get "a").isSome =
      true := by decide +kernel
  obtain ⟨ps,hps⟩ := Option.isSome_iff_exists.mp hsome
  exact ⟨by decide +kernel,((windows_latest smallConfig false loadedThenAnswered "a" hps).2
    (along_iff.mp hsteady)).1⟩

def registerA : EngineCall × (ℕ → ℤ) := (.op (.register "a" 1),fun _ => 1)

/-- Windows of twenty after eleven answers, and windows of ten after a load of twelve samples. -/
theorem windows_not_latest :
    ((fun s : LoggedEngine => (s.engine.config.latencyWindowSize,
        s.engine.latencyTracker.providerSamples "a",s.log.tracker "a",
        (s.engine.scores.get "a").map fun ps => ps.recentLatencies))
      ((new smallConfig false).run (registerA ::
        (.update fun c => { c with latencyWindowSize := 20 },fun _ => 1) ::
          ([1,2,3,4,5,6,7,8,9,10,11].map answered))) =
      (20,[2,3,4,5,6,7,8,9,10,11],[1,2,3,4,5,6,7,8,9,10,11],some [2,3,4,5,6,7,8,9,10,11])) ∧
    ((fun s : LoggedEngine => (s.engine.config.latencyWindowSize,
        s.engine.latencyTracker.providerSamples "a",
        (s.engine.scores.get "a").map fun ps => ps.recentLatencies))
      ((new smallConfig false).run
        [(.load (samplesStored [1,2,3,4,5,6,7,8,9,10,11,12]),fun _ => 1),answered 13]) =
      (10,[2,3,4,5,6,7,8,9,10,11,12,13],some [2,3,4,5,6,7,8,9,10,11,12,13])) := by
  constructor <;> decide +kernel

end LoggedEngine
end ChainKit
