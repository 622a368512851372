import ChainKit.Scoring.Persistence

/-! An engine with the store it is set to use, and what is left of a load that fails. The scores
are replaced before the latency samples are asked for. -/
namespace ChainKit
open Lib

/-- A `store` that is nil is one that has not been set. -/
structure StoredEngine (σ : Type) where
  engine : FullEngine
  store : Option σ

namespace StoredEngine
variable {σ : Type}

/-- `LoadFromStore`, where `reply` has the answers of the stores. -/
def loadFromStore (e : StoredEngine σ) (reply : σ → StoreReply) :
    Except GoError Unit × StoredEngine σ :=
  match e.store with
  | none => (.ok (),e)
  | some s =>
    let (result,engine) := e.engine.loadFromStore (reply s)
    (result,{ e with engine := engine })

def setStore (e : StoredEngine σ) (reply : σ → StoreReply) (s : Option σ) :
    Except GoError Unit × StoredEngine σ :=
  { e with store := s }.loadFromStore reply

end StoredEngine

namespace FullEngine

/-- The score that a load would put into the map under a name. -/
def fromStore (e : FullEngine) (reply : StoreReply) (name : String) : Option ScoreRecord :=
  match reply.scores with
  | .error _ => none
  | .ok data =>
    ((KeyedMap.empty : KeyedMap ScoreRecord.name).setAll (loaded e.config data)).get name

structure Unchanged (e e' : FullEngine) : Prop where
  scores : ∀ name, e'.scores.get name = e.scores.get name
  latencyTracker : e'.latencyTracker = e.latencyTracker

def HasLoaded (e : FullEngine) (reply : StoreReply) : Prop :=
  ∀ name, ∀ ps ∈ e.fromStore reply name, e.scores.get name = some ps

variable {e : FullEngine} {reply : StoreReply} {err : GoError}

/-- What a load makes of the scores, whether it fails or not. -/
theorem get_loadFromStore (e : FullEngine) (reply : StoreReply) (name : String) :
    (e.loadFromStore reply).2.scores.get name =
      (e.fromStore reply name).or (e.scores.get name) := by
  rw [scores_load,fromStore]
  cases reply.scores with
  | error err => exact Option.none_or.symm
  | ok data => exact KeyedMap.get_setAll _ _ _

theorem latencyTracker_of_error (h : (e.loadFromStore reply).1 = .error err) :
    (e.loadFromStore reply).2.latencyTracker = e.latencyTracker := by
  unfold loadFromStore at h ⊢
  cases hscores : reply.scores with
  | error err => rfl
  | ok data =>
    cases hlatency : reply.latency with
    | error err => rfl
    | ok latency =>
      simp only [hscores,hlatency] at h
      cases latency <;> cases h

theorem unchanged_iff (h : (e.loadFromStore reply).1 = .error err) :
    e.Unchanged (e.loadFromStore reply).2 ↔ e.HasLoaded reply := by
  constructor
  · rintro ⟨hscores,_⟩ name ps hps
    have hget := hscores name
    rw [get_loadFromStore,hps,Option.some_or] at hget
    exact hget.symm
  · intro hloaded
    refine ⟨fun name => ?_,latencyTracker_of_error h⟩
    rw [get_loadFromStore]
    cases hps : e.fromStore reply name with
    | none => exact Option.none_or
    | some ps => exact (hloaded name ps hps).symm

theorem hasLoaded_of_error (h : reply.scores = .error err) : e.HasLoaded reply := by
  intro name ps hps
  rw [fromStore,h] at hps
  cases hps

end FullEngine

namespace StoredEngine
variable {σ : Type}

theorem loadFromStore_some {e : StoredEngine σ} {s : σ} (h : e.store = some s)
    (reply : σ → StoreReply) : e.loadFromStore reply =
      ((e.engine.loadFromStore (reply s)).1,
        { e with engine := (e.engine.loadFromStore (reply s)).2 }) := by
  rw [loadFromStore,h]

/-- A load that fails changes nothing if and only if the scores that the store has are those in
memory already; and when `SetStore` fails the engine has the store that it had before if and only
if it was set to the same store again. -/
theorem failedLoad_iff (e : StoredEngine σ) (reply : σ → StoreReply) :
    (∀ s err, e.store = some s → (e.loadFromStore reply).1 = .error err →
      (e.engine.Unchanged (e.loadFromStore reply).2.engine ↔ e.engine.HasLoaded (reply s))) ∧
    ∀ s err, (e.setStore reply (some s)).1 = .error err →
      (e.engine.Unchanged (e.setStore reply (some s)).2.engine ∧
        (e.setStore reply (some s)).2.store = e.store ↔
      e.engine.HasLoaded (reply s) ∧ e.store = some s) := by
  constructor
  · intro s err hstore herror
    rw [loadFromStore_some hstore] at herror ⊢
    exact FullEngine.unchanged_iff herror
  · intro s err herror
    rw [setStore,loadFromStore_some rfl] at herror ⊢
    exact and_congr (FullEngine.unchanged_iff herror) eq_comm

/-- An engine that uses the first of two stores and has registered a provider. -/
def registered : StoredEngine Bool where
  engine := (FullEngine.new ⟨defaultScoringConfig,50⟩ false).registerProvider 1 "a" 1
  store := some false

def unreachable : StoreReply where
  scores := .error (.plain "connection refused")
  latency := .error (.plain "connection refused")

theorem failedLoad_unreachable :
    (registered.setStore (fun _ => unreachable) (some false)).1 =
        .error (.wrap "failed to load scores from store: " (.plain "connection refused") "") ∧
      registered.engine.Unchanged
        (registered.setStore (fun _ => unreachable) (some false)).2.engine ∧
      (registered.setStore (fun _ => unreachable) (some false)).2.store = registered.store :=
  ⟨rfl,((failedLoad_iff registered (fun _ => unreachable)).2 false _ rfl).mpr
    ⟨FullEngine.hasLoaded_of_error rfl,rfl⟩⟩

/-- The scores of `GetAllScores` come, and `GetLatencyStats` fails. -/
def halfFailing (data : List ScoreData) : StoreReply where
  scores := .ok (data.map some)
  latency := .error (.plain "connection reset")

def storedScore : ScoreData := ⟨"a",⟨100,10,0,0,0,0,0,0,5,5,0,[]⟩⟩

/-- The load fails, the score has changed and another provider is there; after `SetStore` the
engine uses the store that failed. -/
theorem failedLoad_replaces :
    (registered.loadFromStore fun _ => halfFailing
          [storedScore,{ storedScore with name := "b" }]).1 =
        .error (.wrap "failed to load latency stats from store: " (.plain "connection reset") "") ∧
      registered.engine.getEffectiveScore "a" = 100 ∧ registered.engine.scores.get "b" = none ∧
      (registered.loadFromStore fun _ => halfFailing
        [storedScore,{ storedScore with name := "b" }]).2.engine.getEffectiveScore "a" = 90 ∧
      ((registered.loadFromStore fun _ => halfFailing
        [storedScore,{ storedScore with name := "b" }]).2.engine.scores.get "b").isSome = true ∧
      (registered.setStore (fun _ => halfFailing []) (some true)).1 =
        .error (.wrap "failed to load latency stats from store: " (.plain "connection reset") "") ∧
      (registered.setStore (fun _ => halfFailing []) (some true)).2.store = some true :=
  ⟨rfl,by decide +kernel,by decide +kernel,by decide +kernel,by decide +kernel,rfl,rfl⟩

end StoredEngine
end ChainKit
