import ChainKit.Config
import ChainKit.Lib.Keyed

/-! The hybrid score store: a primary store, a cache in front of it, and the times at which the
entries of the cache were marked as fresh. Either store is a map; a call of it may fail, and
then it has no effect. -/
namespace ChainKit.Store
open Lib

/-- `ProviderScoreData`; `α` stands for the fields that the stores only copy. -/
structure ProviderScoreData (α : Type) where
  name : String
  fields : α
  deriving DecidableEq

abbrev ScoreMap (α : Type) := KeyedMap (@ProviderScoreData.name α)

structure HybridConfig where
  cacheTTL : ℤ
  writeThrough : Bool
  asyncWrite : Bool
  invalidateOnWrite : Bool
  deriving DecidableEq

/-- `background` holds the cache writes of goroutines that have not run yet. -/
structure HybridStore (α : Type) where
  config : HybridConfig
  primary : ScoreMap α
  cache : ScoreMap α
  cacheTime : String → Option ℤ
  background : List (List (ProviderScoreData α))

variable {α : Type}

/-- `NewHybridStore`, where a missing store is nil. -/
def newHybridStore (config : HybridConfig) (primary cache : Option (ScoreMap α)) :
    Except GoError (HybridStore α) :=
  match primary,cache with
  | none,_ => .error (.plain "primary store is required")
  | some _,none => .error (.plain "cache store is required")
  | some primary,some cache =>
    .ok { config := if config.cacheTTL = 0 then { config with cacheTTL := 5*Duration.minute }
            else config
          primary := primary, cache := cache, cacheTime := fun _ => none, background := [] }

/-- What an operation meets: the error of its call of the primary store, those of its calls of
the cache, and the readings of the clock, in order. -/
structure Env where
  primary : Option GoError
  cache : ℕ → Option GoError
  now : ℕ → ℤ

namespace HybridStore

def isCacheFresh (h : HybridStore α) (now : ℤ) (name : String) : Bool :=
  match h.cacheTime name with
  | some t => now-t < h.config.cacheTTL
  | none => false

def markCacheFresh (h : HybridStore α) (now : ℤ) (name : String) : HybridStore α :=
  { h with cacheTime := Function.update h.cacheTime name (some now) }

def invalidateCache (h : HybridStore α) (name : String) : HybridStore α :=
  { h with cacheTime := Function.update h.cacheTime name none }

/-- `cache.GetScore`, where an error reads as a miss. -/
def cacheGet (h : HybridStore α) (err : Option GoError) (name : String) :
    Option (ProviderScoreData α) :=
  match err with
  | none => h.cache.get name
  | some _ => none

/-- `cache.SetScore` and `cache.SetScores`. -/
def cacheSet (h : HybridStore α) (err : Option GoError) (data : List (ProviderScoreData α)) :
    HybridStore α :=
  match err with
  | none => { h with cache := h.cache.setAll data }
  | some _ => h

def cacheDelete (h : HybridStore α) (err : Option GoError) (name : String) : HybridStore α :=
  match err with
  | none => { h with cache := h.cache.delete name }
  | some _ => h

/-- A cache write, now or in a goroutine. -/
def cacheWrite (h : HybridStore α) (err : Option GoError) (data : List (ProviderScoreData α)) :
    HybridStore α :=
  if h.config.asyncWrite then { h with background := h.background ++ [data] }
  else h.cacheSet err data

/-- The cache answers instead of the primary store. -/
def cacheHit (h : HybridStore α) (env : Env) (name : String) : Option (ProviderScoreData α) :=
  if h.isCacheFresh (env.now 0) name then h.cacheGet (env.cache 0) name else none

def getScore (h : HybridStore α) (env : Env) (name : String) :
    Except GoError (Option (ProviderScoreData α)) × HybridStore α :=
  match h.cacheHit env name with
  | some data => (.ok (some data),h)
  | none =>
    match env.primary with
    | some e => (.error (.wrap "primary store get failed: " e ""),h)
    | none =>
      match h.primary.get name with
      | some data =>
        (.ok (some data),(h.cacheWrite (env.cache 1) [data]).markCacheFresh (env.now 1) name)
      | none => (.ok none,h)

def setScore (h : HybridStore α) (env : Env) (data : Option (ProviderScoreData α)) :
    Except GoError Unit × HybridStore α :=
  match data with
  | none => (.error (.plain "data cannot be nil"),h)
  | some data =>
    match env.primary with
    | some e => (.error (.wrap "primary store set failed: " e ""),h)
    | none =>
      let h := { h with primary := h.primary.set data }
      if h.config.invalidateOnWrite then
        (.ok (),(h.invalidateCache data.name).cacheDelete (env.cache 0) data.name)
      else if h.config.writeThrough then
        (.ok (),(h.cacheWrite (env.cache 0) [data]).markCacheFresh (env.now 0) data.name)
      else (.ok (),h.invalidateCache data.name)

/-- The loop of `SetScores` that drops the entries, from the `i`-th call of the cache on. -/
def dropEach (err : ℕ → Option GoError) :
    ℕ → List (ProviderScoreData α) → HybridStore α → HybridStore α
  | _,[],h => h
  | i,d :: rest,h =>
    dropEach err (i+1) rest ((h.invalidateCache d.name).cacheDelete (err i) d.name)

def markEach (now : ℕ → ℤ) : ℕ → List (ProviderScoreData α) → HybridStore α → HybridStore α
  | _,[],h => h
  | i,d :: rest,h => markEach now (i+1) rest (h.markCacheFresh (now i) d.name)

def invalidateEach : List (ProviderScoreData α) → HybridStore α → HybridStore α
  | [],h => h
  | d :: rest,h => invalidateEach rest (h.invalidateCache d.name)

def setScores (h : HybridStore α) (env : Env) (data : List (ProviderScoreData α)) :
    Except GoError Unit × HybridStore α :=
  if data = [] then (.ok (),h)
  else match env.primary with
    | some e => (.error (.wrap "primary store batch set failed: " e ""),h)
    | none =>
      let h := { h with primary := h.primary.setAll data }
      if h.config.invalidateOnWrite then (.ok (),dropEach env.cache 0 data h)
      else if h.config.writeThrough then
        (.ok (),markEach env.now 0 data (h.cacheWrite (env.cache 0) data))
      else (.ok (),invalidateEach data h)

def deleteScore (h : HybridStore α) (env : Env) (name : String) :
    Except GoError Unit × HybridStore α :=
  match env.primary with
  | some e => (.error (.wrap "primary store delete failed: " e ""),h)
  | none =>
    let h := { h with primary := h.primary.delete name }
    (.ok (),(h.cacheDelete (env.cache 0) name).invalidateCache name)

def invalidateAll (h : HybridStore α) : HybridStore α := { h with cacheTime := fun _ => none }

def warmCache (h : HybridStore α) (env : Env) : Except GoError Unit × HybridStore α :=
  match env.primary with
  | some e => (.error (.wrap "failed to get scores from primary: " e ""),h)
  | none =>
    let scores := h.primary.getAll
    if scores = [] then (.ok (),h)
    else match env.cache 0 with
      | some e => (.error (.wrap "failed to populate cache: " e ""),h)
      | none => (.ok (),markEach env.now 0 scores (h.cacheSet none scores))

/-- A goroutine gets to run its cache write. -/
def runBackground (h : HybridStore α) (env : Env) : HybridStore α :=
  match h.background with
  | [] => h
  | data :: rest => { h with background := rest }.cacheSet (env.cache 0) data

end HybridStore

/-- The calls of a hybrid store, and the goroutines that it starts. -/
inductive Op (α : Type)
  | getScore (name : String)
  | setScore (data : Option (ProviderScoreData α))
  | setScores (data : List (ProviderScoreData α))
  | deleteScore (name : String)
  | invalidateAll
  | warmCache
  | background

abbrev Step (α : Type) := Op α × Env

def HybridStore.exec (h : HybridStore α) : Step α → HybridStore α
  | (.getScore name,env) => (h.getScore env name).2
  | (.setScore data,env) => (h.setScore env data).2
  | (.setScores data,env) => (h.setScores env data).2
  | (.deleteScore name,env) => (h.deleteScore env name).2
  | (.invalidateAll,_) => h.invalidateAll
  | (.warmCache,env) => (h.warmCache env).2
  | (.background,env) => h.runBackground env

def HybridStore.run (h : HybridStore α) (steps : List (Step α)) : HybridStore α :=
  steps.foldl HybridStore.exec h

end ChainKit.Store
