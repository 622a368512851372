import ChainKit.Lib.Schedule
import ChainKit.Scoring.Store.Hybrid

/-! Whether the cache of a hybrid store can be seen: what `GetScore` answers, compared with what
the primary store holds, when calls of the cache may fail. -/
namespace ChainKit.Store
open Lib HybridStore
variable {α : Type}

def names (data : List (ProviderScoreData α)) : List String := data.map ProviderScoreData.name

namespace HybridStore

/-- Every answer is what the primary store holds, whatever the clock and the cache do. -/
def Transparent (h : HybridStore α) : Prop :=
  ∀ name env data, (h.getScore env name).1 = .ok data → data = h.primary.get name

/-- If the cache is marked as fresh for a name, its entry is missing or right. -/
def CoherentAt (h : HybridStore α) (name : String) : Prop :=
  (h.cacheTime name).isSome = true → Copies (h.primary.get name) (h.cache.get name)

def Coherent (h : HybridStore α) : Prop := ∀ name, h.CoherentAt name

/-- Cache writes are not left to goroutines. -/
structure Synchronous (h : HybridStore α) : Prop where
  async : h.config.asyncWrite = false
  idle : h.background = []

/-- What no step of a synchronous store changes. -/
def settings (h : HybridStore α) : HybridConfig × List (List (ProviderScoreData α)) :=
  (h.config,h.background)

theorem synchronous_iff (h : HybridStore α) :
    h.Synchronous ↔ h.settings.1.asyncWrite = false ∧ h.settings.2 = [] :=
  ⟨fun hsync => ⟨hsync.async,hsync.idle⟩,fun hsync => ⟨hsync.1,hsync.2⟩⟩

def writesThrough (h : HybridStore α) : Prop :=
  h.config.invalidateOnWrite = false ∧ h.config.writeThrough = true

/-- A step whose cache write fails does not mark a name as fresh for which the cache holds
another value than the one that should have been written. -/
def Harmless (h : HybridStore α) : Step α → Prop
  | (.getScore name,env) => h.cacheHit env name = none → env.primary = none →
      env.cache 1 ≠ none → ∀ data, h.primary.get name = some data →
        Copies (some data) (h.cache.get name)
  | (.setScore (some data),env) => h.writesThrough → env.primary = none → env.cache 0 ≠ none →
      Copies (some data) (h.cache.get data.name)
  | (.setScores data,env) => h.writesThrough → env.primary = none → env.cache 0 ≠ none →
      ∀ name ∈ names data, Copies ((h.primary.setAll data).get name) (h.cache.get name)
  | _ => True

theorem cacheHit_eq_some {h : HybridStore α} {env : Env} {name : String}
    {data : ProviderScoreData α} (hhit : h.cacheHit env name = some data) :
    (h.cacheTime name).isSome = true ∧ h.cache.get name = some data := by
  unfold cacheHit at hhit
  split_ifs at hhit with hfresh
  constructor
  · unfold isCacheFresh at hfresh
    split at hfresh
    · rename_i t ht
      rw [ht,Option.isSome_some]
    · cases hfresh
  · unfold cacheGet at hhit
    split at hhit
    · exact hhit
    · cases hhit

theorem Coherent.transparent {h : HybridStore α} (hcoherent : h.Coherent) : h.Transparent := by
  intro name env data hanswer
  unfold getScore at hanswer
  split at hanswer
  · rename_i hit hhit
    obtain ⟨hmarked,hcached⟩ := cacheHit_eq_some hhit
    cases hanswer
    exact (hcoherent name hmarked hit hcached).symm
  · split at hanswer
    · cases hanswer
    · split at hanswer
      · cases hanswer
        exact ‹h.primary.get name = _›.symm
      · cases hanswer
        exact ‹h.primary.get name = _›.symm

/-- What is wrong in the cache is seen by a call at the time of the mark. -/
theorem Transparent.coherent {h : HybridStore α} (htransparent : h.Transparent)
    (httl : 0 < h.config.cacheTTL) : h.Coherent := by
  intro name hmarked data hcached
  obtain ⟨t,ht⟩ := Option.isSome_iff_exists.mp hmarked
  have hhit : h.cacheHit ⟨none,fun _ => none,fun _ => t⟩ name = some data := by
    simp [cacheHit,isCacheFresh,ht,httl,cacheGet,hcached]
  refine (htransparent name ⟨none,fun _ => none,fun _ => t⟩ (some data) ?_).symm
  simp only [getScore,hhit]

section
variable {h : HybridStore α} {data : List (ProviderScoreData α)}

@[simp] theorem settings_markEach (now : ℕ → ℤ) (i : ℕ) :
    (markEach now i data h).settings = h.settings := by
  induction data generalizing i h with
  | nil => rfl
  | cons d rest ih => exact ih (i+1)

@[simp] theorem markEach_primary (now : ℕ → ℤ) (i : ℕ) :
    (markEach now i data h).primary = h.primary := by
  induction data generalizing i h with
  | nil => rfl
  | cons d rest ih => exact ih (i+1)

@[simp] theorem markEach_cache (now : ℕ → ℤ) (i : ℕ) :
    (markEach now i data h).cache = h.cache := by
  induction data generalizing i h with
  | nil => rfl
  | cons d rest ih => exact ih (i+1)

theorem markEach_cacheTime (now : ℕ → ℤ) (i : ℕ) (name : String) :
    ((markEach now i data h).cacheTime name).isSome = true ↔
      name ∈ names data ∨ (h.cacheTime name).isSome = true := by
  induction data generalizing i h with
  | nil => simp [markEach,names]
  | cons d rest ih =>
    rw [markEach,ih]
    by_cases hname : name = d.name
    · simp [names,markCacheFresh,hname]
    · simp [names,markCacheFresh,hname]

@[simp] theorem settings_cacheSet (err : Option GoError) :
    (h.cacheSet err data).settings = h.settings := by
  unfold cacheSet
  split <;> rfl

@[simp] theorem settings_cacheDelete (err : Option GoError) (name : String) :
    (h.cacheDelete err name).settings = h.settings := by
  unfold cacheDelete
  split <;> rfl

@[simp] theorem cacheDelete_primary (err : Option GoError) (name : String) :
    (h.cacheDelete err name).primary = h.primary := by
  unfold cacheDelete
  split <;> rfl

@[simp] theorem cacheDelete_cacheTime (err : Option GoError) (name : String) :
    (h.cacheDelete err name).cacheTime = h.cacheTime := by
  unfold cacheDelete
  split <;> rfl

theorem cacheDelete_get {err : Option GoError} {name other : String} (hne : other ≠ name) :
    (h.cacheDelete err name).cache.get other = h.cache.get other := by
  unfold cacheDelete
  split
  · simp [hne]
  · rfl

@[simp] theorem settings_dropEach (err : ℕ → Option GoError) (i : ℕ) :
    (dropEach err i data h).settings = h.settings := by
  induction data generalizing i h with
  | nil => rfl
  | cons d rest ih =>
    rw [dropEach,ih,settings_cacheDelete]
    rfl

theorem dropEach_primary (err : ℕ → Option GoError) (i : ℕ) :
    (dropEach err i data h).primary = h.primary := by
  induction data generalizing i h with
  | nil => rfl
  | cons d rest ih =>
    rw [dropEach,ih,cacheDelete_primary]
    rfl

theorem dropEach_cacheTime (err : ℕ → Option GoError) (i : ℕ) (name : String) :
    (dropEach err i data h).cacheTime name =
      if name ∈ names data then none else h.cacheTime name := by
  induction data generalizing i h with
  | nil => simp [names,dropEach]
  | cons d rest ih =>
    rw [dropEach,ih,cacheDelete_cacheTime]
    by_cases hname : name = d.name
    · simp [names,invalidateCache,hname]
    · simp [names,invalidateCache,hname]

theorem dropEach_get {err : ℕ → Option GoError} {i : ℕ} {name : String}
    (hname : name ∉ names data) : (dropEach err i data h).cache.get name = h.cache.get name := by
  induction data generalizing i h with
  | nil => rfl
  | cons d rest ih =>
    rw [names,List.map_cons,List.mem_cons,not_or] at hname
    rw [dropEach,ih hname.2,cacheDelete_get hname.1]
    rfl

@[simp] theorem settings_invalidateEach : (invalidateEach data h).settings = h.settings := by
  induction data generalizing h with
  | nil => rfl
  | cons d rest ih => exact ih

@[simp] theorem invalidateEach_primary : (invalidateEach data h).primary = h.primary := by
  induction data generalizing h with
  | nil => rfl
  | cons d rest ih => exact ih

@[simp] theorem invalidateEach_cache : (invalidateEach data h).cache = h.cache := by
  induction data generalizing h with
  | nil => rfl
  | cons d rest ih => exact ih

theorem invalidateEach_cacheTime (name : String) :
    (invalidateEach data h).cacheTime name =
      if name ∈ names data then none else h.cacheTime name := by
  induction data generalizing h with
  | nil => simp [names,invalidateEach]
  | cons d rest ih =>
    rw [invalidateEach,ih]
    by_cases hname : name = d.name
    · simp [names,invalidateCache,hname]
    · simp [names,invalidateCache,hname]

/-- A batch is written to the cache and marked. If the write fails, the names of the batch have
to be right already. -/
theorem coherent_writeEach (err : Option GoError) (now : ℕ → ℤ) (i : ℕ)
    (hwritten : ∀ name ∈ names data, (h.cache.setAll data).get name = h.primary.get name)
    (hrest : ∀ name, name ∉ names data → h.CoherentAt name) :
    (markEach now i data (h.cacheSet err data)).Coherent ↔
      (err ≠ none → ∀ name ∈ names data, Copies (h.primary.get name) (h.cache.get name)) := by
  simp only [Coherent,CoherentAt,markEach_cacheTime,markEach_primary,markEach_cache]
  cases err with
  | none =>
    refine iff_of_true ?_ (fun hne => absurd rfl hne)
    intro name hmarked
    by_cases hname : name ∈ names data
    · change Copies (h.primary.get name) ((h.cache.setAll data).get name)
      rw [hwritten name hname]
      exact copies_self _
    · change Copies (h.primary.get name) ((h.cache.setAll data).get name)
      rw [KeyedMap.get_setAll_of_notMem hname]
      exact hrest name hname (hmarked.resolve_left hname)
  | some e =>
    constructor
    · intro hcoherent _ name hname
      exact hcoherent name (.inl hname)
    · intro hcopies name hmarked
      by_cases hname : name ∈ names data
      · exact hcopies (by simp) name hname
      · exact hrest name hname (hmarked.resolve_left hname)

theorem coherent_dropEach (err : ℕ → Option GoError) (i : ℕ)
    (hrest : ∀ name, name ∉ names data → h.CoherentAt name) :
    (dropEach err i data h).Coherent := by
  intro name hmarked
  rw [dropEach_cacheTime] at hmarked
  split_ifs at hmarked with hname
  · cases hmarked
  · rw [dropEach_primary,dropEach_get hname]
    exact hrest name hname hmarked

theorem coherent_invalidateEach (hrest : ∀ name, name ∉ names data → h.CoherentAt name) :
    (invalidateEach data h).Coherent := by
  intro name hmarked
  rw [invalidateEach_cacheTime] at hmarked
  rw [invalidateEach_primary,invalidateEach_cache]
  split_ifs at hmarked with hname
  · cases hmarked
  · exact hrest name hname hmarked

end

section
variable {h : HybridStore α}

theorem cacheWrite_of_synchronous (hsync : h.Synchronous) (err : Option GoError)
    (data : List (ProviderScoreData α)) : h.cacheWrite err data = h.cacheSet err data := by
  simp [cacheWrite,hsync.async]

theorem setScore_eq_setScores (env : Env) (data : ProviderScoreData α) :
    (h.setScore env (some data)).2 = (h.setScores env [data]).2 := by
  simp only [setScore,setScores,List.cons_ne_nil,if_false]
  split
  · rfl
  · split_ifs <;> rfl

theorem harmless_setScore (env : Env) (data : ProviderScoreData α) :
    h.Harmless (.setScore (some data),env) ↔ h.Harmless (.setScores [data],env) := by
  simp [Harmless,names,KeyedMap.setAll]

theorem setScores_cases (hsync : h.Synchronous) (env : Env) (data : List (ProviderScoreData α)) :
    let written := { h with primary := h.primary.setAll data }
    (h.setScores env data).2 = h ∧ (data = [] ∨ env.primary ≠ none) ∨
    env.primary = none ∧ ¬h.writesThrough ∧
      ((h.setScores env data).2 = dropEach env.cache 0 data written ∨
        (h.setScores env data).2 = invalidateEach data written) ∨
    env.primary = none ∧ h.writesThrough ∧
      (h.setScores env data).2 = markEach env.now 0 data (written.cacheSet (env.cache 0) data) := by
  intro written
  have hwritten : written.Synchronous := ⟨hsync.async,hsync.idle⟩
  by_cases hempty : data = []
  · exact .inl ⟨by simp [setScores,hempty],.inl hempty⟩
  cases hprimary : env.primary with
  | some e => exact .inl ⟨by simp [setScores,hempty,hprimary],.inr (by simp)⟩
  | none =>
    cases hinvalidate : h.config.invalidateOnWrite with
    | true =>
      exact .inr (.inl ⟨rfl,by simp [writesThrough,hinvalidate],.inl
        (by simp [setScores,hempty,hprimary,hinvalidate,written])⟩)
    | false =>
      cases hthrough : h.config.writeThrough with
      | true =>
        refine .inr (.inr ⟨rfl,⟨hinvalidate,hthrough⟩,?_⟩)
        rw [← cacheWrite_of_synchronous hwritten]
        simp [setScores,hempty,hprimary,hinvalidate,hthrough,written]
      | false =>
        exact .inr (.inl ⟨rfl,by simp [writesThrough,hthrough],.inr
          (by simp [setScores,hempty,hprimary,hinvalidate,hthrough,written])⟩)

theorem coherent_setScores (hsync : h.Synchronous) (hcoherent : h.Coherent) (env : Env)
    (data : List (ProviderScoreData α)) :
    (h.setScores env data).2.Coherent ↔ h.Harmless (.setScores data,env) := by
  have hrest : ∀ name, name ∉ names data →
      { h with primary := h.primary.setAll data }.CoherentAt name := by
    intro name hname hmarked
    change Copies ((h.primary.setAll data).get name) (h.cache.get name)
    rw [KeyedMap.get_setAll_of_notMem hname]
    exact hcoherent name hmarked
  obtain ⟨heq,hno⟩ | ⟨_,hmode,heq | heq⟩ | ⟨hprimary,hmode,heq⟩ := setScores_cases hsync env data
  · rw [heq]
    refine iff_of_true hcoherent fun _ hprimary _ name hname => ?_
    obtain rfl | hfailed := hno
    · cases hname
    · exact absurd hprimary hfailed
  · rw [heq]
    exact iff_of_true (coherent_dropEach env.cache 0 hrest) fun hthrough => absurd hthrough hmode
  · rw [heq]
    exact iff_of_true (coherent_invalidateEach hrest) fun hthrough => absurd hthrough hmode
  · rw [heq,coherent_writeEach (env.cache 0) env.now 0 (fun name hname =>
      KeyedMap.get_setAll_of_mem hname) hrest]
    simp [Harmless,hmode,hprimary]

theorem coherent_getScore (hsync : h.Synchronous) (hcoherent : h.Coherent) (env : Env)
    (name : String) : (h.getScore env name).2.Coherent ↔ h.Harmless (.getScore name,env) := by
  unfold getScore Harmless
  split
  · rename_i hhit
    exact iff_of_true hcoherent fun hmiss => absurd (hmiss.symm.trans hhit) (by simp)
  · rename_i hmiss
    split
    · rename_i hprimary
      exact iff_of_true hcoherent fun _ hnone => absurd (hnone.symm.trans hprimary) (by simp)
    · rename_i hprimary
      split
      · rename_i data hdata
        obtain rfl := KeyedMap.key_of_get hdata
        rw [cacheWrite_of_synchronous hsync]
        have hwritten : ∀ name ∈ names [data],
            (h.cache.setAll [data]).get name = h.primary.get name := by
          intro name hname
          obtain rfl := List.mem_singleton.mp hname
          rw [hdata]
          simp [KeyedMap.setAll]
        have hwrite := coherent_writeEach (h := h) (env.cache 1) env.now 1 hwritten
          (fun name _ => hcoherent name)
        refine hwrite.trans ?_
        simp [names,hmiss,hprimary,hdata]
      · rename_i hdata
        refine iff_of_true hcoherent fun _ _ _ data hsome => ?_
        rw [hdata] at hsome
        cases hsome

theorem coherent_deleteScore (hcoherent : h.Coherent) (env : Env) (name : String) :
    (h.deleteScore env name).2.Coherent := by
  unfold deleteScore
  split
  · exact hcoherent
  · intro other hmarked
    simp only [invalidateCache,cacheDelete_primary,cacheDelete_cacheTime,
      KeyedMap.get_delete] at hmarked ⊢
    by_cases hname : other = name
    · simp [hname] at hmarked
    · rw [Function.update_of_ne hname] at hmarked ⊢
      rw [cacheDelete_get hname]
      exact hcoherent other hmarked

theorem coherent_warmCache (hcoherent : h.Coherent) (env : Env) :
    (h.warmCache env).2.Coherent := by
  simp only [warmCache]
  split
  · exact hcoherent
  · split_ifs
    · exact hcoherent
    · split
      · exact hcoherent
      · refine (coherent_writeEach none env.now 0 ?_ (fun name _ => hcoherent name)).mpr
          (fun hne => absurd rfl hne)
        intro name hname
        exact KeyedMap.get_setAll_getAll (fun _ => KeyedMap.get_of_mem_getAll) hname

/-- A step keeps a synchronous store coherent exactly when it is harmless. -/
theorem coherent_exec (hsync : h.Synchronous) (hcoherent : h.Coherent) (s : Step α) :
    (h.exec s).Coherent ↔ h.Harmless s := by
  rcases s with ⟨op,env⟩
  cases op with
  | getScore name => exact coherent_getScore hsync hcoherent env name
  | setScore data =>
    cases data with
    | none => exact iff_of_true hcoherent trivial
    | some data =>
      rw [harmless_setScore,exec,setScore_eq_setScores]
      exact coherent_setScores hsync hcoherent env [data]
  | setScores data => exact coherent_setScores hsync hcoherent env data
  | deleteScore name => exact iff_of_true (coherent_deleteScore hcoherent env name) trivial
  | invalidateAll =>
    refine iff_of_true ?_ trivial
    intro name hmarked
    cases hmarked
  | warmCache => exact iff_of_true (coherent_warmCache hcoherent env) trivial
  | background =>
    refine iff_of_true ?_ trivial
    simpa [exec,runBackground,hsync.idle] using hcoherent

theorem settings_setScores (hsync : h.Synchronous) (env : Env)
    (data : List (ProviderScoreData α)) : (h.setScores env data).2.settings = h.settings := by
  obtain ⟨heq,_⟩ | ⟨_,_,heq | heq⟩ | ⟨_,_,heq⟩ := setScores_cases hsync env data
  · rw [heq]
  · rw [heq,settings_dropEach]
    rfl
  · rw [heq,settings_invalidateEach]
    rfl
  · rw [heq,settings_markEach,settings_cacheSet]
    rfl

theorem settings_exec (hsync : h.Synchronous) (s : Step α) :
    (h.exec s).settings = h.settings := by
  rcases s with ⟨op,env⟩
  cases op with
  | getScore name =>
    simp only [exec,getScore,cacheWrite_of_synchronous hsync]
    split
    · rfl
    · split
      · rfl
      · split
        · exact settings_cacheSet (h := h) (env.cache 1)
        · rfl
  | setScore data =>
    cases data with
    | none => rfl
    | some data =>
      rw [exec,setScore_eq_setScores]
      exact settings_setScores hsync env [data]
  | setScores data => exact settings_setScores hsync env data
  | deleteScore name =>
    simp only [exec,deleteScore]
    split
    · rfl
    · exact settings_cacheDelete (h := { h with primary := h.primary.delete name })
        (env.cache 0) name
  | invalidateAll => rfl
  | warmCache =>
    simp only [exec,warmCache]
    split
    · rfl
    · split_ifs
      · rfl
      · split
        · rfl
        · rw [settings_markEach,settings_cacheSet]
  | background => simp [exec,runBackground,hsync.idle]

theorem synchronous_exec (hsync : h.Synchronous) (s : Step α) : (h.exec s).Synchronous := by
  rw [synchronous_iff,settings_exec hsync s,← synchronous_iff]
  exact hsync

theorem synchronous_run (hsync : h.Synchronous) (steps : List (Step α)) :
    (h.run steps).Synchronous := by
  induction steps generalizing h with
  | nil => exact hsync
  | cons s rest ih => exact ih (synchronous_exec hsync s)

theorem settings_run (hsync : h.Synchronous) (steps : List (Step α)) :
    (h.run steps).settings = h.settings := by
  induction steps generalizing h with
  | nil => rfl
  | cons s rest ih =>
    exact (ih (synchronous_exec hsync s)).trans (settings_exec hsync s)

theorem coherent_run (hsync : h.Synchronous) (hcoherent : h.Coherent) {steps : List (Step α)}
    (hsteps : ∀ before s after, steps = before ++ s :: after → (h.run before).Harmless s) :
    (h.run steps).Coherent :=
  foldl_invariant hcoherent fun before s after hsplit hbefore =>
    (coherent_exec (synchronous_run hsync before) hbefore s).mpr (hsteps before s after hsplit)

end
end HybridStore

theorem newHybridStore_eq_ok {config : HybridConfig} {primary cache : ScoreMap α}
    {h : HybridStore α} (hnew : newHybridStore config (some primary) (some cache) = .ok h)
    (hsync : config.asyncWrite = false) : h.Synchronous ∧ h.Coherent := by
  cases hnew
  refine ⟨⟨?_,rfl⟩,?_⟩
  · dsimp only
    split_ifs <;> exact hsync
  · intro name hmarked
    cases hmarked

/-- Along every run with synchronous cache writes, the answers are those of the primary store
as long as no step marks a name for which its cache write has failed and the cache holds
something else; and with a positive TTL, only then. -/
theorem transparent_iff {config : HybridConfig} {primary cache : ScoreMap α} {h : HybridStore α}
    (hnew : newHybridStore config (some primary) (some cache) = .ok h)
    (hsync : config.asyncWrite = false) (steps : List (Step α)) :
    ((∀ before s after, steps = before ++ s :: after → (h.run before).Harmless s) →
      ∀ before after, steps = before ++ after → (h.run before).Transparent) ∧
    (0 < h.config.cacheTTL →
      (∀ before after, steps = before ++ after → (h.run before).Transparent) →
      ∀ before s after, steps = before ++ s :: after → (h.run before).Harmless s) := by
  obtain ⟨hstart,hcoherent⟩ := newHybridStore_eq_ok hnew hsync
  constructor
  · intro hsteps before after hsplit
    apply Coherent.transparent
    apply coherent_run hstart hcoherent
    intro before' s after' hsplit'
    apply hsteps before' s (after' ++ after)
    rw [hsplit,hsplit',List.append_assoc,List.cons_append]
  · intro httl htransparent before s after hsplit
    have hpositive (before : List (Step α)) : 0 < (h.run before).config.cacheTTL := by
      have hsettings := congrArg Prod.fst (settings_run hstart before)
      change (h.run before).config = h.config at hsettings
      rw [hsettings]
      exact httl
    have hbefore := (htransparent before _ hsplit).coherent (hpositive before)
    have hafter := (htransparent (before ++ [s]) after (by simpa using hsplit)).coherent
      (hpositive _)
    rw [run,List.foldl_append] at hafter
    exact (coherent_exec (synchronous_run hstart before) hbefore s).mp hafter

/-- Write-through with the default TTL, the first mode that the documentation names. -/
def throughConfig : HybridConfig := ⟨5*Duration.minute,true,false,false⟩

def freshStore : HybridStore ℕ := ⟨throughConfig,.empty,.empty,fun _ => none,[]⟩

def reliable (now : ℤ) : Env := ⟨none,fun _ => none,fun _ => now⟩

def cacheDown (now : ℤ) : Env := ⟨none,fun _ => some (.plain "connection refused"),fun _ => now⟩

instance [DecidableEq α] (h : HybridStore α) (s : Step α) : Decidable (h.Harmless s) := by
  unfold Harmless Copies writesThrough
  split <;> infer_instance

/-- Writes that do not reach the cache, one of them of the value that it holds, and a read that
gets nothing from it. -/
def halfCached : List (Step ℕ) :=
  [(.setScore (some ⟨"a",1⟩),cacheDown 0),(.setScore (some ⟨"b",2⟩),reliable 1),
    (.getScore "a",cacheDown 2),(.setScore (some ⟨"b",2⟩),cacheDown 3)]

theorem transparent_halfCached : (freshStore.run halfCached).Transparent := by
  have hnew : newHybridStore throughConfig (some .empty) (some .empty) = .ok freshStore := rfl
  have halong : Along exec Harmless freshStore halfCached := by decide +kernel
  exact (transparent_iff hnew rfl halfCached).1 (along_iff.mp halong) _ [] (List.append_nil _).symm

/-- The second write does not reach the cache, which is marked as fresh all the same. -/
theorem getScore_returns_replaced :
    let h := freshStore.run
      [(.setScore (some ⟨"a",1⟩),reliable 0),(.setScore (some ⟨"a",2⟩),cacheDown 1)]
    (h.getScore (reliable 2) "a").1 = .ok (some ⟨"a",1⟩) ∧ h.primary.get "a" = some ⟨"a",2⟩ := by
  decide +kernel

end ChainKit.Store
