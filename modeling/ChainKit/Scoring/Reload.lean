import ChainKit.Scoring.Persistence

/-! An engine, the store that it alone writes, and the engines that are built on that store: who
is stored after a save, and which priority a provider has after a load. -/
namespace ChainKit
open Lib

structure Deployment where
  engine : FullEngine
  store : MemoryStore

namespace Deployment

inductive Call
  | engine (op : EngineOp)
  | save (faults : SaveFaults)

def start (config : FullConfig) (hasPenaltyStore : Bool) : Deployment where
  engine := .newEngine config hasPenaltyStore .empty
  store := .empty

def save (d : Deployment) (now : ℤ) (faults : SaveFaults) : Except GoError Unit × Deployment :=
  let (result,store) := d.engine.saveToStore now faults d.store
  (result,{ d with store := store })

def exec (d : Deployment) (now : ℕ → ℤ) : Call → Deployment
  | .engine op => { d with engine := d.engine.exec now op }
  | .save faults => (d.save (now 0) faults).2

def run (d : Deployment) (calls : List (Call × (ℕ → ℤ))) : Deployment :=
  calls.foldl (fun d c => d.exec c.2 c.1) d

/-- The store has the data of the registered providers and no other. -/
def Synchronised (d : Deployment) : Prop :=
  ∀ data, data ∈ d.store.getAllScores ↔ ∃ ps ∈ d.engine.scores.getAll, data = ps.toStoreData

/-- Nobody is stored who is not registered, and nobody is registered whom the store skips. -/
def Complete (d : Deployment) : Prop :=
  d.engine.scores.get "" = none ∧
    ∀ name, d.engine.scores.get name = none → d.store.scores.get name = none

variable {d : Deployment}

theorem scores_none_of_ok {now : ℤ} {faults : SaveFaults} (h : (d.save now faults).1 = .ok ()) :
    faults.scores = none := by
  cases hfaults : faults.scores with
  | none => rfl
  | some err => simp [save,FullEngine.saveToStore,hfaults] at h

theorem nameless_exec (h : d.store.scores.get "" = none) (now : ℕ → ℤ) (c : Call) :
    (d.exec now c).store.scores.get "" = none := by
  cases c with
  | engine op => exact h
  | save faults =>
    cases hfaults : faults.scores with
    | none =>
      have hget := d.engine.get_save d.store (now 0) hfaults ""
      rw [if_neg (by simp),h] at hget
      exact hget
    | some err =>
      have hsame : (d.exec now (.save faults)).store = d.store := by
        simp [exec,save,FullEngine.saveToStore,hfaults]
      rw [hsame]
      exact h

theorem nameless_run (config : FullConfig) (hasPenaltyStore : Bool)
    (calls : List (Call × (ℕ → ℤ))) :
    ((start config hasPenaltyStore).run calls).store.scores.get "" = none := by
  apply foldl_invariant (I := fun d : Deployment => d.store.scores.get "" = none)
  · exact KeyedMap.get_empty ""
  · intro before c after _ h
    exact nameless_exec h c.2 c.1

theorem get_save_of_complete (hnameless : d.store.scores.get "" = none) (now : ℤ)
    {faults : SaveFaults} (hfaults : faults.scores = none) (h : d.Complete) (name : String) :
    (d.save now faults).2.store.scores.get name =
      (d.engine.scores.get name).map ScoreRecord.toStoreData := by
  have hget := d.engine.get_save d.store now hfaults name
  by_cases hname : name = ""
  · subst hname
    rw [if_neg (by simp),hnameless] at hget
    rw [h.1]
    exact hget
  · rw [if_pos hname] at hget
    cases hengine : d.engine.scores.get name with
    | none =>
      rw [hengine,h.2 name hengine] at hget
      exact hget
    | some ps =>
      rw [hengine] at hget
      exact hget

theorem synchronised_of_complete (hnameless : d.store.scores.get "" = none) {now : ℤ}
    {faults : SaveFaults} (hfaults : faults.scores = none) (h : d.Complete) :
    (d.save now faults).2.Synchronised := by
  intro data
  have hget := get_save_of_complete hnameless now hfaults h data.name
  have hmem : data ∈ (d.save now faults).2.store.getAllScores ↔
      (d.engine.scores.get data.name).map ScoreRecord.toStoreData = some data := by
    rw [← hget]
    exact KeyedMap.mem_getAll
  rw [hmem,Option.map_eq_some_iff]
  constructor
  · rintro ⟨ps,hps,rfl⟩
    exact ⟨ps,KeyedMap.mem_getAll.mpr hps,rfl⟩
  · rintro ⟨ps,hps,rfl⟩
    exact ⟨ps,KeyedMap.mem_getAll.mp hps,rfl⟩

/-- Who is unregistered and stored stays stored. -/
theorem complete_of_synchronised (hnameless : d.store.scores.get "" = none) {now : ℤ}
    {faults : SaveFaults} (hfaults : faults.scores = none)
    (h : (d.save now faults).2.Synchronised) : d.Complete := by
  have hget := d.engine.get_save d.store now hfaults
  constructor
  · by_contra hsome
    obtain ⟨ps,hps⟩ := Option.ne_none_iff_exists'.mp hsome
    have hname : ps.name = "" := KeyedMap.key_of_get hps
    have hmem : ps ∈ d.engine.scores.getAll := by
      rw [KeyedMap.mem_getAll,hname]
      exact hps
    have hstored := KeyedMap.mem_getAll.mp ((h ps.toStoreData).mpr ⟨ps,hmem,rfl⟩)
    have hnone := hget ps.toStoreData.name
    rw [if_neg (by simp [ScoreRecord.toStoreData,hname]),
      show ps.toStoreData.name = "" from hname,hnameless] at hnone
    rw [show ps.toStoreData.name = "" from hname] at hstored
    exact absurd (hstored.symm.trans hnone) (by simp)
  · intro name hengine
    by_contra hsome
    obtain ⟨data,hdata⟩ := Option.ne_none_iff_exists'.mp hsome
    have hname : data.name = name := KeyedMap.key_of_get hdata
    have hne : name ≠ "" := by
      rintro rfl
      exact hsome hnameless
    have hkept := hget name
    rw [if_pos hne,hengine,hdata] at hkept
    have hmem : data ∈ (d.save now faults).2.store.getAllScores := by
      refine KeyedMap.mem_getAll.mpr ?_
      rw [hname]
      exact hkept
    obtain ⟨ps,hps,rfl⟩ := (h data).mp hmem
    rw [← hname] at hengine
    exact absurd (hengine.symm.trans (KeyedMap.mem_getAll.mp hps)) (by simp)

/-- A save that returns nil leaves exactly the registered providers in the store if and only if
nobody is stored already who is not registered any more, and nobody is registered without a name.
Then a later engine on that store knows exactly the registered providers. -/
theorem save_synchronises_iff (config : FullConfig) (hasPenaltyStore : Bool)
    (calls : List (Call × (ℕ → ℤ))) (now : ℤ) (faults : SaveFaults)
    (hok : (((start config hasPenaltyStore).run calls).save now faults).1 = .ok ()) :
    ((((start config hasPenaltyStore).run calls).save now faults).2.Synchronised ↔
      ((start config hasPenaltyStore).run calls).Complete) ∧
    (((start config hasPenaltyStore).run calls).Complete →
      ∀ (later : FullConfig) (laterPenaltyStore : Bool) (name : String),
        ((FullEngine.newEngine later laterPenaltyStore
          (((start config hasPenaltyStore).run calls).save now faults).2.store).scores.get
            name).isSome =
          (((start config hasPenaltyStore).run calls).engine.scores.get name).isSome) := by
  have hnameless := nameless_run config hasPenaltyStore calls
  have hfaults := scores_none_of_ok hok
  refine ⟨⟨complete_of_synchronised hnameless hfaults,synchronised_of_complete hnameless hfaults⟩,
    ?_⟩
  intro hcomplete later laterPenaltyStore name
  rw [FullEngine.newEngine,FullEngine.get_load,get_save_of_complete hnameless _ hfaults hcomplete]
  by_cases hname : name = ""
  · subst hname
    simp [hcomplete.1,FullEngine.new]
  · simp [hname,FullEngine.new]

def exampleConfig : FullConfig := ⟨defaultScoringConfig,50⟩

/-- A save between two registrations, and a failure after it. -/
def registeredAroundSave : List (Call × (ℕ → ℤ)) :=
  [(.engine (.register "a" 1),fun _ => 1),(.engine (.register "b" 2),fun _ => 1),
    (.save {},fun _ => 2),(.engine (.register "c" 3),fun _ => 3),
    (.engine (.record { type := .operationFailed, provider := "a", timestamp := 4 }),fun _ => 4)]

theorem save_synchronises_registered :
    let d := (start exampleConfig false).run registeredAroundSave
    d.store.getAllScores.map (·.name) = ["a","b"] ∧ (d.save 5 {}).1 = .ok () ∧
      (d.save 5 {}).2.Synchronised := by
  intro d
  refine ⟨by decide +kernel,rfl,
    (save_synchronises_iff exampleConfig false registeredAroundSave 5 {} rfl).1.mpr ⟨?_,?_⟩⟩
  · decide +kernel
  · have hstored : ∀ data ∈ d.store.getAllScores,
        (d.engine.scores.get data.name).isSome = true := by decide +kernel
    intro name hnone
    by_contra hsome
    obtain ⟨data,hdata⟩ := Option.ne_none_iff_exists'.mp hsome
    have hname : data.name = name := KeyedMap.key_of_get hdata
    have hmem : data ∈ d.store.getAllScores := KeyedMap.mem_getAll.mpr (hname.symm ▸ hdata)
    have hknown := hstored data hmem
    rw [hname,hnone] at hknown
    cases hknown

/-- A provider that is unregistered after a save stays in the store and comes back. -/
def unregisteredAfterSave : List (Call × (ℕ → ℤ)) :=
  [(.engine (.register "a" 1),fun _ => 1),(.save {},fun _ => 2),
    (.engine (.unregister "a"),fun _ => 3)]

theorem not_synchronised_unregistered :
    (((start exampleConfig false).run unregisteredAfterSave).save 4 {}).1 = .ok () ∧
      ((start exampleConfig false).run unregisteredAfterSave).engine.scores.get "a" = none ∧
      ¬(((start exampleConfig false).run unregisteredAfterSave).save 4 {}).2.Synchronised ∧
      ((FullEngine.newEngine exampleConfig false
        (((start exampleConfig false).run unregisteredAfterSave).save 4 {}).2.store).scores.get
          "a").isSome = true := by
  have hnameless := nameless_run exampleConfig false unregisteredAfterSave
  have hgone : (((start exampleConfig false).run unregisteredAfterSave).engine.scores.get
      "a").isNone = true := by decide +kernel
  refine ⟨rfl,Option.isNone_iff_eq_none.mp hgone,?_,by decide +kernel⟩
  intro h
  have hcomplete := complete_of_synchronised hnameless rfl h
  have hstored : (((start exampleConfig false).run unregisteredAfterSave).store.scores.get
      "a").isSome = true := by decide +kernel
  rw [hcomplete.2 "a" (Option.isNone_iff_eq_none.mp hgone)] at hstored
  cases hstored

end Deployment

namespace Reload

/-- What happens to the engines on a store that nobody writes. -/
inductive Op
  | newEngine
  | load
  | register (name : String)

section
variable (config : FullConfig) (hasPenaltyStore : Bool) (m : MemoryStore) (priority : String → ℤ)

def exec (e : FullEngine) (now : ℤ) : Op → FullEngine
  | .newEngine => .newEngine config hasPenaltyStore m
  | .load => (e.loadFromStore m.reply).2
  | .register name => e.registerProvider now name (priority name)

def run (ops : List (Op × ℤ)) : FullEngine :=
  ops.foldl (fun e op => exec config hasPenaltyStore m priority e op.2 op.1)
    (.newEngine config hasPenaltyStore m)

/-- The entry of the store that a load takes for a name. -/
def entry (name : String) : Option ScoreData := if name ≠ "" then m.scores.get name else none

/-- The priority and the base score of a name: those of its entry, or else of its registration. -/
def origin (name : String) : ℤ × ℚ :=
  match entry m name with
  | some data => (0,data.fields.baseScore)
  | none => (priority name,baseScore (priority name))

def Original (e : FullEngine) : Prop :=
  ∀ name ps, e.scores.get name = some ps → (ps.priority,ps.baseScore) = origin m priority name

variable {m priority} {e : FullEngine}

theorem get_load_entry (name : String) : (e.loadFromStore m.reply).2.scores.get name =
    ((entry m name).map (ScoreRecord.fromStoreData e.config.latencyWindowSize
      e.config.penaltyHistorySize)).or (e.scores.get name) := by
  rw [FullEngine.get_load,entry]
  split_ifs <;> simp

/-- Every score comes from its origin, and whoever is stored is in memory. -/
structure Settled (m : MemoryStore) (priority : String → ℤ) (e : FullEngine) : Prop where
  original : Original m priority e
  loaded : ∀ name, (entry m name).isSome = true → (e.scores.get name).isSome = true

theorem settled_load (h : Original m priority e) :
    Settled m priority (e.loadFromStore m.reply).2 := by
  constructor
  · intro name ps hps
    rw [get_load_entry] at hps
    cases hentry : entry m name with
    | none =>
      rw [hentry] at hps
      exact h name ps hps
    | some data =>
      rw [hentry] at hps
      cases hps
      simp [origin,hentry,ScoreRecord.fromStoreData]
  · intro name hname
    rw [get_load_entry,Option.isSome_or,Option.isSome_map,hname,Bool.true_or]

theorem isSome_register (now : ℤ) (name : String) (p : ℤ) (other : String) :
    ((e.registerProvider now name p).scores.get other).isSome = true ↔
      other = name ∨ (e.scores.get other).isSome = true := by
  rw [FullEngine.get_registerProvider]
  split_ifs with hother
  · simp [hother]
  · simp [hother]

/-- A registration counts only for a name that is not stored. -/
theorem settled_register (h : Settled m priority e) (now : ℤ) (name : String) :
    Settled m priority (e.registerProvider now name (priority name)) := by
  constructor
  · intro other ps hps
    rw [FullEngine.get_registerProvider] at hps
    split_ifs at hps with hother
    · subst hother
      cases hget : e.scores.get other with
      | some ps' =>
        rw [hget] at hps
        cases hps
        exact h.original other _ hget
      | none =>
        have hentry : entry m other = none := by
          by_contra hsome
          have hknown := h.loaded other (Option.isSome_iff_ne_none.mpr hsome)
          rw [hget] at hknown
          cases hknown
        rw [hget] at hps
        cases hps
        rw [origin,hentry]
        rfl
    · exact h.original other ps hps
  · intro other hother
    exact (isSome_register now name _ other).mpr (.inr (h.loaded other hother))

theorem settled_newEngine : Settled m priority (.newEngine config hasPenaltyStore m) := by
  apply settled_load
  intro name ps hps
  rw [FullEngine.new,KeyedMap.get_empty] at hps
  cases hps

theorem settled_exec (h : Settled m priority e) (now : ℤ) (op : Op) :
    Settled m priority (exec config hasPenaltyStore m priority e now op) := by
  cases op with
  | newEngine => exact settled_newEngine config hasPenaltyStore
  | load => exact settled_load h.original
  | register name => exact settled_register h now name

theorem settled_run (ops : List (Op × ℤ)) :
    Settled m priority (run config hasPenaltyStore m priority ops) := by
  apply foldl_invariant (settled_newEngine config hasPenaltyStore)
  intro before op after _ h
  exact settled_exec config hasPenaltyStore h op.2 op.1

theorem registered_run {ops : List (Op × ℤ)} (hops : ∀ op ∈ ops, ∃ name, op.1 = .register name)
    {name : String} (h : (e.scores.get name).isSome = true) :
    ((ops.foldl (fun e op => exec config hasPenaltyStore m priority e op.2 op.1) e).scores.get
      name).isSome = true := by
  apply foldl_invariant (I := fun e : FullEngine => (e.scores.get name).isSome = true) h
  rintro before op after rfl hbefore
  obtain ⟨other,hop⟩ := hops op (by simp)
  rw [hop]
  exact (isSome_register op.2 other _ name).mpr (.inr hbefore)

theorem baseScore_eq_max (p : ℤ) : baseScore p = max 10 (110-10*(p : ℚ)) := by
  unfold baseScore
  simp only
  split_ifs with hlow
  · rw [max_eq_left (by linarith)]
  · rw [max_eq_right (by linarith)]
    ring

/-- After a registration that follows the last load, the configured priority and its base score
are reported if and only if no load took an entry for the name, or the priority is zero and its
base score is the stored one. -/
theorem priority_reported_iff (config : FullConfig) (hasPenaltyStore : Bool) (m : MemoryStore)
    (priority : String → ℤ) (before after : List (Op × ℤ)) (name : String) (now : ℤ)
    (hafter : ∀ op ∈ after, ∃ other, op.1 = .register other) :
    (∃ stats, (run config hasPenaltyStore m priority
        (before ++ (.register name,now) :: after)).getProviderStats name = some stats ∧
        stats.priority = priority name ∧ stats.baseScore = max 10 (110-10*(priority name : ℚ))) ↔
      entry m name = none ∨
        ∃ data, entry m name = some data ∧ priority name = 0 ∧ data.fields.baseScore = 110 := by
  have hsettled : Settled m priority (run config hasPenaltyStore m priority
      (before ++ (.register name,now) :: after)) := settled_run config hasPenaltyStore _
  have hknown : ((run config hasPenaltyStore m priority
      (before ++ (.register name,now) :: after)).scores.get name).isSome = true := by
    rw [run,List.foldl_append,List.foldl_cons]
    exact registered_run config hasPenaltyStore hafter
      ((isSome_register now name _ name).mpr (.inl rfl))
  obtain ⟨ps,hps⟩ := Option.isSome_iff_exists.mp hknown
  have horigin := hsettled.original name ps hps
  have hstats : (∃ stats, (run config hasPenaltyStore m priority
      (before ++ (.register name,now) :: after)).getProviderStats name = some stats ∧
      stats.priority = priority name ∧ stats.baseScore = max 10 (110-10*(priority name : ℚ))) ↔
        (ps.priority,ps.baseScore) = (priority name,baseScore (priority name)) := by
    simp [FullEngine.getProviderStats,hps,ScoreRecord.getStats,baseScore_eq_max]
  rw [hstats,horigin,origin]
  cases hentry : entry m name with
  | none => simp
  | some data =>
    simp only [Prod.mk.injEq,reduceCtorEq,Option.some.injEq,exists_eq_left',false_or]
    constructor
    · rintro ⟨hzero,hbase⟩
      refine ⟨hzero.symm,?_⟩
      rw [hbase,← hzero]
      decide +kernel
    · rintro ⟨hzero,hbase⟩
      rw [hzero,hbase]
      exact ⟨rfl,by decide +kernel⟩

def exampleStore : MemoryStore where
  scores := KeyedMap.empty.set
    { name := "a"
      fields :=
        { baseScore := 90, healthPenalty := 0, latencyPenalty := 0, errorPenalty := 0
          rateLimitPenalty := 0, totalOperations := 0, successfulOps := 0, failedOps := 0
          lastUpdated := 0, lastHealthCheck := 0, lastOperation := 0, recentLatencies := [] } }
  latency := none

theorem priority_reported_unstored :
    entry exampleStore "b" = none ∧ ∃ stats,
      (run Deployment.exampleConfig false exampleStore (fun _ => 1)
        ([] ++ (.register "b",0) :: [])).getProviderStats "b" = some stats ∧
        stats.priority = 1 ∧ stats.baseScore = max 10 (110-10*((1 : ℤ) : ℚ)) := by
  have hentry : (entry exampleStore "b").isNone = true := by decide +kernel
  rw [Option.isNone_iff_eq_none] at hentry
  exact ⟨hentry,(priority_reported_iff Deployment.exampleConfig false exampleStore (fun _ => 1)
    [] [] "b" 0 (by simp)).mpr (.inl hentry)⟩

/-- The first priority does not take effect over the entry of an earlier run: the provider keeps
its old base score, and its priority is reported as zero. -/
theorem priority_not_reported_stored :
    ((run Deployment.exampleConfig false exampleStore (fun _ => 1)
      [(.register "a",0)]).getProviderStats "a").map
        (fun stats => (stats.priority,stats.baseScore)) = some (0,90) ∧
    (max 10 (110-10*((1 : ℤ) : ℚ)) : ℚ) = 100 := by
  constructor <;> decide +kernel

end

end Reload
end ChainKit
