import ChainKit.Scoring.State

/-! The penalty history of a provider over the life of an engine: every penalty goes into the
ring at once and into the penalty store by a goroutine, and `Start` puts what the store has behind
what the ring has. -/
namespace ChainKit
open Lib

abbrev PenaltyRow := Store.PenaltyRecordData Recorded

def PenaltyRecord.ofRow (r : PenaltyRow) : PenaltyRecord := ⟨r.createdAt,r.fields,0⟩

/-- The loop of `warmPenaltyHistory` for one score. -/
def ScoreRecord.warm (ps : ScoreRecord) : Except GoError (List PenaltyRow) → ScoreRecord
  | .error _ => ps
  | .ok records => { ps with history := ps.history.addAll (records.map PenaltyRecord.ofRow) }

/-- `warmPenaltyHistory`, where `answers` are those of `GetRecent`. -/
def FullEngine.warmPenaltyHistory (e : FullEngine)
    (answers : String → Except GoError (List PenaltyRow)) : FullEngine :=
  if e.hasPenaltyStore then
    { e with scores := e.scores.modifyAll fun ps => ps.warm (answers ps.name) }
  else e

namespace Warming

/-- The engine, whether it is started, the rows of its penalty store, and the last reading of the
clock. -/
structure State where
  engine : FullEngine
  started : Bool
  rows : List PenaltyRow
  clock : ℤ

/-- What can happen: a call or a decay, `Start` with the answers of the store, `Stop`, the first
goroutine that has not appended its row does so, and old rows are purged. -/
inductive Act
  | op (op : EngineOp)
  | start (answers : String → Except GoError (List PenaltyRow))
  | stop
  | append
  | purge (cutoff : ℤ)

namespace State

def start (s : State) (answers : String → Except GoError (List PenaltyRow)) : State :=
  if s.started then s
  else { s with started := true, engine := s.engine.warmPenaltyHistory answers }

/-- The appends complete in the order of the penalties. -/
def append (s : State) : State :=
  match s.engine.appends with
  | [] => s
  | r :: rest => { s with engine := { s.engine with appends := rest }, rows := s.rows ++ [r] }

def step (s : State) (a : Act × (ℕ → ℤ)) : State :=
  let s := { s with clock := a.2 4 }
  match a.1 with
  | .op op => { s with engine := s.engine.exec a.2 op }
  | .start answers => s.start answers
  | .stop => { s with started := false }
  | .append => s.append
  | .purge cutoff => { s with rows := s.rows.filter fun r => cutoff ≤ r.createdAt }

def run (s : State) (acts : List (Act × (ℕ → ℤ))) : State := acts.foldl step s

def rowsOf (s : State) (name : String) : List PenaltyRow :=
  s.rows.filter (·.providerName = name)

/-- The clock does not go back, and no event is from the future. -/
structure Timed (s : State) (a : Act × (ℕ → ℤ)) : Prop where
  started : s.clock ≤ a.2 0
  ascending : ∀ i, a.2 i ≤ a.2 (i+1)
  past : ∀ event, a.1 = .op (.record event) → event.timestamp ≤ a.2 2

/-- The store answers with the most recent rows, oldest first, or with an error. -/
def Answered (s : State) (a : Act × (ℕ → ℤ)) : Prop :=
  ∀ answers, a.1 = .start answers → ∀ name records, answers name = .ok records →
    IsRecent Store.PenaltyRecordData.createdAt s.engine.config.penaltyHistorySize.toNat
      (s.rowsOf name) records

/-- A start that warms the rings finds each of them empty, or gets nothing for it, or gets so many
rows that nothing else is left in it. -/
def Replaces (s : State) (a : Act × (ℕ → ℤ)) : Prop :=
  ∀ answers, a.1 = .start answers → s.started = false → ∀ name, ∀ ps ∈ s.engine.scores.get name,
    ∀ records, answers name = .ok records →
      ps.history.snapshot = [] ∨ records = [] ∨ ps.history.size ≤ records.length

end State

/-- Records in the order of their times, each of another penalty, and none that is yet to come. -/
structure Neat (clock : ℤ) (recorded : ℕ) (l : List PenaltyRecord) : Prop where
  chronological : Chronological PenaltyRecord.timestamp l
  distinct : (l.map fun r => r.penalty.serial).Nodup
  past : ∀ r ∈ l, r.timestamp ≤ clock ∧ r.penalty.serial < recorded

section
variable {clock clock' : ℤ} {recorded recorded' : ℕ} {l l' : List PenaltyRecord}

theorem neat_nil : Neat clock recorded [] := ⟨List.Pairwise.nil,List.nodup_nil,by simp⟩

theorem Neat.sublist (h : Neat clock recorded l) (hsub : l'.Sublist l) : Neat clock recorded l' :=
  ⟨h.chronological.sublist hsub,h.distinct.sublist (hsub.map _),
    fun r hr => h.past r (hsub.subset hr)⟩

theorem Neat.mono (h : Neat clock recorded l) (hclock : clock ≤ clock')
    (hrecorded : recorded ≤ recorded') : Neat clock' recorded' l := by
  refine ⟨h.chronological,h.distinct,?_⟩
  intro r hr
  obtain ⟨htime,hserial⟩ := h.past r hr
  exact ⟨htime.trans hclock,hserial.trans_le hrecorded⟩

theorem Neat.concat (h : Neat clock recorded l) {r : PenaltyRecord} (htime : clock ≤ r.timestamp)
    (hserial : r.penalty.serial = recorded) : Neat r.timestamp (recorded+1) (l ++ [r]) := by
  refine ⟨chronological_concat h.chronological fun q hq => (h.past q hq).1.trans htime,?_,?_⟩
  · rw [List.map_append,List.nodup_append]
    refine ⟨h.distinct,by simp,?_⟩
    rintro serial hmem _ hnew rfl
    obtain ⟨q,hq,rfl⟩ := List.mem_map.mp hmem
    have hold := (h.past q hq).2
    simp only [List.map_cons,List.map_nil,List.mem_singleton,hserial] at hnew
    omega
  · intro q hq
    rcases List.mem_append.mp hq with hq | hq
    · obtain ⟨hqtime,hqserial⟩ := h.past q hq
      exact ⟨hqtime.trans htime,by omega⟩
    · rw [List.mem_singleton.mp hq]
      exact ⟨le_rfl,by omega⟩

end

/-- The rings are neat, and so are the rows that are stored or are going to be. -/
structure Tidy (clock : ℤ) (rows : List PenaltyRow) (e : FullEngine) : Prop where
  rings : ∀ name, ∀ ps ∈ e.scores.get name, Neat clock e.recorded ps.history.snapshot
  distinct : ((rows ++ e.appends).map fun r => r.fields.serial).Nodup
  past : ∀ r ∈ rows ++ e.appends, r.createdAt ≤ clock ∧ r.fields.serial < e.recorded

namespace Tidy
variable {clock clock' : ℤ} {rows : List PenaltyRow} {e : FullEngine}

theorem mono (h : Tidy clock rows e) (hclock : clock ≤ clock') : Tidy clock' rows e := by
  refine ⟨?_,h.distinct,?_⟩
  · intro name ps hps
    exact (h.rings name ps hps).mono hclock le_rfl
  · intro r hr
    obtain ⟨htime,hserial⟩ := h.past r hr
    exact ⟨htime.trans hclock,hserial⟩

theorem mem_updateScore {name other : String} {f : ScoreRecord → ScoreRecord} {ps : ScoreRecord}
    (hname : ∀ ps, (f ps).name = ps.name) (h : ps ∈ (e.updateScore name f).scores.get other) :
    ∃ old ∈ e.scores.get other, ps = old ∨ ps = f old := by
  simp only [FullEngine.updateScore,KeyedMap.get_modify _ _ hname] at h
  by_cases hother : other = name
  · subst hother
    simp only [Function.update_self,Option.mem_def,Option.map_eq_some_iff] at h
    obtain ⟨old,hold,rfl⟩ := h
    exact ⟨old,hold,.inr rfl⟩
  · simp only [Function.update_of_ne hother] at h
    exact ⟨ps,h,.inl rfl⟩

theorem of_updateScore (h : Tidy clock rows e) (name : String) {f : ScoreRecord → ScoreRecord}
    (hname : ∀ ps, (f ps).name = ps.name)
    (hf : ∀ ps, Neat clock e.recorded ps.history.snapshot →
      Neat clock e.recorded (f ps).history.snapshot) : Tidy clock rows (e.updateScore name f) := by
  refine ⟨?_,h.distinct,h.past⟩
  intro other ps hps
  obtain ⟨old,hold,rfl | rfl⟩ := mem_updateScore hname hps
  · exact h.rings other ps hold
  · exact hf old (h.rings other old hold)

/-- What a score does with a penalty: its ring stays as it is, or gets the record. -/
def Notes (r : PenaltyRecord) (f : ScoreRecord → ScoreRecord) : Prop :=
  ∀ ps, (f ps).name = ps.name ∧
    ((f ps).history = ps.history ∨ (f ps).history = ps.history.add r)

theorem record (h : Tidy clock rows e) {r : PenaltyRecord} (hserial : r.penalty.serial = e.recorded)
    (htime : clock ≤ r.timestamp) {f : ScoreRecord → ScoreRecord} (hf : Notes r f)
    (name : String) :
    Tidy r.timestamp rows ({ e with recorded := e.recorded+1 }.updateScore name f) := by
  have hnext : ∀ ps : ScoreRecord, Neat clock e.recorded ps.history.snapshot →
      Neat r.timestamp (e.recorded+1) (f ps).history.snapshot := by
    intro ps hps
    rcases (hf ps).2 with hsame | hadd
    · rw [hsame]
      exact hps.mono htime (Nat.le_succ _)
    · rw [hadd,RingBuffer.snapshot_add]
      exact (hps.concat htime hserial).sublist (newest_sublist _ _)
  refine ⟨?_,h.distinct,?_⟩
  · intro other ps hps
    obtain ⟨old,hold,rfl | rfl⟩ := mem_updateScore (fun ps => (hf ps).1) hps
    · exact (h.rings other ps hold).mono htime (Nat.le_succ _)
    · exact hnext old (h.rings other old hold)
  · intro q hq
    obtain ⟨hqtime,hqserial⟩ := h.past q hq
    exact ⟨hqtime.trans htime,hqserial.trans (Nat.lt_succ_self _)⟩

theorem persist (h : Tidy clock rows e) {r : Recorded} {ts : ℤ} (hts : ts ≤ clock)
    (hrecorded : r.serial < e.recorded)
    (hfresh : ∀ q ∈ rows ++ e.appends, q.fields.serial < r.serial) (name : String) :
    Tidy clock rows (e.persistPenalty name r ts) := by
  unfold FullEngine.persistPenalty
  split_ifs
  · refine ⟨h.rings,?_,?_⟩
    · simp only [← List.append_assoc]
      rw [List.map_append,List.nodup_append]
      refine ⟨h.distinct,by simp,?_⟩
      rintro serial hmem _ hnew rfl
      obtain ⟨q,hq,rfl⟩ := List.mem_map.mp hmem
      have hlt := hfresh q hq
      simp only [List.map_cons,List.map_nil,List.mem_singleton] at hnew
      omega
    · intro q hq
      simp only [← List.append_assoc] at hq
      rcases List.mem_append.mp hq with hq | hq
      · exact h.past q hq
      · rw [List.mem_singleton.mp hq]
        exact ⟨hts,hrecorded⟩
  · exact h

theorem notes_addPenalty (maxPenalty : ℚ) (now : ℤ) (r : Recorded) :
    Notes ⟨now,r,0⟩ (·.addPenalty maxPenalty now r) := by
  intro ps
  refine ⟨FullEngine.name_addPenalty ps maxPenalty now r,?_⟩
  unfold ScoreRecord.addPenalty
  split
  · exact .inr rfl
  · exact .inr rfl
  · exact .inr rfl
  · exact .inl rfl

theorem notes_updateLatencyPenalty (slownessFactor penaltyPerStdDev : ℚ) (now : ℤ) (r : Recorded) :
    Notes ⟨now,r,0⟩ (·.updateLatencyPenalty slownessFactor penaltyPerStdDev now r) := by
  intro ps
  refine ⟨FullEngine.name_updateLatencyPenalty ps _ _ now r,?_⟩
  unfold ScoreRecord.updateLatencyPenalty
  simp only
  split_ifs
  · exact .inr rfl
  · exact .inl rfl

theorem penalize (h : Tidy clock rows e) {now ts : ℤ} (hnow : clock ≤ now) (hts : ts ≤ now)
    (name : String) (p : Penalty) : Tidy now rows (e.penalize name p now ts) := by
  have hrecord := h.record (r := ⟨now,⟨p,e.recorded⟩,0⟩) rfl hnow
    (notes_addPenalty e.config.maxPenalty now ⟨p,e.recorded⟩) name
  exact hrecord.persist hts (Nat.lt_succ_self _) (fun q hq => (h.past q hq).2) name

theorem setLatencyPenalty (h : Tidy clock rows e) {now : ℕ → ℤ} (hnow : clock ≤ now 0)
    (hnext : now 0 ≤ now 1) (name : String) (slownessFactor : ℚ) (reason : String) :
    Tidy (now 1) rows (e.setLatencyPenalty now name slownessFactor reason) := by
  unfold FullEngine.setLatencyPenalty
  simp only
  have hrecord := (h.record (r := ⟨now 0,⟨⟨.latency,reason,
    slownessFactor*e.config.slowResponsePenalty,fun _ => none⟩,e.recorded⟩,0⟩) rfl hnow
    (notes_updateLatencyPenalty slownessFactor e.config.slowResponsePenalty (now 0) _) name).mono
      hnext
  split_ifs
  · exact hrecord.persist le_rfl (Nat.lt_succ_self _) (fun q hq => (h.past q hq).2) name
  · exact hrecord

theorem setTracker (h : Tidy clock rows e) (tracker : CachedTracker) :
    Tidy clock rows { e with latencyTracker := tracker } := ⟨h.rings,h.distinct,h.past⟩

theorem recordLatency (h : Tidy clock rows e) {now : ℕ → ℤ} (hnow : clock ≤ now 0)
    (hnext : now 0 ≤ now 1) (name : String) (responseTime : ℤ) :
    Tidy (now 1) rows (e.recordLatency now name responseTime) := by
  have hscore := (h.setTracker (e.latencyTracker.recordLatency name responseTime)).of_updateScore
    name (f := (·.recordLatency responseTime)) (fun _ => rfl) (fun _ hps => hps)
  unfold FullEngine.recordLatency FullEngine.updateLatencyPenalty
  simp only
  split_ifs
  · exact (hscore.setTracker _).mono (hnow.trans hnext)
  · exact ((hscore.setTracker _).setTracker _).setLatencyPenalty hnow hnext name _ _
  · exact ((hscore.setTracker _).setTracker _).setLatencyPenalty hnow hnext name _ _

theorem applyEvent (h : Tidy clock rows e) {now : ℕ → ℤ} (hnow : clock ≤ now 1)
    (hascending : ∀ i, now i ≤ now (i+1)) {event : ScoreEvent}
    (hpast : event.timestamp ≤ now 2) : Tidy (now 3) rows (e.applyEvent now event) := by
  have h3 : clock ≤ now 3 := (hnow.trans (hascending 1)).trans (hascending 2)
  have hts : (if event.timestamp = 0 then now 2 else event.timestamp) ≤ now 3 := by
    split_ifs
    · exact hascending 2
    · exact hpast.trans (hascending 2)
  unfold FullEngine.applyEvent
  cases eventPenalty e.config.toScoringConfig event with
  | some p => exact h.penalize h3 hts event.provider p
  | none =>
    simp only
    split_ifs
    · exact (h.of_updateScore event.provider
        (f := (·.recordSuccess e.config.successBonus (now 3) (now 4)))
        (fun _ => rfl) (fun _ hps => hps)).mono h3
    · exact h.mono h3

theorem recordEvent (h : Tidy clock rows e) {now : ℕ → ℤ} (hnow : clock ≤ now 0)
    (hascending : ∀ i, now i ≤ now (i+1)) {event : ScoreEvent}
    (hpast : event.timestamp ≤ now 2) : Tidy (now 4) rows (e.recordEvent now event) := by
  have h1 : clock ≤ now 1 := hnow.trans (hascending 0)
  unfold FullEngine.recordEvent
  split_ifs
  · exact ((h.recordLatency hnow (hascending 0) event.provider event.responseTime).applyEvent le_rfl
      hascending hpast).mono (hascending 3)
  · exact (h.applyEvent h1 hascending hpast).mono (hascending 3)
  · exact h.mono (((h1.trans (hascending 1)).trans (hascending 2)).trans (hascending 3))

theorem modifyAll (h : Tidy clock rows e) {f : ScoreRecord → ScoreRecord}
    (hname : ∀ ps, (f ps).name = ps.name)
    (hf : ∀ name, ∀ ps ∈ e.scores.get name, Neat clock e.recorded (f ps).history.snapshot) :
    Tidy clock rows { e with scores := e.scores.modifyAll f } := by
  refine ⟨?_,h.distinct,h.past⟩
  intro name ps hps
  simp only [KeyedMap.get_modifyAll _ hname,Option.mem_def,Option.map_eq_some_iff] at hps
  obtain ⟨old,hold,rfl⟩ := hps
  exact hf name old hold

theorem mem_registerProvider {now : ℤ} {name : String} {priority : ℤ} {other : String}
    {ps : ScoreRecord} (h : ps ∈ (e.registerProvider now name priority).scores.get other) :
    ps ∈ e.scores.get other ∨ ps.history.snapshot = [] := by
  rw [FullEngine.get_registerProvider] at h
  split_ifs at h with hother
  · subst hother
    cases hget : e.scores.get other with
    | some old =>
      rw [hget] at h
      exact .inl h
    | none =>
      rw [hget] at h
      cases h
      exact .inr (snapshot_newPenaltyHistory _)
  · exact .inl h

theorem registerProvider (h : Tidy clock rows e) (now : ℤ) (name : String) (priority : ℤ) :
    Tidy clock rows (e.registerProvider now name priority) := by
  have hrings : ∀ other, ∀ ps ∈ (e.registerProvider now name priority).scores.get other,
      Neat clock e.recorded ps.history.snapshot := by
    intro other ps hps
    rcases mem_registerProvider hps with hold | hempty
    · exact h.rings other ps hold
    · rw [hempty]
      exact neat_nil
  unfold FullEngine.registerProvider at hrings ⊢
  split
  · exact h
  · rename_i hnone
    rw [hnone] at hrings
    exact ⟨hrings,h.distinct,h.past⟩

theorem exec (h : Tidy clock rows e) {now : ℕ → ℤ} (hnow : clock ≤ now 0)
    (hascending : ∀ i, now i ≤ now (i+1)) {op : EngineOp}
    (hpast : ∀ event, op = .record event → event.timestamp ≤ now 2) :
    Tidy (now 4) rows (e.exec now op) := by
  have hlast : clock ≤ now 4 := (((hnow.trans (hascending 0)).trans (hascending 1)).trans
    (hascending 2)).trans (hascending 3)
  cases op with
  | register name priority =>
    exact (h.registerProvider (now 0) name priority).mono hlast
  | unregister name =>
    refine mono ⟨?_,h.distinct,h.past⟩ hlast
    intro other ps hps
    simp only [FullEngine.exec,FullEngine.unregisterProvider,KeyedMap.get_delete] at hps
    by_cases hother : other = name
    · subst hother
      simp at hps
    · rw [Function.update_of_ne hother] at hps
      exact h.rings other ps hps
  | record event => exact h.recordEvent hnow hascending (hpast event rfl)
  | decay =>
    exact (h.modifyAll (f := (·.applyDecay e.config.decayRate (now 0))) (fun _ => rfl)
      h.rings).mono hlast
  | reset =>
    refine ((h.modifyAll (f := (·.reset (now 0))) (fun _ => rfl) ?_).setTracker
      e.latencyTracker.reset).mono hlast
    intro name ps _
    rw [ScoreRecord.reset,snapshot_newPenaltyHistory]
    exact neat_nil

theorem neat_answer (h : Tidy clock rows e) {name : String} {k : ℕ} {records : List PenaltyRow}
    (hrecords : IsRecent Store.PenaltyRecordData.createdAt k
      (rows.filter (·.providerName = name)) records) :
    Neat clock e.recorded (records.map PenaltyRecord.ofRow) := by
  obtain ⟨rest,hperm,_⟩ := hrecords.newest
  have hdistinct : (rows.map fun r => r.fields.serial).Nodup := by
    have hall := h.distinct
    rw [List.map_append] at hall
    exact hall.of_append_left
  have hmem : ∀ r ∈ records, r ∈ rows := by
    intro r hr
    exact (List.mem_filter.mp (hperm.subset (List.mem_append_right _ hr))).1
  refine ⟨?_,?_,?_⟩
  · rw [Chronological,List.pairwise_map]
    exact hrecords.chronological
  · have hanswer : ((rest ++ records).map fun r => r.fields.serial).Nodup :=
      (hperm.map _).nodup_iff.mpr (hdistinct.sublist (List.filter_sublist.map _))
    rw [List.map_append] at hanswer
    rw [List.map_map]
    exact hanswer.of_append_right
  · intro r hr
    obtain ⟨q,hq,rfl⟩ := List.mem_map.mp hr
    exact h.past q (List.mem_append_left _ (hmem q hq))

/-- A ring that is empty or is overwritten has only rows of the store afterwards. -/
theorem warm (h : Tidy clock rows e) {answers : String → Except GoError (List PenaltyRow)} {k : ℕ}
    (hanswers : ∀ name records, answers name = .ok records →
      IsRecent Store.PenaltyRecordData.createdAt k (rows.filter (·.providerName = name)) records)
    (hreplaces : ∀ name, ∀ ps ∈ e.scores.get name, ∀ records, answers name = .ok records →
      ps.history.snapshot = [] ∨ records = [] ∨ ps.history.size ≤ records.length) :
    Tidy clock rows (e.warmPenaltyHistory answers) := by
  unfold FullEngine.warmPenaltyHistory
  split_ifs
  · refine h.modifyAll ?_ ?_
    · intro ps
      unfold ScoreRecord.warm
      split <;> rfl
    · intro name ps hps
      have hname : ps.name = name := KeyedMap.key_of_get hps
      rw [hname]
      cases hanswer : answers name with
      | error err => exact h.rings name ps hps
      | ok records =>
        have hneat := h.neat_answer (hanswers name records hanswer)
        simp only [ScoreRecord.warm,RingBuffer.snapshot_addAll]
        rcases hreplaces name ps hps records hanswer with hempty | hnone | hfull
        · rw [hempty,List.nil_append]
          exact hneat.sublist (newest_sublist _ _)
        · rw [hnone,List.map_nil,List.append_nil]
          exact (h.rings name ps hps).sublist (newest_sublist _ _)
        · rw [newest_append_of_le (by rw [List.length_map]; exact hfull)]
          exact hneat.sublist (newest_sublist _ _)
  · exact h

end Tidy

structure State.Allowed (s : State) (a : Act × (ℕ → ℤ)) : Prop where
  timed : s.Timed a
  answered : s.Answered a
  replaces : s.Replaces a

def State.Tidy (s : State) : Prop := Warming.Tidy s.clock s.rows s.engine

namespace State
variable {s : State}

theorem tidy_step (h : s.Tidy) {a : Act × (ℕ → ℤ)} (ha : s.Allowed a) : (s.step a).Tidy := by
  obtain ⟨act,now⟩ := a
  have hascending := ha.timed.ascending
  have hlast : s.clock ≤ now 4 := (((ha.timed.started.trans (hascending 0)).trans
    (hascending 1)).trans (hascending 2)).trans (hascending 3)
  have hlater : Warming.Tidy (now 4) s.rows s.engine := h.mono hlast
  cases act with
  | op op =>
    refine Warming.Tidy.exec h ha.timed.started hascending ?_
    rintro event rfl
    exact ha.timed.past event rfl
  | start answers =>
    simp only [State.Tidy,step,start]
    split_ifs with hstarted
    · exact hlater
    · exact hlater.warm (fun name records => ha.answered answers rfl name records)
        (fun name ps hps records =>
          ha.replaces answers rfl (by simpa using hstarted) name ps hps records)
  | stop => exact hlater
  | append =>
    simp only [State.Tidy,step,append]
    split
    · exact hlater
    · rename_i r rest hrest
      have hsame : s.rows ++ [r] ++ rest = s.rows ++ s.engine.appends := by
        rw [List.append_assoc,List.singleton_append]
        exact congrArg _ hrest.symm
      refine ⟨hlater.rings,?_,?_⟩
      · simp only [hsame]
        exact hlater.distinct
      · simp only [hsame]
        exact hlater.past
  | purge cutoff =>
    have hsub : ((s.rows.filter fun r => cutoff ≤ r.createdAt) ++ s.engine.appends).Sublist
        (s.rows ++ s.engine.appends) := List.filter_sublist.append_right _
    refine ⟨hlater.rings,hlater.distinct.sublist (hsub.map _),?_⟩
    intro r hr
    exact hlater.past r (hsub.subset hr)

/-- An engine without providers, on a penalty store that may have rows of earlier engines. -/
def init (config : FullConfig) (rows : List PenaltyRow) (recorded : ℕ) (clock : ℤ) : State where
  engine := { FullEngine.new config true with recorded := recorded }
  started := false
  rows := rows
  clock := clock

theorem tidy_init (config : FullConfig) {rows : List PenaltyRow} {recorded : ℕ} {clock : ℤ}
    (hdistinct : (rows.map fun r => r.fields.serial).Nodup)
    (hpast : ∀ r ∈ rows, r.createdAt ≤ clock ∧ r.fields.serial < recorded) :
    (init config rows recorded clock).Tidy := by
  refine ⟨?_,?_,?_⟩
  · intro name ps hps
    simp [init,FullEngine.new] at hps
  · simpa [init,FullEngine.new] using hdistinct
  · simpa [init,FullEngine.new] using hpast

theorem tidy_run (h : s.Tidy) {acts : List (Act × (ℕ → ℤ))}
    (hacts : ∀ before a after, acts = before ++ a :: after → (s.run before).Allowed a) :
    (s.run acts).Tidy := by
  refine foldl_invariant (I := State.Tidy) h ?_
  intro before a after hsplit hbefore
  exact tidy_step hbefore (hacts before a after hsplit)

end State

/-- A query of a neat ring shows the newest records first, and each penalty once. -/
theorem neat_getPenaltyHistory {s : State} (h : s.Tidy) {pow : ℚ → ℚ → ℚ} {now : ℤ}
    {name : String} {q : HistoryQuery} {out : List PenaltyRecord}
    (hout : s.engine.getPenaltyHistory pow now name q = some out) :
    out.Pairwise (fun a b => b.timestamp ≤ a.timestamp) ∧
      (out.map fun r => r.penalty.serial).Nodup := by
  obtain ⟨ps,hps,rfl⟩ := Option.map_eq_some_iff.mp hout
  have hneat := h.rings name ps hps
  obtain ⟨l,hsub,hcollect⟩ := q.collect_sublist (fun ts => computeDecayFactor pow now ts
    s.engine.config.decayRate s.engine.config.decayInterval) [] ps.history.snapshot.reverse
  rw [hcollect,List.nil_append,List.pairwise_map,List.map_map]
  constructor
  · exact (List.pairwise_reverse.mpr hneat.chronological).sublist hsub
  · have hreverse : (ps.history.snapshot.reverse.map fun r => r.penalty.serial).Nodup := by
      rw [List.map_reverse,List.nodup_reverse]
      exact hneat.distinct
    exact hreverse.sublist (hsub.map _)

/-- The penalty history is shown from the newest to the oldest record and has no penalty twice,
if every start that warms a ring finds it empty, gets nothing for it, or replaces all of it. -/
theorem penaltyHistory_ordered (config : FullConfig) {rows : List PenaltyRow} {recorded : ℕ}
    {clock : ℤ} (hdistinct : (rows.map fun r => r.fields.serial).Nodup)
    (hpast : ∀ r ∈ rows, r.createdAt ≤ clock ∧ r.fields.serial < recorded)
    {acts : List (Act × (ℕ → ℤ))}
    (hacts : ∀ before a after, acts = before ++ a :: after →
      ((State.init config rows recorded clock).run before).Allowed a)
    (pow : ℚ → ℚ → ℚ) (now : ℤ) (name : String) (q : HistoryQuery) {out : List PenaltyRecord}
    (hout : ((State.init config rows recorded clock).run acts).engine.getPenaltyHistory
      pow now name q = some out) :
    out.Pairwise (fun a b => b.timestamp ≤ a.timestamp) ∧
      (out.map fun r => r.penalty.serial).Nodup :=
  neat_getPenaltyHistory (State.tidy_run (State.tidy_init config hdistinct hpast) hacts) hout

namespace State
variable {s : State} {act : Act} {now : ℕ → ℤ}

theorem timed_const {t : ℤ} (hclock : s.clock ≤ t)
    (hpast : ∀ event, act = .op (.record event) → event.timestamp ≤ t) :
    s.Timed (act,fun _ => t) := ⟨hclock,fun _ => le_rfl,hpast⟩

theorem Timed.allowed (h : s.Timed (act,now)) (hact : ∀ answers, act ≠ .start answers) :
    s.Allowed (act,now) := by
  refine ⟨h,?_,?_⟩
  · intro answers hstart
    exact absurd hstart (hact answers)
  · intro answers hstart
    exact absurd hstart (hact answers)

/-- A store whose rows are few and in order may answer with all of them. -/
theorem answered_rowsOf (hrows : (s.rows.map Store.PenaltyRecordData.createdAt).Pairwise (· ≤ ·))
    (hfew : s.rows.length ≤ s.engine.config.penaltyHistorySize.toNat) :
    s.Answered (.start fun name => .ok (s.rowsOf name),now) := by
  intro answers hstart name records hrecords
  cases hstart
  cases hrecords
  rw [List.pairwise_map] at hrows
  have hchronological : Chronological Store.PenaltyRecordData.createdAt (s.rowsOf name) :=
    hrows.sublist List.filter_sublist
  have hlength : (s.rowsOf name).length ≤ s.engine.config.penaltyHistorySize.toNat :=
    (List.length_filter_le _ _).trans hfew
  have hrecent : IsRecent Store.PenaltyRecordData.createdAt
      s.engine.config.penaltyHistorySize.toNat (s.rowsOf name) _ := isRecent_drop hchronological
  rw [Nat.sub_eq_zero_of_le hlength,List.drop_zero] at hrecent
  exact hrecent

end State

def earlierRow : PenaltyRow := ⟨"a",5,⟨⟨.health,"health check failed",5,fun _ => none⟩,0⟩⟩

def later : State := .init ⟨defaultScoringConfig,50⟩ [earlierRow] 1 6

def healthCheckFailedAt (t : ℤ) : Act × (ℕ → ℤ) :=
  (.op (.record { type := .healthCheckFailed, provider := "a", timestamp := t }),fun _ => t)

/-- A provider is registered, and the engine is started before the first penalty. -/
def startedFirst : List (Act × (ℕ → ℤ)) :=
  [(.op (.register "a" 1),fun _ => 10),(.start fun name => .ok (later.rowsOf name),fun _ => 11),
    healthCheckFailedAt 12]

theorem allowed_startedFirst : ∀ before a after, startedFirst = before ++ a :: after →
    (later.run before).Allowed a := by
  suffices hall : Along State.step State.Allowed later startedFirst from along_iff.mp hall
  refine ⟨?_,?_,?_,trivial⟩
  · refine (State.timed_const (by decide +kernel) ?_).allowed ?_
    · intro event h
      cases h
    · intro answers h
      cases h
  · refine ⟨State.timed_const (by decide +kernel) ?_,?_,?_⟩
    · intro event h
      cases h
    · exact State.answered_rowsOf (s := later.step (.op (.register "a" 1),fun _ => 10))
        (by decide +kernel) (by decide +kernel)
    · intro answers _ _ name ps hps records _
      left
      rcases Tidy.mem_registerProvider hps with hold | hempty
      · exact absurd hold (by simp [later,State.init,FullEngine.new])
      · exact hempty
  · refine (State.timed_const (by decide +kernel) ?_).allowed ?_
    · intro event h
      cases h
      decide
    · intro answers h
      cases h

/-- The record of the earlier engine comes behind the new one, and each is there once. -/
theorem penaltyHistory_ordered_startedFirst : ∃ out,
    (later.run startedFirst).engine.getPenaltyHistory (fun _ _ => 1) 13 "a" ⟨0,0,none⟩ = some out ∧
      out.length = 2 ∧ out.Pairwise (fun a b => b.timestamp ≤ a.timestamp) ∧
      (out.map fun r => r.penalty.serial).Nodup := by
  have hlength : ((later.run startedFirst).engine.getPenaltyHistory (fun _ _ => 1) 13 "a"
      ⟨0,0,none⟩).map List.length = some 2 := by decide +kernel
  obtain ⟨out,hout,htwo⟩ := Option.map_eq_some_iff.mp hlength
  exact ⟨out,hout,htwo,penaltyHistory_ordered ⟨defaultScoringConfig,50⟩ (by decide +kernel)
    (by decide +kernel) allowed_startedFirst (fun _ _ => 1) 13 "a" ⟨0,0,none⟩ hout⟩

def first : State := .init ⟨defaultScoringConfig,50⟩ [] 0 0

def recordedTwice : List (Act × (ℕ → ℤ)) :=
  [(.op (.register "a" 1),fun _ => 1),healthCheckFailedAt 10,(.append,fun _ => 11),
    healthCheckFailedAt 20,(.append,fun _ => 21)]

def startedLast : List (Act × (ℕ → ℤ)) :=
  recordedTwice ++ [(.start fun name => .ok ((first.run recordedTwice).rowsOf name),fun _ => 30)]

/-- The start puts both penalties into the ring again, behind themselves. -/
theorem penaltyHistory_repeats_startedLast :
    (∀ before a after, startedLast = before ++ a :: after →
      (first.run before).Timed a ∧ (first.run before).Answered a) ∧
    ((first.run startedLast).engine.getPenaltyHistory (fun _ _ => 1) 31 "a" ⟨0,0,none⟩).map
      (List.map fun r => (r.timestamp,r.penalty.serial)) =
        some [(20,1),(10,0),(20,1),(10,0)] := by
  refine ⟨?_,by decide +kernel⟩
  have hplain {s : State} {act : Act} {t : ℤ} (hclock : s.clock ≤ t)
      (hpast : ∀ event, act = .op (.record event) → event.timestamp ≤ t)
      (hact : ∀ answers, act ≠ .start answers) :
      s.Timed (act,fun _ => t) ∧ s.Answered (act,fun _ => t) := by
    have hallowed := (State.timed_const hclock hpast).allowed hact
    exact ⟨hallowed.timed,hallowed.answered⟩
  have hrecord (t : ℤ) {s : State} (hclock : s.clock ≤ t) :
      s.Timed (healthCheckFailedAt t) ∧ s.Answered (healthCheckFailedAt t) := by
    refine hplain hclock ?_ ?_
    · intro event h
      cases h
      exact le_rfl
    · intro answers h
      cases h
  suffices hall : Along State.step (fun s a => s.Timed a ∧ s.Answered a) first startedLast from
    along_iff.mp hall
  refine ⟨hplain (by decide +kernel) ?_ ?_,hrecord 10 (by decide +kernel),
    hplain (by decide +kernel) ?_ ?_,hrecord 20 (by decide +kernel),
    hplain (by decide +kernel) ?_ ?_,
    ⟨State.timed_const (by decide +kernel) ?_,State.answered_rowsOf (s := first.run recordedTwice)
      (by decide +kernel) (by decide +kernel)⟩,trivial⟩
  all_goals
    intro x h
    cases h

end Warming
end ChainKit
