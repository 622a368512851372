import ChainKit.Scoring.Engine
import ChainKit.Lib.Schedule

/-! The decay loop of the scoring engine: a goroutine that lowers the penalties at every tick,
while the configuration, and with it the interval of the ticks, may be replaced at any time. -/
namespace ChainKit

/-- A penalty after one decay; what is left below a hundredth is dropped. -/
def decayPenalty (decayRate penalty : ℚ) : ℚ :=
  if penalty*(1-decayRate) < 1/100 then 0 else penalty*(1-decayRate)

/-- `ApplyDecay`, which leaves the latency penalty alone. -/
def ProviderScore.applyDecay (ps : ProviderScore) (decayRate : ℚ) : ProviderScore :=
  { ps with
    healthPenalty := decayPenalty decayRate ps.healthPenalty
    rateLimitPenalty := decayPenalty decayRate ps.rateLimitPenalty
    errorPenalty := decayPenalty decayRate ps.errorPenalty }

namespace Decay

/-- A `time.Ticker`. A tick waits until it is received; stopping discards it. -/
structure Ticker where
  interval : ℤ
  stopped : Bool
  pending : Bool
  deriving DecidableEq

/-- Where the goroutine is. The channel of its `select` is read when it enters it. -/
inductive Pc
  | entering
  | blocked (channel : ℕ)
  | applying
  | returned
  deriving DecidableEq

/-- The cases of the `select`. -/
inductive Branch
  | done
  | stop
  | tick
  deriving DecidableEq

/-- The engine with its `DecayManager`: `config`, `running` and `ticker` are the fields of the
manager, which shares the scores of the engine. `tickers` holds every ticker ever made,
`applied` counts the calls of `applyDecay`, and `panicked` is set by `time.NewTicker`. -/
structure State where
  engine : Engine
  config : ScoringConfig
  running : Bool
  ticker : ℕ
  stopClosed : Bool
  cancelled : Bool
  tickers : List Ticker
  pc : Pc
  applied : ℕ
  panicked : Bool

namespace State

/-- `dm.ticker = time.NewTicker(interval)`, which panics unless the interval is positive. -/
def newTicker (s : State) (interval : ℤ) : State :=
  if interval ≤ 0 then { s with panicked := true }
  else { s with tickers := s.tickers ++ [⟨interval,false,false⟩], ticker := s.tickers.length }

def stopTicker (s : State) : State :=
  { s with tickers := s.tickers.modify s.ticker ({ · with stopped := true, pending := false }) }

def stop (s : State) : State :=
  if s.running then { s with running := false, stopClosed := true }.stopTicker else s

def applyDecay (s : State) : State :=
  { s with
    engine := { s.engine with
      scores := fun name => (s.engine.scores name).map (·.applyDecay s.config.decayRate) }
    applied := s.applied+1 }

/-- `DecayManager.UpdateConfig`. -/
def updateManager (s : State) (config : ScoringConfig) : State :=
  if s.running ∧ s.config.decayInterval ≠ config.decayInterval then
    { s with config := config }.stopTicker.newTicker config.decayInterval
  else { s with config := config }

/-- The configuration that `Engine.UpdateConfig` ends with. -/
def newConfig (s : State) (opts : ScoringConfig → ScoringConfig) : ScoringConfig :=
  (opts s.engine.config).validate

/-- `Engine.UpdateConfig`, for the composition of its options. -/
def updateConfig (s : State) (opts : ScoringConfig → ScoringConfig) : State :=
  { s with engine := { s.engine with config := s.newConfig opts } }.updateManager
    (s.newConfig opts)

def fire (s : State) (i : ℕ) : State :=
  { s with tickers := s.tickers.modify i fun t => { t with pending := t.pending || !t.stopped } }

def ready (s : State) (channel : ℕ) : Bool := (s.tickers[channel]?.map Ticker.pending).getD false

def receive (s : State) (channel : ℕ) : State :=
  { s with
    tickers := s.tickers.modify channel ({ · with pending := false })
    pc := .applying }

/-- The `select` takes the picked case if it is ready. -/
def select (s : State) (channel : ℕ) : Branch → State
  | .done => if s.cancelled then { s.stop with pc := .returned } else s
  | .stop => if s.stopClosed then { s with pc := .returned } else s
  | .tick => if s.ready channel then s.receive channel else s

def loop (s : State) (pick : Branch) : State :=
  match s.pc with
  | .entering => { s with pc := .blocked s.ticker }
  | .blocked channel => s.select channel pick
  | .applying => { s.applyDecay with pc := .entering }
  | .returned => s

end State

inductive Act
  | update (opts : ScoringConfig → ScoringConfig)
  | fire (i : ℕ)
  | stop
  | cancel
  | loop (pick : Branch)

def step (s : State) (a : Act) : State :=
  if s.panicked then s else
    match a with
    | .update opts => s.updateConfig opts
    | .fire i => s.fire i
    | .stop => s.stop
    | .cancel => { s with cancelled := true }
    | .loop pick => s.loop pick

def run (s : State) (acts : List Act) : State := acts.foldl step s

/-- `Engine.Start` of an engine that has not been started. -/
def start (e : Engine) : State :=
  State.newTicker
    { engine := e, config := e.config, running := true, ticker := 0, stopClosed := false,
      cancelled := false, tickers := [], pc := .entering, applied := 0, panicked := false }
    e.config.decayInterval

/-- The manager runs, on a ticker that is not stopped. -/
structure Running (s : State) : Prop where
  alive : s.panicked = false
  running : s.running = true
  notStopped : s.stopClosed = false
  notCancelled : s.cancelled = false
  notReturned : s.pc ≠ .returned
  current : s.ticker+1 = s.tickers.length
  ticking : ∃ t, s.tickers[s.ticker]? = some t ∧ t.stopped = false

/-- The channel that the loop is blocked on is that of the current ticker. -/
def Attached (s : State) : Prop := ∀ channel, s.pc = .blocked channel → channel = s.ticker

/-- An update keeps to positive intervals, and nobody stops the loop. -/
def Undisturbed (s : State) : Act → Prop
  | .update opts => 0 < (s.newConfig opts).decayInterval
  | .stop => False
  | .cancel => False
  | _ => True

/-- An update of the interval reaches the loop while it is not blocked. -/
def Unblocked (s : State) : Act → Prop
  | .update opts => s.config.decayInterval ≠ (s.newConfig opts).decayInterval →
      ∀ channel, s.pc ≠ .blocked channel
  | _ => True

theorem running_newTicker {s : State} {interval : ℤ} (hpos : 0 < interval)
    (halive : s.panicked = false) (hrunning : s.running = true) (hstop : s.stopClosed = false)
    (hcancel : s.cancelled = false) (hpc : s.pc ≠ .returned) : Running (s.newTicker interval) := by
  have hle : ¬interval ≤ 0 := by omega
  simp only [State.newTicker,hle,if_false]
  exact ⟨halive,hrunning,hstop,hcancel,hpc,by simp,⟨⟨interval,false,false⟩,by simp,rfl⟩⟩

theorem running_start {e : Engine} (hpos : 0 < e.config.decayInterval) : Running (start e) :=
  running_newTicker hpos rfl rfl rfl rfl (by simp)

theorem attached_start (e : Engine) : Attached (start e) := by
  intro channel h
  have hpc : (start e).pc = .entering := by
    simp only [start,State.newTicker]
    split_ifs <;> rfl
  rw [hpc] at h
  cases h

theorem running_update {s : State} (hs : Running s) {opts : ScoringConfig → ScoringConfig}
    (hpos : 0 < (s.newConfig opts).decayInterval) : Running (s.updateConfig opts) := by
  simp only [State.updateConfig,State.updateManager]
  split_ifs with hchange
  · exact running_newTicker hpos hs.alive hs.running hs.notStopped hs.notCancelled hs.notReturned
  · exact ⟨hs.alive,hs.running,hs.notStopped,hs.notCancelled,hs.notReturned,hs.current,hs.ticking⟩

theorem running_modify {s : State} (hs : Running s) {i : ℕ} {f : Ticker → Ticker} {pc : Pc}
    (hf : ∀ t, (f t).stopped = t.stopped) (hpc : pc ≠ .returned) :
    Running { s with tickers := s.tickers.modify i f, pc := pc } := by
  obtain ⟨t,ht,hstopped⟩ := hs.ticking
  refine ⟨hs.alive,hs.running,hs.notStopped,hs.notCancelled,hpc,by simp [hs.current],?_⟩
  refine ⟨if i = s.ticker then f t else t,by simp [List.getElem?_modify,ht],?_⟩
  split_ifs
  · rw [hf,hstopped]
  · exact hstopped

theorem running_loop {s : State} (hs : Running s) (pick : Branch) : Running (s.loop pick) := by
  unfold State.loop
  split
  · exact ⟨hs.alive,hs.running,hs.notStopped,hs.notCancelled,by simp,hs.current,hs.ticking⟩
  · cases pick with
    | done => simpa [State.select,hs.notCancelled] using hs
    | stop => simpa [State.select,hs.notStopped] using hs
    | tick =>
      simp only [State.select]
      split_ifs
      · exact running_modify hs (fun _ => rfl) (by simp)
      · exact hs
  · exact ⟨hs.alive,hs.running,hs.notStopped,hs.notCancelled,by simp,hs.current,hs.ticking⟩
  · exact hs

theorem running_step {s : State} (hs : Running s) {a : Act} (ha : Undisturbed s a) :
    Running (step s a) := by
  simp only [step,hs.alive,Bool.false_eq_true,if_false]
  cases a with
  | update opts => exact running_update hs ha
  | fire i => exact running_modify hs (fun _ => rfl) hs.notReturned
  | stop => exact ha.elim
  | cancel => exact ha.elim
  | loop pick => exact running_loop hs pick

theorem attached_update {s : State} (hs : Running s) (hattached : Attached s)
    {opts : ScoringConfig → ScoringConfig} (hpos : 0 < (s.newConfig opts).decayInterval) :
    Attached (s.updateConfig opts) ↔ Unblocked s (.update opts) := by
  have hle : ¬(s.newConfig opts).decayInterval ≤ 0 := by omega
  simp only [State.updateConfig,State.updateManager,Unblocked,hs.running,true_and]
  split_ifs with hchange
  · -- The new ticker is not the one whose channel the loop may have read.
    have hcurrent := hs.current
    simp only [State.newTicker,hle,if_false,Attached,State.stopTicker,List.length_modify]
    constructor
    · intro h _ channel hpc
      have hold := hattached channel hpc
      have hnew := h channel hpc
      omega
    · intro h channel hpc
      exact absurd hpc (h hchange channel)
  · exact ⟨fun _ h => absurd h hchange,fun _ => hattached⟩

theorem attached_loop {s : State} (hattached : Attached s) (pick : Branch) :
    Attached (s.loop pick) := by
  unfold State.loop
  split
  · intro channel h
    cases h
    rfl
  · cases pick with
    | done =>
      simp only [State.select]
      split_ifs
      · intro channel h
        cases h
      · exact hattached
    | stop =>
      simp only [State.select]
      split_ifs
      · intro channel h
        cases h
      · exact hattached
    | tick =>
      simp only [State.select]
      split_ifs
      · intro channel h
        cases h
      · exact hattached
  · intro channel h
    cases h
  · exact hattached

/-- The loop stays on the current ticker exactly when the step does not change the interval
behind its back. -/
theorem attached_step {s : State} (hs : Running s) (hattached : Attached s) {a : Act}
    (ha : Undisturbed s a) : Attached (step s a) ↔ Unblocked s a := by
  simp only [step,hs.alive,Bool.false_eq_true,if_false]
  cases a with
  | update opts => exact attached_update hs hattached ha
  | fire i => exact iff_of_true hattached trivial
  | stop => exact ha.elim
  | cancel => exact ha.elim
  | loop pick => exact iff_of_true (attached_loop hattached pick) trivial

/-- The steps that the loop needs from a waiting tick to the end of `applyDecay`. -/
def due (s : State) : ℕ :=
  match s.pc with
  | .entering => 3
  | .blocked _ => 2
  | .applying => 1
  | .returned => 0

/-- A decay is owed: a tick of the current ticker waits or has just been received. -/
structure Owed (s : State) : Prop where
  running : Running s
  attached : Attached s
  waiting : s.pc ≠ .applying → s.ready s.ticker = true

theorem owed_loop {s : State} (hs : Owed s) :
    s.applied < (step s (.loop .tick)).applied ∨
      Owed (step s (.loop .tick)) ∧ (step s (.loop .tick)).applied = s.applied ∧
        due (step s (.loop .tick))+1 = due s := by
  have hrunning := running_step hs.running (a := .loop .tick) trivial
  have hattached := (attached_step hs.running hs.attached (a := .loop .tick) trivial).mpr trivial
  simp only [step,hs.running.alive,Bool.false_eq_true,if_false,State.loop] at hrunning hattached ⊢
  cases hpc : s.pc with
  | entering =>
    simp only [hpc] at hrunning hattached
    exact .inr ⟨⟨hrunning,hattached,fun _ => hs.waiting (by simp [hpc])⟩,rfl,by simp [due,hpc]⟩
  | blocked channel =>
    have hready := hs.waiting (by simp [hpc])
    rw [← hs.attached channel hpc] at hready
    simp only [hpc,State.select,hready,if_true] at hrunning hattached ⊢
    exact .inr ⟨⟨hrunning,hattached,fun h => absurd rfl h⟩,rfl,by simp [due,hpc,State.receive]⟩
  | applying => exact .inl (Nat.lt_succ_self _)
  | returned => exact absurd hpc hs.running.notReturned

theorem ready_fire (s : State) (i channel : ℕ) (h : s.ready channel = true) :
    (s.fire i).ready channel = true := by
  simp only [State.ready,State.fire,List.getElem?_modify] at h ⊢
  cases ht : s.tickers[channel]? with
  | none => simp [ht] at h
  | some t =>
    simp only [ht,Option.map_some,Option.getD_some] at h ⊢
    split_ifs <;> simp [h]

theorem owed_fire {s : State} (hs : Running s) (hattached : Attached s) :
    Owed (step s (.fire s.ticker)) := by
  have hrunning := running_step hs (a := .fire s.ticker) trivial
  have hattached' := (attached_step hs hattached (a := .fire s.ticker) trivial).mpr trivial
  simp only [step,hs.alive,Bool.false_eq_true,if_false] at hrunning hattached' ⊢
  obtain ⟨t,ht,hstopped⟩ := hs.ticking
  refine ⟨hrunning,hattached',fun _ => ?_⟩
  simp [State.ready,State.fire,ht,hstopped]

theorem owed_tick {s : State} (hs : Owed s) (i : ℕ) :
    Owed (step s (.fire i)) ∧ (step s (.fire i)).applied = s.applied ∧
      due (step s (.fire i)) = due s := by
  have hrunning := running_step hs.running (a := .fire i) trivial
  have hattached := (attached_step hs.running hs.attached (a := .fire i) trivial).mpr trivial
  simp only [step,hs.running.alive,Bool.false_eq_true,if_false] at hrunning hattached ⊢
  exact ⟨⟨hrunning,hattached,fun h => ready_fire s i s.ticker (hs.waiting h)⟩,rfl,rfl⟩

/-- The loop goes on by itself, and tickers fire. -/
inductive Act.Free : Act → Prop
  | fire (i : ℕ) : Free (.fire i)
  | loop : Free (.loop .tick)

def loops : List Act → ℕ
  | [] => 0
  | .loop _ :: rest => loops rest+1
  | _ :: rest => loops rest

theorem applied_step (s : State) {a : Act} (ha : a.Free) : s.applied ≤ (step s a).applied := by
  unfold step
  split_ifs
  · exact le_rfl
  · cases ha with
    | fire i => exact le_rfl
    | loop =>
      simp only [State.loop,State.select]
      split
      · exact le_rfl
      · split_ifs <;> exact le_rfl
      · exact Nat.le_succ _
      · exact le_rfl

theorem applied_run (s : State) {acts : List Act} (hacts : ∀ a ∈ acts, a.Free) :
    s.applied ≤ (run s acts).applied := by
  induction acts generalizing s with
  | nil => exact le_rfl
  | cons a rest ih =>
    exact (applied_step s (hacts a (by simp))).trans
      (ih (step s a) (fun b hb => hacts b (by simp [hb])))

/-- A decay that is owed is applied once the loop has taken the steps that it needs. -/
theorem owed_run {s : State} (hs : Owed s) {acts : List Act} (hacts : ∀ a ∈ acts, a.Free)
    (hloops : due s ≤ loops acts) : s.applied < (run s acts).applied := by
  induction acts generalizing s with
  | nil =>
    have hpc := hs.running.notReturned
    cases h : s.pc <;> simp [due,loops,h] at hloops
    exact absurd h hpc
  | cons a rest ih =>
    have hrest : ∀ b ∈ rest, b.Free := fun b hb => hacts b (by simp [hb])
    cases hacts a (by simp) with
    | fire i =>
      obtain ⟨howed,happlied,hdue⟩ := owed_tick hs i
      have hrun := ih howed hrest (by simpa [hdue,loops] using hloops)
      rw [happlied] at hrun
      exact hrun
    | loop =>
      obtain happlied | ⟨howed,happlied,hdue⟩ := owed_loop hs
      · exact happlied.trans_le (applied_run _ hrest)
      · have hrun := ih howed hrest (by simp only [loops] at hloops; omega)
        rw [happlied] at hrun
        exact hrun

/-- The loop keeps applying decay: the channel it is blocked on belongs to the current ticker,
which is not stopped, and after a tick of it three steps of the loop are enough. -/
def KeepsDecaying (s : State) : Prop :=
  (∀ channel, s.pc = .blocked channel → channel = s.ticker ∧
    ∃ t, s.tickers[channel]? = some t ∧ t.stopped = false) ∧
  ∀ acts : List Act, (∀ a ∈ acts, a.Free) → 3 ≤ loops acts →
    s.applied < (run s (.fire s.ticker :: acts)).applied

theorem keepsDecaying_of_attached {s : State} (hs : Running s) (hattached : Attached s) :
    KeepsDecaying s := by
  refine ⟨?_,?_⟩
  · intro channel hpc
    obtain rfl := hattached channel hpc
    exact ⟨rfl,hs.ticking⟩
  · intro acts hacts hloops
    have howed := owed_fire hs hattached
    have hdue : due (step s (.fire s.ticker)) ≤ 3 := by
      unfold due
      split <;> omega
    have happlied := applied_step s (.fire s.ticker)
    exact happlied.trans_lt (owed_run howed hacts (hdue.trans hloops))

theorem running_run {e : Engine} {acts : List Act} (hpos : 0 < e.config.decayInterval)
    (hacts : ∀ before a after, acts = before ++ a :: after →
      Undisturbed (run (start e) before) a) : Running (run (start e) acts) :=
  Lib.foldl_invariant (running_start hpos) fun before a after hsplit hbefore =>
    running_step hbefore (hacts before a after hsplit)

/-- Without a stop, the loop keeps applying decay along a run exactly when no update changes the
interval while the loop is blocked: `select` holds on to the channel of the ticker that it read,
and the update stops that ticker. -/
theorem keepsDecaying_iff (e : Engine) (hpos : 0 < e.config.decayInterval) (acts : List Act)
    (hacts : ∀ before a after, acts = before ++ a :: after →
      Undisturbed (run (start e) before) a) :
    (∀ before after, acts = before ++ after → KeepsDecaying (run (start e) before)) ↔
      ∀ before a after, acts = before ++ a :: after → Unblocked (run (start e) before) a := by
  have hrunning : ∀ before after, acts = before ++ after → Running (run (start e) before) := by
    intro before after hsplit
    apply running_run hpos
    intro before' a after' hsplit'
    apply hacts before' a (after' ++ after)
    rw [hsplit,hsplit',List.append_assoc,List.cons_append]
  constructor
  · intro h before a after hsplit
    have hattached : Attached (run (start e) before) := fun channel hpc =>
      ((h before (a :: after) hsplit).1 channel hpc).1
    have hnext : Attached (step (run (start e) before) a) := by
      have hafter := (h (before ++ [a]) after (by simpa using hsplit)).1
      rw [run,List.foldl_append] at hafter
      exact fun channel hpc => (hafter channel hpc).1
    exact (attached_step (hrunning before _ hsplit) hattached (hacts before a after hsplit)).mp
      hnext
  · intro h before after hsplit
    refine keepsDecaying_of_attached (hrunning before after hsplit) ?_
    apply Lib.foldl_invariant (attached_start e)
    intro before' a after' hsplit' hattached
    have hsplit'' : acts = before' ++ a :: (after' ++ after) := by
      rw [hsplit,hsplit',List.append_assoc,List.cons_append]
    exact (attached_step (hrunning before' _ hsplit'') hattached
      (hacts before' a _ hsplit'')).mpr (h before' a _ hsplit'')

def withDecayInterval (interval : ℤ) (c : ScoringConfig) : ScoringConfig :=
  { c with decayInterval := interval }

def freshEngine : Engine := .new defaultScoringConfig

/-- An update before the loop has entered its `select`. -/
theorem keepsDecaying_early_update :
    KeepsDecaying (run (start freshEngine)
      [.update (withDecayInterval Duration.second),.loop .tick]) := by
  let acts : List Act := [.update (withDecayInterval Duration.second),.loop .tick]
  refine (keepsDecaying_iff freshEngine (by decide +kernel) acts ?_).mpr ?_ acts [] rfl
  · intro before a after hsplit
    rcases before with _ | ⟨b,_ | ⟨c,rest⟩⟩
    · obtain ⟨rfl,_⟩ := List.cons.inj hsplit
      change (0 : ℤ) < Duration.second
      decide
    · obtain ⟨rfl,_⟩ := List.cons.inj (List.cons.inj hsplit).2
      trivial
    · simp [acts] at hsplit
  · intro before a after hsplit
    rcases before with _ | ⟨b,_ | ⟨c,rest⟩⟩
    · obtain ⟨rfl,_⟩ := List.cons.inj hsplit
      intro _ channel hpc
      cases hpc
    · obtain ⟨rfl,_⟩ := List.cons.inj (List.cons.inj hsplit).2
      trivial
    · simp [acts] at hsplit

structure Lost (s : State) (channel : ℕ) : Prop where
  pc : s.pc = .blocked channel
  stopped : ∃ t, s.tickers[channel]? = some t ∧ t.stopped = true ∧ t.pending = false
  notStopped : s.stopClosed = false
  notCancelled : s.cancelled = false

theorem lost_update {s : State} {channel : ℕ} (hs : Lost s channel)
    (opts : ScoringConfig → ScoringConfig) : Lost (s.updateConfig opts) channel := by
  obtain ⟨t,ht,hstopped,hpending⟩ := hs.stopped
  have hmodify : ∃ t, (s.tickers.modify s.ticker
      ({ · with stopped := true, pending := false }))[channel]? = some t ∧
        t.stopped = true ∧ t.pending = false := by
    refine ⟨_,by rw [List.getElem?_modify,ht]; rfl,?_,?_⟩
    · split_ifs
      · rfl
      · exact hstopped
    · split_ifs
      · rfl
      · exact hpending
  simp only [State.updateConfig,State.updateManager]
  split_ifs
  · simp only [State.newTicker]
    split_ifs
    · exact ⟨hs.pc,hmodify,hs.notStopped,hs.notCancelled⟩
    · obtain ⟨t',ht',h'⟩ := hmodify
      refine ⟨hs.pc,⟨t',?_,h'⟩,hs.notStopped,hs.notCancelled⟩
      have hbound := (List.getElem?_eq_some_iff.mp ht').1
      exact (List.getElem?_append_left hbound).trans ht'
  · exact ⟨hs.pc,⟨t,ht,hstopped,hpending⟩,hs.notStopped,hs.notCancelled⟩

theorem applied_update (s : State) (opts : ScoringConfig → ScoringConfig) :
    (s.updateConfig opts).applied = s.applied := by
  simp only [State.updateConfig,State.updateManager,State.newTicker]
  split_ifs <;> rfl

/-- Neither updates nor ticks bring a loop back that waits for a stopped ticker. -/
theorem lost_step {s : State} {channel : ℕ} (hs : Lost s channel) {a : Act}
    (hstop : a ≠ .stop) (hcancel : a ≠ .cancel) :
    Lost (step s a) channel ∧ (step s a).applied = s.applied := by
  unfold step
  split_ifs
  · exact ⟨hs,rfl⟩
  · cases a with
    | update opts => exact ⟨lost_update hs opts,applied_update s opts⟩
    | fire i =>
      obtain ⟨t,ht,hstopped,hpending⟩ := hs.stopped
      refine ⟨⟨hs.pc,⟨t,?_,hstopped,hpending⟩,hs.notStopped,hs.notCancelled⟩,rfl⟩
      have hsame : { t with pending := t.pending || !t.stopped } = t := by
        cases t
        simp_all
      simp [State.fire,List.getElem?_modify,ht,hsame]
    | stop => exact absurd rfl hstop
    | cancel => exact absurd rfl hcancel
    | loop pick =>
      obtain ⟨t,ht,_,hpending⟩ := hs.stopped
      have hloop : s.loop pick = s := by
        simp only [State.loop,hs.pc]
        cases pick with
        | done => simp [State.select,hs.notCancelled]
        | stop => simp [State.select,hs.notStopped]
        | tick => simp [State.select,State.ready,ht,hpending]
      simpa only [hloop,and_true] using hs

theorem lost_run {s : State} {channel : ℕ} (hs : Lost s channel) {acts : List Act}
    (hacts : ∀ a ∈ acts, a ≠ .stop ∧ a ≠ .cancel) : (run s acts).applied = s.applied := by
  induction acts generalizing s with
  | nil => rfl
  | cons a rest ih =>
    obtain ⟨hstop,hcancel⟩ := hacts a (by simp)
    obtain ⟨hlost,happlied⟩ := lost_step hs hstop hcancel
    exact (ih hlost (fun b hb => hacts b (by simp [hb]))).trans happlied

/-- The interval is changed while the loop is blocked: it waits for the old ticker for ever. -/
theorem decay_ends_with_update :
    let s := run (start freshEngine) [.loop .tick,.update (withDecayInterval Duration.second)]
    s.pc = .blocked 0 ∧ s.ticker = 1 ∧ ¬KeepsDecaying s ∧
      ∀ acts : List Act, (∀ a ∈ acts, a ≠ .stop ∧ a ≠ .cancel) → (run s acts).applied = 0 := by
  intro s
  have hpc : s.pc = .blocked 0 := by decide +kernel
  have hticker : s.ticker = 1 := by decide +kernel
  have hlost : Lost s 0 :=
    ⟨hpc,⟨⟨Duration.minute,true,false⟩,by decide +kernel,rfl,rfl⟩,by decide +kernel,
      by decide +kernel⟩
  refine ⟨hpc,hticker,?_,fun acts hacts => lost_run hlost hacts⟩
  intro hkeeps
  have hchannel := (hkeeps.1 0 hpc).1
  omega

end Decay
end ChainKit
