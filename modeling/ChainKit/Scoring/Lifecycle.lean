import ChainKit.Scoring.Decay

/-! Starting and stopping the scoring engine, any number of times and with a context each time.
Every start of the decay manager makes a ticker and a goroutine, but the channel that stops the
goroutines is made once. -/
namespace ChainKit.Lifecycle
open Lib Decay

/-- A goroutine of `run`, with the context that it was given. -/
structure Goroutine where
  ctx : ℕ
  pc : Pc
  deriving DecidableEq

/-- The engine with its decay manager. The goroutines and the contexts are kept here, and `pc` and
`cancelled` of the manager are of no account. `closes` counts the calls of `close(dm.stopChan)`. -/
structure State where
  started : Bool
  manager : Decay.State
  cancelled : ℕ → Bool
  goroutines : List Goroutine
  closes : ℕ

namespace State

/-- The manager as one goroutine finds it. -/
def seen (s : State) (g : Goroutine) : Decay.State :=
  { s.manager with cancelled := s.cancelled g.ctx, pc := g.pc }

/-- `DecayManager.Start`. -/
def startManager (s : State) (ctx : ℕ) : State :=
  if s.manager.running then s
  else
    let manager := { s.manager with running := true }.newTicker s.manager.config.decayInterval
    { s with
      manager := manager
      goroutines := if manager.panicked then s.goroutines
        else s.goroutines ++ [⟨ctx,.entering⟩] }

/-- `DecayManager.Stop`. Closing a closed channel panics. -/
def stopManager (s : State) : State :=
  if s.manager.running then
    { s with
      manager := if s.manager.stopClosed then { s.manager with running := false, panicked := true }
        else s.manager.stop
      closes := s.closes+1 }
  else s

/-- `Engine.Start`, as far as the decay manager goes. -/
def start (s : State) (ctx : ℕ) : State :=
  if s.started then s else { s with started := true }.startManager ctx

/-- `Engine.Stop`, as far as the decay manager goes. -/
def stop (s : State) : State :=
  if s.started then { s with started := false }.stopManager else s

/-- A step of `run`: the case of `ctx.Done()` calls `dm.Stop`, and all others are those of one
goroutine on its own. -/
def loop (s : State) (i : ℕ) (g : Goroutine) (pick : Branch) : State :=
  match g.pc,pick with
  | .blocked _,.done =>
    if s.cancelled g.ctx then
      { s.stopManager with goroutines := s.goroutines.set i { g with pc := .returned } }
    else s
  | _,_ =>
    { s with
      manager := (s.seen g).loop pick
      goroutines := s.goroutines.set i { g with pc := ((s.seen g).loop pick).pc } }

end State

inductive Act
  | start (ctx : ℕ)
  | stop
  | cancel (ctx : ℕ)
  | fire (i : ℕ)
  | loop (i : ℕ) (pick : Branch)
  deriving DecidableEq

def step (s : State) (a : Act) : State :=
  if s.manager.panicked then s else
    match a with
    | .start ctx => s.start ctx
    | .stop => s.stop
    | .cancel ctx => { s with cancelled := Function.update s.cancelled ctx true }
    | .fire i => { s with manager := s.manager.fire i }
    | .loop i pick =>
      match s.goroutines[i]? with
      | none => s
      | some g => s.loop i g pick

def init (e : Engine) : State where
  started := false
  manager :=
    { engine := e, config := e.config, running := false, ticker := 0, stopClosed := false,
      cancelled := false, tickers := [], pc := .returned, applied := 0, panicked := false }
  cancelled := fun _ => false
  goroutines := []
  closes := 0

def runFrom (s : State) (acts : List Act) : State := acts.foldl step s

def run (e : Engine) (acts : List Act) : State := runFrom (init e) acts

/-- There is a goroutine with the context that returns only after a stop or after the cancellation
of its context. -/
def Alive (s : State) (ctx : ℕ) : Prop :=
  ∃ i : ℕ, ∀ acts : List Act, (∀ a ∈ acts, a ≠ .stop ∧ a ≠ .cancel ctx) →
    ∃ g : Goroutine, (runFrom s acts).goroutines[i]? = some g ∧ g.ctx = ctx ∧ g.pc ≠ .returned

/-- The channel is not closed twice, and a start that finds the engine stopped brings the decay
loop to life unless its context is cancelled already. -/
structure Restartable (e : Engine) (acts : List Act) : Prop where
  closes : ∀ before after, acts = before ++ after → (run e before).closes ≤ 1
  alive : ∀ before ctx after, acts = before ++ .start ctx :: after →
    (run e before).started = false → (run e before).cancelled ctx = false →
    Alive (step (run e before) (.start ctx)) ctx

/-- A start does not find the engine stopped after the channel has been closed. -/
def Unused (s : State) : Act → Prop
  | .start _ => s.started = false → s.closes = 0
  | _ => True

instance (s : State) : (a : Act) → Decidable (Unused s a)
  | .start _ => inferInstanceAs (Decidable (s.started = false → s.closes = 0))
  | .stop => .isTrue trivial
  | .cancel _ => .isTrue trivial
  | .fire _ => .isTrue trivial
  | .loop _ _ => .isTrue trivial

theorem loop_of_ne {s : State} {i : ℕ} {g : Goroutine} {pick : Branch}
    (hdone : ∀ channel, g.pc = .blocked channel → pick ≠ .done) :
    s.loop i g pick = { s with
      manager := (s.seen g).loop pick
      goroutines := s.goroutines.set i { g with pc := ((s.seen g).loop pick).pc } } := by
  unfold State.loop
  split
  · rename_i channel hpc
    exact absurd rfl (hdone channel hpc)
  · rfl

/-- The fields of the manager that decide about starts and stops. -/
structure Flags (m : Decay.State) (interval : ℤ) (running closed : Bool) : Prop where
  interval : m.config.decayInterval = interval
  running : m.running = running
  closed : m.stopClosed = closed
  calm : m.panicked = false

namespace Flags
variable {m : Decay.State} {interval : ℤ} {running closed : Bool}

theorem fire (h : Flags m interval running closed) (i : ℕ) :
    Flags (m.fire i) interval running closed := ⟨h.interval,h.running,h.closed,h.calm⟩

theorem start (h : Flags m interval running closed) (hpos : 0 < interval) :
    Flags ({ m with running := true }.newTicker m.config.decayInterval) interval true closed := by
  have hle : ¬m.config.decayInterval ≤ 0 := by
    rw [h.interval]
    omega
  simp only [Decay.State.newTicker,hle,if_false]
  exact ⟨h.interval,rfl,h.closed,h.calm⟩

theorem stop (h : Flags m interval true closed) : Flags m.stop interval false true := by
  simp only [Decay.State.stop,h.running,if_true]
  exact ⟨h.interval,rfl,rfl,h.calm⟩

theorem loop {s : State} (h : Flags s.manager interval running closed) (g : Goroutine)
    {pick : Branch} (hdone : ∀ channel, g.pc = .blocked channel → pick ≠ .done) :
    Flags ((s.seen g).loop pick) interval running closed := by
  unfold Decay.State.loop
  split
  · exact ⟨h.interval,h.running,h.closed,h.calm⟩
  · rename_i channel hpc
    cases pick with
    | done => exact absurd rfl (hdone channel hpc)
    | stop =>
      simp only [Decay.State.select]
      split_ifs <;> exact ⟨h.interval,h.running,h.closed,h.calm⟩
    | tick =>
      simp only [Decay.State.select]
      split_ifs <;> exact ⟨h.interval,h.running,h.closed,h.calm⟩
  · exact ⟨h.interval,h.running,h.closed,h.calm⟩
  · exact ⟨h.interval,h.running,h.closed,h.calm⟩

end Flags

section
variable {s : State} {interval : ℤ}

structure Fresh (s : State) (interval : ℤ) : Prop where
  flags : Flags s.manager interval false false
  started : s.started = false
  goroutines : s.goroutines = []
  closes : s.closes = 0

/-- The engine runs for the first time, and its goroutine has not returned. -/
structure Live (s : State) (interval : ℤ) (ctx : ℕ) : Prop where
  flags : Flags s.manager interval true false
  started : s.started = true
  goroutines : ∃ pc, s.goroutines = [⟨ctx,pc⟩] ∧ pc ≠ .returned
  closes : s.closes = 0

/-- The channel has been closed once, and the manager does not run any more. -/
structure Over (s : State) (interval : ℤ) : Prop where
  flags : Flags s.manager interval false true
  closes : s.closes = 1

theorem fresh_init (e : Engine) : Fresh (init e) e.config.decayInterval :=
  ⟨⟨rfl,rfl,rfl,rfl⟩,rfl,rfl,rfl⟩

theorem live_start (hs : Fresh s interval) (hpos : 0 < interval) (ctx : ℕ) :
    Live (s.start ctx) interval ctx := by
  have hflags := hs.flags.start hpos
  simp only [State.start,hs.started,Bool.false_eq_true,if_false,State.startManager,
    hs.flags.running,hflags.calm,hs.goroutines]
  exact ⟨hflags,rfl,⟨.entering,rfl,by simp⟩,hs.closes⟩

theorem over_stopManager {ctx : ℕ} (hs : Live s interval ctx) :
    Flags s.stopManager.manager interval false true ∧ s.stopManager.closes = 1 := by
  simp only [State.stopManager,hs.flags.running,hs.flags.closed,if_true,Bool.false_eq_true,
    if_false]
  exact ⟨hs.flags.stop,by rw [hs.closes]⟩

theorem live_loop {ctx : ℕ} (hs : Live s interval ctx) {pc : Pc}
    (hg : s.goroutines = [⟨ctx,pc⟩]) (hpc : pc ≠ .returned) {pick : Branch}
    (hdone : ∀ channel, pc = .blocked channel → pick ≠ .done) :
    Live { s with
      manager := (s.seen ⟨ctx,pc⟩).loop pick
      goroutines := s.goroutines.set 0 ⟨ctx,((s.seen ⟨ctx,pc⟩).loop pick).pc⟩ } interval ctx := by
  refine ⟨hs.flags.loop ⟨ctx,pc⟩ hdone,hs.started,
    ⟨((s.seen ⟨ctx,pc⟩).loop pick).pc,by simp [hg],?_⟩,hs.closes⟩
  cases pc with
  | entering => simp [Decay.State.loop,State.seen]
  | blocked channel =>
    simp only [Decay.State.loop,State.seen]
    cases pick with
    | done => exact absurd rfl (hdone channel rfl)
    | stop => simp [Decay.State.select,hs.flags.closed]
    | tick =>
      simp only [Decay.State.select]
      split_ifs <;> simp [Decay.State.receive]
  | applying => simp [Decay.State.loop,State.seen]
  | returned => exact absurd rfl hpc

/-- A running engine goes on until it is stopped or its context cancelled. -/
theorem live_step {ctx : ℕ} (hs : Live s interval ctx) (hctx : s.cancelled ctx = false) {a : Act}
    (hstop : a ≠ .stop) (hcancel : a ≠ .cancel ctx) :
    Live (step s a) interval ctx ∧ (step s a).cancelled ctx = false := by
  simp only [step,hs.flags.calm,Bool.false_eq_true,if_false]
  cases a with
  | start ctx' =>
    simp only [State.start,hs.started,if_true]
    exact ⟨hs,hctx⟩
  | stop => exact absurd rfl hstop
  | cancel ctx' =>
    have hne : ctx ≠ ctx' := by
      rintro rfl
      exact hcancel rfl
    refine ⟨⟨hs.flags,hs.started,hs.goroutines,hs.closes⟩,?_⟩
    simpa [Function.update_of_ne hne] using hctx
  | fire i => exact ⟨⟨hs.flags.fire i,hs.started,hs.goroutines,hs.closes⟩,hctx⟩
  | loop i pick =>
    obtain ⟨pc,hg,hpc⟩ := hs.goroutines
    rcases i with _ | i
    · simp only [hg,List.getElem?_cons_zero]
      by_cases hdone : ∀ channel, pc = .blocked channel → pick ≠ .done
      · rw [loop_of_ne hdone]
        exact ⟨live_loop hs hg hpc hdone,hctx⟩
      · push Not at hdone
        obtain ⟨channel,rfl,rfl⟩ := hdone
        simp only [State.loop,hctx,Bool.false_eq_true,if_false,and_true]
        exact hs
    · simp only [hg,List.getElem?_cons_succ,List.getElem?_nil]
      exact ⟨hs,hctx⟩

theorem live_or_over_step {ctx : ℕ} (hs : Live s interval ctx) (a : Act) :
    Live (step s a) interval ctx ∨ Over (step s a) interval := by
  simp only [step,hs.flags.calm,Bool.false_eq_true,if_false]
  cases a with
  | start ctx' =>
    simp only [State.start,hs.started,if_true]
    exact .inl hs
  | stop =>
    right
    simp only [State.stop,hs.started,if_true,State.stopManager,hs.flags.running,hs.flags.closed,
      Bool.false_eq_true,if_false,hs.closes]
    exact ⟨hs.flags.stop,rfl⟩
  | cancel ctx' => exact .inl ⟨hs.flags,hs.started,hs.goroutines,hs.closes⟩
  | fire i => exact .inl ⟨hs.flags.fire i,hs.started,hs.goroutines,hs.closes⟩
  | loop i pick =>
    obtain ⟨pc,hg,hpc⟩ := hs.goroutines
    rcases i with _ | i
    · simp only [hg,List.getElem?_cons_zero]
      by_cases hdone : ∀ channel, pc = .blocked channel → pick ≠ .done
      · rw [loop_of_ne hdone]
        exact .inl (live_loop hs hg hpc hdone)
      · push Not at hdone
        obtain ⟨channel,rfl,rfl⟩ := hdone
        simp only [State.loop]
        split_ifs
        · obtain ⟨hflags,hcloses⟩ := over_stopManager hs
          exact .inr ⟨hflags,hcloses⟩
        · exact .inl hs
    · simp only [hg,List.getElem?_cons_succ,List.getElem?_nil]
      exact .inl hs

/-- Once the channel is closed nothing closes it again, unless the engine is started again. -/
theorem over_step (hs : Over s interval) {a : Act} (ha : Unused s a) :
    Over (step s a) interval := by
  simp only [step,hs.flags.calm,Bool.false_eq_true,if_false]
  cases a with
  | start ctx =>
    have hstarted : s.started = true := by
      by_contra hstopped
      have hzero := ha (by simpa using hstopped)
      rw [hs.closes] at hzero
      cases hzero
    simp only [State.start,hstarted,if_true]
    exact hs
  | stop =>
    simp only [State.stop,State.stopManager,hs.flags.running,Bool.false_eq_true,if_false]
    split_ifs
    · exact ⟨hs.flags,hs.closes⟩
    · exact hs
  | cancel ctx => exact ⟨hs.flags,hs.closes⟩
  | fire i => exact ⟨hs.flags.fire i,hs.closes⟩
  | loop i pick =>
    simp only
    split
    · exact hs
    · rename_i g hg
      by_cases hdone : ∀ channel, g.pc = .blocked channel → pick ≠ .done
      · rw [loop_of_ne hdone]
        exact ⟨hs.flags.loop g hdone,hs.closes⟩
      · push Not at hdone
        obtain ⟨channel,hpc,rfl⟩ := hdone
        simp only [State.loop,hpc]
        split_ifs
        · simp only [State.stopManager,hs.flags.running,Bool.false_eq_true,if_false]
          exact ⟨hs.flags,hs.closes⟩
        · exact hs

/-- The three stages of an engine that is started once. -/
def Single (s : State) (interval : ℤ) : Prop :=
  Fresh s interval ∨ (∃ ctx, Live s interval ctx) ∨ Over s interval

theorem single_step (hpos : 0 < interval) (hs : Single s interval) {a : Act} (ha : Unused s a) :
    Single (step s a) interval := by
  obtain hfresh | ⟨ctx,hlive⟩ | hover := hs
  · simp only [step,hfresh.flags.calm,Bool.false_eq_true,if_false]
    cases a with
    | start ctx => exact .inr (.inl ⟨ctx,live_start hfresh hpos ctx⟩)
    | stop =>
      simp only [State.stop,hfresh.started,Bool.false_eq_true,if_false]
      exact .inl hfresh
    | cancel ctx => exact .inl ⟨hfresh.flags,hfresh.started,hfresh.goroutines,hfresh.closes⟩
    | fire i =>
      exact .inl ⟨hfresh.flags.fire i,hfresh.started,hfresh.goroutines,hfresh.closes⟩
    | loop i pick =>
      simp only [hfresh.goroutines,List.getElem?_nil]
      exact .inl hfresh
  · obtain hlive | hover := live_or_over_step hlive a
    · exact .inr (.inl ⟨ctx,hlive⟩)
    · exact .inr (.inr hover)
  · exact .inr (.inr (over_step hover ha))

theorem Single.closes (hs : Single s interval) : s.closes ≤ 1 := by
  obtain hfresh | ⟨ctx,hlive⟩ | hover := hs
  · rw [hfresh.closes]
    exact Nat.zero_le 1
  · rw [hlive.closes]
    exact Nat.zero_le 1
  · rw [hover.closes]

theorem alive_of_live {ctx : ℕ} (hs : Live s interval ctx) (hctx : s.cancelled ctx = false) :
    Alive s ctx := by
  refine ⟨0,?_⟩
  intro acts hacts
  have hrun : Live (runFrom s acts) interval ctx ∧ (runFrom s acts).cancelled ctx = false := by
    apply foldl_invariant (I := fun s : State => Live s interval ctx ∧ s.cancelled ctx = false)
      ⟨hs,hctx⟩
    rintro before a after hsplit ⟨hlive,hcancelled⟩
    obtain ⟨hstop,hcancel⟩ := hacts a (by simp [hsplit])
    exact live_step hlive hcancelled hstop hcancel
  obtain ⟨pc,hg,hpc⟩ := hrun.1.goroutines
  exact ⟨⟨ctx,pc⟩,by simp [hg],rfl,hpc⟩

/-- What a step is to the goroutine of a context. -/
def Act.seen (ctx : ℕ) : Act → Option Decay.Act
  | .start _ => none
  | .stop => some .stop
  | .cancel ctx' => if ctx' = ctx then some .cancel else none
  | .fire i => some (.fire i)
  | .loop 0 pick => some (.loop pick)
  | .loop _ _ => none

theorem seen_start (e : Engine) (hpos : 0 < e.config.decayInterval) (ctx : ℕ) :
    ((init e).start ctx).goroutines = [⟨ctx,.entering⟩] ∧
      ((init e).start ctx).seen ⟨ctx,.entering⟩ = Decay.start e := by
  have hle : ¬e.config.decayInterval ≤ 0 := by omega
  simp [init,State.start,State.startManager,State.seen,Decay.start,Decay.State.newTicker,hle]

/-- While the engine runs for the first time, its goroutine takes the steps of the decay loop. -/
theorem seen_step {ctx : ℕ} (hs : Live s interval ctx) {pc : Pc}
    (hg : s.goroutines = [⟨ctx,pc⟩]) (a : Act) :
    ∃ pc', (step s a).goroutines = [⟨ctx,pc'⟩] ∧
      (step s a).seen ⟨ctx,pc'⟩ =
        (a.seen ctx).elim (s.seen ⟨ctx,pc⟩) (Decay.step (s.seen ⟨ctx,pc⟩)) := by
  have hcalm : (s.seen ⟨ctx,pc⟩).panicked = false := hs.flags.calm
  simp only [step,hs.flags.calm,Bool.false_eq_true,if_false]
  cases a with
  | start ctx' =>
    simp only [State.start,hs.started,if_true]
    exact ⟨pc,hg,rfl⟩
  | stop =>
    refine ⟨pc,?_,?_⟩
    · simpa [State.stop,hs.started,State.stopManager,hs.flags.running] using hg
    · simp [State.stop,hs.started,State.stopManager,hs.flags.running,hs.flags.closed,Act.seen,
        Decay.step,State.seen,Decay.State.stop,Decay.State.stopTicker,hs.flags.calm]
  | cancel ctx' =>
    refine ⟨pc,hg,?_⟩
    by_cases hctx : ctx' = ctx
    · simp [hctx,Act.seen,Decay.step,State.seen,hs.flags.calm]
    · simp [hctx,Act.seen,State.seen,Function.update_of_ne (Ne.symm hctx)]
  | fire i =>
    refine ⟨pc,hg,?_⟩
    simp [Act.seen,Decay.step,State.seen,Decay.State.fire,hs.flags.calm]
  | loop i pick =>
    rcases i with _ | i
    · simp only [hg,List.getElem?_cons_zero,Act.seen,Option.elim_some,Decay.step,hcalm,
        Bool.false_eq_true,if_false]
      by_cases hdone : ∀ channel, pc = .blocked channel → pick ≠ .done
      · rw [loop_of_ne hdone]
        refine ⟨((s.seen ⟨ctx,pc⟩).loop pick).pc,by simp [hg],?_⟩
        have hcancelled : ((s.seen ⟨ctx,pc⟩).loop pick).cancelled = s.cancelled ctx := by
          unfold Decay.State.loop
          split
          · rfl
          · rename_i channel hpc
            cases pick with
            | done => exact absurd rfl (hdone channel hpc)
            | stop =>
              simp only [Decay.State.select]
              split_ifs <;> rfl
            | tick =>
              simp only [Decay.State.select]
              split_ifs <;> rfl
          · rfl
          · rfl
        revert hcancelled
        generalize (s.seen ⟨ctx,pc⟩).loop pick = next
        intro hcancelled
        simp only [State.seen]
        rw [← hcancelled]
      · push Not at hdone
        obtain ⟨channel,rfl,rfl⟩ := hdone
        simp only [State.loop]
        by_cases hctx : s.cancelled ctx = true
        · refine ⟨.returned,by simp [hctx,hg],?_⟩
          simp [hctx,State.stopManager,hs.flags.running,hs.flags.closed,State.seen,
            Decay.State.loop,Decay.State.select,Decay.State.stop,Decay.State.stopTicker]
        · refine ⟨.blocked channel,by simp [hctx,hg],?_⟩
          simp [hctx,State.seen,Decay.State.loop,Decay.State.select]
    · simp only [hg,List.getElem?_cons_succ,List.getElem?_nil]
      exact ⟨pc,rfl,rfl⟩

/-- What holds in every state: the channel is closed when it was closed, and only a second close
panics. -/
structure Counted (s : State) (interval : ℤ) : Prop where
  interval : s.manager.config.decayInterval = interval
  closed : s.manager.stopClosed = true ↔ 0 < s.closes
  calm : s.closes ≤ 1 → s.manager.panicked = false

theorem counted_stopManager (hs : Counted s interval) (hcalm : s.manager.panicked = false) :
    Counted s.stopManager interval ∧ s.stopManager.manager.running = false := by
  unfold State.stopManager
  split_ifs with hrunning hclosed
  · have hcloses := hs.closed.mp hclosed
    refine ⟨⟨hs.interval,by simp [hclosed],?_⟩,rfl⟩
    intro honce
    simp only at honce
    omega
  · have hflags := Flags.stop ⟨hs.interval,hrunning,rfl,hcalm⟩
    exact ⟨⟨hflags.interval,by simp [hflags.closed],fun _ => hflags.calm⟩,hflags.running⟩
  · exact ⟨hs,by simpa using hrunning⟩

/-- The manager of an engine that is stopped does not run. -/
def Idle (s : State) : Prop := s.started = false → s.manager.running = false

theorem counted_step (hpos : 0 < interval) (hs : Counted s interval ∧ Idle s) (a : Act) :
    Counted (step s a) interval ∧ Idle (step s a) := by
  unfold step
  split_ifs with hpanicked
  · exact hs
  · rw [Bool.not_eq_true] at hpanicked
    obtain ⟨hcounted,hidle⟩ := hs
    have hflags : Flags s.manager interval s.manager.running s.manager.stopClosed :=
      ⟨hcounted.interval,rfl,rfl,hpanicked⟩
    cases a with
    | start ctx =>
      simp only [State.start]
      split_ifs with hstarted
      · exact ⟨hcounted,hidle⟩
      · have hstopped := hidle (by simpa using hstarted)
        have hnew := hflags.start hpos
        simp only [State.startManager,hstopped,Bool.false_eq_true,if_false]
        refine ⟨⟨hnew.interval,?_,fun _ => hnew.calm⟩,by simp [Idle]⟩
        rw [hnew.closed]
        exact hcounted.closed
    | stop =>
      simp only [State.stop]
      split_ifs
      · have hstop := counted_stopManager (s := { s with started := false })
          ⟨hcounted.interval,hcounted.closed,hcounted.calm⟩ hpanicked
        exact ⟨hstop.1,fun _ => hstop.2⟩
      · exact ⟨hcounted,hidle⟩
    | cancel ctx => exact ⟨⟨hcounted.interval,hcounted.closed,hcounted.calm⟩,hidle⟩
    | fire i => exact ⟨⟨hcounted.interval,hcounted.closed,hcounted.calm⟩,hidle⟩
    | loop i pick =>
      simp only
      split
      · exact ⟨hcounted,hidle⟩
      · rename_i g hg
        by_cases hdone : ∀ channel, g.pc = .blocked channel → pick ≠ .done
        · have hloop := hflags.loop g hdone
          rw [loop_of_ne hdone]
          refine ⟨⟨hloop.interval,?_,fun _ => hloop.calm⟩,?_⟩
          · rw [hloop.closed]
            exact hcounted.closed
          · intro hstopped
            rw [hloop.running]
            exact hidle hstopped
        · push Not at hdone
          obtain ⟨channel,hpc,rfl⟩ := hdone
          simp only [State.loop,hpc]
          split_ifs
          · have hstop := counted_stopManager hcounted hpanicked
            exact ⟨⟨hstop.1.interval,hstop.1.closed,hstop.1.calm⟩,fun _ => hstop.2⟩
          · exact ⟨hcounted,hidle⟩

theorem counted_run (e : Engine) (hpos : 0 < e.config.decayInterval) (acts : List Act) :
    Counted (run e acts) e.config.decayInterval ∧ Idle (run e acts) := by
  apply foldl_invariant (I := fun s => Counted s e.config.decayInterval ∧ Idle s)
  · exact ⟨⟨rfl,by simp [init],fun _ => rfl⟩,fun _ => rfl⟩
  · intro before a after _ hbefore
    exact counted_step hpos hbefore a

/-- Where a goroutine is after a step in which it prefers the closed channel. -/
def exitStep (ticker : ℕ) : Pc → Pc
  | .entering => .blocked ticker
  | .blocked _ => .returned
  | .applying => .entering
  | .returned => .returned

theorem step_exit {i : ℕ} {g : Goroutine} (hcalm : s.manager.panicked = false)
    (hclosed : s.manager.stopClosed = true) (hg : s.goroutines[i]? = some g) :
    (step s (.loop i .stop)).manager.panicked = false ∧
    (step s (.loop i .stop)).manager.stopClosed = true ∧
    (step s (.loop i .stop)).goroutines[i]? =
      some { g with pc := exitStep s.manager.ticker g.pc } := by
  have hi := (List.getElem?_eq_some_iff.mp hg).1
  have hflags : Flags s.manager s.manager.config.decayInterval s.manager.running true :=
    ⟨rfl,rfl,hclosed,hcalm⟩
  have hloop : Flags ((s.seen g).loop .stop) s.manager.config.decayInterval s.manager.running
      true := hflags.loop g (by simp)
  simp only [step,hcalm,Bool.false_eq_true,if_false,hg]
  rw [loop_of_ne (by simp)]
  refine ⟨hloop.calm,hloop.closed,?_⟩
  rw [List.getElem?_set_self hi]
  congr 2
  cases hpc : g.pc <;>
    simp [Decay.State.loop,State.seen,hpc,exitStep,Decay.State.select,hclosed]

theorem exits {i : ℕ} {g : Goroutine} (hcalm : s.manager.panicked = false)
    (hclosed : s.manager.stopClosed = true) (hg : s.goroutines[i]? = some g) :
    ∃ g' : Goroutine, (runFrom s (List.replicate 3 (.loop i .stop))).goroutines[i]? = some g' ∧
      g'.pc = .returned := by
  obtain ⟨hcalm₁,hclosed₁,hg₁⟩ := step_exit hcalm hclosed hg
  obtain ⟨hcalm₂,hclosed₂,hg₂⟩ := step_exit hcalm₁ hclosed₁ hg₁
  obtain ⟨_,_,hg₃⟩ := step_exit hcalm₂ hclosed₂ hg₂
  refine ⟨_,hg₃,?_⟩
  cases g.pc <;> rfl

theorem not_alive_of_closed {ctx : ℕ} (hcalm : s.manager.panicked = false)
    (hclosed : s.manager.stopClosed = true) : ¬Alive s ctx := by
  rintro ⟨i,halive⟩
  obtain ⟨g,hg,_,_⟩ := halive [] (by simp)
  obtain ⟨g',hg',hreturned⟩ := exits hcalm hclosed hg
  obtain ⟨g'',hg'',_,hrunning⟩ := halive (List.replicate 3 (.loop i .stop)) (by simp)
  rw [hg'] at hg''
  cases hg''
  exact hrunning hreturned

end

/-- The engine can be started and stopped as long as no start finds it stopped after its channel
has been closed; and a start with a context that is not cancelled must not find it so. -/
theorem restartable_of_unused (e : Engine) (hpos : 0 < e.config.decayInterval) (acts : List Act) :
    ((∀ before a after, acts = before ++ a :: after → Unused (run e before) a) →
      Restartable e acts) ∧
    (Restartable e acts → ∀ before ctx after, acts = before ++ .start ctx :: after →
      (run e before).cancelled ctx = false → Unused (run e before) (.start ctx)) := by
  constructor
  · intro hunused
    have hsingle (before after : List Act) (hsplit : acts = before ++ after) :
        Single (run e before) e.config.decayInterval := by
      apply foldl_invariant (I := fun s => Single s e.config.decayInterval)
        (.inl (fresh_init e))
      intro before' a after' hsplit' hbefore
      refine single_step hpos hbefore (hunused before' a (after' ++ after) ?_)
      rw [hsplit,hsplit',List.append_assoc,List.cons_append]
    refine ⟨fun before after hsplit => (hsingle before after hsplit).closes,?_⟩
    intro before ctx after hsplit hstopped hctx
    have hzero : (run e before).closes = 0 := hunused before _ after hsplit hstopped
    obtain hfresh | ⟨ctx',hlive⟩ | hover := hsingle before _ hsplit
    · have hlive := live_start hfresh hpos ctx
      simp only [step,hfresh.flags.calm,Bool.false_eq_true,if_false]
      apply alive_of_live hlive
      simpa [State.start,State.startManager,hfresh.started,hfresh.flags.running] using hctx
    · rw [hlive.started] at hstopped
      cases hstopped
    · rw [hover.closes] at hzero
      cases hzero
  · intro hrestartable before ctx after hsplit hctx hstopped
    by_contra hcloses
    obtain ⟨hs,hidle⟩ := counted_run e hpos before
    have hcalm := hs.calm (hrestartable.closes before _ hsplit)
    have hclosed := hs.closed.mpr (Nat.pos_of_ne_zero hcloses)
    have hnew := Flags.start ⟨hs.interval,hidle hstopped,hclosed,hcalm⟩ hpos
    have hstart : (step (run e before) (.start ctx)).manager =
        { (run e before).manager with running := true }.newTicker
          (run e before).manager.config.decayInterval := by
      simp [step,hcalm,State.start,hstopped,State.startManager,hidle hstopped]
    refine absurd (hrestartable.alive before ctx after hsplit hstopped hctx)
      (not_alive_of_closed ?_ ?_)
    · rw [hstart]
      exact hnew.calm
    · rw [hstart]
      exact hnew.closed

/-- Stopped before it was ever started, started, and its context cancelled: the goroutine closes
the channel. -/
def startedOnce : List Act := [.stop,.start 0,.loop 0 .tick,.cancel 0,.loop 0 .done,.stop,.stop]

theorem restartable_startedOnce : Restartable freshEngine startedOnce :=
  (restartable_of_unused freshEngine (by decide) startedOnce).1 (along_iff.mp (by decide))

/-- Started, stopped and started again: the new goroutine finds the channel closed, and the next
stop closes it again. -/
theorem not_restartable :
    (run freshEngine [.start 0,.stop]).started = false ∧
    (run freshEngine [.start 0,.stop]).cancelled 1 = false ∧
    ¬Alive (run freshEngine [.start 0,.stop,.start 1]) 1 ∧
    (run freshEngine [.start 0,.stop,.start 1,.stop]).closes = 2 ∧
    (run freshEngine [.start 0,.stop,.start 1,.stop]).manager.panicked = true := by
  refine ⟨by decide,by decide,?_,by decide,by decide⟩
  exact not_alive_of_closed (by decide) (by decide)

end ChainKit.Lifecycle
