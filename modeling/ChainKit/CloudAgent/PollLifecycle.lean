import ChainKit.CloudAgent.LastApplied
import ChainKit.CloudAgent.PollLoop

/-! Starting and stopping the poller, any number of times and with a context each time. `Stop`
cancels the context of the loop and does not wait for it, and a loop whose context was cancelled
from outside leaves the poller running. -/
namespace ChainKit.CloudAgent.PollLifecycle
open Lib
variable {ι ε : Type}

/-- A fetched snapshot that is being applied, with the first error so far. -/
structure Job where
  res : FetchResult
  draw : ℕ → ℕ
  firstErr : Option GoError

/-- Where a goroutine is in `loop`, with its local variables. -/
inductive Pc
  | waiting (backoff : ℤ)
  | fetching (backoff : ℤ) (etag : String)
  /-- In the loop of `applySnapshot`, with the chains to come; after them come the weights. -/
  | chains (backoff : ℤ) (job : Job) (rest : List (Σ _ : String, ChainConfig))
  | enabled (backoff : ℤ) (job : Job)
  | commit (backoff : ℤ) (res : FetchResult)
  | returned

namespace Pc

/-- The next step of the goroutine calls a method of the `ConfigUpdater`. -/
def calls : Pc → Bool
  | .chains _ _ _ => true
  | .enabled _ _ => true
  | _ => false

/-- The goroutine is between the start of a fetch and the end of the commit. -/
def busy : Pc → Bool
  | .waiting _ => false
  | .returned => false
  | _ => true

def isReturned : Pc → Bool
  | .returned => true
  | _ => false

def bringsNew (t : Tick) : Pc → Bool
  | .fetching _ etag =>
    match t.fetch etag with
    | .error _ => false
    | .ok res => !res.notModified
  | _ => false

theorem isReturned_iff {pc : Pc} : pc.isReturned = true ↔ pc = .returned := by
  cases pc with
  | returned => exact iff_of_true rfl rfl
  | _ => simp [isReturned]

end Pc

/-- A goroutine of `loop`. Its context ends with the one that `Start` was given, or with the call
of its own cancel function. -/
structure Goroutine where
  ctx : ℕ
  canceled : Bool
  pc : Pc

/-- The goroutines stand in the order of their starts, so that `p.cancel` is the cancel function of
the last one. `crashed` is set by a panic, which ends the process. -/
structure State (ι ε : Type) where
  poller : ConfigPoller ι ε
  running : Bool
  cancelled : ℕ → Bool
  goroutines : List Goroutine
  crashed : Bool

def State.done (s : State ι ε) (g : Goroutine) : Bool := g.canceled || s.cancelled g.ctx

/-- What a goroutine does next: `select` takes the case of `ctx.Done()` or that of the timer, the
fetch returns, or the tick goes on. -/
inductive Move
  | exit
  | wake
  | fetched (t : Tick)
  | work

inductive Act
  | start (ctx : ℕ)
  | stop
  | cancel (ctx : ℕ)
  | move (i : ℕ) (m : Move)

structure Moved (ι ε : Type) where
  pc : Pc
  poller : ConfigPoller ι ε
  panicked : Bool

section
variable (opts : Options) (quote : String → String)

/-- The end of a turn of `loop`, with the result of the tick. -/
def endTurn (backoff : ℤ) (result : Option GoError) : Pc :=
  match loopBackoff opts backoff result with
  | none => .returned
  | some backoff => .waiting backoff

/-- A move of a goroutine, or none if it cannot make it. If the context is done and the timer has
fired, `select` may take either case. -/
def move (done : Bool) (p : ConfigPoller ι ε) : Pc → Move → Option (Moved ι ε)
  | .waiting _,.exit => if done then some ⟨.returned,p,false⟩ else none
  | .waiting backoff,.wake => some ⟨.fetching backoff p.etag,p,false⟩
  | .fetching backoff etag,.fetched t =>
    match t.fetch etag with
    | .error e => some ⟨endTurn opts backoff (some e),p,false⟩
    | .ok res =>
      if res.notModified then some ⟨endTurn opts backoff none,p,false⟩
      else some ⟨.chains backoff ⟨res,t.draw,none⟩ (t.visit.order res.snap.chains.entries),p,false⟩
  | .chains backoff job (⟨chain,cfg⟩ :: rest),.work =>
    match p.updater.updateChainConfig quote job.draw chain cfg with
    | (.error _,m) => some ⟨.returned,{ p with updater := m },true⟩
    | (.ok err,m) =>
      some ⟨.chains backoff { job with firstErr := job.firstErr.or err } rest,
        { p with updater := m },false⟩
  | .chains backoff job [],.work =>
    match p.updater.setScoringWeights job.res.snap.scoringWeights with
    | (.error _,m) => some ⟨.returned,{ p with updater := m },true⟩
    | (.ok err,m) =>
      some ⟨.enabled backoff { job with firstErr := job.firstErr.or err },
        { p with updater := m },false⟩
  | .enabled backoff job,.work =>
    let p := { p with updater := p.updater.setScoringEnabled job.res.snap.scoringEnabled }
    match job.firstErr with
    | some e => some ⟨endTurn opts backoff (some e),p,false⟩
    | none => some ⟨.commit backoff job.res,p,false⟩
  | .commit backoff res,.work =>
    some ⟨endTurn opts backoff none,{ p with applied := res.snap, etag := res.etag },false⟩
  | _,_ => none

namespace State

def start (s : State ι ε) (ctx : ℕ) : State ι ε :=
  if s.running then s
  else
    { s with
      running := true
      goroutines := s.goroutines ++ [⟨ctx,false,.waiting opts.pollInterval⟩] }

def stop (s : State ι ε) : State ι ε :=
  if s.running then
    { s with
      running := false
      goroutines := s.goroutines.modify (s.goroutines.length-1) ({ · with canceled := true }) }
  else s

/-- The state after a move of the goroutine at a position. -/
def place (s : State ι ε) (i : ℕ) (g : Goroutine) (r : Moved ι ε) : State ι ε :=
  { s with
    poller := r.poller
    goroutines := s.goroutines.set i { g with pc := r.pc }
    crashed := r.panicked }

def moveAt (s : State ι ε) (i : ℕ) (m : Move) : State ι ε :=
  match s.goroutines[i]? with
  | none => s
  | some g =>
    match move opts quote (s.done g) s.poller g.pc m with
    | none => s
    | some r => s.place i g r

end State

def step (s : State ι ε) (a : Act) : State ι ε :=
  if s.crashed then s else
    match a with
    | .start ctx => s.start opts ctx
    | .stop => s.stop
    | .cancel ctx => { s with cancelled := Function.update s.cancelled ctx true }
    | .move i m => s.moveAt opts quote i m

def runFrom (s : State ι ε) (acts : List Act) : State ι ε := acts.foldl (step opts quote) s

end

section
variable {opts : Options} {quote : String → String} {s : State ι ε} {i : ℕ} {g : Goroutine}
variable {p : ConfigPoller ι ε} {pc : Pc} {m : Move} {r : Moved ι ε}

/-- The goroutine at a position goes on with its tick, any number of times, and nobody else does
anything. -/
def Works (opts : Options) (quote : String → String) (i : ℕ) : State ι ε → State ι ε → Prop :=
  Relation.ReflTransGen fun s s' => step opts quote s (.move i .work) = s'

theorem place_place (s : State ι ε) (i : ℕ) (g : Goroutine) (r r' : Moved ι ε) :
    (s.place i g r).place i { g with pc := r.pc } r' = s.place i g r' := by
  simp [State.place]

theorem moveAt_of_move (hg : s.goroutines[i]? = some g)
    (hmove : move opts quote (s.done g) s.poller g.pc m = some r) :
    s.moveAt opts quote i m = s.place i g r := by
  simp only [State.moveAt,hg,hmove]

theorem step_place (hi : i < s.goroutines.length)
    (hmove : move opts quote (s.done g) p pc m = some r) :
    step opts quote (s.place i g ⟨pc,p,false⟩) (.move i m) = s.place i g r := by
  have hget : (s.place i g ⟨pc,p,false⟩).goroutines[i]? = some { g with pc := pc } :=
    List.getElem?_set_self hi
  have hmoved := moveAt_of_move hget hmove
  rw [place_place s i g ⟨pc,p,false⟩ r] at hmoved
  exact hmoved

theorem works_chains (hi : i < s.goroutines.length) (backoff : ℤ) (job : Job)
    (rest : List (Σ _ : String, ChainConfig)) (p : ConfigPoller ι ε) :
    Works opts quote i (s.place i g ⟨.chains backoff job rest,p,false⟩)
      (match applyChains quote job.draw rest job.firstErr p.updater with
      | (.error _,m) => s.place i g ⟨.returned,{ p with updater := m },true⟩
      | (.ok err,m) => s.place i g
          ⟨.chains backoff { job with firstErr := err } [],{ p with updater := m },false⟩) := by
  induction rest generalizing job p with
  | nil => exact .refl
  | cons entry rest ih =>
    obtain ⟨chain,cfg⟩ := entry
    rw [applyChains]
    cases hupdate : p.updater.updateChainConfig quote job.draw chain cfg with
    | mk result updater =>
      cases result with
      | error panicked => exact .single (step_place hi (by simp [move,hupdate]))
      | ok err =>
        refine .head (step_place hi (by simp only [move,hupdate]; rfl)) ?_
        exact ih { job with firstErr := job.firstErr.or err } { p with updater := updater }

theorem works_applySnapshot (hi : i < s.goroutines.length) (backoff : ℤ) (t : Tick)
    (res : FetchResult) (p : ConfigPoller ι ε) :
    Works opts quote i
      (s.place i g
        ⟨.chains backoff ⟨res,t.draw,none⟩ (t.visit.order res.snap.chains.entries),p,false⟩)
      (match applySnapshot quote t p.updater res.snap with
      | (.error _,m) => s.place i g ⟨.returned,{ p with updater := m },true⟩
      | (.ok (some e),m) =>
        s.place i g ⟨endTurn opts backoff (some e),{ p with updater := m },false⟩
      | (.ok none,m) => s.place i g ⟨endTurn opts backoff none,
          { p with updater := m, applied := res.snap, etag := res.etag },false⟩) := by
  have hchains : Works opts quote i (s.place i g _) _ := works_chains hi backoff
    ⟨res,t.draw,none⟩ (t.visit.order res.snap.chains.entries) p
  unfold applySnapshot
  cases happly : applyChains quote t.draw (t.visit.order res.snap.chains.entries) none
    p.updater with
  | mk result updater =>
    rw [happly] at hchains
    cases result with
    | error panicked => exact hchains
    | ok firstErr =>
      refine hchains.trans ?_
      dsimp only
      cases hweights : updater.setScoringWeights res.snap.scoringWeights with
      | mk result updater =>
        cases result with
        | error panicked => exact .single (step_place hi (by simp [move,hweights]))
        | ok err =>
          refine .head (step_place hi (by simp only [move,hweights]; rfl)) ?_
          dsimp only
          cases herr : firstErr.or err with
          | some e => exact .single (step_place hi (by simp [move]))
          | none =>
            refine .head (step_place hi (by simp only [move]; rfl)) ?_
            exact .single (step_place hi rfl)

/-- Left alone, a goroutine whose timer has fired does what `tick` does. -/
theorem works_tick {backoff : ℤ} (hg : s.goroutines[i]? = some g) (hpc : g.pc = .waiting backoff)
    (hcrashed : s.crashed = false) (t : Tick) :
    Works opts quote i (runFrom opts quote s [.move i .wake,.move i (.fetched t)])
      (match s.poller.tick quote t with
      | (.error _,p) => s.place i g ⟨.returned,p,true⟩
      | (.ok result,p) => s.place i g ⟨endTurn opts backoff result,p,false⟩) := by
  obtain ⟨hi,hget⟩ := List.getElem?_eq_some_iff.mp hg
  have hstart : s = s.place i g ⟨.waiting backoff,s.poller,false⟩ := by
    rw [← hpc]
    unfold State.place
    rw [← hget,List.set_getElem_self,← hcrashed]
  have hwake : step opts quote s (.move i .wake) =
      s.place i g ⟨.fetching backoff s.poller.etag,s.poller,false⟩ := by
    nth_rewrite 1 [hstart]
    exact step_place hi rfl
  simp only [runFrom,List.foldl_cons,List.foldl_nil,hwake]
  unfold ConfigPoller.tick
  cases hfetch : t.fetch s.poller.etag with
  | error e =>
    rw [step_place hi (by simp only [move,hfetch]; rfl)]
    exact .refl
  | ok res =>
    cases hmodified : res.notModified with
    | true =>
      rw [step_place hi (by simp only [move,hfetch,hmodified,if_true]; rfl)]
      simp only [hmodified,if_true]
      exact .refl
    | false =>
      rw [step_place hi (by simp only [move,hfetch,hmodified,Bool.false_eq_true,if_false]; rfl)]
      have hwork : Works opts quote i (s.place i g _) _ :=
        works_applySnapshot hi backoff t res s.poller
      simp only [hmodified,Bool.false_eq_true,if_false]
      cases happly : applySnapshot quote t s.poller.updater res.snap with
      | mk result updater =>
        rw [happly] at hwork
        cases result with
        | error panicked => exact hwork
        | ok err =>
          cases err with
          | none => exact hwork
          | some e => exact hwork

end

def init (updater : LiveProviders ι ε) : State ι ε where
  poller := newConfigPoller updater
  running := false
  cancelled := fun _ => false
  goroutines := []
  crashed := false

def run (opts : Options) (quote : String → String) (updater : LiveProviders ι ε)
    (acts : List Act) : State ι ε := runFrom opts quote (init updater) acts

def calls (s : State ι ε) : Act → Bool
  | .move i .work => !s.crashed && s.goroutines[i]?.any (·.pc.calls)
  | _ => false

/-- Whether an act is a start or a stop. -/
def Act.starts? : Act → Option Bool
  | .start _ => some true
  | .stop => some false
  | _ => none

/-- A stop has returned, and no start has come after it. -/
def StoppedAfter (acts : List Act) : Prop := (acts.filterMap Act.starts?).getLast? = some false

instance (acts : List Act) : Decidable (StoppedAfter acts) :=
  inferInstanceAs (Decidable (_ = _))

/-- The context that was given to the last goroutine is cancelled. -/
def LastCancelled (s : State ι ε) : Prop :=
  ∃ g ∈ s.goroutines.getLast?, s.cancelled g.ctx = true

instance (s : State ι ε) : Decidable (LastCancelled s) :=
  match h : s.goroutines.getLast? with
  | none => .isFalse (by simp [LastCancelled,h])
  | some g => decidable_of_iff (s.cancelled g.ctx = true) (by simp [LastCancelled,h])

/-- After a stop the updater is left alone, at most one goroutine is between fetch and commit, and
a start after the cancellation of the context before launches a loop. -/
structure StopsCleanly (opts : Options) (quote : String → String) (updater : LiveProviders ι ε)
    (acts : List Act) : Prop where
  quiet : ∀ before a after, acts = before ++ a :: after → StoppedAfter before →
    calls (run opts quote updater before) a = false
  single : ∀ before after, acts = before ++ after →
    (run opts quote updater before).goroutines.countP (·.pc.busy) ≤ 1
  restarts : ∀ before ctx after, acts = before ++ .start ctx :: after →
    (run opts quote updater before).crashed = false →
    LastCancelled (run opts quote updater before) →
    (step opts quote (run opts quote updater before) (.start ctx)).goroutines.length =
      (run opts quote updater before).goroutines.length+1

/-- What the caller and the server have to see to, which the poller does not: a start comes after
the goroutines before have returned and, if their context was cancelled, after a stop; a stop does
not come while a snapshot is being applied; and a fetch brings no snapshot once its context is
done. -/
def Orderly (s : State ι ε) : Act → Prop
  | .start _ =>
    if s.running then ¬LastCancelled s else ∀ g ∈ s.goroutines, g.pc.isReturned = true
  | .stop => ∀ g ∈ s.goroutines, g.pc.calls = false
  | .move i (.fetched t) =>
    ∀ g ∈ s.goroutines[i]?, s.done g = true → g.pc.bringsNew t = false
  | _ => True

instance (s : State ι ε) : (a : Act) → Decidable (Orderly s a)
  | .start _ => inferInstanceAs (Decidable
      (if s.running then ¬LastCancelled s else ∀ g ∈ s.goroutines, g.pc.isReturned = true))
  | .stop => inferInstanceAs (Decidable (∀ g ∈ s.goroutines, g.pc.calls = false))
  | .cancel _ => .isTrue trivial
  | .move _ .exit => .isTrue trivial
  | .move _ .wake => .isTrue trivial
  | .move i (.fetched t) =>
    match h : s.goroutines[i]? with
    | none => .isTrue (by simp [Orderly,h])
    | some g => decidable_of_iff (s.done g = true → g.pc.bringsNew t = false)
        (by simp [Orderly,h])
  | .move _ .work => .isTrue trivial

section
variable {opts : Options} {quote : String → String} {updater : LiveProviders ι ε}
variable {s : State ι ε} {done : Bool} {p : ConfigPoller ι ε} {pc : Pc} {m : Move}
variable {r : Moved ι ε}

@[simp] theorem calls_endTurn (backoff : ℤ) (result : Option GoError) :
    (endTurn opts backoff result).calls = false := by
  unfold endTurn
  split <;> rfl

theorem move_returned (hpc : pc.isReturned = true) : move opts quote done p pc m = none := by
  rw [Pc.isReturned_iff.mp hpc]
  rfl

theorem calls_of_move (hmove : move opts quote done p pc m = some r) (hcalls : pc.calls = false)
    (hfetch : ∀ t, m = .fetched t → pc.bringsNew t = false) : r.pc.calls = false := by
  cases pc with
  | waiting backoff =>
    cases m with
    | exit =>
      simp only [move,Option.ite_none_right_eq_some,Option.some.injEq] at hmove
      rw [← hmove.2]
      rfl
    | wake =>
      cases hmove
      rfl
    | fetched t => cases hmove
    | work => cases hmove
  | fetching backoff etag =>
    cases m with
    | fetched t =>
      have hold := hfetch t rfl
      simp only [Pc.bringsNew] at hold
      simp only [move] at hmove
      cases hres : t.fetch etag with
      | error e =>
        rw [hres] at hmove
        cases hmove
        simp
      | ok res =>
        rw [hres] at hmove hold
        simp only [Bool.not_eq_eq_eq_not,Bool.not_false] at hold
        simp only [hold,if_true,Option.some.injEq] at hmove
        rw [← hmove]
        simp
    | exit => cases hmove
    | wake => cases hmove
    | work => cases hmove
  | chains backoff job rest => cases hcalls
  | enabled backoff job => cases hcalls
  | commit backoff res =>
    cases m with
    | work =>
      cases hmove
      simp
    | exit => cases hmove
    | wake => cases hmove
    | fetched t => cases hmove
  | returned => cases hmove

theorem moveAt_cases (opts : Options) (quote : String → String) (s : State ι ε) (i : ℕ)
    (m : Move) :
    s.moveAt opts quote i m = s ∨ ∃ g r, s.goroutines[i]? = some g ∧
      move opts quote (s.done g) s.poller g.pc m = some r ∧
      s.moveAt opts quote i m = s.place i g r := by
  unfold State.moveAt
  split
  · exact .inl rfl
  · rename_i g hg
    split
    · exact .inl rfl
    · rename_i r hr
      exact .inr ⟨g,r,hg,hr,rfl⟩

/-- The goroutine has returned, or its context is done and it does not hold a snapshot. -/
def Goroutine.Spent (g : Goroutine) : Prop :=
  g.pc.isReturned = true ∨ g.canceled = true ∧ g.pc.calls = false

theorem Goroutine.Spent.calls {g : Goroutine} (h : g.Spent) : g.pc.calls = false := by
  obtain hreturned | ⟨_,hcalls⟩ := h
  · rw [Pc.isReturned_iff.mp hreturned]
    rfl
  · exact hcalls

/-- All goroutines but the last have returned, and while the poller is stopped the last one will
not call the updater. -/
structure Calm (s : State ι ε) : Prop where
  earlier : ∀ i g, s.goroutines[i]? = some g → i+1 < s.goroutines.length →
    g.pc.isReturned = true
  stopped : s.running = false → ∀ g ∈ s.goroutines, g.Spent

namespace Calm

theorem start (hs : Calm s) {ctx : ℕ} (h : Orderly s (.start ctx)) : Calm (s.start opts ctx) := by
  unfold State.start
  split_ifs with hrunning
  · exact hs
  · simp only [Orderly,hrunning,Bool.false_eq_true,if_false] at h
    refine ⟨?_,by simp⟩
    intro i g hg hi
    simp only [List.length_append,List.length_singleton] at hi
    rw [List.getElem?_append_left (by omega)] at hg
    exact h g (List.mem_of_getElem? hg)

theorem stop (hs : Calm s) (h : Orderly s .stop) : Calm s.stop := by
  unfold State.stop
  split_ifs with hrunning
  · constructor
    · intro i g hg hi
      simp only [List.length_modify] at hi
      have hne : s.goroutines.length-1 ≠ i := by omega
      dsimp only at hg
      rw [List.getElem?_modify_ne _ _ hne] at hg
      exact hs.earlier i g hg hi
    · intro _ g hg
      obtain ⟨i,hi⟩ := List.mem_iff_getElem?.mp hg
      rw [List.getElem?_modify] at hi
      obtain ⟨g',hg',rfl⟩ := Option.map_eq_some_iff.mp hi
      split_ifs with hlast
      · exact .inr ⟨rfl,h g' (List.mem_of_getElem? hg')⟩
      · have hlt : i < s.goroutines.length := (List.getElem?_eq_some_iff.mp hg').1
        exact .inl (hs.earlier i g' hg' (by omega))
  · exact hs

theorem moveAt (hs : Calm s) {i : ℕ} (h : Orderly s (.move i m)) :
    Calm (s.moveAt opts quote i m) := by
  obtain heq | ⟨g,r,hg,hmove,heq⟩ := moveAt_cases opts quote s i m
  · rw [heq]
    exact hs
  · rw [heq]
    have hlt : i < s.goroutines.length := (List.getElem?_eq_some_iff.mp hg).1
    -- a goroutine that has returned makes no move
    have hlive : ¬g.pc.isReturned = true := by
      intro hreturned
      rw [move_returned hreturned] at hmove
      cases hmove
    constructor
    · intro j g' hg' hj
      simp only [State.place,List.length_set] at hg' hj
      rw [List.getElem?_set_ne] at hg'
      · exact hs.earlier j g' hg' hj
      · rintro rfl
        exact hlive (hs.earlier i g hg hj)
    · intro hstopped g' hg'
      obtain hmem | rfl := List.mem_or_eq_of_mem_set hg'
      · exact hs.stopped hstopped g' hmem
      · obtain hreturned | ⟨hcanceled,hcalls⟩ := hs.stopped hstopped g (List.mem_of_getElem? hg)
        · exact absurd hreturned hlive
        · refine .inr ⟨hcanceled,calls_of_move hmove hcalls ?_⟩
          rintro t rfl
          exact h g hg (by simp [State.done,hcanceled])

theorem step (hs : Calm s) {a : Act} (h : Orderly s a) :
    Calm (PollLifecycle.step opts quote s a) := by
  unfold PollLifecycle.step
  split_ifs
  · exact hs
  · cases a with
    | start ctx => exact hs.start h
    | stop => exact hs.stop h
    | cancel ctx => exact ⟨hs.earlier,hs.stopped⟩
    | move i m => exact hs.moveAt h

/-- At most the last goroutine is between fetch and commit. -/
theorem countP_busy (hs : Calm s) : s.goroutines.countP (·.pc.busy) ≤ 1 := by
  obtain hnil | ⟨front,last,hsplit⟩ := List.eq_nil_or_concat' s.goroutines
  · simp [hnil]
  · have hfront : front.countP (·.pc.busy) = 0 := by
      rw [List.countP_eq_zero]
      intro g hg
      obtain ⟨i,hi⟩ := List.mem_iff_getElem?.mp hg
      have hlt : i < front.length := (List.getElem?_eq_some_iff.mp hi).1
      have hreturned := hs.earlier i g (by rw [hsplit,List.getElem?_append_left hlt,hi])
        (by simp [hsplit,hlt])
      simp [Pc.isReturned_iff.mp hreturned,Pc.busy]
    rw [hsplit,List.countP_append,hfront,Nat.zero_add]
    exact List.countP_le_length

theorem calls (hs : Calm s) (hstopped : s.running = false) (a : Act) :
    PollLifecycle.calls s a = false := by
  unfold PollLifecycle.calls
  split
  · rename_i i
    cases hg : s.goroutines[i]? with
    | none => simp
    | some g =>
      simp [(hs.stopped hstopped g (List.mem_of_getElem? hg)).calls]
  · rfl

end Calm

theorem calm_run {acts : List Act}
    (horderly : ∀ before a after, acts = before ++ a :: after →
      Orderly (run opts quote updater before) a) : Calm (run opts quote updater acts) := by
  apply foldl_invariant
  · exact ⟨by simp [init],by simp [init]⟩
  · intro before a after hsplit hs
    exact hs.step (horderly before a after hsplit)

theorem run_concat (acts : List Act) (a : Act) :
    run opts quote updater (acts ++ [a]) = step opts quote (run opts quote updater acts) a := by
  simp [run,runFrom]

theorem running_run {acts : List Act} (hcrashed : (run opts quote updater acts).crashed = false) :
    (run opts quote updater acts).running =
      ((acts.filterMap Act.starts?).getLast?).getD false := by
  induction acts using List.reverseRecOn with
  | nil => rfl
  | append_singleton acts a ih =>
    rw [run_concat] at hcrashed ⊢
    generalize hrun : run opts quote updater acts = s at *
    unfold step at hcrashed ⊢
    split_ifs at hcrashed ⊢ with hbefore
    · rw [hcrashed] at hbefore
      cases hbefore
    · have hrunning := ih (by simpa using hbefore)
      cases a with
      | start ctx =>
        simp only [State.start,List.filterMap_append]
        split_ifs with hstarted
        · simp [hstarted,Act.starts?]
        · simp [Act.starts?]
      | stop =>
        simp only [State.stop,List.filterMap_append]
        split_ifs with hstarted
        · simp [Act.starts?]
        · simp [hstarted,Act.starts?]
      | cancel ctx => simpa [Act.starts?] using hrunning
      | move i m =>
        obtain heq | ⟨g,r,_,_,heq⟩ := moveAt_cases opts quote s i m
        · simpa [heq,Act.starts?] using hrunning
        · simpa [heq,State.place,Act.starts?] using hrunning

end

/-- The poller stops cleanly in a run in which the caller and the server see to what it does not. -/
theorem stopsCleanly_of_orderly (opts : Options) (quote : String → String)
    (updater : LiveProviders ι ε) (acts : List Act)
    (horderly : Along (step opts quote) Orderly (init updater) acts) :
    StopsCleanly opts quote updater acts := by
  have hall := along_iff.mp horderly
  have hcalm : ∀ before after, acts = before ++ after →
      Calm (run opts quote updater before) := by
    intro before after hsplit
    apply calm_run
    intro front a rest hfront
    apply hall front a (rest ++ after)
    rw [hsplit,hfront,List.append_assoc,List.cons_append]
  refine ⟨?_,?_,?_⟩
  · intro before a after hsplit hstopped
    cases hcrashed : (run opts quote updater before).crashed with
    | true =>
      unfold calls
      split
      · simp [hcrashed]
      · rfl
    | false =>
      have hrunning := running_run hcrashed
      rw [hstopped] at hrunning
      exact (hcalm before _ hsplit).calls hrunning a
  · intro before after hsplit
    exact (hcalm before after hsplit).countP_busy
  · intro before ctx after hsplit hcrashed hcancelled
    have hstart : Orderly (run opts quote updater before) (.start ctx) := hall before _ after hsplit
    have hrunning : (run opts quote updater before).running = false := by
      by_contra hrunning
      rw [Bool.not_eq_false] at hrunning
      simp only [Orderly,hrunning,if_true] at hstart
      exact hstart hcancelled
    simp [step,hcrashed,State.start,hrunning]

def defaults : Options := ({} : Options).settings.opts

/-- A tick of the goroutine that was started first, up to the commit. -/
def firstTick (t : Tick) : List Act :=
  [.move 0 .wake,.move 0 (.fetched t),.move 0 .work,.move 0 .work,.move 0 .work]

def scoringOnly : Tick := tickWith {} "a"

/-- The goroutine applies a snapshot, is stopped while it waits and returns, and the poller is
started again. -/
def stoppedInBetween : List Act :=
  .start 0 :: firstTick scoringOnly ++ [.stop,.move 0 .exit,.start 1,.move 1 .wake]

theorem stopsCleanly_in_between : StopsCleanly defaults id plainProviders stoppedInBetween :=
  stopsCleanly_of_orderly defaults id plainProviders stoppedInBetween (by decide +kernel)

def stoppedMidTick : List Act := [.start 0,.move 0 .wake,.move 0 (.fetched scoringOnly),.stop]

/-- A second start after that, whose goroutine fetches a snapshot as well. -/
def overlapping : List Act :=
  stoppedMidTick ++ [.start 1,.move 1 .wake,.move 1 (.fetched scoringOnly)]

def cancelledOutside : List Act := [.start 0,.cancel 0,.move 0 .exit]

/-- After the stop the goroutine goes on to call the updater, after the second start two of them
are about to, and after the cancellation a start launches no loop. -/
theorem stop_leaves_goroutine :
    (StoppedAfter stoppedMidTick ∧
      calls (run defaults id plainProviders stoppedMidTick) (.move 0 .work) = true) ∧
    (run defaults id plainProviders overlapping).goroutines.countP (·.pc.busy) = 2 ∧
    LastCancelled (run defaults id plainProviders cancelledOutside) ∧
      run defaults id plainProviders (cancelledOutside ++ [.start 1]) =
        run defaults id plainProviders cancelledOutside := by
  refine ⟨by decide +kernel,by decide +kernel,by decide +kernel,rfl⟩

end ChainKit.CloudAgent.PollLifecycle
