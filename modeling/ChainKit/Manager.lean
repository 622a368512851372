import ChainKit.Selection

/-! The provider manager of one chain (`providerManager`). Its methods are functions from a
manager to a manager; the clock readings that a method takes are its arguments. -/
namespace ChainKit
variable {ι ε : Type}

/-- A manager in which every registered provider has its tracking entries. The selector is
never nil, since `newProviderManager` installs one. An engine is shared by reference: the
manager and its selector hold addresses, and `engines` is what stands there. -/
structure ProviderManager (ι ε : Type) where
  providers : List (ProviderConfig ι)
  selectedProvider : String
  states : String → ProviderState
  config : ChainConfig
  semaphore : ℤ
  selector : Selector
  scoringEngine : Option ℕ
  engines : ℕ → Option ε
  tracked : ∀ p ∈ providers, (states p.name).Tracked

/-- What `sort.Slice` promises about the order it leaves. It is not a stable sort. -/
structure PrioritySort (ι : Type) where
  sort : List (ProviderConfig ι) → List (ProviderConfig ι)
  perm : ∀ l, (sort l).Perm l
  sorted : ∀ l, (sort l).Pairwise (fun p q => p.priority ≤ q.priority)

/-- Insertion sort, which is what `sort.Slice` runs on short slices. -/
def PrioritySort.insertion : PrioritySort ι where
  sort := List.insertionSort (fun p q => p.priority ≤ q.priority)
  perm := List.perm_insertionSort _
  sorted l := by
    have : Std.Total (fun p q : ProviderConfig ι => p.priority ≤ q.priority) :=
      ⟨fun p q => le_total p.priority q.priority⟩
    have : IsTrans (ProviderConfig ι) (fun p q => p.priority ≤ q.priority) :=
      ⟨fun _ _ _ => le_trans⟩
    exact List.pairwise_insertionSort _ l

namespace ProviderState

def check (config : ChainConfig) (now : ℤ) (st : ProviderState) : ProviderState :=
  (st.isProviderAvailable config now).2

theorem check_tracked {st : ProviderState} (config : ChainConfig) (now : ℤ) (h : st.Tracked) :
    (st.check config now).Tracked := isProviderAvailable_tracked config now h

end ProviderState

/-- The loop of `getAvailableProviders` over the registered providers, lines 230-235. A panic
inside a check leaves the loop at once. -/
def filterAvailable (config : ChainConfig) (now : ℤ) :
    List (ProviderConfig ι) → (String → ProviderState) →
      Except Panic (List (ProviderConfig ι)) × (String → ProviderState)
  | [],states => (.ok [],states)
  | p :: ps,states =>
    let states' := Function.update states p.name ((states p.name).check config now)
    match ((states p.name).isProviderAvailable config now).1 with
    | .error panic => (.error panic,states')
    | .ok available =>
      let rest := filterAvailable config now ps states'
      match rest.1 with
      | .error panic => (.error panic,rest.2)
      | .ok l => (.ok (if available then p :: l else l),rest.2)

/-- At each name the loop amounts to a number of checks of that entry. -/
theorem filterAvailable_states (config : ChainConfig) (now : ℤ) (ps : List (ProviderConfig ι))
    (states : String → ProviderState) (name : String) :
    ∃ k, (filterAvailable config now ps states).2 name =
      (ProviderState.check config now)^[k] (states name) := by
  induction ps generalizing states with
  | nil => exact ⟨0,rfl⟩
  | cons p ps ih =>
    let states' := Function.update states p.name ((states p.name).check config now)
    have hone : ∃ k, states' name = (ProviderState.check config now)^[k] (states name) := by
      by_cases hn : name = p.name
      · subst hn
        exact ⟨1,by simp [states']⟩
      · exact ⟨0,by simp [states',hn]⟩
    obtain ⟨k,hk⟩ := hone
    simp only [filterAvailable]
    split
    · exact ⟨k,hk⟩
    · obtain ⟨j,hj⟩ := ih states'
      refine ⟨j+k,?_⟩
      rw [Function.iterate_add_apply,← hk,← hj]
      split <;> rfl

theorem filterAvailable_checked {config : ChainConfig} {now : ℤ} {ps l : List (ProviderConfig ι)}
    {states : String → ProviderState} (h : (filterAvailable config now ps states).1 = .ok l)
    {p : ProviderConfig ι} (hp : p ∈ ps) :
    ∃ k, (filterAvailable config now ps states).2 p.name =
      (ProviderState.check config now)^[k+1] (states p.name) := by
  induction ps generalizing states l with
  | nil => simp at hp
  | cons q ps ih =>
    set states' := Function.update states q.name ((states q.name).check config now) with hs
    simp only [filterAvailable,← hs] at h ⊢
    cases ha : ((states q.name).isProviderAvailable config now).1 with
    | error panic => simp [ha] at h
    | ok available =>
      cases hr : (filterAvailable config now ps states').1 with
      | error panic => simp [ha,hr] at h
      | ok l' =>
        by_cases hn : p.name = q.name
        · obtain ⟨k,hk⟩ := filterAvailable_states config now ps states' p.name
          refine ⟨k,?_⟩
          rw [Function.iterate_succ_apply]
          simpa [hs,hn] using hk
        · have hp' : p ∈ ps := by
            cases hp with
            | head => exact absurd rfl hn
            | tail _ hp => exact hp
          obtain ⟨k,hk⟩ := ih hr hp'
          refine ⟨k,?_⟩
          simpa [hs,hn] using hk

/-- A loop that panics does so in a check of an entry as the checks before have left it. -/
theorem filterAvailable_panic {config : ChainConfig} {now : ℤ} {ps : List (ProviderConfig ι)}
    {states : String → ProviderState} {panic : Panic} {P : ProviderState → Prop}
    (hcheck : ∀ st, P st → P (st.check config now)) (hstates : ∀ name, P (states name))
    (h : (filterAvailable config now ps states).1 = .error panic) :
    ∃ st : ProviderState, P st ∧ (st.isProviderAvailable config now).1 = .error panic := by
  induction ps generalizing states with
  | nil => simp [filterAvailable] at h
  | cons q ps ih =>
    simp only [filterAvailable] at h
    cases ha : ((states q.name).isProviderAvailable config now).1 with
    | error panic' =>
      simp only [ha,Except.error.injEq] at h
      subst h
      exact ⟨_,hstates q.name,ha⟩
    | ok available =>
      cases hr : (filterAvailable config now ps
          (Function.update states q.name ((states q.name).check config now))).1 with
      | error panic' =>
        simp only [ha,hr,Except.error.injEq] at h
        subst h
        refine ih ?_ hr
        intro name
        by_cases hn : name = q.name
        · rw [hn,Function.update_self]
          exact hcheck _ (hstates q.name)
        · rw [Function.update_of_ne hn]
          exact hstates name
      | ok l => simp [ha,hr] at h

theorem filterAvailable_tracked {config : ChainConfig} {now : ℤ} {ps : List (ProviderConfig ι)}
    {states : String → ProviderState} {name : String} (h : (states name).Tracked) :
    ((filterAvailable config now ps states).2 name).Tracked := by
  obtain ⟨k,hk⟩ := filterAvailable_states config now ps states name
  rw [hk]
  clear hk
  induction k with
  | zero => exact h
  | succ k ih =>
    rw [Function.iterate_succ_apply']
    exact ProviderState.check_tracked config now ih

theorem filterAvailable_sublist {config : ChainConfig} {now : ℤ} {ps l : List (ProviderConfig ι)}
    {states : String → ProviderState} (h : (filterAvailable config now ps states).1 = .ok l) :
    l.Sublist ps := by
  induction ps generalizing states l with
  | nil =>
    cases h
    exact List.Sublist.refl _
  | cons q ps ih =>
    simp only [filterAvailable] at h
    cases ha : ((states q.name).isProviderAvailable config now).1 with
    | error panic => simp [ha] at h
    | ok available =>
      cases hr : (filterAvailable config now ps
          (Function.update states q.name ((states q.name).check config now))).1 with
      | error panic => simp [ha,hr] at h
      | ok l' =>
        simp only [ha,hr,Except.ok.injEq] at h
        rw [← h]
        cases available with
        | false => exact (ih hr).cons q
        | true => exact (ih hr).cons_cons q

theorem filterAvailable_mem {config : ChainConfig} {now : ℤ} {ps l : List (ProviderConfig ι)}
    {states : String → ProviderState} (h : (filterAvailable config now ps states).1 = .ok l)
    {p : ProviderConfig ι} (hp : p ∈ l) :
    p ∈ ps ∧ ∃ i k,
      (((ProviderState.check config now)^[i] (states p.name)).isProviderAvailable config now).1 =
        .ok true ∧
      (filterAvailable config now ps states).2 p.name =
        (ProviderState.check config now)^[k] ((ProviderState.check config now)^[i+1]
          (states p.name)) := by
  induction ps generalizing states l with
  | nil =>
    simp only [filterAvailable,Except.ok.injEq] at h
    subst h
    simp at hp
  | cons q ps ih =>
    set states' := Function.update states q.name ((states q.name).check config now) with hs
    simp only [filterAvailable,← hs] at h ⊢
    cases ha : ((states q.name).isProviderAvailable config now).1 with
    | error panic => simp [ha] at h
    | ok available =>
      cases hr : (filterAvailable config now ps states').1 with
      | error panic => simp [ha,hr] at h
      | ok l' =>
        simp only [ha,hr,Except.ok.injEq] at h ⊢
        have htail : p ∈ l' → p ∈ q :: ps ∧ ∃ i k,
            (((ProviderState.check config now)^[i] (states p.name)).isProviderAvailable
              config now).1 = .ok true ∧
            (filterAvailable config now ps states').2 p.name =
              (ProviderState.check config now)^[k] ((ProviderState.check config now)^[i+1]
                (states p.name)) := by
          intro hp'
          obtain ⟨hm,i,k,hi,hk⟩ := ih hr hp'
          refine ⟨List.mem_cons_of_mem _ hm,?_⟩
          by_cases hn : p.name = q.name
          · refine ⟨i+1,k,?_,?_⟩
            · simpa [hs,hn] using hi
            · simpa [hs,hn] using hk
          · refine ⟨i,k,?_,?_⟩
            · simpa [hs,hn] using hi
            · simpa [hs,hn] using hk
        cases available with
        | false => exact htail (by simpa [← h] using hp)
        | true =>
          rw [← h] at hp
          simp only [if_true,List.mem_cons] at hp
          rcases hp with rfl | hp
          · obtain ⟨k,hk⟩ := filterAvailable_states config now ps states' p.name
            refine ⟨List.mem_cons_self,0,k,ha,?_⟩
            simpa [hs] using hk
          · exact htail hp

namespace ProviderManager

def empty (draw : ℕ → ℕ) (config : ChainConfig) : ProviderManager ι ε where
  providers := []
  selectedProvider := ""
  states := fun _ => {}
  config := config
  semaphore := config.maxConcurrency
  selector := selectorFor draw config.selectionStrategy
  scoringEngine := none
  engines := fun _ => none
  tracked := by simp

/-- `newProviderManager`. A channel of negative capacity cannot be made. -/
def newProviderManager (draw : ℕ → ℕ) (config : ChainConfig) :
    Except Panic (ProviderManager ι ε) :=
  if config.maxConcurrency < 0 then .error .makechanSize else .ok (empty draw config)

theorem newProviderManager_ok_iff {draw : ℕ → ℕ} {config : ChainConfig}
    {pm : ProviderManager ι ε} : newProviderManager draw config = .ok pm ↔
      0 ≤ config.maxConcurrency ∧ pm = empty draw config := by
  unfold newProviderManager
  split_ifs with hnegative
  · simp [hnegative]
  · simp [not_lt.mp hnegative,eq_comm]

/-- `addProvider`; a nil provider is skipped. The three readings are those of the circuit,
health and rate-limit entries. -/
def addProvider (pm : ProviderManager ι ε) (slice : PrioritySort ι) (provider : Option ι)
    (priority : ℤ) (name : String) (changedAt checkedAt refilledAt : ℤ) :
    ProviderManager ι ε :=
  match provider with
  | none => pm
  | some provider =>
    { pm with
      providers := slice.sort (pm.providers ++ [⟨provider,priority,name⟩])
      states := Function.update pm.states name
        (ProviderState.fresh pm.config.rateLimit.burstSize changedAt checkedAt refilledAt)
      tracked := by
        intro p hp
        have hp' := (slice.perm _).subset hp
        by_cases hn : p.name = name
        · simp only [hn,Function.update_self]
          exact ProviderState.fresh_tracked _ _ _ _
        · simp only [Function.update_of_ne hn]
          rcases List.mem_append.mp hp' with h | h
          · exact pm.tracked p h
          · simp only [List.mem_singleton] at h
            subst h
            exact absurd rfl hn }

/-- Replace the entry at one name; only such updates that keep the entries are made. -/
def updateState (pm : ProviderManager ι ε) (name : String) (f : ProviderState → ProviderState)
    (hf : ∀ st, st.Tracked → (f st).Tracked) : ProviderManager ι ε :=
  { pm with
    states := Function.update pm.states name (f (pm.states name))
    tracked := by
      intro p hp
      by_cases hn : p.name = name
      · simp only [hn,Function.update_self]
        exact hf _ (hn ▸ pm.tracked p hp)
      · simp only [Function.update_of_ne hn]
        exact pm.tracked p hp }

def isProviderAvailable (pm : ProviderManager ι ε) (name : String) (now : ℤ) :
    Except Panic Bool × ProviderManager ι ε :=
  (((pm.states name).isProviderAvailable pm.config now).1,
    pm.updateState name (ProviderState.check pm.config now)
      (fun _ => ProviderState.check_tracked pm.config now))

/-- `getAvailableProviders`: the providers that pass their check at the one clock reading of
the call, in the order of the selection strategy. -/
def getAvailableProviders [ScoringEngine ε] (pm : ProviderManager ι ε) (now : ℤ) :
    Except Panic (List (ProviderConfig ι)) × ProviderManager ι ε :=
  let r := filterAvailable pm.config now pm.providers pm.states
  let pm' := { pm with
    states := r.2
    tracked := fun p hp => filterAvailable_tracked (pm.tracked p hp) }
  match r.1 with
  | .error panic => (.error panic,pm')
  | .ok available =>
    let sel := pm'.selector.selectProviders pm'.states pm'.engines available
    (.ok sel.1,{ pm' with selector := sel.2 })

/-- Hand an event to the scoring engine, where there is one. -/
def recordEvent [ScoringEngine ε] (pm : ProviderManager ι ε) (event : ScoreEvent) :
    ProviderManager ι ε :=
  { pm with
    engines := match pm.scoringEngine with
      | none => pm.engines
      | some engine => Function.update pm.engines engine
          ((pm.engines engine).map (fun e => ScoringEngine.recordEvent e event)) }

/-- `recordSuccess`, with the clock readings at lines 460, 469 and 478. -/
def recordSuccess [ScoringEngine ε] (pm : ProviderManager ι ε) (name : String)
    (closedAt requestAt scoredAt : ℤ) : ProviderManager ι ε :=
  (pm.updateState name (fun st => st.recordSuccess pm.config closedAt requestAt)
    (fun _ => ProviderState.recordSuccess_tracked pm.config closedAt requestAt)).recordEvent
    { type := .operationSuccess, provider := name, timestamp := scoredAt }

/-- The second half of `recordSuccessWithLatency`, lines 763-771. -/
def recordLatency [ScoringEngine ε] (pm : ProviderManager ι ε) (name : String)
    (responseTime : ℤ) (scoredAt : ℤ) : ProviderManager ι ε :=
  pm.recordEvent
    { type := .operationSuccess, provider := name, timestamp := scoredAt,
      responseTime := responseTime }

def updateFailureState (pm : ProviderManager ι ε) (name : String) (now : ℤ) :
    ProviderManager ι ε :=
  pm.updateState name (fun st => st.updateFailureState pm.config now)
    (fun _ => ProviderState.updateFailureState_tracked pm.config now)

/-- The event of a failed attempt, lines 685-718 of `recordFailureWithError`. -/
def scoreFailure [ScoringEngine ε] (pm : ProviderManager ι ε)
    (metadata : Option OperationMetadata) (name : String) (err : GoError)
    (responseTime : ℤ) (now : ℤ) : ProviderManager ι ε :=
  let event : ScoreEvent := if err.isAuth then
      { type := .operationAuthFail, provider := name, timestamp := now,
        responseTime := responseTime, error := some err }
    else classifyOperationEvent name responseTime (some err) now
  pm.recordEvent (match metadata with
    | some m => { event with metadata := m.toMap }
    | none => event)

def handleAuthFailure (pm : ProviderManager ι ε) (name : String) (now : ℤ) :
    ProviderManager ι ε :=
  pm.updateState name (fun st => st.handleAuthFailure pm.config now)
    (fun _ => ProviderState.handleAuthFailure_tracked pm.config now)

/-- `recordFailureWithError`, whose only clock reading is `now`. -/
def recordFailureWithError [ScoringEngine ε] (pm : ProviderManager ι ε)
    (metadata : Option OperationMetadata) (name : String) (err : GoError)
    (responseTime : ℤ) (now : ℤ) : ProviderManager ι ε :=
  let pm := (pm.updateFailureState name now).scoreFailure metadata name err responseTime now
  if err.isAuth then pm.handleAuthFailure name now else pm

/-- `updateChainConfig`. The configuration is replaced before the semaphore is resized, and
resizing it to a negative capacity panics. -/
def updateChainConfig (pm : ProviderManager ι ε) (draw : ℕ → ℕ) (config : ChainConfig) :
    Except Panic Unit × ProviderManager ι ε :=
  let oldStrategy := pm.config.selectionStrategy
  let pm := { pm with config := config }
  if pm.semaphore ≠ config.maxConcurrency ∧ config.maxConcurrency < 0 then
    (.error .makechanSize,pm)
  else
    let pm := { pm with semaphore := config.maxConcurrency }
    if oldStrategy ≠ config.selectionStrategy then
      (.ok (),{ pm with selector := selectorFor draw config.selectionStrategy })
    else (.ok (),pm)

@[simp] theorem updateChainConfig_config (pm : ProviderManager ι ε) (draw : ℕ → ℕ)
    (config : ChainConfig) : (pm.updateChainConfig draw config).2.config = config := by
  simp only [updateChainConfig]
  split_ifs <;> rfl

/-- `SetSelectionStrategy`. A failed request changes nothing. -/
def setSelectionStrategy (pm : ProviderManager ι ε) (draw : ℕ → ℕ) (strategy : SelectionStrategy) :
    Except GoError Unit × ProviderManager ι ε :=
  if !strategy.isValid then
    (.error (.plain ("invalid selection strategy: " ++ strategy.string)),pm)
  else
    match newSelectionStrategy draw strategy with
    | .error err => (.error err,pm)
    | .ok selector =>
      (.ok (),{ pm with
        selector := selector
        config := { pm.config with selectionStrategy := strategy } })

/-- Register the providers of a chain with an engine, in their order. -/
def registerAll [ScoringEngine ε] (providers : List (ProviderConfig ι)) (engine : ε) : ε :=
  providers.foldl (fun e p => ScoringEngine.registerProvider e p.name p.priority) engine

/-- `SetScoringEngine` with the engine's address and content: it gets the registered
providers, and the manager the adaptive selector. A nil engine leaves the selector alone. -/
def setScoringEngine [ScoringEngine ε] (pm : ProviderManager ι ε) (engine : Option (ℕ × ε)) :
    ProviderManager ι ε :=
  match engine with
  | none => { pm with scoringEngine := none }
  | some (address,engine) =>
    { pm with
      scoringEngine := some address
      engines := Function.update pm.engines address (some (registerAll pm.providers engine))
      selector := .adaptive address
      config := { pm.config with selectionStrategy := .adaptive } }

/-- `findProviderByName`, up to the lower-case form of the names. -/
def findProviderByName (toLower : String → String) (list : List (ProviderConfig ι))
    (name : String) : Option (ProviderConfig ι) :=
  list.find? (fun p => decide (toLower p.name = toLower name))

/-- A chain with one provider on its own, as the source's tests build it. -/
def single (config : ChainConfig) (name : String) : ProviderManager Unit Unit :=
  (empty (fun _ => 0) config).addProvider .insertion (some ()) 1 name 0 0 0

/-- A chain with two providers, the first of which has the better priority. -/
def pair (config : ChainConfig) : ProviderManager String Unit :=
  ((empty (fun _ => 0) config).addProvider .insertion (some "a") 1 "a" 0 0 0).addProvider
    .insertion (some "b") 2 "b" 0 0 0

@[simp] theorem updateState_states_self (pm : ProviderManager ι ε) (name : String)
    (f : ProviderState → ProviderState) (hf) :
    (pm.updateState name f hf).states name = f (pm.states name) := by simp [updateState]

@[simp] theorem updateState_states_of_ne (pm : ProviderManager ι ε) {name other : String}
    (f : ProviderState → ProviderState) (hf) (h : other ≠ name) :
    (pm.updateState name f hf).states other = pm.states other := by simp [updateState,h]

@[simp] theorem updateState_config (pm : ProviderManager ι ε) (name : String)
    (f : ProviderState → ProviderState) (hf) :
    (pm.updateState name f hf).config = pm.config := rfl

@[simp] theorem recordEvent_states [ScoringEngine ε] (pm : ProviderManager ι ε)
    (event : ScoreEvent) : (pm.recordEvent event).states = pm.states := rfl

@[simp] theorem recordEvent_config [ScoringEngine ε] (pm : ProviderManager ι ε)
    (event : ScoreEvent) : (pm.recordEvent event).config = pm.config := rfl

end ProviderManager
end ChainKit
