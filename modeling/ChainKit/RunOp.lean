import ChainKit.Manager

/-! One operation run over a chain with fallback and retry (`runOp`, `attemptWithRetry`).
The surroundings answer by position: the clock by the number of readings so far, the
operation by the number of its invocations and the backoff wait by the number of waits in
the call. A log records every invocation together with the moment at which it is made. -/
namespace ChainKit
variable {ι ε δ : Type}

/-- The process around the managers: a clock that never goes back, and the Unicode
lower-case mapping of the standard library. -/
structure Host where
  now : ℕ → ℤ
  now_mono : Monotone now
  toLower : String → String

/-- A host whose clock stands still; the names it meets are in lower case. -/
def Host.frozen (t : ℤ) : Host := ⟨fun _ => t,monotone_const,id⟩

/-- One call: what its context carries, and how the operation and the waits turn out. A wait
answers `none` when the timer fires and the context's error when `ctx.Done()` wins. -/
structure Call (ι δ : Type) where
  providerName : Option String := none
  metadata : Option OperationMetadata := none
  failedProviders : Option (List String) := none
  op : ℕ → ι → Except GoError δ
  wait : ℕ → Option GoError := fun _ => none

def failingCall : Call Unit ℕ where
  op _ _ := .error (.plain "failed")

/-- One invocation of the operation, with the tracking entry of its provider at that moment. -/
structure Dispatch (ι δ : Type) where
  provider : ProviderConfig ι
  startedAt : ℤ
  state : ProviderState
  result : Except GoError δ

def Dispatch.err (d : Dispatch ι δ) : Option GoError :=
  match d.result with
  | .ok _ => none
  | .error err => some err

structure World (ι ε δ : Type) where
  pm : ProviderManager ι ε
  ticks : ℕ := 0
  log : List (Dispatch ι δ) := []
  invoked : ℕ := 0
  waited : ℕ := 0
  failedProviders : Option (List String) := none

/-- The results of `runOp`, in the source's order. -/
structure OpReturn (δ : Type) where
  data : Option δ
  providerName : String
  duration : ℤ
  attempts : ℕ
  err : Option GoError

namespace World

def start (pm : ProviderManager ι ε) : World ι ε δ := { pm := pm }

def now (w : World ι ε δ) (host : Host) : ℤ := host.now w.ticks

def tick (w : World ι ε δ) : World ι ε δ := { w with ticks := w.ticks+1 }

/-- `getAvailableProviders` at the next clock reading. -/
def getAvailableProviders [ScoringEngine ε] (w : World ι ε δ) (host : Host) :
    Except Panic (List (ProviderConfig ι)) × World ι ε δ :=
  let r := w.pm.getAvailableProviders (w.now host)
  (r.1,{ w.tick with pm := r.2 })

/-- Narrow the list to a pinned provider, lines 270-289. The context comes first. -/
def narrow (w : World ι ε δ) (host : Host) (call : Call ι δ) (providers : List (ProviderConfig ι)) :
    Except GoError (List (ProviderConfig ι)) :=
  match call.providerName with
  | some name =>
    match ProviderManager.findProviderByName host.toLower providers name with
    | some pinned => .ok [pinned]
    | none => .error (.plain ("context-specified provider " ++ name ++ " is not available"))
  | none =>
    if w.pm.selectedProvider ≠ "" then
      match ProviderManager.findProviderByName host.toLower providers w.pm.selectedProvider with
      | some pinned => .ok [pinned]
      | none =>
        .error (.plain ("selected provider " ++ w.pm.selectedProvider ++ " is not available"))
    else .ok providers

/-- The providers that the call will try, or the error it returns at once, lines 262-289. -/
def candidates [ScoringEngine ε] (w : World ι ε δ) (host : Host) (call : Call ι δ) :
    Except Panic (Except GoError (List (ProviderConfig ι))) × World ι ε δ :=
  let r := w.getAvailableProviders host
  match r.1 with
  | .error panic => (.error panic,r.2)
  | .ok [] =>
    (.ok (.error (.wrap "" GoError.ErrProviderNotConfigured ": no available providers")),r.2)
  | .ok providers => (.ok (r.2.narrow host call providers),r.2)

/-- The next invocation of the operation, when it is made on `p`. -/
def invocation (w : World ι ε δ) (host : Host) (call : Call ι δ) (p : ProviderConfig ι) :
    Dispatch ι δ := ⟨p,w.now host,w.pm.states p.name,call.op w.invoked p.provider⟩

/-- The operation is invoked: its start is read from the clock and the log gets an entry. -/
def dispatch (w : World ι ε δ) (host : Host) (call : Call ι δ) (p : ProviderConfig ι) :
    World ι ε δ :=
  { w.tick with invoked := w.invoked+1, log := w.log ++ [w.invocation host call p] }

def recordSuccess [ScoringEngine ε] (w : World ι ε δ) (host : Host) (name : String) :
    World ι ε δ :=
  { w with
    pm := w.pm.recordSuccess name (host.now w.ticks) (host.now (w.ticks+1)) (host.now (w.ticks+2))
    ticks := w.ticks+3 }

def recordLatency [ScoringEngine ε] (w : World ι ε δ) (host : Host) (name : String)
    (elapsed : ℤ) : World ι ε δ :=
  { w.tick with pm := w.pm.recordLatency name elapsed (w.now host) }

/-- `recordSuccessWithLatency`. Readings that a branch does not take are passed over. -/
def recordSuccessWithLatency [ScoringEngine ε] (w : World ι ε δ) (host : Host) (name : String)
    (elapsed : ℤ) : World ι ε δ :=
  (w.recordSuccess host name).recordLatency host name elapsed

def recordFailureWithError [ScoringEngine ε] (w : World ι ε δ) (host : Host) (call : Call ι δ)
    (name : String) (err : GoError) (elapsed : ℤ) : World ι ε δ :=
  { w.tick with pm := w.pm.recordFailureWithError call.metadata name err elapsed (w.now host) }

/-- `recordFailedProvider`: nothing happens without a debug context. -/
def recordFailedProvider (w : World ι ε δ) (name : String) : World ι ε δ :=
  { w with failedProviders := w.failedProviders.map (· ++ [name]) }

def recordAttempt (w : World ι ε δ) (p : ProviderConfig ι) : World ι ε δ :=
  { w with pm := { w.pm with selector := w.pm.selector.recordAttempt p.priority } }

/-- One round of the retry loop after its wait, lines 339-349: invoke the operation and
record what came of it. -/
def attemptOnce [ScoringEngine ε] (w : World ι ε δ) (host : Host) (call : Call ι δ)
    (p : ProviderConfig ι) : Except GoError δ × World ι ε δ :=
  let start := w.now host
  let w' := w.dispatch host call p
  let elapsed := w'.now host-start
  match call.op w.invoked p.provider with
  | .ok data => (.ok data,w'.tick.recordSuccessWithLatency host p.name elapsed)
  | .error err => (.error err,w'.tick.recordFailureWithError host call p.name err elapsed)

/-- The retry loop with `n` rounds left. The results are the data, the attempts and the error. -/
def attemptLoop [ScoringEngine ε] (host : Host) (call : Call ι δ) (p : ProviderConfig ι) :
    ℕ → ℕ → Option GoError → World ι ε δ → (Option δ × ℕ × Option GoError) × World ι ε δ
  | 0,attempts,lastErr,w => ((none,attempts,lastErr),w)
  | n+1,attempts,_,w =>
    let cancelled := if 0 < attempts then call.wait w.waited else none
    let w := if 0 < attempts then { w with waited := w.waited+1 } else w
    match cancelled with
    | some err => ((none,attempts,some err),w)
    | none =>
      let r := w.attemptOnce host call p
      match r.1 with
      | .ok data => ((some data,attempts+1,none),r.2)
      | .error err => attemptLoop host call p n (attempts+1) (some err) r.2

def attemptWithRetry [ScoringEngine ε] (w : World ι ε δ) (host : Host) (call : Call ι δ)
    (p : ProviderConfig ι) (policy : RetryPolicy) :
    (Option δ × ℕ × Option GoError) × World ι ε δ :=
  attemptLoop host call p policy.attempts 0 none w

/-- The error of a call that has run through its whole list. -/
def allFailed (lastErr : Option GoError) : GoError :=
  match lastErr with
  | some e => .wrap "all providers failed, last error: " e ""
  | none => .plain "all providers failed, last error: %!w(<nil>)"

/-- The loop of `runOp` over the providers, lines 293-307. -/
def runOpLoop [ScoringEngine ε] (host : Host) (call : Call ι δ) (policy : RetryPolicy)
    (start : ℤ) :
    List (ProviderConfig ι) → ℕ → Option GoError → World ι ε δ → OpReturn δ × World ι ε δ
  | [],total,lastErr,w => (⟨none,"",w.now host-start,total,some (allFailed lastErr)⟩,w.tick)
  | p :: ps,total,_,w =>
    let r := w.attemptWithRetry host call p policy
    match r.1.2.2 with
    | none =>
      let w := r.2.recordAttempt p
      (⟨r.1.1,p.name,w.now host-start,total+r.1.2.1,none⟩,w.tick)
    | some opErr =>
      runOpLoop host call policy start ps (total+r.1.2.1) (some opErr)
        (r.2.recordFailedProvider p.name)

/-- The state in which a call starts: its own counters are at zero and the debug context is
the caller's. -/
def enter (w : World ι ε δ) (call : Call ι δ) : World ι ε δ :=
  { w.tick with invoked := 0, waited := 0, failedProviders := call.failedProviders }

def runOp [ScoringEngine ε] (w : World ι ε δ) (host : Host) (call : Call ι δ) :
    Except Panic (OpReturn δ) × World ι ε δ :=
  let start := w.now host
  let c := (w.enter call).candidates host call
  match c.1 with
  | .error panic => (.error panic,c.2)
  | .ok (.error err) => (.ok ⟨none,"",c.2.now host-start,0,some err⟩,c.2.tick)
  | .ok (.ok providers) =>
    let r := runOpLoop host call c.2.pm.config.retryPolicy start providers 0 none c.2
    (.ok r.1,r.2)

def runCalls [ScoringEngine ε] (w : World ι ε δ) (host : Host) (calls : List (Call ι δ)) :
    World ι ε δ :=
  calls.foldl (fun w call => (w.runOp host call).2) w

end World
end ChainKit
