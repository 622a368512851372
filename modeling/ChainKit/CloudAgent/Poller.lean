import ChainKit.CloudAgent.Options
import ChainKit.ConfigUpdater

/-! The poller of the cloud agent: each tick asks the server for the desired configuration and
applies it. -/
namespace ChainKit.CloudAgent
variable {ι ε : Type}

/-- The body of a response, once decoded. -/
structure Envelope where
  version : ℤ
  etag : String
  config : ConfigSnapshot

/-- How a request ends: it cannot be built, it fails, or it gets a response, whose body may not
decode. -/
inductive FetchOutcome
  | unbuilt (e : GoError)
  | failed (e : GoError)
  | response (statusCode : ℕ) (etag : String) (body : Except GoError Envelope)

structure FetchResult where
  snap : ConfigSnapshot
  etag : String
  notModified : Bool

abbrev FetchFn := String → Except GoError FetchResult

def noopFetch : FetchFn := fun etag => .ok ⟨{},etag,true⟩

/-- The fetcher of `makeFetcher`, with a server that answers to the value of `If-None-Match`. -/
def makeFetcher (opts : Options) (server : Option String → FetchOutcome) : FetchFn := fun etag =>
  if opts.endpoint = "" then noopFetch etag
  else match server (if etag = "" then none else some etag) with
    | .unbuilt e => .error (.wrap "build request: " e "")
    | .failed e => .error (.wrap "get config: " e "")
    | .response statusCode header body =>
      if statusCode = 304 then .ok ⟨{},etag,true⟩
      else if statusCode = 404 then .ok ⟨{},etag,true⟩
      else if 200 ≤ statusCode ∧ statusCode < 300 then
        match body with
        | .error e => .error (.wrap "decode config: " e "")
        | .ok envelope => .ok ⟨envelope.config,if header = "" then envelope.etag else header,false⟩
      else .error (.plain ("config endpoint returned " ++ toString statusCode))

/-- An order in which `range` visits the entries of a map. -/
structure MapOrder where
  order : List (Σ _ : String, ChainConfig) → List (Σ _ : String, ChainConfig)
  perm : ∀ entries, (order entries).Perm entries

/-- What a tick meets: its fetch, the order of the loop over the chains, and the draws of the
selectors that are made. -/
structure Tick where
  fetch : FetchFn
  visit : MapOrder
  draw : ℕ → ℕ

variable (quote : String → String)

/-- The loop of `applySnapshot`, with the first error so far. -/
def applyChains (draw : ℕ → ℕ) : List (Σ _ : String, ChainConfig) → Option GoError →
    LiveProviders ι ε → Except UpdatePanic (Option GoError) × LiveProviders ι ε
  | [],firstErr,m => (.ok firstErr,m)
  | ⟨chain,cfg⟩ :: rest,firstErr,m =>
    match m.updateChainConfig quote draw chain cfg with
    | (.error panic,m) => (.error panic,m)
    | (.ok err,m) => applyChains draw rest (firstErr.or err) m

def applySnapshot (t : Tick) (m : LiveProviders ι ε) (snap : ConfigSnapshot) :
    Except UpdatePanic (Option GoError) × LiveProviders ι ε :=
  match applyChains quote t.draw (t.visit.order snap.chains.entries) none m with
  | (.error panic,m) => (.error panic,m)
  | (.ok firstErr,m) =>
    match m.setScoringWeights snap.scoringWeights with
    | (.error panic,m) => (.error panic,m)
    | (.ok err,m) => (.ok (firstErr.or err),m.setScoringEnabled snap.scoringEnabled)

/-- `ConfigPoller`; `LastApplied` returns `applied`. -/
structure ConfigPoller (ι ε : Type) where
  updater : LiveProviders ι ε
  applied : ConfigSnapshot
  etag : String

def newConfigPoller (updater : LiveProviders ι ε) : ConfigPoller ι ε := ⟨updater,{},""⟩

/-- `tick`: a panic, an error or nil. -/
def ConfigPoller.tick (p : ConfigPoller ι ε) (t : Tick) :
    Except UpdatePanic (Option GoError) × ConfigPoller ι ε :=
  match t.fetch p.etag with
  | .error e => (.ok (some e),p)
  | .ok res =>
    if res.notModified then (.ok none,p)
    else
      match applySnapshot quote t p.updater res.snap with
      | (.error panic,m) => (.error panic,{ p with updater := m })
      | (.ok (some e),m) => (.ok (some e),{ p with updater := m })
      | (.ok none,m) => (.ok none,{ p with updater := m, applied := res.snap, etag := res.etag })

end ChainKit.CloudAgent
