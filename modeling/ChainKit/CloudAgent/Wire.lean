import ChainKit.CloudAgent.Options

/-! Telemetry events and the batches in which they are sent. Floating-point values are exact. -/
namespace ChainKit

/-- `RequestEvent`: one top-level operation. -/
structure RequestEvent where
  provider : String
  operation : String
  success : Bool
  duration : ℤ
  attemptCount : ℤ
  errorClass : String
  deriving DecidableEq

namespace CloudAgent

inductive ScoreEventKind
  | scoreChange | effective | event | latency | storeOp | cacheHit | providerRank
  deriving DecidableEq, Repr

def ScoreEventKind.string : ScoreEventKind → String
  | .scoreChange => "score_change"
  | .effective => "effective"
  | .event => "event"
  | .latency => "latency"
  | .storeOp => "store_op"
  | .cacheHit => "cache_hit"
  | .providerRank => "provider_rank"

/-- `ScoreEvent`: one call of the scoring recorder. -/
structure ScoreEvent where
  provider : String := ""
  kind : ScoreEventKind
  eventType : String := ""
  scoreType : String := ""
  operation : String := ""
  store : String := ""
  oldValue : ℚ := 0
  newValue : ℚ := 0
  score : ℚ := 0
  latency : ℤ := 0
  success : Bool := false
  cacheHit : Bool := false
  rank : ℤ := 0
  totalProviders : ℤ := 0
  storeErrText : String := ""
  deriving DecidableEq

/-- The recorders set exactly one of `Request` and `Score`. -/
inductive Payload
  | request (r : RequestEvent)
  | score (s : ScoreEvent)
  deriving DecidableEq

structure Event where
  capturedAt : ℤ
  payload : Payload
  deriving DecidableEq

def schemaV1 : String := "chainkit.ingest.v1"

structure WireRequest where
  provider : String
  operation : String
  chain : String
  network : String
  ok : Bool
  durMS : ℤ
  attempts : ℤ
  err : String
  deriving DecidableEq

structure WireScore where
  type : String
  provider : String
  eventType : String
  scoreType : String
  operation : String
  store : String
  oldValue : ℚ
  newValue : ℚ
  score : ℚ
  rtMS : ℤ
  success : Bool
  cacheHit : Bool
  rank : ℤ
  totalProviders : ℤ
  storeErr : String
  deriving DecidableEq

structure WireEnvelope where
  id : String
  t : ℤ
  kind : String
  req : Option WireRequest := none
  score : Option WireScore := none
  deriving DecidableEq

structure WireBatch where
  schema : String
  agent : String
  batchID : String
  sentAt : ℤ
  events : List WireEnvelope
  deriving DecidableEq

/-- What the agent gets from outside: the ids in the order in which `newEventID` mints them, the
batches that `json.Marshal` refuses and the URLs that `http.NewRequest` refuses, with the texts
of their errors. -/
structure Runtime where
  newEventID : ℕ → String
  marshalError : WireBatch → Option String := fun _ => none
  requestError : String → Option String := fun _ => none

/-- `Duration.Milliseconds`, cut down to an `int32`. -/
def int32Milliseconds (d : ℤ) : ℤ := (d.tdiv Duration.millisecond).bmod (2^32)

def wireRequest (opts : Options) (r : RequestEvent) : WireRequest where
  provider := r.provider
  operation := r.operation
  chain := opts.chain
  network := opts.network
  ok := r.success
  durMS := int32Milliseconds r.duration
  attempts := r.attemptCount.bmod (2^16)
  err := r.errorClass

def wireScore (s : ScoreEvent) : WireScore where
  type := s.kind.string
  provider := s.provider
  eventType := s.eventType
  scoreType := s.scoreType
  operation := s.operation
  store := s.store
  oldValue := s.oldValue
  newValue := s.newValue
  score := s.score
  rtMS := if 0 < s.latency then int32Milliseconds s.latency else 0
  success := s.success
  cacheHit := s.cacheHit
  rank := s.rank
  totalProviders := s.totalProviders
  storeErr := s.storeErrText

def wireEnvelope (opts : Options) (id : String) (ev : Event) : WireEnvelope :=
  match ev.payload with
  | .request r => { id := id, t := ev.capturedAt, kind := "req", req := some (wireRequest opts r) }
  | .score s => { id := id, t := ev.capturedAt, kind := "score", score := some (wireScore s) }

@[simp] theorem wireEnvelope_id (opts : Options) (id : String) (ev : Event) :
    (wireEnvelope opts id ev).id = id := by
  unfold wireEnvelope
  cases ev.payload <;> rfl

/-- The batch that `buildBatch` serialises; `idGen` mints one id for each event. -/
def buildBatch (events : List Event) (opts : Options) (batchID : String) (sentAt : ℤ)
    (idGen : ℕ → String) : WireBatch where
  schema := schemaV1
  agent := opts.agentName
  batchID := batchID
  sentAt := sentAt
  events := events.mapIdx fun i ev => wireEnvelope opts (idGen i) ev

@[simp] theorem buildBatch_ids (events : List Event) (opts : Options) (batchID : String)
    (sentAt : ℤ) (idGen : ℕ → String) :
    (buildBatch events opts batchID sentAt idGen).events.map WireEnvelope.id =
      (List.range events.length).map idGen := by
  apply List.ext_getElem
  · simp [buildBatch]
  · intro i _ _
    simp [buildBatch]

end CloudAgent
end ChainKit
