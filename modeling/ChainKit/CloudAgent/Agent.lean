import ChainKit.CloudAgent.Transport
import ChainKit.Lib.Schedule

/-! The flush loop of the transport and its runs. A step is one access to what the goroutines
share: a critical section, an update of a counter, an operation on a channel or a reply of the
cloud. Between two steps of the loop any pushes and stops may come. -/
namespace ChainKit.CloudAgent
open Lib

/-- What `HTTPClient.Do` returns. -/
inductive Answer
  | error (err : GoError)
  | status (code : ℕ)
  deriving DecidableEq, Repr

/-- The branches of `flushOnce` on an answer. -/
inductive Outcome
  | accepted
  | retryable
  | rejected
  | poison
  deriving DecidableEq, Repr

def statusOutcome (code : ℕ) : Outcome :=
  if 200 ≤ code ∧ code < 300 then .accepted
  else if code = 429 ∨ 500 ≤ code then .retryable
  else if code = 401 ∨ code = 403 then .rejected
  else .poison

namespace Answer

def outcome : Answer → Outcome
  | .error _ => .retryable
  | .status code => statusOutcome code

/-- The error that `flushOnce` returns for an answer to `n` events. -/
def failure (n : ℕ) : Answer → GoError
  | .error err => .wrap "post: " err ""
  | .status code =>
    match statusOutcome code with
    | .retryable => .plain ("retryable status " ++ toString code)
    | .rejected => .plain ("chainkit rejected the API key (status " ++ toString code ++
        "): telemetry will not be delivered — check cloudagent.Options.APIKey")
    | _ => .plain ("non-retryable status " ++ toString code ++ " (dropped " ++ toString n ++
        " events)")

/-- Whether the cloud has ingested the batch. Only a batch that the agent will send again leaves
this open. -/
def ingests (a : Answer) (ingested : Bool) : Bool :=
  match a.outcome with
  | .accepted => true
  | .retryable => ingested
  | _ => false

end Answer

/-- A POST: the events of a batch and what it says on the wire. -/
structure Post where
  events : List Recorded
  batch : WireBatch
  deriving DecidableEq

/-- The events that a POST carries, each with its id. -/
def Post.carries (p : Post) : List (Recorded × String) :=
  p.events.zip (p.batch.events.map WireEnvelope.id)

/-- The ingest side of the cloud, for one project: a batch id or an event id that it has seen is
not ingested again. -/
structure Cloud where
  batchIDs : List String := []
  eventIDs : List String := []
  ingested : List Recorded := []

namespace Cloud

def ingestEvent (c : Cloud) (e : Recorded × String) : Cloud :=
  if e.2 ∈ c.eventIDs then c
  else { c with eventIDs := c.eventIDs ++ [e.2], ingested := c.ingested ++ [e.1] }

def ingest (c : Cloud) (p : Post) : Cloud :=
  if p.batch.batchID ∈ c.batchIDs then c
  else p.carries.foldl ingestEvent { c with batchIDs := c.batchIDs ++ [p.batch.batchID] }

end Cloud

/-- Who reports an error: `setTerminal`, `loop` or `drainAndExit`. -/
inductive Reporter
  | terminal
  | flush
  | drain
  deriving DecidableEq, Repr

/-- An entry in the log or a call of `OnError`. -/
inductive Notice
  | logged (reporter : Reporter) (err : GoError)
  | onError (reporter : Reporter) (err : GoError)
  deriving DecidableEq

def Notice.reporter : Notice → Reporter
  | .logged reporter _ => reporter
  | .onError reporter _ => reporter

/-- What has happened in a run. `answered` has the POSTs with their answers and `verdicts` what
the calls of `Stop` have returned. -/
structure History where
  pushed : List Recorded := []
  sent : List Post := []
  answered : List (Post × Answer) := []
  notices : List Notice := []
  verdicts : List (Option GoError) := []
  cloud : Cloud := {}

def History.acceptedBatches (h : History) : List Post :=
  (h.answered.filter fun a => decide (a.2.outcome = .accepted)).map Prod.fst

def History.accepted (h : History) : List Recorded := h.acceptedBatches.flatMap Post.events

/-- `flushOnce` is called by `loop`, or by `drainAndExit` with `pending` events left. -/
inductive Caller
  | loop
  | drain (pending : ℕ)
  deriving DecidableEq, Repr

inductive Pc
  | select
  | sleep
  | prune
  | isTerminal (caller : Caller)
  | take (caller : Caller)
  | build (caller : Caller)
  | await (caller : Caller) (post : Post)
  | discard (caller : Caller) (err : GoError) (terminal : Bool)
  | setTerminal (caller : Caller) (err : GoError)
  | reportTerminal (caller : Caller) (err : GoError)
  | flushed (caller : Caller) (ok : Bool) (err : Option GoError)
  | reportFlush (err : GoError)
  | drain
  | setDrainErr (err : GoError)
  | reportDrain (err : GoError)
  | exited
  | crashed (panic : Panic)

namespace Pc

def crash : Pc → Bool
  | .crashed _ => true
  | _ => false

def waits : Pc → Bool
  | .select | .sleep | .exited | .crashed _ => true
  | _ => false

def done : Pc → Bool
  | .exited => true
  | _ => false

@[simp] theorem done_iff {pc : Pc} : pc.done = true ↔ pc = .exited := by
  cases pc <;> simp [done]

@[simp] theorem crash_iff {pc : Pc} : pc.crash = true ↔ ∃ panic, pc = .crashed panic := by
  cases pc <;> simp [crash]

end Pc

/-- The agent: the transport, the loop with its local `backoff`, the calls of `Push` that are yet
to signal, the calls of `Stop` that wait, and the number of ids minted so far. -/
structure Agent where
  transport : Transport
  pc : Pc := .select
  backoff : ℤ := 0
  signalling : ℕ := 0
  stopping : ℕ := 0
  minted : ℕ := 0
  history : History := {}

/-- Which case of a `select` is taken. -/
inductive Wake
  | stop
  | tick
  | signal
  deriving DecidableEq, Repr

/-- What a step of the loop reads from outside. -/
structure Turn where
  wake : Wake := .tick
  now : ℤ := 0
  answer : Answer := .status 200
  ingested : Bool := true
  draw : ℕ := 0
  up : Bool := false

inductive Label
  | push (e : Event)
  | signal
  | stop
  | returnStop
  | loop (turn : Turn)

namespace Label

def isPush : Label → Bool
  | .push _ => true
  | _ => false

def isStop : Label → Bool
  | .stop => true
  | _ => false

end Label

def minBackoff : ℤ := 250*Duration.millisecond

/-- `nextBackoff`. `draw` and `up` are what the random generator gives. -/
def nextBackoff (draw : ℕ) (up : Bool) (current max : ℤ) : Except Panic ℤ :=
  let current := if current ≤ 0 then minBackoff else current*2
  let current := if max < current then max else current
  if current.tdiv 5 ≤ 0 then .error .int63nArgument
  else
    let jitter := (draw : ℤ) % current.tdiv 5
    .ok (if up then current+jitter else current-jitter)

namespace Agent

/-- `newHTTPTransport` on options with their defaults. -/
def start (opts : Options) : Agent where
  transport := { settings := opts.settings }

def goto (s : Agent) (pc : Pc) : Agent := { s with pc := pc }

def setTransport (s : Agent) (t : Transport) : Agent := { s with transport := t }

/-- One log entry, and one call of `OnError` where it is set. -/
def report (s : Agent) (reporter : Reporter) (err : GoError) : Agent :=
  { s with history := { s.history with
      notices := s.history.notices ++ .logged reporter err ::
        (if s.transport.settings.opts.onError then [.onError reporter err] else []) } }

/-- The POST that `flushOnce` builds from the batch in flight. The batch id is minted first. -/
def nextPost (rt : Runtime) (s : Agent) (now : ℤ) : Post where
  events := s.transport.inflight
  batch := buildBatch (s.transport.inflight.map Recorded.event) s.transport.settings.opts
    (rt.newEventID s.minted) now (fun i => rt.newEventID (s.minted+1+i))

def url (s : Agent) : String := s.transport.settings.opts.endpoint ++ "/v1/ingest"

/-- `flushOnce` after `takeInflight`, up to the request. -/
def build (rt : Runtime) (s : Agent) (now : ℤ) (caller : Caller) : Agent :=
  if s.transport.inflight = [] then s.goto (.flushed caller false none)
  else
    let post := s.nextPost rt now
    let s := { s with minted := s.minted+1+s.transport.inflight.length }
    match rt.marshalError post.batch with
    | some text => (s.setTransport s.transport.countInflight).goto
        (.discard caller (.wrap "serialise: " (.plain text) "") false)
    | none =>
      match rt.requestError s.url with
      | some text => (s.setTransport s.transport.returnInflightToHead).goto
          (.flushed caller false (some (.wrap "build request: " (.plain text) "")))
      | none =>
        { s with
          pc := .await caller post
          history := { s.history with sent := s.history.sent ++ [post] } }

def answered (s : Agent) (post : Post) (answer : Answer) (ingested : Bool) : Agent :=
  { s with history := { s.history with
      answered := s.history.answered ++ [(post,answer)]
      cloud := if answer.ingests ingested then s.history.cloud.ingest post
        else s.history.cloud } }

/-- `flushOnce` from the answer to its next step. -/
def receive (s : Agent) (caller : Caller) (post : Post) (answer : Answer) (ingested : Bool) :
    Agent :=
  let err := answer.failure s.transport.inflight.length
  let s := s.answered post answer ingested
  match answer.outcome with
  | .accepted => (s.setTransport s.transport.discardInflight).goto (.flushed caller true none)
  | .retryable => (s.setTransport s.transport.returnInflightToHead).goto
      (.flushed caller false (some err))
  | .rejected => (s.setTransport s.transport.countInflight).goto (.discard caller err true)
  | .poison => (s.setTransport s.transport.countInflight).goto (.discard caller err false)

/-- The switch of `loop` on what `flushOnce` has returned. -/
def settle (s : Agent) (turn : Turn) (ok : Bool) (err : Option GoError) : Agent :=
  match ok,err with
  | true,_ => { s with backoff := 0, pc := .select }
  | false,none => { s with backoff := 0, pc := .select }
  | false,some err =>
    if s.transport.isTerminal then { s with backoff := 0, pc := .select }
    else
      match nextBackoff turn.draw turn.up s.backoff s.transport.settings.opts.maxBackoff with
      | .error panic => s.goto (.crashed panic)
      | .ok backoff => { s with backoff := backoff, pc := .reportFlush err }

/-- The body of `drainAndExit` after `flushOnce`. -/
def settleDrain (s : Agent) (pending : ℕ) (ok : Bool) (err : Option GoError) : Agent :=
  if ok then s.goto .drain
  else if s.transport.isTerminal then s.goto .exited
  else
    match err with
    | none => s.goto .drain
    | some err => s.goto (.setDrainErr (.wrap
        (toString pending ++ " telemetry events undelivered at shutdown: ") err ""))

/-- One step of the loop goroutine. -/
def turn (rt : Runtime) (s : Agent) (x : Turn) : Agent :=
  match s.pc with
  | .select =>
    match x.wake with
    | .stop => if s.transport.stopCh then s.goto .drain else s
    | .tick => s.goto (if 0 < s.backoff then .sleep else .prune)
    | .signal =>
      if s.transport.signalCh then
        (s.setTransport { s.transport with signalCh := false }).goto
          (if 0 < s.backoff then .sleep else .prune)
      else s
  | .sleep =>
    match x.wake with
    | .stop => if s.transport.stopCh then s.goto .drain else s
    | _ => s.goto .prune
  | .prune => (s.setTransport (s.transport.pruneStale x.now)).goto (.isTerminal .loop)
  | .isTerminal caller =>
    if s.transport.isTerminal then s.goto (.flushed caller false none)
    else s.goto (.take caller)
  | .take caller => (s.setTransport s.transport.takeInflight).goto (.build caller)
  | .build caller => s.build rt x.now caller
  | .await caller post => s.receive caller post x.answer x.ingested
  | .discard caller err terminal =>
    (s.setTransport s.transport.discardInflight).goto
      (if terminal then .setTerminal caller err else .flushed caller false (some err))
  | .setTerminal caller err =>
    if s.transport.isTerminal then s.goto (.flushed caller false (some err))
    else (s.setTransport (s.transport.setTerminal err)).goto (.reportTerminal caller err)
  | .reportTerminal caller err =>
    (s.report .terminal err).goto (.flushed caller false (some err))
  | .flushed .loop ok err => s.settle x ok err
  | .flushed (.drain pending) ok err => s.settleDrain pending ok err
  | .reportFlush err => (s.report .flush err).goto .select
  | .drain =>
    let pending := s.transport.buf.length+s.transport.inflight.length
    if pending = 0 then s.goto .exited else s.goto (.isTerminal (.drain pending))
  | .setDrainErr err =>
    (s.setTransport { s.transport with drainErr := some err }).goto (.reportDrain err)
  | .reportDrain err => (s.report .drain err).goto .exited
  | .exited => s
  | .crashed _ => s

def push (s : Agent) (e : Event) : Agent :=
  let r : Recorded := ⟨s.history.pushed.length,e⟩
  { s with
    transport := (s.transport.push r).1
    signalling := if (s.transport.push r).2 then s.signalling+1 else s.signalling
    history := { s.history with pushed := s.history.pushed ++ [r] } }

/-- A call of `Push` puts its signal into the channel, unless one is there. -/
def signal (s : Agent) : Agent :=
  { s with transport := { s.transport with signalCh := true }, signalling := s.signalling-1 }

/-- A call of `Stop` closes the channel, if it is open, and waits for the loop. -/
def stop (s : Agent) : Agent :=
  { s with transport := { s.transport with stopCh := true }, stopping := s.stopping+1 }

def returnStop (s : Agent) : Agent :=
  { s with
    stopping := s.stopping-1
    history := { s.history with verdicts := s.history.verdicts ++ [s.transport.verdict] } }

/-- One step of the agent. A label that is not enabled changes nothing, and a panic of the loop
ends the process. -/
def step (rt : Runtime) (s : Agent) (l : Label) : Agent :=
  if s.pc.crash then s
  else
    match l with
    | .push e => s.push e
    | .signal => if 0 < s.signalling then s.signal else s
    | .stop => s.stop
    | .returnStop => if s.pc.done ∧ 0 < s.stopping then s.returnStop else s
    | .loop x => s.turn rt x

def run (rt : Runtime) (s : Agent) (labels : List Label) : Agent := labels.foldl (step rt) s

section Frames
variable (s : Agent)

@[simp] theorem goto_pc (pc : Pc) : (s.goto pc).pc = pc := rfl
@[simp] theorem goto_transport (pc : Pc) : (s.goto pc).transport = s.transport := rfl
@[simp] theorem goto_history (pc : Pc) : (s.goto pc).history = s.history := rfl
@[simp] theorem setTransport_transport (t : Transport) : (s.setTransport t).transport = t := rfl
@[simp] theorem setTransport_history (t : Transport) :
    (s.setTransport t).history = s.history := rfl
@[simp] theorem report_transport (reporter : Reporter) (err : GoError) :
    (s.report reporter err).transport = s.transport := rfl

end Frames

/-- The moves of the loop that only change where it stands, by what it reads. -/
inductive Flow (t : Transport) : Pc → Pc → Prop
  | stay {pc : Pc} (h : pc.waits = true) : Flow t pc pc
  | sleep : Flow t .select .sleep
  | prune : Flow t .select .prune
  | awake : Flow t .sleep .prune
  | stop {pc : Pc} (hpc : pc = .select ∨ pc = .sleep) (h : t.stopCh = true) : Flow t pc .drain
  | dead (caller : Caller) (h : t.isTerminal = true) :
      Flow t (.isTerminal caller) (.flushed caller false none)
  | alive (caller : Caller) (h : t.isTerminal = false) :
      Flow t (.isTerminal caller) (.take caller)
  | empty (caller : Caller) (h : t.inflight = []) :
      Flow t (.build caller) (.flushed caller false none)
  | again (caller : Caller) (err : GoError) (h : t.isTerminal = true) :
      Flow t (.setTerminal caller err) (.flushed caller false (some err))
  | select (ok : Bool) (err : Option GoError) : Flow t (.flushed .loop ok err) .select
  | crash (err : GoError) (panic : Panic) (h : t.isTerminal = false) :
      Flow t (.flushed .loop false (some err)) (.crashed panic)
  | failed (err : GoError) (h : t.isTerminal = false) :
      Flow t (.flushed .loop false (some err)) (.reportFlush err)
  | drainOn (pending : ℕ) (ok : Bool) (err : Option GoError) :
      Flow t (.flushed (.drain pending) ok err) .drain
  | drainDead (pending : ℕ) (err : Option GoError) (h : t.isTerminal = true) :
      Flow t (.flushed (.drain pending) false err) .exited
  | drainFailed (pending : ℕ) (err err' : GoError) (h : t.isTerminal = false) :
      Flow t (.flushed (.drain pending) false (some err)) (.setDrainErr err')
  | drained (hb : t.buf = []) (hi : t.inflight = []) : Flow t .drain .exited
  | drainNext (pending : ℕ) : Flow t .drain (.isTerminal (.drain pending))

inductive Turned (rt : Runtime) (x : Turn) (s : Agent) : Agent → Prop
  | control {pc : Pc} (backoff : ℤ) (signalCh : Bool) (h : Flow s.transport s.pc pc) :
      Turned rt x s { s with
        pc := pc
        backoff := backoff
        transport := { s.transport with signalCh := signalCh } }
  | prune (h : s.pc = .prune) :
      Turned rt x s ((s.setTransport (s.transport.pruneStale x.now)).goto (.isTerminal .loop))
  | take {caller : Caller} (h : s.pc = .take caller) :
      Turned rt x s ((s.setTransport s.transport.takeInflight).goto (.build caller))
  | serialise {caller : Caller} {text : String} (h : s.pc = .build caller)
      (hne : s.transport.inflight ≠ [])
      (hm : rt.marshalError (s.nextPost rt x.now).batch = some text) :
      Turned rt x s { s with
        minted := s.minted+1+s.transport.inflight.length
        transport := s.transport.countInflight
        pc := .discard caller (.wrap "serialise: " (.plain text) "") false }
  | refuse {caller : Caller} {text : String} (h : s.pc = .build caller)
      (hne : s.transport.inflight ≠ [])
      (hm : rt.marshalError (s.nextPost rt x.now).batch = none)
      (hr : rt.requestError s.url = some text) :
      Turned rt x s { s with
        minted := s.minted+1+s.transport.inflight.length
        transport := s.transport.returnInflightToHead
        pc := .flushed caller false (some (.wrap "build request: " (.plain text) "")) }
  | post {caller : Caller} (h : s.pc = .build caller) (hne : s.transport.inflight ≠ [])
      (hm : rt.marshalError (s.nextPost rt x.now).batch = none)
      (hr : rt.requestError s.url = none) :
      Turned rt x s { s with
        minted := s.minted+1+s.transport.inflight.length
        pc := .await caller (s.nextPost rt x.now)
        history := { s.history with sent := s.history.sent ++ [s.nextPost rt x.now] } }
  | accept {caller : Caller} {post : Post} (h : s.pc = .await caller post)
      (ha : x.answer.outcome = .accepted) :
      Turned rt x s (((s.answered post x.answer x.ingested).setTransport
        s.transport.discardInflight).goto (.flushed caller true none))
  | retry {caller : Caller} {post : Post} (err : GoError) (h : s.pc = .await caller post)
      (ha : x.answer.outcome = .retryable) :
      Turned rt x s (((s.answered post x.answer x.ingested).setTransport
        s.transport.returnInflightToHead).goto (.flushed caller false (some err)))
  | giveUp {caller : Caller} {post : Post} (err : GoError) (terminal : Bool)
      (h : s.pc = .await caller post)
      (ha : x.answer.outcome = if terminal then .rejected else .poison) :
      Turned rt x s (((s.answered post x.answer x.ingested).setTransport
        s.transport.countInflight).goto (.discard caller err terminal))
  | discard {caller : Caller} {err : GoError} {terminal : Bool}
      (h : s.pc = .discard caller err terminal) :
      Turned rt x s ((s.setTransport s.transport.discardInflight).goto
        (if terminal then .setTerminal caller err else .flushed caller false (some err)))
  | setTerminal {caller : Caller} {err : GoError} (h : s.pc = .setTerminal caller err)
      (ht : s.transport.isTerminal = false) :
      Turned rt x s ((s.setTransport (s.transport.setTerminal err)).goto
        (.reportTerminal caller err))
  | reportTerminal {caller : Caller} {err : GoError} (h : s.pc = .reportTerminal caller err) :
      Turned rt x s ((s.report .terminal err).goto (.flushed caller false (some err)))
  | reportFlush {err : GoError} (h : s.pc = .reportFlush err) :
      Turned rt x s ((s.report .flush err).goto .select)
  | setDrainErr {err : GoError} (h : s.pc = .setDrainErr err) :
      Turned rt x s ((s.setTransport { s.transport with drainErr := some err }).goto
        (.reportDrain err))
  | reportDrain {err : GoError} (h : s.pc = .reportDrain err) :
      Turned rt x s ((s.report .drain err).goto .exited)

section Turned
variable {rt : Runtime} {x : Turn} {s : Agent}

theorem Turned.flow {pc : Pc} (h : Flow s.transport s.pc pc) : Turned rt x s (s.goto pc) :=
  .control s.backoff s.transport.signalCh h

theorem build_turned {caller : Caller} (hpc : s.pc = .build caller) :
    Turned rt x s (s.build rt x.now caller) := by
  unfold build
  by_cases hnil : s.transport.inflight = []
  · rw [if_pos hnil]
    exact .flow (hpc ▸ .empty caller hnil)
  · rw [if_neg hnil]
    dsimp only
    cases hm : rt.marshalError (s.nextPost rt x.now).batch with
    | some text => exact .serialise hpc hnil hm
    | none =>
      dsimp only
      split
      · exact .refuse hpc hnil hm ‹_›
      · exact .post hpc hnil hm ‹_›

theorem receive_turned {caller : Caller} {post : Post} (hpc : s.pc = .await caller post) :
    Turned rt x s (s.receive caller post x.answer x.ingested) := by
  unfold receive
  cases ha : x.answer.outcome with
  | accepted => exact .accept hpc ha
  | retryable => exact .retry _ hpc ha
  | rejected => exact .giveUp _ true hpc ha
  | poison => exact .giveUp _ false hpc ha

theorem settle_turned {ok : Bool} {err : Option GoError} (hpc : s.pc = .flushed .loop ok err) :
    Turned rt x s (s.settle x ok err) := by
  have hselect : Turned rt x s { s with backoff := 0, pc := .select } :=
    .control 0 s.transport.signalCh (hpc ▸ .select ok err)
  unfold settle
  cases ok with
  | true => exact hselect
  | false =>
    cases err with
    | none => exact hselect
    | some err =>
      cases hterm : s.transport.isTerminal with
      | true => exact hselect
      | false =>
        dsimp only
        cases nextBackoff x.draw x.up s.backoff s.transport.settings.opts.maxBackoff with
        | error panic => exact .flow (hpc ▸ .crash err panic hterm)
        | ok backoff => exact .control backoff s.transport.signalCh (hpc ▸ .failed err hterm)

theorem settleDrain_turned {pending : ℕ} {ok : Bool} {err : Option GoError}
    (hpc : s.pc = .flushed (.drain pending) ok err) :
    Turned rt x s (s.settleDrain pending ok err) := by
  unfold settleDrain
  cases ok with
  | true => exact .flow (hpc ▸ .drainOn pending true err)
  | false =>
    cases hterm : s.transport.isTerminal with
    | true => exact .flow (hpc ▸ .drainDead pending err hterm)
    | false =>
      cases err with
      | none => exact .flow (hpc ▸ .drainOn pending false none)
      | some err => exact .flow (hpc ▸ .drainFailed pending err _ hterm)

theorem turn_turned (rt : Runtime) (s : Agent) (x : Turn) : Turned rt x s (s.turn rt x) := by
  have hstay (h : s.pc.waits = true) : Turned rt x s s := .flow (.stay h)
  unfold turn
  cases hpc : s.pc with
  | select =>
    cases x.wake with
    | stop =>
      dsimp only
      split_ifs with hstop
      · exact .flow (.stop (.inl hpc) hstop)
      · exact hstay (hpc ▸ rfl)
    | tick =>
      dsimp only
      split_ifs
      · exact .flow (hpc ▸ .sleep)
      · exact .flow (hpc ▸ .prune)
    | signal =>
      dsimp only
      split_ifs
      · exact .control s.backoff false (hpc ▸ .sleep)
      · exact .control s.backoff false (hpc ▸ .prune)
      · exact hstay (hpc ▸ rfl)
  | sleep =>
    cases x.wake with
    | stop =>
      dsimp only
      split_ifs with hstop
      · exact .flow (.stop (.inr hpc) hstop)
      · exact hstay (hpc ▸ rfl)
    | tick => exact .flow (hpc ▸ .awake)
    | signal => exact .flow (hpc ▸ .awake)
  | prune => exact .prune hpc
  | isTerminal caller =>
    dsimp only
    split_ifs with hterm
    · exact .flow (hpc ▸ .dead caller hterm)
    · exact .flow (hpc ▸ .alive caller (Bool.not_eq_true _ ▸ hterm))
  | take caller => exact .take hpc
  | build caller => exact build_turned hpc
  | await caller post => exact receive_turned hpc
  | discard caller err terminal => exact .discard hpc
  | setTerminal caller err =>
    dsimp only
    split_ifs with hterm
    · exact .flow (hpc ▸ .again caller err hterm)
    · exact .setTerminal hpc (Bool.not_eq_true _ ▸ hterm)
  | reportTerminal caller err => exact .reportTerminal hpc
  | flushed caller ok err =>
    cases caller with
    | loop => exact settle_turned hpc
    | drain pending => exact settleDrain_turned hpc
  | reportFlush err => exact .reportFlush hpc
  | drain =>
    dsimp only
    split_ifs with hzero
    · rw [Nat.add_eq_zero_iff,List.length_eq_zero_iff,List.length_eq_zero_iff] at hzero
      exact .flow (hpc ▸ .drained hzero.1 hzero.2)
    · exact .flow (hpc ▸ .drainNext _)
  | setDrainErr err => exact .setDrainErr hpc
  | reportDrain err => exact .reportDrain hpc
  | exited => exact hstay (hpc ▸ rfl)
  | crashed panic => exact hstay (hpc ▸ rfl)

end Turned

section Rules
variable {rt : Runtime} {s : Agent}

/-- A property of the next state: it holds if nothing happens, and after each kind of step. -/
theorem step_kinds {P : Agent → Prop} (l : Label) (hidle : P s)
    (hpush : ∀ e, l = .push e → P (s.push e)) (hsignal : P s.signal)
    (hstop : l = .stop → P s.stop) (hreturn : s.pc.done = true → P s.returnStop)
    (hturn : ∀ x, l = .loop x → P (s.turn rt x)) :
    P (s.step rt l) := by
  unfold step
  by_cases hcrash : s.pc.crash = true
  · rw [if_pos hcrash]
    exact hidle
  · rw [if_neg hcrash]
    cases l with
    | push e => exact hpush e rfl
    | signal =>
      dsimp only
      split_ifs
      · exact hsignal
      · exact hidle
    | stop => exact hstop rfl
    | returnStop =>
      dsimp only
      split_ifs with h
      · exact hreturn h.1
      · exact hidle
    | loop x => exact hturn x rfl

theorem step_rule {P : Agent → Prop} (l : Label) (hidle : P s)
    (hpush : ∀ e, l = .push e → P (s.push e)) (hsignal : P s.signal)
    (hstop : l = .stop → P s.stop) (hreturn : s.pc.done = true → P s.returnStop)
    (hturn : ∀ x s', l = .loop x → Turned rt x s s' → P s') :
    P (s.step rt l) :=
  step_kinds l hidle hpush hsignal hstop hreturn (fun x hl => hturn x _ hl (turn_turned rt s x))

@[simp] theorem run_nil : s.run rt [] = s := rfl

theorem run_append (l l' : List Label) : s.run rt (l ++ l') = (s.run rt l).run rt l' :=
  List.foldl_append

@[simp] theorem run_concat (l : List Label) (t : Label) :
    s.run rt (l ++ [t]) = (s.run rt l).step rt t := by
  simp [run]

theorem run_invariant {I : Agent → Prop} (hs : I s) (hstep : ∀ s l, I s → I (s.step rt l))
    (labels : List Label) : I (s.run rt labels) := by
  apply foldl_invariant hs
  intro before l after _ h
  exact hstep _ l h

/-- If a property after a step says that it held before and that the step was sound, every step
of a run that leads to the property is sound. -/
theorem run_steps (Q : Agent → Prop) (sound : Agent → Label → Prop)
    (hstep : ∀ (before : List Label) l, Q ((s.run rt before).step rt l) →
      Q (s.run rt before) ∧ sound (s.run rt before) l) {labels : List Label}
    (h : Q (s.run rt labels)) :
    ∀ before l after, labels = before ++ l :: after → sound (s.run rt before) l :=
  (foldl_sound hstep h).2

/-- What exactly the sound steps keep holds after a run if and only if its steps are sound. -/
theorem run_iff (Q : Agent → Prop) (sound : Agent → Label → Prop) (hs : Q s)
    (hstep : ∀ (before : List Label) l, Q ((s.run rt before).step rt l) ↔
      Q (s.run rt before) ∧ sound (s.run rt before) l) (labels : List Label) :
    Q (s.run rt labels) ↔
      ∀ before l after, labels = before ++ l :: after → sound (s.run rt before) l :=
  (foldl_iff hstep).trans (and_iff_right hs)

theorem step_settings (rt : Runtime) (l : Label) :
    (s.step rt l).transport.settings = s.transport.settings := by
  apply step_rule (P := fun s' => s'.transport.settings = s.transport.settings)
  case hidle => rfl
  case hpush => exact fun e _ => s.transport.push_settings _
  case hsignal => rfl
  case hstop => exact fun _ => rfl
  case hreturn => exact fun _ => rfl
  case hturn =>
    intro x s' _ h
    cases h <;> simp [Transport.pruneStale,Transport.countInflight,Transport.discardInflight]

theorem run_settings (rt : Runtime) (labels : List Label) :
    (s.run rt labels).transport.settings = s.transport.settings :=
  run_invariant (I := fun s' => s'.transport.settings = s.transport.settings) rfl
    (fun _ l h => (step_settings rt l).trans h) labels

end Rules
end Agent

/-- A runtime that refuses nothing; its ids are of growing length. -/
def Runtime.counting : Runtime where
  newEventID n := String.ofList (List.replicate n '0')

theorem Runtime.counting_injective : Function.Injective Runtime.counting.newEventID := by
  intro n m h
  have hlength := congrArg String.length h
  simpa [Runtime.counting] using hlength

def requestAt (capturedAt : ℤ) : Event where
  capturedAt := capturedAt
  payload := .request ⟨"mempool","GetUTXOs",true,0,1,""⟩

/-- One flush of the loop, from its `select` to the return of `flushOnce`. -/
def flushTurns (answer : Answer) : List Label :=
  List.replicate 5 (.loop {}) ++ [.loop { answer := answer },.loop {}]

end ChainKit.CloudAgent
