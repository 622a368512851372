import ChainKit.CloudAgent.Recorders
import ChainKit.Facade

/-! From a call to the cloud. The goroutines of a client tell the cloud agent's `MetricsRecorder`
what came of their calls; it takes a sample, stamps the events and pushes them into its transport,
whose loop sends them. -/
namespace ChainKit.CloudAgent
open Lib
variable {ι ε δ : Type}

/-- `shouldSample`, for the number that is drawn. -/
def Options.shouldSample (o : Options) (draw : ℚ) : Bool :=
  if 1 ≤ o.sampleRate then true
  else if o.sampleRate ≤ 0 then false
  else decide (draw < o.sampleRate)

/-- The client and its recorder with the agent behind it. -/
structure Telemetry (ι ε δ : Type) where
  client : Client ℕ ι ε δ
  recorders : Recorders

/-- A goroutine of the client takes a step, or something happens in the agent. Only the client
stamps events here. -/
inductive TelemetryAct
  | call (t : ℕ)
  | agent (a : Act) (h : a.isStamp = false)

def TelemetryAct.call? : TelemetryAct → Option ℕ
  | .call t => some t
  | .agent _ _ => none

namespace Telemetry

def start (mp : MixedProviders ι ε) (requests : ℕ → Request ι δ) (opts : Options) :
    Telemetry ι ε δ where
  client := .start mp requests
  recorders := .start opts

section Steps
variable [ScoringEngine ε] (rt : Runtime) (opts : Options) (draw : ℕ → ℚ) (u : Unicode)
  (host : Host)

/-- `RecordBlockchainRequestRich`, up to the push. -/
def recordBlockchainRequestRich (s : Telemetry ι ε δ) (t : ℕ) (e : RequestEvent) : Recorders :=
  if opts.withDefaults.shouldSample (draw t) then s.recorders.step rt (.stamp t (.request e))
  else s.recorders

def step (s : Telemetry ι ε δ) : TelemetryAct → Telemetry ι ε δ
  | .call t =>
    { client := s.client.step u host t
      recorders := match (s.client.goroutines t).stage with
        | .running (.returned (.ok r)) => s.recordBlockchainRequestRich rt opts draw t
            (requestEvent u (s.client.goroutines t).request.operation r)
        | _ => s.recorders }
  | .agent a _ => { s with recorders := s.recorders.step rt a }

def run (s : Telemetry ι ε δ) (acts : List TelemetryAct) : Telemetry ι ε δ :=
  acts.foldl (step rt opts draw u host) s

@[simp] theorem run_concat (s : Telemetry ι ε δ) (acts : List TelemetryAct) (a : TelemetryAct) :
    s.run rt opts draw u host (acts ++ [a]) =
      (s.run rt opts draw u host acts).step rt opts draw u host a := by
  simp [run]

theorem run_client (s : Telemetry ι ε δ) (acts : List TelemetryAct) :
    (s.run rt opts draw u host acts).client =
      s.client.run u host (acts.filterMap TelemetryAct.call?) := by
  induction acts using List.reverseRecOn with
  | nil => rfl
  | append_singleton acts a ih =>
    rw [run_concat,List.filterMap_append]
    cases a with
    | call t =>
      have hcall : [TelemetryAct.call t].filterMap TelemetryAct.call? = [t] := rfl
      rw [hcall,Client.run_concat,← ih]
      rfl
    | agent a h =>
      have hcall : [TelemetryAct.agent a h].filterMap TelemetryAct.call? = [] := rfl
      rw [hcall,List.append_nil,← ih]
      rfl

theorem run_recorders (mp : MixedProviders ι ε) (requests : ℕ → Request ι δ)
    (acts : List TelemetryAct) : ∃ acts' : List Act,
      ((start mp requests opts).run rt opts draw u host acts).recorders =
        (Recorders.start opts).run rt acts' := by
  induction acts using List.reverseRecOn with
  | nil => exact ⟨[],rfl⟩
  | append_singleton acts a ih =>
    obtain ⟨acts',h⟩ := ih
    have hnext : ∀ a, ((Recorders.start opts).run rt acts').step rt a =
        (Recorders.start opts).run rt (acts' ++ [a]) := by simp [Recorders.run]
    rw [run_concat]
    cases a with
    | agent a ha => exact ⟨acts' ++ [a],by simp only [step,h,hnext]⟩
    | call t =>
      simp only [step]
      split
      · unfold recordBlockchainRequestRich
        split_ifs
        · exact ⟨acts' ++ [_],by rw [h,hnext]⟩
        · exact ⟨acts',h⟩
      · exact ⟨acts',h⟩

end Steps

section Sourced
variable (opts : Options) (draw : ℕ → ℚ)

def sampled (s : Telemetry ι ε δ) : List (ℕ × RequestEvent) :=
  s.client.recorded.filter fun x => opts.withDefaults.shouldSample (draw x.1)

/-- An event is what a goroutine has told the recorder. -/
def TellsOf (s : Telemetry ι ε δ) (t : ℕ) (e : Event) : Prop :=
  ∃ request, (t,request) ∈ s.client.recorded ∧ e.payload = .request request

/-- The events were pushed by `pushers`, in this order. They and the goroutines that are between
stamp and push are those whose calls are in the sample. -/
structure Sourced (s : Telemetry ι ε δ) (pushers : List ℕ) : Prop where
  pushed : List.Forall₂ (fun t r => s.TellsOf t r.event) pushers s.recorders.agent.history.pushed
  stamped : ∀ x ∈ s.recorders.stamped, s.TellsOf x.1 x.2
  sampled : (pushers ++ s.recorders.stamped.map Prod.fst).Perm
    ((s.sampled opts draw).map Prod.fst)

variable {opts draw} {s s' : Telemetry ι ε δ} {pushers : List ℕ}

theorem TellsOf.mono {t : ℕ} {e : Event} (h : s.TellsOf t e)
    (hrecorded : s.client.recorded ⊆ s'.client.recorded) : s'.TellsOf t e := by
  obtain ⟨request,hmem,hpayload⟩ := h
  exact ⟨request,hrecorded hmem,hpayload⟩

theorem Sourced.of_same (hs : s.Sourced opts draw pushers)
    (hrecorded : s'.client.recorded = s.client.recorded)
    (hpushed : s'.recorders.agent.history.pushed = s.recorders.agent.history.pushed)
    (hstamped : s'.recorders.stamped = s.recorders.stamped) : s'.Sourced opts draw pushers := by
  have htells : ∀ {t e}, s.TellsOf t e → s'.TellsOf t e :=
    fun h => h.mono (by rw [hrecorded]; exact List.Subset.refl _)
  refine ⟨?_,?_,?_⟩
  · rw [hpushed]
    exact hs.pushed.imp fun _ _ => htells
  · rw [hstamped]
    exact fun x hx => htells (hs.stamped x hx)
  · simpa only [Telemetry.sampled,hrecorded,hstamped] using hs.sampled

variable [ScoringEngine ε] {rt : Runtime} {u : Unicode} {host : Host}

theorem Sourced.record (hs : s.Sourced opts draw pushers) (hrecords : s.client.Records u) {t : ℕ}
    {r : OpReturn δ} (hstage : (s.client.goroutines t).stage = .running (.returned (.ok r))) :
    (s.step rt opts draw u host (.call t)).Sourced opts draw pushers := by
  set e := requestEvent u (s.client.goroutines t).request.operation r with he
  have hclient : (s.client.step u host t).recorded = s.client.recorded ++ [(t,e)] := by
    simp only [Client.step,hstage]
    rfl
  have hnew : ∀ e', (t,e') ∉ s.client.recorded := by
    intro e' hmem
    obtain ⟨r',hr',_⟩ := hrecords.told t e' hmem
    rw [hstage] at hr'
    cases hr'
  have htells : ∀ {t' e'}, s.TellsOf t' e' →
      (s.step rt opts draw u host (.call t)).TellsOf t' e' := by
    intro t' e' h
    apply h.mono
    simp only [step,hclient]
    exact List.subset_append_left _ _
  by_cases hsample : opts.withDefaults.shouldSample (draw t) = true
  · have hlookup : s.recorders.stamped.lookup t = none := by
      rw [List.lookup_eq_none_iff]
      intro x hx
      obtain ⟨e',hmem,_⟩ := hs.stamped x hx
      rw [bne_iff_ne]
      rintro rfl
      exact hnew e' hmem
    have hrecorders : (s.step rt opts draw u host (.call t)).recorders =
        s.recorders.step rt (.stamp t (.request e)) := by
      simp only [step,hstage,recordBlockchainRequestRich,if_pos hsample]
      rfl
    have hstamped : (s.step rt opts draw u host (.call t)).recorders.stamped =
        s.recorders.stamped ++ [(t,⟨s.recorders.clock,.request e⟩)] := by
      rw [hrecorders]
      simp [Recorders.step,hlookup]
    refine ⟨?_,?_,?_⟩
    · rw [hrecorders]
      exact hs.pushed.imp fun _ _ => htells
    · rw [hstamped]
      intro x hx
      rcases List.mem_append.mp hx with hx | hx
      · exact htells (hs.stamped x hx)
      · rw [List.mem_singleton.mp hx]
        exact ⟨e,by simp [step,hclient],rfl⟩
    · have hsampled : (s.step rt opts draw u host (.call t)).sampled opts draw =
          s.sampled opts draw ++ [(t,e)] := by
        simp [Telemetry.sampled,step,hclient,hsample]
      rw [hstamped,hsampled,List.map_append,List.map_append,← List.append_assoc]
      exact hs.sampled.append (.refl _)
  · have hrecorders : (s.step rt opts draw u host (.call t)).recorders = s.recorders := by
      simp only [step,hstage,recordBlockchainRequestRich,if_neg hsample]
    have hsampled : (s.step rt opts draw u host (.call t)).sampled opts draw =
        s.sampled opts draw := by
      simp [Telemetry.sampled,step,hclient,hsample]
    refine ⟨?_,?_,?_⟩
    · rw [hrecorders]
      exact hs.pushed.imp fun _ _ => htells
    · rw [hrecorders]
      exact fun x hx => htells (hs.stamped x hx)
    · rw [hrecorders,hsampled]
      exact hs.sampled

theorem Sourced.push (hs : s.Sourced opts draw pushers) (hrecords : s.client.Records u) (t : ℕ)
    (hcrash : s.recorders.agent.pc.crash = false) :
    ∃ pushers', (s.step rt opts draw u host (.agent (.push t) rfl)).Sourced opts draw pushers' := by
  cases hlookup : s.recorders.stamped.lookup t with
  | none =>
    refine ⟨pushers,hs.of_same rfl ?_ ?_⟩
    · simp [step,Recorders.step,Recorders.label,hlookup]
    · simp only [step,Recorders.step]
      rw [List.filter_eq_self]
      intro x hx
      have hne := List.lookup_eq_none_iff.mp hlookup x hx
      exact decide_eq_true (bne_iff_ne.mp hne).symm
  | some e =>
    have hmem : (t,e) ∈ s.recorders.stamped := by
      obtain ⟨before,after,hsplit,_⟩ := List.lookup_eq_some_iff.mp hlookup
      simp [hsplit]
    have hpushed : (s.step rt opts draw u host
        (.agent (.push t) rfl)).recorders.agent.history.pushed =
        s.recorders.agent.history.pushed ++ [⟨s.recorders.agent.history.pushed.length,e⟩] := by
      simp [step,Recorders.step,Recorders.label,hlookup,Agent.step,hcrash,Agent.push]
    refine ⟨pushers ++ [t],?_,?_,?_⟩
    · rw [hpushed]
      exact List.rel_append hs.pushed (.cons (hs.stamped _ hmem) .nil)
    · intro x hx
      exact hs.stamped x (List.mem_of_mem_filter hx)
    · have hnodup : (s.recorders.stamped.map Prod.fst).Nodup := by
        have h := (hs.sampled.nodup_iff.mpr ?_).of_append_right
        · exact h
        · exact hrecords.once.sublist (List.filter_sublist.map _)
      have hrest : ((s.recorders.stamped.filter fun call => call.1 ≠ t).map Prod.fst) =
          (s.recorders.stamped.map Prod.fst).erase t := by
        rw [hnodup.erase_eq_filter,List.filter_map]
        congr 2
        funext call
        rw [Bool.eq_iff_iff]
        simp
      have hperm : (s.recorders.stamped.map Prod.fst).Perm
          (t :: (s.recorders.stamped.filter fun call => call.1 ≠ t).map Prod.fst) := by
        rw [hrest]
        exact List.perm_cons_erase (List.mem_map_of_mem hmem)
      refine List.Perm.trans ?_ hs.sampled
      simp only [step,Recorders.step,List.append_assoc,List.singleton_append]
      exact (hperm.append_left pushers).symm

/-- A step that does not come after a panic of the agent keeps the sources. -/
theorem step_sourced (hs : s.Sourced opts draw pushers) (hrecords : s.client.Records u)
    (hcrash : s.recorders.agent.pc.crash = false) (a : TelemetryAct) :
    ∃ pushers', (s.step rt opts draw u host a).Sourced opts draw pushers' := by
  cases a with
  | call t =>
    refine ⟨pushers,?_⟩
    by_cases hstage : ∃ r, (s.client.goroutines t).stage = .running (.returned (.ok r))
    · obtain ⟨r,hr⟩ := hstage
      exact hs.record hrecords hr
    · have hclient : (s.client.step u host t).recorded = s.client.recorded := by
        apply Client.step_rule (P := fun c => c.recorded = s.client.recorded)
        case hrunOp => exact fun pc _ _ => rfl
        case hrecord => exact fun r hr => absurd ⟨r,hr⟩ hstage
        case hdone => exact fun r _ => rfl
      have hrecorders : (s.step rt opts draw u host (.call t)).recorders = s.recorders := by
        simp only [step]
        split
        next r hr => exact absurd ⟨r,hr⟩ hstage
        · rfl
      apply hs.of_same hclient
      · rw [hrecorders]
      · rw [hrecorders]
  | agent a ha =>
    cases a with
    | push t => exact hs.push hrecords t hcrash
    | stamp t payload => cases ha
    | tick d => exact ⟨pushers,hs.of_same rfl rfl rfl⟩
    | signal => exact ⟨pushers,hs.of_same rfl (Agent.step_pushed rt _ rfl) rfl⟩
    | stop => exact ⟨pushers,hs.of_same rfl (Agent.step_pushed rt _ rfl) rfl⟩
    | returnStop => exact ⟨pushers,hs.of_same rfl (Agent.step_pushed rt _ rfl) rfl⟩
    | loop turn => exact ⟨pushers,hs.of_same rfl (Agent.step_pushed rt _ rfl) rfl⟩

/-- A panic of the agent's loop ends the process. -/
theorem step_crash (a : TelemetryAct) (h : s.recorders.agent.pc.crash = true) :
    (s.step rt opts draw u host a).recorders.agent.pc.crash = true := by
  have hagent : ∀ a, ((s.recorders.step rt a).agent) = s.recorders.agent := by
    intro a
    simp only [Recorders.step]
    split
    · unfold Agent.step
      rw [if_pos h]
    · rfl
  cases a with
  | agent a ha =>
    simp only [step,hagent]
    exact h
  | call t =>
    simp only [step]
    split
    · unfold recordBlockchainRequestRich
      split_ifs
      · rwa [hagent]
      · exact h
    · exact h

theorem run_sourced (mp : MixedProviders ι ε) (requests : ℕ → Request ι δ)
    (acts : List TelemetryAct)
    (hcrash : ((start mp requests opts).run rt opts draw u host acts).recorders.agent.pc.crash =
      false) :
    ∃ pushers, ((start mp requests opts).run rt opts draw u host acts).Sourced opts draw
      pushers := by
  induction acts using List.reverseRecOn with
  | nil => exact ⟨[],.nil,by simp [run,start,Recorders.start],by simp [run,start,Recorders.start,
      Telemetry.sampled,Client.start]⟩
  | append_singleton acts a ih =>
    rw [run_concat] at hcrash ⊢
    have hbefore : ((start mp requests opts).run rt opts draw u host
        acts).recorders.agent.pc.crash = false := by
      rw [← Bool.not_eq_true]
      intro h
      rw [step_crash a h] at hcrash
      cases hcrash
    obtain ⟨pushers,hs⟩ := ih hbefore
    refine step_sourced hs ?_ hbefore a
    rw [run_client]
    exact Client.run_records u host mp requests _

end Sourced

theorem getElem?_pushed_seq {agent : Agent} (h : agent.Coherent) {r : Recorded}
    (hr : r ∈ agent.history.pushed) : agent.history.pushed[r.seq]? = some r := by
  obtain ⟨i,hi⟩ := List.mem_iff_getElem?.mp hr
  have hseq : (agent.history.pushed.map Recorded.seq)[i]? = some r.seq := by
    rw [List.getElem?_map,hi,Option.map_some]
  rw [h.pushed,List.getElem?_eq_some_iff] at hseq
  obtain ⟨_,hseq⟩ := hseq
  rw [List.getElem_range] at hseq
  rw [← hseq,hi]

/-- For every client, all requests, options and draws and every interleaving of the calls, their
pushes and the agent's loop, as long as the loop has not panicked: the calls in the sample that
have come to their end are accepted by the cloud, dropped, buffered, in flight or between stamp and
push, whenever the loop is not between counting a batch as dropped and discarding it. Each pushed
event is what one of these calls has told the recorder, no two events come from the same call, and
what they say is true of the invocations that the call has made. -/
theorem telemetry_conserved [ScoringEngine ε] (rt : Runtime) (opts : Options) (draw : ℕ → ℚ)
    (u : Unicode) (host : Host) (mp : MixedProviders ι ε) (requests : ℕ → Request ι δ)
    (acts : List TelemetryAct)
    (hcrash : ((start mp requests opts).run rt opts draw u host acts).recorders.agent.pc.crash =
      false) :
    let s := (start mp requests opts).run rt opts draw u host acts
    let agent := s.recorders.agent
    (agent.pc.counted = false → (s.sampled opts draw).length =
      agent.history.accepted.length+agent.transport.dropped+agent.transport.buf.length+
        agent.transport.inflight.length+s.recorders.stamped.length) ∧
    agent.history.accepted.Sublist agent.history.pushed ∧
    ∃ source : Recorded → ℕ, Set.InjOn source {r | r ∈ agent.history.pushed} ∧
      ∀ r ∈ agent.history.pushed, ∃ e, (source r,e) ∈ s.sampled opts draw ∧
        r.event.payload = .request e ∧
        e.Truthful u (requests (source r)) ((Client.start mp requests).invocations u host (source r)
          (acts.filterMap TelemetryAct.call?)) := by
  intro s agent
  obtain ⟨pushers,hs⟩ : ∃ pushers, s.Sourced opts draw pushers :=
    run_sourced mp requests acts hcrash
  obtain ⟨labels,hagent⟩ : ∃ labels, agent = (Agent.start opts).run rt labels := by
    obtain ⟨acts',h⟩ := run_recorders rt opts draw u host mp requests acts
    exact ⟨_,by simp only [agent,s,h,Recorders.run_agent]; rfl⟩
  have hlength : pushers.length = agent.history.pushed.length := hs.pushed.length_eq
  have hclient : s.client = (Client.start mp requests).run u host
      (acts.filterMap TelemetryAct.call?) := run_client rt opts draw u host _ acts
  have hrecords : s.client.Records u := hclient ▸ Client.run_records u host mp requests _
  have hnodup : pushers.Nodup := by
    have h := hs.sampled.nodup_iff.mpr (hrecords.once.sublist (List.filter_sublist.map _))
    exact h.of_append_left
  have hcoherent : agent.Coherent := hagent ▸ Agent.run_coherent rt opts labels
  refine ⟨?_,?_,fun r => pushers.getD r.seq 0,?_,?_⟩
  · intro hcounted
    have hpushed := Agent.run_length rt opts labels (hagent ▸ hcounted)
    rw [← hagent] at hpushed
    have hsampled := hs.sampled.length_eq
    simp only [List.length_append,List.length_map] at hsampled
    omega
  · rw [hagent]
    exact Agent.run_accepted_sublist rt opts labels
  · intro r hr r' hr' heq
    have hget := getElem?_pushed_seq hcoherent hr
    have hget' := getElem?_pushed_seq hcoherent hr'
    obtain ⟨hlt,_⟩ := List.getElem?_eq_some_iff.mp hget
    obtain ⟨hlt',_⟩ := List.getElem?_eq_some_iff.mp hget'
    rw [← hlength] at hlt hlt'
    simp only [List.getD_eq_getElem _ _ hlt,List.getD_eq_getElem _ _ hlt'] at heq
    rw [hnodup.getElem_inj_iff.mp heq,hget'] at hget
    exact (Option.some.inj hget).symm
  · intro r hr
    have hget := getElem?_pushed_seq hcoherent hr
    obtain ⟨hlt,hr'⟩ := List.getElem?_eq_some_iff.mp hget
    have hlt' : r.seq < pushers.length := hlength ▸ hlt
    obtain ⟨e,hmem,hpayload⟩ := hs.pushed.get hlt' hlt
    replace hpayload : r.event.payload = .request e :=
      (congrArg (fun r => r.event.payload) hr').symm.trans hpayload
    simp only [List.get_eq_getElem] at hmem
    simp only [List.getD_eq_getElem _ _ hlt']
    refine ⟨e,List.mem_filter.mpr ⟨hmem,?_⟩,hpayload,?_⟩
    · have hpusher : pushers[r.seq] ∈ (s.sampled opts draw).map Prod.fst :=
        hs.sampled.subset (List.mem_append_left _ (List.getElem_mem hlt'))
      obtain ⟨x,hx,hfst⟩ := List.mem_map.mp hpusher
      rw [← hfst]
      exact (List.mem_filter.mp hx).2
    · rw [hclient] at hmem
      exact Client.run_truthful u host mp requests _ hmem

/-- Two calls of `GetBalance` that succeed on the only provider. The first one has pushed its event
and the loop has sent it. -/
def flushed : Telemetry Unit Unit ℕ :=
  (start ⟨fun _ => .single noRetryConfig "a",fun _ => none⟩
    (fun _ => ⟨.getBalance,{ op := fun _ _ => .ok 7 }⟩) {}).run .counting {} (fun _ => 0) .ascii
      (.frozen 0) ((List.replicate 11 [.call 0,.call 1]).flatten ++ [.agent (.push 0) rfl] ++
        List.replicate 7 (.agent (.loop {}) rfl))

theorem telemetry_conserved_flushed :
    flushed.recorders.agent.history.accepted.length = 1 ∧
      (flushed.sampled {} fun _ => 0).length =
        flushed.recorders.agent.history.accepted.length+
          flushed.recorders.agent.transport.dropped+
          flushed.recorders.agent.transport.buf.length+
          flushed.recorders.agent.transport.inflight.length+flushed.recorders.stamped.length := by
  have hcrash : flushed.recorders.agent.pc.crash = false := by decide +kernel
  have hcounted : flushed.recorders.agent.pc.counted = false := by decide +kernel
  exact ⟨by decide +kernel,(telemetry_conserved _ _ _ _ _ _ _ _ hcrash).1 hcounted⟩

end Telemetry
end ChainKit.CloudAgent
