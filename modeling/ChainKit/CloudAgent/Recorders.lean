import ChainKit.CloudAgent.Delivery

/-! Recorder calls and the age of events. A call reads the clock for `CapturedAt` and pushes its
event in a second step, so events can be pushed out of the order of their stamps, and `pruneStale`
stops at the first event that has not expired. -/
namespace ChainKit.CloudAgent
open Lib

namespace Transport
variable (t : Transport) (now : ℤ)

def expired (r : Recorded) : Bool :=
  decide (r.event.capturedAt < now-t.settings.opts.eventTTL)

/-- An expired event in the buffer behind one that has not expired. -/
def Overtaken (r : Recorded) : Prop :=
  t.expired now r = true ∧ ∃ fresh, [fresh,r].Sublist t.buf ∧ t.expired now fresh = false

theorem pruneStale_buf : (t.pruneStale now).buf = t.buf.dropWhile (t.expired now) := by
  have h := List.takeWhile_append_dropWhile (p := t.expired now) (l := t.buf)
  calc t.buf.drop (t.buf.takeWhile (t.expired now)).length
      = (t.buf.takeWhile (t.expired now) ++ t.buf.dropWhile (t.expired now)).drop
          (t.buf.takeWhile (t.expired now)).length := by rw [h]
    _ = t.buf.dropWhile (t.expired now) := List.drop_left

/-- An expired event is left by a prune if and only if it was behind one that has not expired. -/
theorem mem_pruneStale_iff {r : Recorded} (hr : t.expired now r = true) :
    r ∈ (t.pruneStale now).buf ↔ t.Overtaken now r := by
  rw [pruneStale_buf,Overtaken,and_iff_right hr]
  induction t.buf with
  | nil => simp
  | cons a l ih =>
    by_cases ha : t.expired now a = true
    · rw [List.dropWhile_cons_of_pos ha,ih]
      constructor
      · rintro ⟨fresh,hsub,hfresh⟩
        exact ⟨fresh,hsub.cons a,hfresh⟩
      · rintro ⟨fresh,hsub,hfresh⟩
        refine ⟨fresh,?_,hfresh⟩
        rcases List.sublist_cons_iff.mp hsub with hsub | ⟨rest,heq,_⟩
        · exact hsub
        · obtain ⟨rfl,_⟩ := List.cons.inj heq
          rw [hfresh] at ha
          cases ha
    · rw [List.dropWhile_cons_of_neg ha]
      constructor
      · intro hmem
        have hne : r ≠ a := by
          rintro rfl
          exact ha hr
        have hl := List.mem_of_ne_of_mem hne hmem
        exact ⟨a,(List.singleton_sublist.mpr hl).cons_cons a,Bool.not_eq_true _ ▸ ha⟩
      · rintro ⟨fresh,hsub,_⟩
        exact hsub.subset (by simp)

def held : List Recorded := t.inflight ++ t.buf

theorem takeInflight_held : t.takeInflight.held ⊆ t.held := by
  unfold takeInflight held
  split_ifs with h
  · exact fun _ hr => hr
  · rw [List.take_append_drop]
    exact List.subset_append_right _ _

theorem returnInflightToHead_held : t.returnInflightToHead.held ⊆ t.held := by
  unfold returnInflightToHead held
  split_ifs with h
  · exact fun _ hr => hr
  · exact List.drop_subset _ _

theorem pruneStale_held : (t.pruneStale now).held ⊆ t.held :=
  List.append_subset.mpr ⟨List.subset_append_left _ _,
    fun _ hr => List.subset_append_right _ _ (List.drop_subset _ _ hr)⟩

theorem discardInflight_held : t.discardInflight.held ⊆ t.held := List.subset_append_right _ _

theorem setTerminal_held (err : GoError) : (t.setTerminal err).held ⊆ t.held := by
  unfold setTerminal
  split_ifs
  · exact fun _ hr => hr
  · exact List.nil_subset _

theorem push_held (r : Recorded) : (t.push r).1.held ⊆ t.held ++ [r] := by
  unfold push held
  intro q hq
  split_ifs at hq
  · exact List.mem_append_left _ hq
  · simp only [List.mem_append] at hq ⊢
    rcases hq with hq | hq | hq
    · exact .inl (.inl hq)
    · exact .inl (.inr (List.mem_of_mem_tail hq))
    · exact .inr hq
  · simpa [or_assoc] using hq

end Transport

namespace Agent
variable {rt : Runtime} {s₀ s s' : Agent} {x : Turn} {r : Recorded}

/-- An event that was pushed, is no longer held and is in no POST after `s₀`. -/
structure Gone (s₀ : Agent) (r : Recorded) (s : Agent) : Prop where
  pushed : r.seq < s.history.pushed.length
  held : r ∉ s.transport.held
  sent : ∃ posts, s.history.sent = s₀.history.sent ++ posts ∧ ∀ post ∈ posts, r ∉ post.events

theorem Gone.of_held (hs : s₀.Gone r s) (hpushed : s'.history.pushed = s.history.pushed)
    (hheld : s'.transport.held ⊆ s.transport.held) (hsent : s'.history.sent = s.history.sent) :
    s₀.Gone r s' where
  pushed := hpushed ▸ hs.pushed
  held := fun hr => hs.held (hheld hr)
  sent := hsent ▸ hs.sent

theorem turned_gone (h : Turned rt x s s') (hs : s₀.Gone r s) : s₀.Gone r s' := by
  have hsame : s.transport.held ⊆ s.transport.held := fun _ hr => hr
  cases h with
  | control backoff signalCh h => exact hs.of_held rfl hsame rfl
  | prune h => exact hs.of_held rfl (s.transport.pruneStale_held x.now) rfl
  | take h => exact hs.of_held rfl s.transport.takeInflight_held rfl
  | serialise h hne hm => exact hs.of_held rfl hsame rfl
  | refuse h hne hm hr => exact hs.of_held rfl s.transport.returnInflightToHead_held rfl
  | post h hne hm hr =>
    obtain ⟨posts,hposts,hnone⟩ := hs.sent
    refine ⟨hs.pushed,hs.held,posts ++ [s.nextPost rt x.now],?_,?_⟩
    · rw [hposts,List.append_assoc]
    · intro post hpost
      rcases List.mem_append.mp hpost with hpost | hpost
      · exact hnone post hpost
      · rw [List.mem_singleton.mp hpost]
        exact fun hr => hs.held (List.mem_append_left _ hr)
  | accept h ha => exact hs.of_held rfl s.transport.discardInflight_held rfl
  | retry err h ha => exact hs.of_held rfl s.transport.returnInflightToHead_held rfl
  | giveUp err terminal h ha => exact hs.of_held rfl hsame rfl
  | discard h => exact hs.of_held rfl s.transport.discardInflight_held rfl
  | setTerminal h ht => exact hs.of_held rfl (s.transport.setTerminal_held _) rfl
  | reportTerminal h => exact hs.of_held rfl hsame rfl
  | reportFlush h => exact hs.of_held rfl hsame rfl
  | setDrainErr h => exact hs.of_held rfl hsame rfl
  | reportDrain h => exact hs.of_held rfl hsame rfl

theorem push_gone (hs : s₀.Gone r s) (e : Event) : s₀.Gone r (s.push e) where
  pushed := by
    have h := hs.pushed
    simp only [push,List.length_append,List.length_singleton]
    omega
  held := by
    intro hr
    rcases List.mem_append.mp (s.transport.push_held _ hr) with hr | hr
    · exact hs.held hr
    · have h := hs.pushed
      rw [List.mem_singleton.mp hr] at h
      exact Nat.lt_irrefl _ h
  sent := hs.sent

theorem step_gone (rt : Runtime) (l : Label) (hs : s₀.Gone r s) : s₀.Gone r (s.step rt l) := by
  have hsame : s.transport.held ⊆ s.transport.held := fun _ hr => hr
  apply step_rule
  case hidle => exact hs
  case hpush => exact fun e _ => push_gone hs e
  case hsignal => exact hs.of_held rfl hsame rfl
  case hstop => exact fun _ => hs.of_held rfl hsame rfl
  case hreturn => exact fun _ => hs.of_held rfl hsame rfl
  case hturn => exact fun x s' _ h => turned_gone h hs

theorem run_not_sent (rt : Runtime) (hpushed : r.seq < s.history.pushed.length)
    (hheld : r ∉ s.transport.held) (labels : List Label) :
    ∀ post ∈ s.sentSince (s.run rt labels), r ∉ post.events := by
  have hstart : s.Gone r s := ⟨hpushed,hheld,[],by simp,by simp⟩
  obtain ⟨posts,hposts,hnone⟩ :=
    (run_invariant hstart (fun _ l h => step_gone rt l h) labels).sent
  rw [sentSince,hposts,List.drop_left]
  exact hnone

theorem step_pushed (rt : Runtime) (s : Agent) {l : Label} (hl : l.isPush = false) :
    (s.step rt l).history.pushed = s.history.pushed := by
  apply step_rule (P := fun s' => s'.history.pushed = s.history.pushed)
  case hidle => rfl
  case hpush =>
    rintro e rfl
    cases hl
  case hsignal => rfl
  case hstop => exact fun _ => rfl
  case hreturn => exact fun _ => rfl
  case hturn =>
    intro x s' _ h
    cases h <;> rfl

theorem step_push_pushed (rt : Runtime) (s : Agent) (e : Event) :
    (s.step rt (.push e)).history.pushed = s.history.pushed ∨
      (s.step rt (.push e)).history.pushed =
        s.history.pushed ++ [⟨s.history.pushed.length,e⟩] := by
  by_cases hcrash : s.pc.crash = true
  · rw [step,if_pos hcrash]
    exact .inl rfl
  · rw [step,if_neg hcrash]
    exact .inr rfl

end Agent

/-- The recorders with their agent: the clock, and the events of the calls that have read it and
are yet to push, by goroutine. -/
structure Recorders where
  agent : Agent
  clock : ℤ := 0
  stamped : List (ℕ × Event) := []

/-- Time passes, a call of `RecordBlockchainRequestRich` or of a score recorder reads the clock, it
pushes, or the agent takes a step of another kind. -/
inductive Act
  | tick (d : ℕ)
  | stamp (g : ℕ) (payload : Payload)
  | push (g : ℕ)
  | signal
  | stop
  | returnStop
  | loop (turn : Turn)

def Act.isStamp : Act → Bool
  | .stamp _ _ => true
  | _ => false

namespace Recorders

def start (opts : Options) : Recorders where
  agent := .start opts

/-- The step of the agent in an act. Its loop reads the same clock as the calls. -/
def label (s : Recorders) : Act → Option Label
  | .tick _ => none
  | .stamp _ _ => none
  | .push g => (s.stamped.lookup g).map Label.push
  | .signal => some .signal
  | .stop => some .stop
  | .returnStop => some .returnStop
  | .loop turn => some (.loop { turn with now := s.clock })

/-- A goroutine is in one call at a time. -/
def step (rt : Runtime) (s : Recorders) (a : Act) : Recorders :=
  { agent := match s.label a with
      | some l => s.agent.step rt l
      | none => s.agent
    clock := match a with
      | .tick d => s.clock+d
      | _ => s.clock
    stamped := match a with
      | .stamp g payload =>
        if (s.stamped.lookup g).isSome then s.stamped else s.stamped ++ [(g,⟨s.clock,payload⟩)]
      | .push g => s.stamped.filter fun call => call.1 ≠ g
      | _ => s.stamped }

def run (rt : Runtime) (s : Recorders) (acts : List Act) : Recorders := acts.foldl (step rt) s

theorem run_agent (rt : Runtime) (s : Recorders) (acts : List Act) :
    (s.run rt acts).agent = s.agent.run rt (observe (step rt) label s acts) := by
  induction acts generalizing s with
  | nil => rfl
  | cons a acts ih =>
    have hstep : (s.step rt a).agent = s.agent.run rt (s.label a).toList := by
      unfold step
      cases s.label a with
      | none => rfl
      | some l => rfl
    rw [observe,Agent.run_append,← hstep]
    exact ih (s.step rt a)

/-- No call reads the clock while another one is between its two steps. -/
def Sequential (rt : Runtime) : Recorders → List Act → Prop :=
  Along (step rt) fun s a => a.isStamp = true → s.stamped = []

instance (rt : Runtime) (s : Recorders) (acts : List Act) : Decidable (Sequential rt s acts) :=
  inferInstanceAs (Decidable (Along _ _ s acts))

/-- Events are pushed in the order of their stamps, and so is the one that is yet to be pushed. -/
structure InOrder (s : Recorders) : Prop where
  sorted : s.agent.history.pushed.Pairwise fun r r' => r.event.capturedAt ≤ r'.event.capturedAt
  past : ∀ r ∈ s.agent.history.pushed, r.event.capturedAt ≤ s.clock
  single : s.stamped.length ≤ 1
  next : ∀ call ∈ s.stamped, call.2.capturedAt ≤ s.clock ∧
    ∀ r ∈ s.agent.history.pushed, r.event.capturedAt ≤ call.2.capturedAt

section InOrder
variable {rt : Runtime} {s : Recorders}

theorem start_inOrder (opts : Options) : (start opts).InOrder where
  sorted := List.Pairwise.nil
  past := by simp [start,Agent.start]
  single := Nat.zero_le 1
  next := by simp [start]

theorem InOrder.of_label (hs : s.InOrder) {a : Act} {l : Label} (hlabel : s.label a = some l)
    (hl : l.isPush = false) (hclock : (s.step rt a).clock = s.clock)
    (hstamped : (s.step rt a).stamped = s.stamped) : (s.step rt a).InOrder := by
  have hpushed : (s.step rt a).agent.history.pushed = s.agent.history.pushed := by
    simp only [step,hlabel]
    exact Agent.step_pushed rt s.agent hl
  constructor
  · rw [hpushed]
    exact hs.sorted
  · rw [hpushed,hclock]
    exact hs.past
  · rw [hstamped]
    exact hs.single
  · rw [hstamped,hpushed,hclock]
    exact hs.next

theorem step_push_inOrder (hs : s.InOrder) (g : ℕ) : (s.step rt (.push g)).InOrder := by
  cases hcall : s.stamped.lookup g with
  | none =>
    have hagent : (s.step rt (.push g)).agent = s.agent := by simp [step,label,hcall]
    refine ⟨hagent ▸ hs.sorted,hagent ▸ hs.past,?_,?_⟩
    · exact (List.length_filter_le _ _).trans hs.single
    · rw [hagent]
      exact fun call hmem => hs.next call (List.mem_of_mem_filter hmem)
  | some e =>
    -- The call that pushes is the only one, so no stamp is left.
    obtain ⟨call,hstamped⟩ : ∃ call, s.stamped = [call] := by
      apply List.length_eq_one_iff.mp
      have hpos : 0 < s.stamped.length := by
        apply List.length_pos_of_ne_nil
        intro hnil
        simp [hnil] at hcall
      have hsingle := hs.single
      omega
    obtain ⟨g',e'⟩ := call
    rw [hstamped,List.lookup_cons] at hcall
    split at hcall
    · rename_i hg
      obtain rfl := Option.some.inj hcall
      obtain rfl := eq_of_beq hg
      obtain ⟨hclock,hlast⟩ := hs.next (g,e') (by simp [hstamped])
      have hnone : (s.step rt (.push g)).stamped = [] := by simp [step,hstamped]
      have hagent : (s.step rt (.push g)).agent = s.agent.step rt (.push e') := by
        simp [step,label,hstamped]
      refine ⟨?_,?_,by simp [hnone],by simp [hnone]⟩
      · rw [hagent]
        rcases s.agent.step_push_pushed rt e' with hsame | hnew
        · rw [hsame]
          exact hs.sorted
        · rw [hnew,List.pairwise_append]
          refine ⟨hs.sorted,List.pairwise_singleton _ _,?_⟩
          intro r hr r' hr'
          rw [List.mem_singleton.mp hr']
          exact hlast r hr
      · rw [hagent]
        rcases s.agent.step_push_pushed rt e' with hsame | hnew
        · rw [hsame]
          exact hs.past
        · rw [hnew]
          intro r hr
          rcases List.mem_append.mp hr with hr | hr
          · exact hs.past r hr
          · rw [List.mem_singleton.mp hr]
            exact hclock
    · cases hcall

theorem step_inOrder (hs : s.InOrder) (a : Act) (hstamp : a.isStamp = true → s.stamped = []) :
    (s.step rt a).InOrder := by
  cases a with
  | tick d =>
    have hlater : s.clock ≤ s.clock+d := by omega
    exact ⟨hs.sorted,fun r hr => (hs.past r hr).trans hlater,hs.single,
      fun call hcall => ⟨(hs.next call hcall).1.trans hlater,(hs.next call hcall).2⟩⟩
  | stamp g payload =>
    have hnil := hstamp rfl
    have hstamped : (s.step rt (.stamp g payload)).stamped = [(g,⟨s.clock,payload⟩)] := by
      simp [step,hnil]
    refine ⟨hs.sorted,hs.past,?_,?_⟩
    · rw [hstamped]
      exact le_rfl
    · rw [hstamped]
      intro call hcall
      rw [List.mem_singleton.mp hcall]
      exact ⟨le_rfl,hs.past⟩
  | push g => exact step_push_inOrder hs g
  | signal => exact hs.of_label rfl rfl rfl rfl
  | stop => exact hs.of_label rfl rfl rfl rfl
  | returnStop => exact hs.of_label rfl rfl rfl rfl
  | loop turn => exact hs.of_label rfl rfl rfl rfl

theorem run_inOrder (rt : Runtime) (opts : Options) {acts : List Act}
    (hacts : Sequential rt (start opts) acts) : ((start opts).run rt acts).InOrder := by
  apply foldl_invariant (start_inOrder opts)
  intro before a after hsplit hbefore
  exact step_inOrder hbefore a (along_iff.mp hacts before a after hsplit)

end InOrder

/-- Every event that the POSTs between `s₁` and `s₂` carry and that was in the buffer of `t` is
within the TTL at `now`. -/
def Fresh (t : Transport) (now : ℤ) (s₁ s₂ : Agent) : Prop :=
  ∀ post ∈ s₁.sentSince s₂, ∀ r ∈ post.events, r ∈ t.buf →
    now-t.settings.opts.eventTTL ≤ r.event.capturedAt

instance (t : Transport) (now : ℤ) (s₁ s₂ : Agent) : Decidable (Fresh t now s₁ s₂) :=
  inferInstanceAs (Decidable (∀ post ∈ s₁.sentSince s₂, ∀ r ∈ post.events, _ → _))

section Prune
variable {rt : Runtime} {opts : Options} {before after : List Act} {turn : Turn}

theorem step_prune {s : Recorders} (hpc : s.agent.pc = .prune) :
    (s.step rt (.loop turn)).agent =
      (s.agent.setTransport (s.agent.transport.pruneStale s.clock)).goto (.isTerminal .loop) := by
  have hcrash : ¬s.agent.pc.crash = true := by simp [hpc,Pc.crash]
  simp only [step,label]
  rw [Agent.step,if_neg hcrash]
  simp [Agent.turn,hpc]

theorem mem_pruneStale_of_sent (hpc : ((start opts).run rt before).agent.pc = .prune)
    {post : Post} {r : Recorded}
    (hpost : post ∈ (((start opts).run rt before).step rt (.loop turn)).agent.sentSince
      ((((start opts).run rt before).step rt (.loop turn)).run rt after).agent)
    (hr : r ∈ post.events) (hbuf : r ∈ ((start opts).run rt before).agent.transport.buf) :
    r ∈ (((start opts).run rt before).agent.transport.pruneStale
      ((start opts).run rt before).clock).buf := by
  set s := (start opts).run rt before with hs
  have hagent : s.agent = (Agent.start opts).run rt (observe (step rt) label (start opts) before) :=
    run_agent rt (start opts) before
  have hcoherent : s.agent.Coherent := hagent ▸ Agent.run_coherent rt opts _
  have hnodup : (s.agent.transport.inflight ++ s.agent.transport.buf).Nodup := by
    rw [hagent]
    exact (Agent.run_pending_nodup rt opts _).of_append_right
  have hpushed : r ∈ s.agent.history.pushed := by
    have hordered : (s.agent.history.accepted ++ s.agent.transport.inflight ++
        s.agent.transport.buf).Sublist s.agent.history.pushed := by
      rw [hagent]
      exact (Agent.run_sound rt opts _).ordered
    exact hordered.subset (List.mem_append_right _ hbuf)
  have hseq : r.seq < s.agent.history.pushed.length := by
    rw [← List.mem_range,← hcoherent.pushed]
    exact List.mem_map_of_mem hpushed
  by_contra hgone
  rw [run_agent,step_prune hpc] at hpost
  refine Agent.run_not_sent rt ?_ ?_ _ post hpost hr
  · exact hseq
  · intro hheld
    rcases List.mem_append.mp hheld with hinflight | hkept
    · exact List.disjoint_of_nodup_append hnodup hinflight hbuf
    · exact hgone hkept

/-- Where events were pushed in the order of their stamps, none is overtaken. -/
theorem not_overtaken (hacts : Sequential rt (start opts) before) (r : Recorded) :
    ¬((start opts).run rt before).agent.transport.Overtaken
      ((start opts).run rt before).clock r := by
  rintro ⟨hexpired,fresh,hsub,hfresh⟩
  have hsorted := (run_inOrder rt opts hacts).sorted
  rw [run_agent] at hsorted
  have hordered := (Agent.run_sound rt opts (observe (step rt) label (start opts) before)).ordered
  have hbuf := (List.sublist_append_right _ _).trans hordered
  rw [run_agent] at hsub
  have hle := List.pairwise_pair.mp (hsorted.sublist (hsub.trans hbuf))
  simp only [Transport.expired,decide_eq_true_eq,decide_eq_false_iff_not] at hexpired hfresh
  omega

end Prune

/-- In every interleaving of recorder calls with the loop, and for every prune of it: the events
that were in the buffer and are sent later are within the TTL if no call reads the clock while
another one is between reading it and its push. What this rules out, and what it takes, is that an
expired event is sent that stood behind one that had not expired. -/
theorem fresh_iff (rt : Runtime) (opts : Options) (before after : List Act) (turn : Turn)
    (hpc : ((start opts).run rt before).agent.pc = .prune) :
    let s := (start opts).run rt before
    let s₁ := s.step rt (.loop turn)
    let s₂ := s₁.run rt after
    (Sequential rt (start opts) before →
      Fresh s.agent.transport s.clock s₁.agent s₂.agent) ∧
    (Fresh s.agent.transport s.clock s₁.agent s₂.agent ↔
      ∀ post ∈ s₁.agent.sentSince s₂.agent, ∀ r ∈ post.events,
        ¬s.agent.transport.Overtaken s.clock r) := by
  intro s s₁ s₂
  have hiff : Fresh s.agent.transport s.clock s₁.agent s₂.agent ↔
      ∀ post ∈ s₁.agent.sentSince s₂.agent, ∀ r ∈ post.events,
        ¬s.agent.transport.Overtaken s.clock r := by
    constructor
    · rintro hfresh post hpost r hr ⟨hexpired,fresh,hsub,_⟩
      have hle := hfresh post hpost r hr (hsub.subset (by simp))
      rw [Transport.expired,decide_eq_true_eq] at hexpired
      omega
    · intro hnone post hpost r hr hbuf
      by_contra hlt
      have hexpired : s.agent.transport.expired s.clock r = true := by
        rw [Transport.expired,decide_eq_true_eq]
        omega
      have hkept := mem_pruneStale_of_sent hpc hpost hr hbuf
      exact hnone post hpost r hr ((s.agent.transport.mem_pruneStale_iff _ hexpired).mp hkept)
  refine ⟨fun hacts => hiff.mpr ?_,hiff⟩
  intro post _ r _
  exact not_overtaken hacts r

/-- Two calls, one after the other; the first event has expired at the prune. -/
theorem fresh_sequential :
    let opts : Options := { eventTTL := 10 }
    let payload := (requestAt 0).payload
    let s := (start opts).run .counting
      [.stamp 0 payload,.push 0,.tick 5,.stamp 1 payload,.push 1,.tick 8,.loop {}]
    let s₁ := s.step .counting (.loop {})
    let s₂ := s₁.run .counting (List.replicate 3 (.loop {}))
    s.agent.pc = .prune ∧ (s₁.agent.sentSince s₂.agent).length = 1 ∧
      Fresh s.agent.transport s.clock s₁.agent s₂.agent :=
  ⟨rfl,by decide,(fresh_iff .counting _ _ _ {} rfl).1 (by decide)⟩

/-- The first call reads the clock and pushes after the second: its event has expired at the prune,
and is sent. -/
theorem overtaken_sent :
    let opts : Options := { eventTTL := 10 }
    let payload := (requestAt 0).payload
    let s := (start opts).run .counting
      [.stamp 0 payload,.tick 5,.stamp 1 payload,.push 1,.push 0,.tick 8,.loop {}]
    let s₁ := s.step .counting (.loop {})
    let s₂ := s₁.run .counting (List.replicate 3 (.loop {}))
    s.agent.pc = .prune ∧ ¬Fresh s.agent.transport s.clock s₁.agent s₂.agent :=
  ⟨rfl,by decide⟩

end Recorders
end ChainKit.CloudAgent
