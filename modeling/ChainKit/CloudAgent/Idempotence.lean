import ChainKit.CloudAgent.Delivery

/-! Retries and the ids of events. The cloud tells a retried event by its id, and the agent mints
new ids whenever it builds a POST. -/
namespace ChainKit.CloudAgent
open Lib

/-- The batch in flight was sent, or given up before that. -/
def Pc.posted : Pc → Bool
  | .await _ _ | .discard _ _ _ => true
  | _ => false

namespace Post
variable {rt : Runtime} {n : ℕ} {p : Post} {r : Recorded}

/-- The ids of a POST are those minted after the `n`-th. -/
def Stamped (rt : Runtime) (n : ℕ) (p : Post) : Prop :=
  p.batch.events.map WireEnvelope.id =
    (List.range p.events.length).map fun i => rt.newEventID (n+1+i)

theorem Stamped.mem_carries (h : p.Stamped rt n) {id : String} :
    (r,id) ∈ p.carries ↔ ∃ i, p.events[i]? = some r ∧ id = rt.newEventID (n+1+i) := by
  rw [carries,h,List.mem_iff_getElem?]
  constructor
  · rintro ⟨i,hi⟩
    obtain ⟨hr,hid⟩ := List.getElem?_zip_eq_some.mp hi
    refine ⟨i,hr,?_⟩
    obtain ⟨hlt,_⟩ := List.getElem?_eq_some_iff.mp hr
    simpa [List.getElem?_range hlt,eq_comm] using hid
  · rintro ⟨i,hr,rfl⟩
    obtain ⟨hlt,_⟩ := List.getElem?_eq_some_iff.mp hr
    refine ⟨i,List.getElem?_zip_eq_some.mpr ⟨hr,?_⟩⟩
    simp [List.getElem?_range hlt]

theorem Stamped.mem_events (h : p.Stamped rt n) {id : String} (hmem : (r,id) ∈ p.carries) :
    r ∈ p.events := by
  obtain ⟨i,hr,_⟩ := h.mem_carries.mp hmem
  exact List.mem_of_getElem? hr

theorem Stamped.id_unique (h : p.Stamped rt n) (hnodup : p.events.Nodup) {a b : String}
    (ha : (r,a) ∈ p.carries) (hb : (r,b) ∈ p.carries) : a = b := by
  obtain ⟨i,hi,rfl⟩ := h.mem_carries.mp ha
  obtain ⟨j,hj,rfl⟩ := h.mem_carries.mp hb
  obtain ⟨hlt,_⟩ := List.getElem?_eq_some_iff.mp hi
  rw [(List.getElem?_inj hlt hnodup).mp (hi.trans hj.symm)]

end Post

namespace Cloud

theorem foldl_ingestEvent (c : Cloud) (es : List (Recorded × String)) :
    ∃ l, l.Sublist (es.map Prod.fst) ∧ (es.foldl ingestEvent c).ingested = c.ingested ++ l := by
  induction es generalizing c with
  | nil => exact ⟨[],List.Sublist.refl _,by simp⟩
  | cons e es ih =>
    obtain ⟨l,hl,heq⟩ := ih (c.ingestEvent e)
    by_cases hseen : e.2 ∈ c.eventIDs
    · refine ⟨l,hl.cons e.1,?_⟩
      rw [List.foldl_cons,heq,ingestEvent,if_pos hseen]
    · refine ⟨e.1 :: l,hl.cons_cons e.1,?_⟩
      rw [List.foldl_cons,heq,ingestEvent,if_neg hseen]
      simp

theorem ingest_sublist (c : Cloud) {rt : Runtime} {n : ℕ} {p : Post} (h : p.Stamped rt n) :
    ∃ l, l.Sublist p.events ∧ (c.ingest p).ingested = c.ingested ++ l := by
  have hfst : p.carries.map Prod.fst = p.events := List.map_fst_zip (by rw [h]; simp)
  unfold ingest
  split_ifs
  · exact ⟨[],List.nil_sublist _,by simp⟩
  · rw [← hfst]
    exact foldl_ingestEvent { c with batchIDs := c.batchIDs ++ [p.batch.batchID] } p.carries

end Cloud

namespace Agent

/-- All POSTs that carry an event carry it under the same id. -/
def SameIds (s : Agent) : Prop :=
  ∀ p ∈ s.history.sent, ∀ q ∈ s.history.sent, ∀ r a b,
    (r,a) ∈ p.carries → (r,b) ∈ q.carries → a = b

/-- The events of all POSTs, in the order in which they were sent. -/
def sentEvents (s : Agent) : List Recorded := s.history.sent.flatMap Post.events

/-- The next step makes a POST with an event that an earlier POST has carried. -/
def Reposts (rt : Runtime) (s : Agent) : Label → Prop
  | .loop x =>
    match s.pc with
    | .build _ =>
      rt.marshalError (s.nextPost rt x.now).batch = none ∧ rt.requestError s.url = none ∧
        ∃ r ∈ s.transport.inflight, r ∈ s.sentEvents
    | _ => False
  | _ => False

/-- The ids of the POSTs are minted one after the other, and the cloud has ingested only what
they carry. -/
structure Carrying (rt : Runtime) (s : Agent) : Prop where
  stamped : ∀ p ∈ s.history.sent, p.events.Nodup ∧
    ∃ n, p.Stamped rt n ∧ n+1+p.events.length ≤ s.minted
  ingested : s.history.cloud.ingested.Sublist
    ((s.history.answered.map Prod.fst).flatMap Post.events)

section Carrying
variable {rt : Runtime} {s s' : Agent} {x : Turn}

theorem nextPost_stamped (rt : Runtime) (s : Agent) (now : ℤ) :
    (s.nextPost rt now).Stamped rt s.minted := by
  simp [Post.Stamped,nextPost]

theorem start_carrying (rt : Runtime) (opts : Options) : (start opts).Carrying rt :=
  ⟨by simp [start],List.Sublist.refl _⟩

theorem Carrying.mono (hs : s.Carrying rt) (hhistory : s'.history.sent = s.history.sent)
    (hanswered : s'.history.answered = s.history.answered)
    (hcloud : s'.history.cloud = s.history.cloud) (hminted : s.minted ≤ s'.minted) :
    s'.Carrying rt := by
  refine ⟨?_,?_⟩
  · intro p hp
    rw [hhistory] at hp
    obtain ⟨hnodup,n,hstamped,hle⟩ := hs.stamped p hp
    exact ⟨hnodup,n,hstamped,hle.trans hminted⟩
  · rw [hcloud,hanswered]
    exact hs.ingested

theorem Carrying.answered (hs : s.Carrying rt) {post : Post} (hpost : post ∈ s.history.sent)
    (answer : Answer) (ingested : Bool) : (s.answered post answer ingested).Carrying rt := by
  refine ⟨hs.stamped,?_⟩
  obtain ⟨_,n,hstamped,_⟩ := hs.stamped post hpost
  simp only [Agent.answered,List.map_append,List.map_singleton,List.flatMap_append,
    List.flatMap_singleton]
  split_ifs
  · obtain ⟨l,hl,heq⟩ := s.history.cloud.ingest_sublist hstamped
    rw [heq]
    exact hs.ingested.append hl
  · exact hs.ingested.trans (List.sublist_append_left _ _)

theorem turned_carrying (h : Turned rt x s s') (hcoherent : s.Coherent)
    (hnodup : s.transport.inflight.Nodup) (hs : s.Carrying rt) : s'.Carrying rt := by
  have hsent : ∀ caller post, s.pc = .await caller post → post ∈ s.history.sent := by
    intro caller post hpc
    rw [hcoherent.sent,hpc]
    simp [Pc.awaiting]
  cases h with
  | post h hne hm hr =>
    refine ⟨?_,hs.ingested⟩
    intro p hp
    rcases List.mem_append.mp hp with hp | hp
    · obtain ⟨hnodup,n,hstamped,hle⟩ := hs.stamped p hp
      exact ⟨hnodup,n,hstamped,by dsimp only; omega⟩
    · obtain rfl := List.mem_singleton.mp hp
      exact ⟨hnodup,s.minted,nextPost_stamped rt s x.now,le_refl _⟩
  | accept h ha => exact (hs.answered (hsent _ _ h) x.answer x.ingested).mono rfl rfl rfl le_rfl
  | retry err h ha => exact (hs.answered (hsent _ _ h) x.answer x.ingested).mono rfl rfl rfl le_rfl
  | giveUp err terminal h ha =>
    exact (hs.answered (hsent _ _ h) x.answer x.ingested).mono rfl rfl rfl le_rfl
  | serialise h hne hm => exact hs.mono rfl rfl rfl (by dsimp only; omega)
  | refuse h hne hm hr => exact hs.mono rfl rfl rfl (by dsimp only; omega)
  | _ => exact hs.mono rfl rfl rfl le_rfl

theorem run_carrying (rt : Runtime) (opts : Options) (labels : List Label) :
    ((start opts).run rt labels).Carrying rt := by
  induction labels using List.reverseRecOn with
  | nil => exact start_carrying rt opts
  | append_singleton labels l ih =>
    rw [run_concat]
    apply step_rule
    case hidle => exact ih
    case hpush => exact fun e _ => ih.mono rfl rfl rfl le_rfl
    case hsignal => exact ih.mono rfl rfl rfl le_rfl
    case hstop => exact fun _ => ih.mono rfl rfl rfl le_rfl
    case hreturn => exact fun _ => ih.mono rfl rfl rfl le_rfl
    case hturn =>
      exact fun x s' _ h => turned_carrying h (run_coherent rt opts labels)
        (run_inflight_nodup rt opts labels) ih

end Carrying

section Reposts
variable {rt : Runtime} {s s' : Agent} {x : Turn}

theorem Flow.not_reposts {pc : Pc} (h : Flow s.transport s.pc pc) :
    ¬s.Reposts rt (.loop x) := by
  generalize hpc : s.pc = pc₀ at h
  cases h with
  | stay h => cases pc <;> simp_all [Pc.waits,Reposts]
  | stop h _ => rcases h with rfl | rfl <;> simp [Reposts,hpc]
  | empty caller h => simp [Reposts,hpc,h]
  | _ => simp [Reposts,hpc]

theorem turned_sent (h : Turned rt x s s') :
    s'.history.sent = s.history.sent ∧ ¬s.Reposts rt (.loop x) ∨
      s'.history.sent = s.history.sent ++ [s.nextPost rt x.now] ∧
        (s.Reposts rt (.loop x) ↔ ∃ r ∈ s.transport.inflight, r ∈ s.sentEvents) := by
  cases h with
  | control backoff signalCh h => exact .inl ⟨rfl,h.not_reposts⟩
  | serialise h hne hm => exact .inl ⟨rfl,by simp [Reposts,h,hm]⟩
  | refuse h hne hm hr => exact .inl ⟨rfl,by simp [Reposts,h,hr]⟩
  | post h hne hm hr => exact .inr ⟨rfl,by simp [Reposts,h,hm,hr]⟩
  | _ => exact .inl ⟨rfl,by simp [Reposts, *]⟩

theorem step_sent (rt : Runtime) (s : Agent) (l : Label) :
    (s.step rt l).history.sent = s.history.sent ∧ ¬s.Reposts rt l ∨
      ∃ now, (s.step rt l).history.sent = s.history.sent ++ [s.nextPost rt now] ∧
        (s.Reposts rt l ↔ ∃ r ∈ s.transport.inflight, r ∈ s.sentEvents) := by
  unfold step
  by_cases hcrash : s.pc.crash = true
  · rw [if_pos hcrash]
    obtain ⟨panic,hpc⟩ := Pc.crash_iff.mp hcrash
    refine .inl ⟨rfl,?_⟩
    cases l <;> simp [Reposts,hpc]
  · rw [if_neg hcrash]
    cases l with
    | push e => exact .inl ⟨rfl,id⟩
    | signal => exact .inl ⟨by dsimp only; split_ifs <;> rfl,id⟩
    | stop => exact .inl ⟨rfl,id⟩
    | returnStop => exact .inl ⟨by dsimp only; split_ifs <;> rfl,id⟩
    | loop x => exact (turned_sent (turn_turned rt s x)).imp_right fun h => ⟨x.now,h⟩

theorem mem_sentEvents {r : Recorded} :
    r ∈ s.sentEvents ↔ ∃ p ∈ s.history.sent, r ∈ p.events := List.mem_flatMap

theorem step_sentEvents_nodup (rt : Runtime) (l : Label) (hnodup : s.transport.inflight.Nodup) :
    (s.step rt l).sentEvents.Nodup ↔ s.sentEvents.Nodup ∧ ¬s.Reposts rt l := by
  rcases step_sent rt s l with ⟨hsent,hnot⟩ | ⟨now,hsent,hreposts⟩
  · rw [sentEvents,hsent,and_iff_left hnot]
    rfl
  · have hevents : (s.step rt l).sentEvents = s.sentEvents ++ s.transport.inflight := by
      simp [sentEvents,hsent,nextPost]
    rw [hevents,List.nodup_append,hreposts,and_iff_right hnodup]
    refine and_congr_right fun _ => ?_
    constructor
    · rintro h ⟨r,hr,hr'⟩
      exact h r hr' r hr rfl
    · rintro h r hr r' hr' rfl
      exact h ⟨r,hr',hr⟩

/-- Where ids are distinct, an event that is sent again has a new id. -/
theorem step_sameIds (rt : Runtime) (l : Label) (hids : Function.Injective rt.newEventID)
    (hs : s.Carrying rt) (h : (s.step rt l).SameIds) : s.SameIds ∧ ¬s.Reposts rt l := by
  rcases step_sent rt s l with ⟨hsent,hnot⟩ | ⟨now,hsent,hreposts⟩
  · rw [SameIds,hsent] at h
    exact ⟨h,hnot⟩
  · rw [SameIds,hsent] at h
    refine ⟨?_,?_⟩
    · intro p hp q hq
      exact h p (List.mem_append_left _ hp) q (List.mem_append_left _ hq)
    · rw [hreposts]
      rintro ⟨r,hr,hsent⟩
      obtain ⟨q,hq,hrq⟩ := mem_sentEvents.mp hsent
      obtain ⟨_,n,hstamped,hle⟩ := hs.stamped q hq
      obtain ⟨i,hi⟩ := List.mem_iff_getElem?.mp hrq
      obtain ⟨j,hj⟩ := List.mem_iff_getElem?.mp (show r ∈ (s.nextPost rt now).events from hr)
      have hq' : (r,rt.newEventID (n+1+i)) ∈ q.carries := hstamped.mem_carries.mpr ⟨i,hi,rfl⟩
      have hnext : (r,rt.newEventID (s.minted+1+j)) ∈ (s.nextPost rt now).carries :=
        (nextPost_stamped rt s now).mem_carries.mpr ⟨j,hj,rfl⟩
      have heq := hids (h q (List.mem_append_left _ hq) _
        (List.mem_append_right _ (List.mem_singleton_self _)) r _ _ hq' hnext)
      obtain ⟨hlt,_⟩ := List.getElem?_eq_some_iff.mp hi
      omega

/-- The events of the POSTs are distinct if and only if no step sends an event again. -/
theorem run_sentEvents_nodup_iff (rt : Runtime) (opts : Options) (labels : List Label) :
    ((start opts).run rt labels).sentEvents.Nodup ↔
      ∀ before l after, labels = before ++ l :: after →
        ¬((start opts).run rt before).Reposts rt l := by
  apply run_iff (fun s => s.sentEvents.Nodup) (fun s l => ¬s.Reposts rt l)
  · exact List.nodup_nil
  · intro before l
    exact step_sentEvents_nodup rt l (run_inflight_nodup rt opts before)

theorem run_not_reposts (rt : Runtime) (opts : Options) (labels : List Label)
    (hids : Function.Injective rt.newEventID) (h : ((start opts).run rt labels).SameIds) :
    ∀ before l after, labels = before ++ l :: after →
      ¬((start opts).run rt before).Reposts rt l := by
  apply run_steps SameIds (fun s l => ¬s.Reposts rt l) _ h
  intro before l
  exact step_sameIds rt l hids (run_carrying rt opts before)

/-- POSTs that share no event agree on the ids of their events. -/
theorem Carrying.sameIds (hs : s.Carrying rt) (hnodup : s.sentEvents.Nodup) : s.SameIds := by
  have hpairwise := (List.nodup_flatMap.mp hnodup).2
  intro p hp q hq r a b ha hb
  obtain ⟨hpnodup,n,hpstamped,_⟩ := hs.stamped p hp
  obtain ⟨_,m,hqstamped,_⟩ := hs.stamped q hq
  by_cases hpq : p = q
  · subst hpq
    exact hpstamped.id_unique hpnodup ha hb
  · have : Std.Symm (Function.onFun List.Disjoint Post.events) :=
      ⟨fun _ _ h => List.Disjoint.symm h⟩
    have hdisjoint := hpairwise.forall hp hq hpq
    exact absurd (hqstamped.mem_events hb) (hdisjoint (hpstamped.mem_events ha))

/-- The cloud ingests an event twice only if it is sent twice. -/
theorem Carrying.ingested_nodup (hs : s.Carrying rt) (hcoherent : s.Coherent)
    (hnodup : s.sentEvents.Nodup) : s.history.cloud.ingested.Nodup := by
  apply hs.ingested.nodup
  rw [sentEvents,hcoherent.sent,List.flatMap_append] at hnodup
  exact hnodup.of_append_left

end Reposts

section Accepted
variable {rt : Runtime} {s s' : Agent} {x : Turn}

/-- The agent as an outbox that is done with an event as soon as it is sent. -/
def postbox (s : Agent) : Outbox Recorded :=
  (if s.pc.posted then s.transport.discardInflight else s.transport).outbox s.history.pushed
    s.sentEvents false

theorem postbox_congr (hs : s.postbox.Ordered) (hposted : s'.pc.posted = s.pc.posted)
    (hbuf : s'.transport.buf = s.transport.buf)
    (hinflight : s'.transport.inflight = s.transport.inflight)
    (hpushed : s'.history.pushed = s.history.pushed)
    (hsent : s'.history.sent = s.history.sent) : s'.postbox.Ordered := by
  unfold postbox sentEvents at hs ⊢
  rw [hposted,hpushed,hsent]
  split_ifs at hs ⊢
  · simpa [Outbox.Ordered,Transport.outbox,Transport.discardInflight,hbuf] using hs
  · simpa [Outbox.Ordered,Transport.outbox,hbuf,hinflight] using hs

/-- No POST was answered by a transport error, a 429 or a 5xx. -/
def NeverRetried (s : Agent) : Prop := ∀ a ∈ s.history.answered, a.2.outcome ≠ .retryable

instance (s : Agent) : Decidable s.NeverRetried :=
  inferInstanceAs (Decidable (∀ a ∈ s.history.answered, a.2.outcome ≠ .retryable))

theorem Flow.posted {t : Transport} {pc pc' : Pc} (h : Flow t pc pc') :
    pc'.posted = pc.posted := by
  cases h with
  | stop hpc _ => rcases hpc with rfl | rfl <;> rfl
  | _ => rfl

theorem turned_postbox (h : Turned rt x s s') (hs' : s'.NeverRetried) (hs : s.postbox.Ordered) :
    s'.postbox.Ordered := by
  cases h with
  | control backoff signalCh h => exact postbox_congr hs h.posted rfl rfl rfl rfl
  | prune h =>
    rw [postbox,h] at hs
    exact (s.transport.pruneStale_moves _ _ x.now _).ordered hs
  | take h =>
    rw [postbox,h] at hs
    exact (s.transport.takeInflight_moves _ _).ordered hs
  | serialise h hne hm =>
    rw [postbox,h] at hs
    exact (s.transport.countInflight.discardInflight_moves _ _).ordered hs
  | refuse h hne hm hr =>
    rw [postbox,h] at hs
    exact (s.transport.returnInflightToHead_moves _ _).ordered hs
  | post h hne hm hr =>
    rw [postbox,h] at hs
    have hmoves := (s.transport.accept_moves s.history.pushed s.sentEvents).ordered hs
    simpa [postbox,sentEvents,nextPost,Pc.posted] using hmoves
  | accept h ha =>
    rw [postbox,h] at hs
    exact hs
  | @retry caller post err h ha => exact absurd ha (hs' (post,x.answer) (by simp [answered]))
  | giveUp err terminal h ha =>
    rw [postbox,h] at hs
    exact hs
  | @discard caller err terminal h =>
    rw [postbox,h] at hs
    cases terminal <;> exact hs
  | setTerminal h ht =>
    rw [postbox,h] at hs
    exact (s.transport.setTerminal_moves _ _ _).ordered hs
  | reportTerminal h => exact postbox_congr hs (by rw [h]; rfl) rfl rfl rfl rfl
  | reportFlush h => exact postbox_congr hs (by rw [h]; rfl) rfl rfl rfl rfl
  | setDrainErr h => exact postbox_congr hs (by rw [h]; rfl) rfl rfl rfl rfl
  | reportDrain h => exact postbox_congr hs (by rw [h]; rfl) rfl rfl rfl rfl

theorem push_postbox (hs : s.postbox.Ordered) (e : Event) : (s.push e).postbox.Ordered := by
  unfold postbox at hs ⊢
  have hpc : (s.push e).pc = s.pc := rfl
  rw [hpc]
  split_ifs at hs ⊢
  · simp only [push,Transport.push_discardInflight]
    exact (s.transport.discardInflight.push_moves _ _ _ _).ordered hs
  · exact (s.transport.push_moves _ _ _ _).ordered hs

theorem Turned.neverRetried (h : Turned rt x s s') (hs' : s'.NeverRetried) :
    s.NeverRetried := by
  intro a ha
  apply hs' a
  cases h with
  | accept h _ => exact List.mem_append_left _ ha
  | retry err h _ => exact List.mem_append_left _ ha
  | giveUp err terminal h _ => exact List.mem_append_left _ ha
  | _ => exact ha

theorem run_postbox (rt : Runtime) (opts : Options) (labels : List Label) :
    ((start opts).run rt labels).NeverRetried →
      ((start opts).run rt labels).postbox.Ordered := by
  apply run_invariant (I := fun s => s.NeverRetried → s.postbox.Ordered)
  · exact fun _ => List.Sublist.refl _
  · intro s l hs
    apply step_rule (P := fun s' => s'.NeverRetried → s'.postbox.Ordered)
    case hidle => exact hs
    case hpush => exact fun e _ h => push_postbox (hs h) e
    case hsignal => exact fun h => postbox_congr (hs h) rfl rfl rfl rfl rfl
    case hstop => exact fun _ h => postbox_congr (hs h) rfl rfl rfl rfl rfl
    case hreturn => exact fun _ => hs
    case hturn => exact fun x s' _ h hs' => turned_postbox h hs' (hs (h.neverRetried hs'))

theorem run_sentEvents_nodup (rt : Runtime) (opts : Options) (labels : List Label)
    (hs : ((start opts).run rt labels).NeverRetried) :
    ((start opts).run rt labels).sentEvents.Nodup := by
  have hsublist := run_postbox rt opts labels hs
  rw [Outbox.Ordered,List.append_assoc] at hsublist
  exact (hsublist.nodup (run_coherent rt opts labels).pushed_nodup).of_append_left

end Accepted

/-- A run against a cloud that ingests an id once. If no step sends an event again, every event
keeps its id and is ingested at most once, and with distinct ids this is the only way. It is so
wherever no POST is answered by a transport error, a 429 or a 5xx. -/
theorem ingested_once_iff (rt : Runtime) (opts : Options) (labels : List Label) :
    let s := (start opts).run rt labels
    let fresh := ∀ before l after, labels = before ++ l :: after →
      ¬((start opts).run rt before).Reposts rt l
    (fresh → s.SameIds ∧ s.history.cloud.ingested.Nodup) ∧
    (Function.Injective rt.newEventID →
      (s.SameIds ∧ s.history.cloud.ingested.Nodup ↔ fresh)) ∧
    (s.NeverRetried → fresh) := by
  intro s fresh
  have hsent : s.sentEvents.Nodup ↔ fresh := run_sentEvents_nodup_iff rt opts labels
  have hcarrying : s.Carrying rt := run_carrying rt opts labels
  have hfresh : fresh → s.SameIds ∧ s.history.cloud.ingested.Nodup := by
    intro h
    have hnodup := hsent.mpr h
    exact ⟨hcarrying.sameIds hnodup,
      hcarrying.ingested_nodup (run_coherent rt opts labels) hnodup⟩
  refine ⟨hfresh,?_,?_⟩
  · intro hids
    exact ⟨fun h => run_not_reposts rt opts labels hids h.1,hfresh⟩
  · intro h
    exact hsent.mp (run_sentEvents_nodup rt opts labels h)

/-- Three batches, of one, two and one events, that the cloud accepts. -/
def acceptedBatches : List Label :=
  .push (requestAt 0) :: flushTurns (.status 202) ++
    [.push (requestAt 1),.push (requestAt 2)] ++ flushTurns (.status 202) ++
    .push (requestAt 3) :: flushTurns (.status 202)

theorem ingested_once_accepted :
    let s := (start {}).run .counting acceptedBatches
    s.NeverRetried ∧ s.history.sent.length = 3 ∧ s.history.cloud.ingested.length = 4 ∧
      s.SameIds ∧ s.history.cloud.ingested.Nodup := by
  intro s
  have hnever : s.NeverRetried := by decide +kernel
  exact ⟨hnever,by decide +kernel,by decide +kernel,
    (ingested_once_iff _ _ _).1 ((ingested_once_iff _ _ _).2.2 hnever)⟩

/-- The cloud ingests a batch and answers 500. The retry carries the event under a new id, and it
is ingested again. -/
theorem ingested_twice_retried :
    let labels := .push (requestAt 0) :: flushTurns (.status 500) ++ [.loop {},.loop {}] ++
      flushTurns (.status 202)
    let s := (start {}).run .counting labels
    Function.Injective Runtime.counting.newEventID ∧ ¬s.SameIds ∧
      ¬s.history.cloud.ingested.Nodup := by
  intro labels s
  refine ⟨Runtime.counting_injective,?_,by decide⟩
  intro h
  have hid := h (s.history.sent.get ⟨0,by decide⟩) (List.get_mem _ _)
    (s.history.sent.get ⟨1,by decide⟩) (List.get_mem _ _) ⟨0,requestAt 0⟩ "0" "000"
    (by decide) (by decide)
  exact absurd hid (by decide)

end Agent
end ChainKit.CloudAgent
