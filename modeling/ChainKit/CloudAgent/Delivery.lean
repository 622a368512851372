import ChainKit.CloudAgent.Agent

/-! What becomes of pushed events. The agent refines an outbox: each of its steps is a move, so
that in every run all events are accounted for, the memory is bounded and the order is kept. -/
namespace ChainKit.CloudAgent
open Lib

namespace Pc

/-- The batch in flight is counted as dropped and still to be discarded. -/
def counted : Pc → Bool
  | .discard _ _ _ => true
  | _ => false

/-- The POST that the loop waits for. -/
def awaiting : Pc → List Post
  | .await _ post => [post]
  | _ => []

end Pc

namespace Agent

def outbox (s : Agent) : Outbox Recorded :=
  s.transport.outbox s.history.pushed s.history.accepted s.pc.counted

def sentSince (s₀ s : Agent) : List Post := s.history.sent.drop s₀.history.sent.length

/-- The POSTs are answered one after the other, the last one carries the batch in flight, and
pushed events are numbered. -/
structure Coherent (s : Agent) : Prop where
  sent : s.history.sent = s.history.answered.map Prod.fst ++ s.pc.awaiting
  inflight : ∀ post ∈ s.pc.awaiting, post.events = s.transport.inflight
  pushed : s.history.pushed.map Recorded.seq = List.range s.history.pushed.length

theorem start_coherent (opts : Options) : (start opts).Coherent where
  sent := rfl
  inflight := by simp [start,Pc.awaiting]
  pushed := rfl

/-- Outside a POST it is enough that the steps leave the history of POSTs alone. -/
theorem Coherent.of_idle {s s' : Agent} (hs : s.Coherent) (hpc : s.pc.awaiting = [])
    (hpc' : s'.pc.awaiting = []) (hsent : s'.history.sent = s.history.sent)
    (hanswered : s'.history.answered = s.history.answered)
    (hpushed : s'.history.pushed = s.history.pushed) : s'.Coherent where
  sent := by rw [hsent,hanswered,hpc',hs.sent,hpc]
  inflight := by simp [hpc']
  pushed := by rw [hpushed,hs.pushed]

theorem push_coherent {s : Agent} (hs : s.Coherent) (e : Event) : (s.push e).Coherent where
  sent := hs.sent
  inflight := by
    intro post hpost
    rw [hs.inflight post hpost]
    simp only [push,Transport.push]
    split_ifs <;> rfl
  pushed := by
    have h := hs.pushed
    simp only [push,List.map_append,List.map_singleton,List.length_append,List.length_singleton,
      List.range_succ,h]

section Steps
variable {rt : Runtime} {s : Agent}

theorem Flow.awaiting {t : Transport} {pc pc' : Pc} (h : Flow t pc pc') :
    pc'.awaiting = pc.awaiting := by
  cases h with
  | stop hpc _ => rcases hpc with rfl | rfl <;> rfl
  | _ => rfl

theorem turned_coherent {x : Turn} {s' : Agent} (h : Turned rt x s s') (hs : s.Coherent) :
    s'.Coherent := by
  have hsent := hs.sent
  cases h with
  | control backoff signalCh h => exact ⟨h.awaiting ▸ hs.sent,h.awaiting ▸ hs.inflight,hs.pushed⟩
  | post h hne hm hr =>
    rw [h] at hsent
    refine ⟨?_,?_,hs.pushed⟩
    · simpa [Pc.awaiting] using hsent
    · simp [Pc.awaiting,nextPost]
  | accept h ha =>
    rw [h] at hsent
    exact ⟨by simpa [Pc.awaiting,answered] using hsent,by simp [Pc.awaiting],hs.pushed⟩
  | retry err h ha =>
    rw [h] at hsent
    exact ⟨by simpa [Pc.awaiting,answered] using hsent,by simp [Pc.awaiting],hs.pushed⟩
  | giveUp err terminal h ha =>
    rw [h] at hsent
    exact ⟨by simpa [Pc.awaiting,answered] using hsent,by simp [Pc.awaiting],hs.pushed⟩
  | discard h =>
    exact hs.of_idle (by rw [h]; rfl) (by rw [goto_pc]; split_ifs <;> rfl) rfl rfl rfl
  | prune h => exact hs.of_idle (by rw [h]; rfl) rfl rfl rfl rfl
  | take h => exact hs.of_idle (by rw [h]; rfl) rfl rfl rfl rfl
  | serialise h hne hm => exact hs.of_idle (by rw [h]; rfl) rfl rfl rfl rfl
  | refuse h hne hm hr => exact hs.of_idle (by rw [h]; rfl) rfl rfl rfl rfl
  | setTerminal h ht => exact hs.of_idle (by rw [h]; rfl) rfl rfl rfl rfl
  | reportTerminal h => exact hs.of_idle (by rw [h]; rfl) rfl rfl rfl rfl
  | reportFlush h => exact hs.of_idle (by rw [h]; rfl) rfl rfl rfl rfl
  | setDrainErr h => exact hs.of_idle (by rw [h]; rfl) rfl rfl rfl rfl
  | reportDrain h => exact hs.of_idle (by rw [h]; rfl) rfl rfl rfl rfl

theorem step_coherent (rt : Runtime) (l : Label) (hs : s.Coherent) : (s.step rt l).Coherent := by
  apply step_rule
  case hidle => exact hs
  case hpush => exact fun e _ => push_coherent hs e
  case hsignal => exact ⟨hs.sent,hs.inflight,hs.pushed⟩
  case hstop => exact fun _ => ⟨hs.sent,hs.inflight,hs.pushed⟩
  case hreturn => exact fun _ => ⟨hs.sent,hs.inflight,hs.pushed⟩
  case hturn => exact fun x s' _ h => turned_coherent h hs

theorem run_coherent (rt : Runtime) (opts : Options) (labels : List Label) :
    ((start opts).run rt labels).Coherent :=
  run_invariant (start_coherent opts) (fun _ l => step_coherent rt l) labels

theorem Flow.counted {t : Transport} {pc pc' : Pc} (h : Flow t pc pc') :
    pc'.counted = pc.counted := by
  cases h with
  | stop hpc _ => rcases hpc with rfl | rfl <;> rfl
  | _ => rfl

theorem answered_accepted (post : Post) (answer : Answer) (ingested : Bool) :
    (s.answered post answer ingested).history.accepted =
      s.history.accepted ++ if answer.outcome = .accepted then post.events else [] := by
  by_cases h : answer.outcome = .accepted <;>
    simp [answered,History.accepted,History.acceptedBatches,h]

theorem turned_moves {x : Turn} {s' : Agent} (h : Turned rt x s s') (hs : s.Coherent) :
    s.transport.Moves s.outbox s'.outbox := by
  have hinflight := hs.inflight
  unfold outbox
  cases h with
  | control backoff signalCh h =>
    rw [h.counted]
    exact .idle
  | prune h =>
    rw [h]
    exact s.transport.pruneStale_moves _ _ x.now _
  | take h =>
    rw [h]
    exact s.transport.takeInflight_moves _ _
  | serialise h hne hm =>
    rw [h]
    exact s.transport.countInflight_moves _ _
  | refuse h hne hm hr =>
    rw [h]
    exact s.transport.returnInflightToHead_moves _ _
  | post h hne hm hr =>
    rw [h]
    exact .idle
  | @accept caller post h ha =>
    rw [h] at hinflight ⊢
    have hevents := hinflight post (List.mem_singleton_self post)
    simp only [goto_history,setTransport_history,answered_accepted,if_pos ha,hevents]
    exact s.transport.accept_moves _ _
  | retry err h ha =>
    rw [h]
    simp only [goto_history,setTransport_history,answered_accepted,ha,reduceCtorEq,if_false,
      List.append_nil]
    exact s.transport.returnInflightToHead_moves _ _
  | giveUp err terminal h ha =>
    have hne : x.answer.outcome ≠ .accepted := by
      rw [ha]
      cases terminal <;> simp
    rw [h]
    simp only [goto_history,setTransport_history,answered_accepted,if_neg hne,List.append_nil]
    exact s.transport.countInflight_moves _ _
  | @discard caller err terminal h =>
    rw [h]
    cases terminal <;> exact s.transport.discardInflight_moves _ _
  | setTerminal h ht =>
    rw [h]
    exact s.transport.setTerminal_moves _ _ _
  | reportTerminal h =>
    rw [h]
    exact .idle
  | reportFlush h =>
    rw [h]
    exact .idle
  | setDrainErr h =>
    rw [h]
    exact .idle
  | reportDrain h =>
    rw [h]
    exact .idle

theorem step_moves (rt : Runtime) (l : Label) (hs : s.Coherent) :
    s.transport.Moves s.outbox (s.step rt l).outbox := by
  apply step_rule (P := fun s' => s.transport.Moves s.outbox s'.outbox)
  case hidle => exact .idle
  case hpush => exact fun e _ => s.transport.push_moves _ _ _ _
  case hsignal => exact .idle
  case hstop => exact fun _ => .idle
  case hreturn => exact fun _ => .idle
  case hturn => exact fun x s' _ h => turned_moves h hs

/-- Every run of the agent keeps the laws of an outbox. -/
theorem run_sound (rt : Runtime) (opts : Options) (labels : List Label) :
    ((start opts).run rt labels).outbox.Sound opts.settings.bufferCap opts.settings.batchCap := by
  induction labels using List.reverseRecOn with
  | nil => exact Outbox.sound_empty _ _
  | append_singleton labels l ih =>
    rw [run_concat]
    have h := step_moves rt l (run_coherent rt opts labels)
    rw [Transport.Moves,run_settings] at h
    exact h.sound ih

theorem run_length (rt : Runtime) (opts : Options) (labels : List Label)
    (hcounted : ((start opts).run rt labels).pc.counted = false) :
    ((start opts).run rt labels).history.pushed.length =
      ((start opts).run rt labels).history.accepted.length+
        ((start opts).run rt labels).transport.dropped+
        ((start opts).run rt labels).transport.buf.length+
        ((start opts).run rt labels).transport.inflight.length := by
  have h := (run_sound rt opts labels).conserved.length_eq hcounted
  simp only [outbox,Transport.outbox] at h
  omega

end Steps

/-- In every run, all pushed events are accepted by the cloud, dropped, buffered or in flight
whenever the loop is not between counting a batch as dropped and discarding it. The buffer and
the batch in flight never exceed their sizes. -/
theorem run_conserved (rt : Runtime) (opts : Options) (labels : List Label) :
    let s := (start opts).run rt labels
    (s.pc.counted = false → s.history.pushed.length =
      s.history.accepted.length+s.transport.dropped+s.transport.buf.length+
        s.transport.inflight.length) ∧
    (s.transport.buf.length : ℤ) ≤ opts.withDefaults.bufferSize ∧
    (s.transport.inflight.length : ℤ) ≤ opts.withDefaults.batchSize := by
  intro s
  have h : s.outbox.Sound opts.settings.bufferCap opts.settings.batchCap := run_sound rt opts labels
  refine ⟨run_length rt opts labels,?_,?_⟩
  · calc
      (s.transport.buf.length : ℤ) ≤ opts.settings.bufferCap := by exact_mod_cast h.bounded.waiting
      _ = opts.withDefaults.bufferSize := opts.settings.bufferCap_cast
  · calc
      (s.transport.inflight.length : ℤ) ≤ opts.settings.batchCap := by
        exact_mod_cast h.bounded.held
      _ = opts.withDefaults.batchSize := opts.settings.batchCap_cast

/-- A run in which one event is displaced, one accepted and one left in the buffer. -/
theorem run_conserved_displaced :
    let labels := [.push (requestAt 0),.push (requestAt 0),.push (requestAt 0)] ++
      flushTurns (.status 202)
    let s := (start { bufferSize := 2, batchSize := 1 }).run .counting labels
    s.pc.counted = false ∧ s.transport.dropped = 1 ∧ s.history.accepted.length = 1 ∧
      s.history.pushed.length = s.history.accepted.length+s.transport.dropped+
        s.transport.buf.length+s.transport.inflight.length :=
  ⟨by decide,by decide,by decide,(run_conserved _ _ _).1 (by decide)⟩

theorem Coherent.pushed_nodup {s : Agent} (hs : s.Coherent) : s.history.pushed.Nodup := by
  apply List.Nodup.of_map Recorded.seq
  rw [hs.pushed]
  exact List.nodup_range

theorem run_accepted_sublist (rt : Runtime) (opts : Options) (labels : List Label) :
    ((start opts).run rt labels).history.accepted.Sublist
      ((start opts).run rt labels).history.pushed := by
  have hsublist := (run_sound rt opts labels).ordered
  rw [Outbox.Ordered,List.append_assoc] at hsublist
  exact (List.sublist_append_left _ _).trans hsublist

theorem run_pending_nodup (rt : Runtime) (opts : Options) (labels : List Label) :
    (((start opts).run rt labels).history.accepted ++
      (((start opts).run rt labels).transport.inflight ++
        ((start opts).run rt labels).transport.buf)).Nodup := by
  have hsublist := (run_sound rt opts labels).ordered
  rw [Outbox.Ordered,List.append_assoc] at hsublist
  exact hsublist.nodup (run_coherent rt opts labels).pushed_nodup

theorem run_inflight_nodup (rt : Runtime) (opts : Options) (labels : List Label) :
    ((start opts).run rt labels).transport.inflight.Nodup :=
  (run_pending_nodup rt opts labels).of_append_right.of_append_left

/-- In every run, what is accepted, in flight and buffered is a subsequence of what was pushed. So
no event is in two accepted batches, and none is accepted and still pending. -/
theorem run_fifo (rt : Runtime) (opts : Options) (labels : List Label) :
    let s := (start opts).run rt labels
    (s.history.accepted ++ s.transport.inflight ++ s.transport.buf).Sublist s.history.pushed ∧
    s.history.pushed.Nodup ∧
    s.history.acceptedBatches.Pairwise (fun p q => ∀ r ∈ p.events, r ∉ q.events) ∧
    (∀ r ∈ s.history.accepted, r ∉ s.transport.inflight ∧ r ∉ s.transport.buf) ∧
    s.history.accepted.Sublist s.history.pushed := by
  intro s
  have hsublist : (s.history.accepted ++ s.transport.inflight ++ s.transport.buf).Sublist
      s.history.pushed := (run_sound rt opts labels).ordered
  have hpushed : s.history.pushed.Nodup := (run_coherent rt opts labels).pushed_nodup
  have hnodup := run_pending_nodup rt opts labels
  refine ⟨hsublist,hpushed,?_,?_,run_accepted_sublist rt opts labels⟩
  · have hbatches := (List.nodup_flatMap.mp hnodup.of_append_left).2
    apply hbatches.imp
    intro p q hdisjoint r hp hq
    exact hdisjoint hp hq
  · intro r hr
    have hdisjoint := List.disjoint_of_nodup_append hnodup hr
    simpa using hdisjoint

end Agent
end ChainKit.CloudAgent
