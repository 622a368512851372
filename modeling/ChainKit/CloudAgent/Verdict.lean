import ChainKit.CloudAgent.Delivery
import ChainKit.CloudAgent.Terminal

/-! The verdict of `Stop`. It reports a rejected key and a failed drain, and says nothing of the
events that were dropped before. -/
namespace ChainKit.CloudAgent
open Lib

def Caller.draining : Caller → Bool
  | .loop => false
  | .drain _ => true

/-- The loop has seen that `stopCh` is closed. -/
def Pc.draining : Pc → Bool
  | .isTerminal caller | .take caller | .build caller | .await caller _ => caller.draining
  | .discard caller _ _ | .setTerminal caller _ | .reportTerminal caller _ => caller.draining
  | .flushed caller _ _ => caller.draining
  | .drain | .setDrainErr _ | .reportDrain _ | .exited => true
  | _ => false

namespace Agent

/-- The number of events that a step adds to `dropped`: a push on a full buffer, stale events, a
batch that cannot be serialised or is refused for good, a batch that no longer fits when it is put
back, and what is left when the key is rejected. -/
def loss (rt : Runtime) (s : Agent) : Label → ℕ
  | .push _ =>
    if s.pc.crash then 0
    else if s.transport.isTerminal ∨ s.transport.settings.bufferCap ≤ s.transport.buf.length then 1
    else 0
  | .loop x =>
    match s.pc with
    | .prune => s.transport.stale x.now
    | .build _ =>
      if s.transport.inflight = [] then 0
      else if (rt.marshalError (s.nextPost rt x.now).batch).isSome then s.transport.inflight.length
      else if (rt.requestError s.url).isSome then s.transport.overflow
      else 0
    | .await _ _ =>
      match x.answer.outcome with
      | .accepted => 0
      | .retryable => s.transport.overflow
      | .rejected => s.transport.inflight.length
      | .poison => s.transport.inflight.length
    | .setTerminal _ _ =>
      if s.transport.isTerminal then 0
      else s.transport.buf.length+s.transport.inflight.length
    | _ => 0
  | _ => 0

section Loss
variable {rt : Runtime} {s s' : Agent} {x : Turn}

theorem Flow.loss_eq {pc : Pc} (h : Flow s.transport s.pc pc) : s.loss rt (.loop x) = 0 := by
  generalize hpc : s.pc = pc₀ at h
  cases h with
  | stay h => cases pc <;> simp_all [Pc.waits,loss]
  | stop h _ => rcases h with rfl | rfl <;> simp [loss,hpc]
  | empty caller h => simp [loss,hpc,h]
  | again caller err h => simp [loss,hpc,h]
  | _ => simp [loss,hpc]

theorem turned_dropped (h : Turned rt x s s') :
    s'.transport.dropped = s.transport.dropped+s.loss rt (.loop x) := by
  cases h with
  | control backoff signalCh h =>
    rw [h.loss_eq]
    rfl
  | prune h => simp [loss,h,Transport.pruneStale]
  | take h => simp [loss,h]
  | serialise h hne hm => simp [loss,h,hne,hm,Transport.countInflight]
  | refuse h hne hm hr => simp [loss,h,hne,hm,hr]
  | post h hne hm hr => simp [loss,h,hm,hr]
  | accept h ha => simp [loss,h,ha,Transport.discardInflight]
  | retry err h ha => simp [loss,h,ha]
  | giveUp err terminal h ha => cases terminal <;> simp [loss,h,ha,Transport.countInflight]
  | discard h => simp [loss,h,Transport.discardInflight]
  | setTerminal h ht => simp [loss,h,ht,Transport.setTerminal]
  | reportTerminal h => simp [loss,h]
  | reportFlush h => simp [loss,h]
  | setDrainErr h => simp [loss,h]
  | reportDrain h => simp [loss,h]

theorem push_dropped (s : Agent) (e : Event) (hcrash : s.pc.crash = false) :
    (s.push e).transport.dropped = s.transport.dropped+s.loss rt (.push e) := by
  simp only [push,Transport.push,loss,hcrash]
  cases hterm : s.transport.isTerminal with
  | true => rfl
  | false =>
    by_cases hfull : s.transport.settings.bufferCap ≤ s.transport.buf.length <;> simp [hfull]

theorem loss_of_crash {l : Label} (hcrash : s.pc.crash = true) : s.loss rt l = 0 := by
  obtain ⟨panic,hpc⟩ := Pc.crash_iff.mp hcrash
  cases l <;> simp [loss,hpc,Pc.crash]

theorem step_dropped (rt : Runtime) (s : Agent) (l : Label) :
    (s.step rt l).transport.dropped = s.transport.dropped+s.loss rt l := by
  unfold step
  cases hcrash : s.pc.crash with
  | true => simp [loss_of_crash hcrash]
  | false =>
    cases l with
    | push e => exact push_dropped s e hcrash
    | signal => simp only [loss]; split_ifs <;> rfl
    | stop => rfl
    | returnStop => simp only [loss]; split_ifs <;> rfl
    | loop x => exact turned_dropped (turn_turned rt s x)

/-- Nothing is dropped in a run if and only if each of its steps drops nothing. -/
theorem run_dropped_eq_zero_iff (rt : Runtime) (opts : Options) (labels : List Label) :
    ((start opts).run rt labels).transport.dropped = 0 ↔
      ∀ before l after, labels = before ++ l :: after →
        ((start opts).run rt before).loss rt l = 0 := by
  apply run_iff (fun s => s.transport.dropped = 0) (fun s l => s.loss rt l = 0) rfl
  intro before l
  rw [step_dropped,Nat.add_eq_zero_iff]

end Loss

/-- No push comes after a call of `Stop`. -/
def PushesBeforeStop (labels : List Label) : Prop :=
  labels.Pairwise fun l l' => l.isStop = true → l'.isPush = false

instance (labels : List Label) : Decidable (PushesBeforeStop labels) :=
  inferInstanceAs (Decidable (List.Pairwise _ _))

theorem PushesBeforeStop.not_mem {before after : List Label} {e : Event}
    (h : PushesBeforeStop (before ++ .push e :: after)) : .stop ∉ before := by
  intro hstop
  have hpush := (List.pairwise_append.mp h).2.2 .stop hstop (.push e) List.mem_cons_self rfl
  cases hpush

structure Drains (s : Agent) : Prop where
  stopped : s.pc.draining = true → s.transport.stopCh = true
  failed : ∀ err, s.pc = .reportDrain err → s.transport.drainErr = some err
  emptied : s.pc.done = true → s.transport.verdict = none →
    s.transport.buf = [] ∧ s.transport.inflight = []

section Drains
variable {rt : Runtime} {s s' : Agent} {x : Turn}

theorem Drains.running (hs : s.Drains) (hstop : s'.transport.stopCh = s.transport.stopCh)
    (hdraining : s'.pc.draining = true → s.pc.draining = true)
    (hreport : ∀ err, s'.pc ≠ .reportDrain err) (hdone : s'.pc.done = false) : s'.Drains where
  stopped h := hstop.trans (hs.stopped (hdraining h))
  failed err h := absurd h (hreport err)
  emptied h := absurd (hdone.symm.trans h) Bool.false_ne_true

theorem Flow.drains {pc : Pc} (h : Flow s.transport s.pc pc) (hs : s.Drains) :
    (s.goto pc).Drains := by
  generalize hpc : s.pc = pc₀ at h
  cases h with
  | stay h => exact hpc ▸ hs
  | stop _ h => exact ⟨fun _ => h,nofun,nofun⟩
  | drained hb hi => exact ⟨fun _ => hs.stopped (hpc ▸ rfl),nofun,fun _ _ => ⟨hb,hi⟩⟩
  | drainDead pending err h =>
    refine ⟨fun _ => hs.stopped (hpc ▸ rfl),nofun,?_⟩
    intro _ hverdict
    have hnone : s.transport.terminalErr = none := (Option.or_eq_none_iff.mp hverdict).1
    rw [Transport.isTerminal,hnone] at h
    cases h
  | _ =>
    refine hs.running ?_ ?_ ?_ ?_
    · rfl
    · rw [hpc]
      exact id
    · intro err hreport
      cases hreport
    · rfl

theorem turned_drains (h : Turned rt x s s') (hs : s.Drains) : s'.Drains := by
  cases h with
  | control backoff signalCh h =>
    obtain ⟨hstopped,hfailed,hemptied⟩ := h.drains hs
    exact ⟨hstopped,hfailed,hemptied⟩
  | @setDrainErr err h =>
    refine ⟨fun _ => hs.stopped (h ▸ rfl),?_,nofun⟩
    rintro err' hpc
    cases hpc
    rfl
  | @reportDrain err h =>
    refine ⟨fun _ => hs.stopped (h ▸ rfl),nofun,?_⟩
    intro _ hverdict
    have hnone := (Option.or_eq_none_iff.mp hverdict).2
    cases (hs.failed err h).symm.trans hnone
  | @discard caller err terminal h =>
    refine hs.running rfl ?_ ?_ ?_
    · rw [h]
      cases terminal <;> exact id
    · intro err' hreport
      cases terminal <;> cases hreport
    · cases terminal <;> rfl
  | prune h => exact hs.running rfl nofun nofun rfl
  | reportFlush h => exact hs.running rfl nofun nofun rfl
  | _ =>
    refine hs.running ?_ ?_ ?_ rfl
    · simp [Transport.countInflight,Transport.discardInflight]
    · simp_all [Pc.draining]
    · intro err' hreport
      cases hreport

theorem push_drains (hs : s.Drains) (hopen : s.transport.stopCh = false) (e : Event) :
    (s.push e).Drains where
  stopped h := by simpa [push] using hs.stopped h
  failed err h := by simpa [push] using hs.failed err h
  emptied h := by
    have hstop := hs.stopped (Pc.done_iff.mp h ▸ rfl)
    rw [hopen] at hstop
    cases hstop

theorem run_stopCh (rt : Runtime) (opts : Options) (labels : List Label) :
    ((start opts).run rt labels).transport.stopCh = true → .stop ∈ labels := by
  induction labels using List.reverseRecOn with
  | nil => simp [start]
  | append_singleton labels l ih =>
    rw [run_concat,List.mem_append]
    apply step_rule (P := fun s' => s'.transport.stopCh = true → .stop ∈ labels ∨ .stop ∈ [l])
    case hidle => exact fun h => .inl (ih h)
    case hpush => exact fun e _ h => .inl (ih (by simpa [push] using h))
    case hsignal => exact fun h => .inl (ih h)
    case hstop => exact fun hl _ => .inr (hl ▸ List.mem_singleton_self _)
    case hreturn => exact fun _ h => .inl (ih h)
    case hturn =>
      intro x s' _ ht h
      refine .inl (ih ?_)
      rw [← h]
      cases ht <;> simp [Transport.pruneStale,Transport.countInflight,Transport.discardInflight]

theorem run_drains (rt : Runtime) (opts : Options) {labels : List Label}
    (hpush : PushesBeforeStop labels) : ((start opts).run rt labels).Drains := by
  apply foldl_invariant
  · exact ⟨nofun,nofun,nofun⟩
  · intro before l after hsplit hs
    apply step_rule
    case hidle => exact hs
    case hpush =>
      rintro e rfl
      have hopen : ((start opts).run rt before).transport.stopCh ≠ true :=
        fun h => (hsplit ▸ hpush).not_mem (run_stopCh rt opts before h)
      exact push_drains hs (Bool.eq_false_iff.mpr hopen) e
    case hsignal => exact ⟨hs.stopped,hs.failed,hs.emptied⟩
    case hstop => exact fun _ => ⟨fun _ => rfl,hs.failed,hs.emptied⟩
    case hreturn => exact fun _ => ⟨hs.stopped,hs.failed,hs.emptied⟩
    case hturn => exact fun x s' _ h => turned_drains h hs

end Drains

/-- Where a call of `Stop` has returned `nil`, everything pushed is accepted or dropped. -/
theorem run_settled (rt : Runtime) (opts : Options) {labels : List Label}
    (hpush : PushesBeforeStop labels)
    (hnil : none ∈ ((start opts).run rt labels).history.verdicts) :
    ((start opts).run rt labels).history.pushed.length =
      ((start opts).run rt labels).history.accepted.length+
        ((start opts).run rt labels).transport.dropped := by
  obtain ⟨hdone,hverdict⟩ := run_unanimous rt opts labels none hnil
  obtain ⟨hbuf,hinflight⟩ := (run_drains rt opts hpush).emptied hdone hverdict.symm
  have hlength := run_length rt opts labels (by rw [Pc.done_iff.mp hdone]; rfl)
  rw [hbuf,hinflight] at hlength
  exact hlength

/-- `Stop` returns `nil` only for runs in which everything pushed was accepted, apart from what
was dropped on the way: all of it was accepted if and only if no step dropped an event. -/
theorem stop_nil_iff (rt : Runtime) (opts : Options) (labels : List Label)
    (hpush : PushesBeforeStop labels)
    (hnil : none ∈ ((start opts).run rt labels).history.verdicts) :
    (∀ r ∈ ((start opts).run rt labels).history.pushed,
      r ∈ ((start opts).run rt labels).history.accepted) ↔
    ∀ before l after, labels = before ++ l :: after →
      ((start opts).run rt before).loss rt l = 0 := by
  have hlength := run_settled rt opts hpush hnil
  have hsublist := run_accepted_sublist rt opts labels
  have hnodup := (run_coherent rt opts labels).pushed_nodup
  rw [← run_dropped_eq_zero_iff]
  constructor
  · intro hall
    have hle := (List.subperm_of_subset hnodup hall).length_le
    omega
  · intro hzero r hr
    have heq := hsublist.eq_of_length (by omega)
    rw [heq]
    exact hr

/-- Two events are pushed before `Stop`, and the drain flushes twice. -/
def shutdown : List Label :=
  .push (requestAt 0) :: .push (requestAt 0) :: .stop :: .loop { wake := .stop } ::
    (List.replicate 13 (.loop {}) ++ [.returnStop])

theorem stop_nil_iff_shutdown :
    PushesBeforeStop shutdown ∧
      none ∈ ((start { batchSize := 1 }).run .counting shutdown).history.verdicts ∧
      ((start { batchSize := 1 }).run .counting shutdown).history.pushed.length = 2 ∧
      ∀ r ∈ ((start { batchSize := 1 }).run .counting shutdown).history.pushed,
        r ∈ ((start { batchSize := 1 }).run .counting shutdown).history.accepted := by
  have hpush : PushesBeforeStop shutdown := by decide
  have hnil : none ∈ ((start { batchSize := 1 }).run .counting shutdown).history.verdicts := by
    decide +kernel
  have hkept : Along (step .counting) (fun s l => s.loss .counting l = 0)
      (start { batchSize := 1 }) shutdown := by decide +kernel
  exact ⟨hpush,hnil,by decide +kernel,
    (stop_nil_iff .counting { batchSize := 1 } shutdown hpush hnil).mpr (along_iff.mp hkept)⟩

/-- The second push displaces the first event, and `Stop` returns `nil`. -/
theorem stop_nil_displaced :
    PushesBeforeStop shutdown ∧
      none ∈ ((start { bufferSize := 1 }).run .counting shutdown).history.verdicts ∧
      ∃ r ∈ ((start { bufferSize := 1 }).run .counting shutdown).history.pushed,
        r ∉ ((start { bufferSize := 1 }).run .counting shutdown).history.accepted := by
  refine ⟨?_,?_,?_⟩ <;> decide +kernel

end Agent
end ChainKit.CloudAgent
