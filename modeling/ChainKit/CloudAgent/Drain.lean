import ChainKit.CloudAgent.Verdict
import ChainKit.Lib.Batches
import ChainKit.Lib.Potential

/-! The shutdown drain. It has no counter: each of its turns lowers a potential made of the pending
events and of where the loop stands, which only a push can raise. Without pushes its POSTs are the
batches into which the pending events are cut, up to the first that is not accepted. -/
namespace ChainKit.CloudAgent
open Lib

def Label.isLoop : Label → Bool
  | .loop _ => true
  | _ => false

namespace Transport
variable (t : Transport)

def pending : ℕ := t.buf.length+t.inflight.length

/-- The batches that a drain has to POST. -/
def due : List (List Recorded) :=
  (if t.inflight = [] then [] else [t.inflight]) ++ batches t.settings.batchCap t.buf

@[simp] theorem push_inflight (r : Recorded) : (t.push r).1.inflight = t.inflight := by
  unfold push
  split_ifs <;> rfl

theorem push_pending_le (r : Recorded) : (t.push r).1.pending ≤ t.pending+1 := by
  unfold push pending
  split_ifs <;> simp <;> omega

theorem push_buf_ne_nil (r : Recorded) (h : t.buf ≠ []) : (t.push r).1.buf ≠ [] := by
  unfold push
  split_ifs
  · exact h
  · simp
  · simp

theorem takeInflight_pending : t.takeInflight.pending = t.pending := by
  unfold takeInflight pending
  split_ifs with h
  · rfl
  · rw [not_not.mp h]
    simp only [List.length_drop,List.length_take,List.length_nil]
    omega

theorem returnInflightToHead_pending_le : t.returnInflightToHead.pending ≤ t.pending := by
  unfold returnInflightToHead pending
  split_ifs with h
  · exact le_rfl
  · simp only [List.length_drop,List.length_append,List.length_nil]
    omega

theorem takeInflight_inflight_ne_nil (h : t.buf ≠ [] ∨ t.inflight ≠ []) :
    t.takeInflight.inflight ≠ [] := by
  unfold takeInflight
  split_ifs with hinflight
  · exact hinflight
  · have hbuf := List.length_pos_of_ne_nil (h.resolve_right hinflight)
    have hcap := t.settings.batchCap_pos
    apply List.ne_nil_of_length_pos
    rw [List.length_take]
    omega

theorem takeInflight_due (h : t.buf ≠ [] ∨ t.inflight ≠ []) : t.takeInflight.due = t.due := by
  have hne := t.takeInflight_inflight_ne_nil h
  unfold takeInflight at hne ⊢
  split_ifs at hne ⊢ with hinflight
  · rfl
  · have hbuf := h.resolve_right hinflight
    rw [due,if_neg hne,due,if_pos (not_not.mp hinflight),
      batches_of_ne_nil t.settings.batchCap_pos hbuf]
    simp only [List.singleton_append,List.nil_append]
    rw [Nat.min_comm,← List.take_eq_take_min,← List.drop_eq_drop_min]

theorem due_of_inflight (h : t.inflight ≠ []) : t.due = t.inflight :: t.discardInflight.due := by
  rw [due,if_neg h]
  rfl

theorem due_eq_nil (hbuf : t.buf = []) (hinflight : t.inflight = []) : t.due = [] := by
  rw [due,if_pos hinflight,hbuf,batches_nil]
  rfl

end Transport

namespace Pc

/-- The number of turns to the end of a flush that fails, or to the next one. -/
def rank : Pc → ℕ
  | .flushed _ true _ => 12
  | .drain => 11
  | .isTerminal _ => 10
  | .take _ => 9
  | .build _ => 8
  | .await _ _ => 7
  | .discard _ _ _ => 6
  | .setTerminal _ _ => 5
  | .reportTerminal _ _ => 4
  | .flushed _ false _ => 3
  | .setDrainErr _ => 2
  | .reportDrain _ => 1
  | _ => 0

/-- The drain has batches to POST, or to find that there are none. -/
def offering : Pc → Bool
  | .drain | .isTerminal _ | .take _ | .build _ | .await _ _ | .flushed _ true _ => true
  | _ => false

/-- What a flush knows of the transport where it stands, if there was something to flush. -/
def Knows (t : Transport) : Pc → Prop
  | .isTerminal _ | .take _ => t.buf ≠ [] ∨ t.inflight ≠ []
  | .build _ | .await _ _ => t.inflight ≠ []
  | .flushed _ false none => t.isTerminal = true
  | _ => True

structure Prepared (t : Transport) (pc : Pc) : Prop where
  draining : pc.draining = true
  knows : pc.Knows t

theorem Prepared.not_crash {t : Transport} {pc : Pc} (h : pc.Prepared t) : ¬pc.crash = true := by
  intro hcrash
  obtain ⟨panic,rfl⟩ := Pc.crash_iff.mp hcrash
  cases h.draining

/-- When a drain goes on with another flush. -/
def GoesOn (t : Transport) : Pc → Pc → Prop
  | .drain,next => next = .exited ∨ t.buf ≠ [] ∨ t.inflight ≠ []
  | .flushed (.drain _) ok _,next => next = .drain → ok = true
  | _,_ => True

end Pc

namespace Agent

def potential (s : Agent) : ℕ := 13*s.transport.pending+s.pc.rank

section Turns
variable {rt : Runtime} {x : Turn} {s s' : Agent}

theorem turn_goesOn (hs : s.pc.Knows s.transport) :
    s.pc.GoesOn s.transport (s.turn rt x).pc := by
  unfold turn
  cases hpc : s.pc with
  | drain =>
    dsimp only
    split_ifs with hzero
    · exact .inl rfl
    · refine .inr ?_
      by_contra hnil
      simp_all
  | flushed caller ok err =>
    cases caller with
    | loop => trivial
    | drain pending =>
      rw [hpc] at hs
      intro hdrain
      cases ok with
      | true => rfl
      | false =>
        cases err with
        | none =>
          have hterm : s.transport.isTerminal = true := hs
          simp [settleDrain,hterm] at hdrain
        | some err =>
          simp only [settleDrain,Bool.false_eq_true,if_false] at hdrain
          split_ifs at hdrain <;> cases hdrain
  | _ => trivial

theorem Flow.descends {t : Transport} {pc next : Pc} (h : Flow t pc next)
    (hpc : pc.Prepared t) (hgo : pc.GoesOn t next) :
    next.Prepared t ∧ (pc = .exited ∨ next.rank < pc.rank) := by
  obtain ⟨hdraining,hknows⟩ := hpc
  cases h with
  | stay h => exact ⟨⟨hdraining,hknows⟩,.inl (by cases pc <;> simp_all [Pc.waits,Pc.draining])⟩
  | stop h => rcases h with rfl | rfl <;> cases hdraining
  | dead caller h => exact ⟨⟨hdraining,h⟩,.inr (by simp [Pc.rank])⟩
  | alive caller h => exact ⟨⟨hdraining,hknows⟩,.inr (by simp [Pc.rank])⟩
  | empty caller h => exact absurd h hknows
  | again caller err h => exact ⟨⟨hdraining,trivial⟩,.inr (by simp [Pc.rank])⟩
  | drainOn pending ok err =>
    rw [hgo rfl]
    exact ⟨⟨rfl,trivial⟩,.inr (by simp [Pc.rank])⟩
  | drainDead pending err h => exact ⟨⟨rfl,trivial⟩,.inr (by simp [Pc.rank])⟩
  | drainFailed pending err err' h => exact ⟨⟨rfl,trivial⟩,.inr (by simp [Pc.rank])⟩
  | drained hb hi => exact ⟨⟨rfl,trivial⟩,.inr (by simp [Pc.rank])⟩
  | drainNext pending =>
    exact ⟨⟨rfl,hgo.resolve_left (by simp)⟩,.inr (by simp [Pc.rank])⟩
  | sleep => cases hdraining
  | prune => cases hdraining
  | awake => cases hdraining
  | select ok err => cases hdraining
  | crash err panic h => cases hdraining
  | failed err h => cases hdraining

/-- A turn of the drain leaves it where it knows what it needs, and lowers the potential. -/
theorem turned_descends (h : Turned rt x s s') (hs : s.pc.Prepared s.transport)
    (hgo : s.pc.GoesOn s.transport s'.pc) :
    s'.pc.Prepared s'.transport ∧ (s.pc = .exited ∨ s'.potential < s.potential) := by
  obtain ⟨hdraining,hknows⟩ := hs
  unfold potential
  cases h with
  | control backoff signalCh h =>
    obtain ⟨hnext,hrank⟩ := h.descends ⟨hdraining,hknows⟩ hgo
    refine ⟨⟨hnext.draining,hnext.knows⟩,hrank.imp_right fun hlt => ?_⟩
    exact Nat.add_lt_add_left hlt _
  | prune h =>
    rw [h] at hdraining
    cases hdraining
  | take h =>
    rw [h] at hdraining hknows ⊢
    refine ⟨⟨hdraining,s.transport.takeInflight_inflight_ne_nil hknows⟩,.inr ?_⟩
    simp [Pc.rank,Transport.takeInflight_pending]
  | serialise h hne hm =>
    rw [h] at hdraining ⊢
    exact ⟨⟨hdraining,trivial⟩,.inr (by simp [Pc.rank,Transport.pending,Transport.countInflight])⟩
  | refuse h hne hm hr =>
    rw [h] at hdraining ⊢
    have hle := s.transport.returnInflightToHead_pending_le
    exact ⟨⟨hdraining,trivial⟩,.inr (by simp only [Pc.rank]; omega)⟩
  | post h hne hm hr =>
    rw [h] at hdraining ⊢
    exact ⟨⟨hdraining,hne⟩,.inr (by simp [Pc.rank])⟩
  | accept h ha =>
    rw [h] at hdraining hknows ⊢
    have hpos := List.length_pos_of_ne_nil hknows
    refine ⟨⟨hdraining,trivial⟩,.inr ?_⟩
    simp only [goto_transport,setTransport_transport,goto_pc,Pc.rank,Transport.pending,
      Transport.discardInflight,List.length_nil]
    omega
  | retry err h ha =>
    rw [h] at hdraining ⊢
    have hle := s.transport.returnInflightToHead_pending_le
    refine ⟨⟨hdraining,trivial⟩,.inr ?_⟩
    simp only [goto_transport,setTransport_transport,goto_pc,Pc.rank]
    omega
  | giveUp err terminal h ha =>
    rw [h] at hdraining ⊢
    exact ⟨⟨hdraining,trivial⟩,.inr (by simp [Pc.rank,Transport.pending,Transport.countInflight])⟩
  | @discard caller err terminal h =>
    rw [h] at hdraining ⊢
    have hle : s.transport.discardInflight.pending ≤ s.transport.pending :=
      Nat.add_le_add_left (Nat.zero_le _) _
    cases terminal with
    | true =>
      refine ⟨⟨hdraining,trivial⟩,.inr ?_⟩
      simp only [goto_transport,setTransport_transport,goto_pc,if_true,Pc.rank]
      omega
    | false =>
      refine ⟨⟨hdraining,trivial⟩,.inr ?_⟩
      simp only [goto_transport,setTransport_transport,goto_pc,Bool.false_eq_true,if_false,Pc.rank]
      omega
  | setTerminal h ht =>
    rw [h] at hdraining ⊢
    refine ⟨⟨hdraining,trivial⟩,.inr ?_⟩
    simp [Pc.rank,Transport.setTerminal,ht,Transport.pending]
  | reportTerminal h =>
    rw [h] at hdraining ⊢
    exact ⟨⟨hdraining,trivial⟩,.inr (by simp [Pc.rank])⟩
  | reportFlush h =>
    rw [h] at hdraining
    cases hdraining
  | setDrainErr h =>
    rw [h]
    exact ⟨⟨rfl,trivial⟩,.inr (by simp [Pc.rank,Transport.pending])⟩
  | reportDrain h =>
    rw [h]
    exact ⟨⟨rfl,trivial⟩,.inr (by simp [Pc.rank])⟩

theorem push_prepared (hs : s.pc.Prepared s.transport) (e : Event) :
    (s.push e).pc.Prepared (s.push e).transport := by
  refine ⟨hs.draining,?_⟩
  have hknows := hs.knows
  have hpc : (s.push e).pc = s.pc := rfl
  have hpending (h : s.transport.buf ≠ [] ∨ s.transport.inflight ≠ []) :
      (s.push e).transport.buf ≠ [] ∨ (s.push e).transport.inflight ≠ [] := by
    rcases h with hbuf | hinflight
    · exact .inl (s.transport.push_buf_ne_nil _ hbuf)
    · refine .inr ?_
      rwa [push,Transport.push_inflight]
  rw [hpc]
  cases h : s.pc with
  | isTerminal caller =>
    rw [h] at hknows
    exact hpending hknows
  | take caller =>
    rw [h] at hknows
    exact hpending hknows
  | build caller =>
    rw [h] at hknows
    simpa [Pc.Knows,push] using hknows
  | await caller post =>
    rw [h] at hknows
    simpa [Pc.Knows,push] using hknows
  | flushed caller ok err =>
    rw [h] at hknows
    cases ok with
    | true => trivial
    | false =>
      cases err with
      | none => simpa [Pc.Knows,push,Transport.isTerminal] using hknows
      | some err => trivial
  | _ => trivial

theorem step_descends (rt : Runtime) (hs : s.pc.Prepared s.transport) (l : Label) :
    (s.step rt l).pc.Prepared (s.step rt l).transport ∧
    (s.pc = .exited → (s.step rt l).pc = .exited) ∧
    (s.pc ≠ .exited →
      (s.step rt l).potential+l.isLoop.toNat ≤ s.potential+13*l.isPush.toNat) := by
  unfold step
  rw [if_neg hs.not_crash]
  cases l with
  | push e =>
    refine ⟨push_prepared hs e,fun h => h,fun _ => ?_⟩
    have hle := s.transport.push_pending_le ⟨s.history.pushed.length,e⟩
    simp only [potential,push,Label.isLoop,Label.isPush,Bool.toNat_false,Bool.toNat_true]
    omega
  | signal =>
    dsimp only
    split_ifs
    · exact ⟨⟨hs.draining,hs.knows⟩,fun h => h,fun _ => le_rfl⟩
    · exact ⟨hs,fun h => h,fun _ => le_rfl⟩
  | stop => exact ⟨⟨hs.draining,hs.knows⟩,fun h => h,fun _ => le_rfl⟩
  | returnStop =>
    dsimp only
    split_ifs
    · exact ⟨⟨hs.draining,hs.knows⟩,fun h => h,fun _ => le_rfl⟩
    · exact ⟨hs,fun h => h,fun _ => le_rfl⟩
  | loop x =>
    obtain ⟨hnext,hlower⟩ := turned_descends (turn_turned rt s x) hs (turn_goesOn hs.knows)
    refine ⟨hnext,?_,?_⟩
    · intro hpc
      simp [turn,hpc]
    · intro hpc
      exact hlower.resolve_left hpc

/-- The drain spends its potential, and only pushes add to it. -/
theorem drain_spends (rt : Runtime) :
    Spends (step rt) (fun l => l.isLoop.toNat) (fun l => 13*l.isPush.toNat)
      (fun s => s.pc.Prepared s.transport) (fun s => s.pc = .exited) potential where
  keeps s l hs := (step_descends rt hs l).1
  stays s l hs hdone := (step_descends rt hs l).2.1 hdone
  spends s l hs hdone := (step_descends rt hs l).2.2 hdone
  left s hs hdone := by
    have hdraining := hs.draining
    unfold potential
    cases hpc : s.pc with
    | flushed caller ok err => cases ok <;> simp [Pc.rank]
    | exited => exact absurd hpc hdone
    | select => simp [hpc,Pc.draining] at hdraining
    | sleep => simp [hpc,Pc.draining] at hdraining
    | prune => simp [hpc,Pc.draining] at hdraining
    | reportFlush err => simp [hpc,Pc.draining] at hdraining
    | crashed panic => simp [hpc,Pc.draining] at hdraining
    | _ => simp [Pc.rank]

end Turns

def offers (answers : List (Post × Answer)) : List (List Recorded) :=
  answers.map fun a => a.1.events

/-- Why a drain that began in `s₀` stops, after the given answers. -/
inductive Stops (rt : Runtime) (s₀ : Agent) (answers : List (Post × Answer)) : Prop
  | finished (haccepted : ∀ a ∈ answers, a.2.outcome = .accepted)
      (hall : offers answers = s₀.transport.due)
  | dead (h : s₀.transport.isTerminal = true)
  | unserialisable (batch : List Recorded) (hbatch : batch ∈ s₀.transport.due)
      (batchID : String) (now : ℤ) (ids : ℕ → String)
      (h : rt.marshalError (buildBatch (batch.map Recorded.event) s₀.transport.settings.opts
        batchID now ids) ≠ none)
  | refused (hdue : s₀.transport.due ≠ []) (h : rt.requestError s₀.url ≠ none)
  | answered (before : List (Post × Answer)) (last : Post × Answer)
      (hanswers : answers = before ++ [last])
      (hbefore : ∀ a ∈ before, a.2.outcome = .accepted) (hlast : last.2.outcome ≠ .accepted)

/-- A drain that goes on: what was due is what was accepted and what is due now. -/
structure Going (s₀ s : Agent) (answers : List (Post × Answer)) : Prop where
  terminalErr : s.transport.terminalErr = s₀.transport.terminalErr
  accepted : ∀ a ∈ answers, a.2.outcome = .accepted
  due : offers answers ++ s.transport.due = s₀.transport.due

/-- What a drain that began in `s₀` has done by `s`: the POSTs of the answers, and perhaps one
more that it waits for. -/
structure Offered (rt : Runtime) (s₀ s : Agent) (answers : List (Post × Answer)) : Prop where
  settings : s.transport.settings = s₀.transport.settings
  answered : s.history.answered = s₀.history.answered ++ answers
  sent : s.history.sent = s₀.history.sent ++ (answers.map Prod.fst ++ s.pc.awaiting)
  inflight : ∀ post ∈ s.pc.awaiting, post.events = s.transport.inflight
  requested : answers.map Prod.fst ++ s.pc.awaiting ≠ [] → rt.requestError s₀.url = none
  goes : s.pc.offering = true → Going s₀ s answers
  stops : s.pc.offering = false → offers answers <+: s₀.transport.due ∧ Stops rt s₀ answers

section Offered
variable {rt : Runtime} {x : Turn} {s₀ s s' : Agent} {answers : List (Post × Answer)}

theorem Going.isPrefix (h : Going s₀ s answers) : offers answers <+: s₀.transport.due :=
  ⟨_,h.due⟩

theorem Offered.isPrefix (h : Offered rt s₀ s answers) : offers answers <+: s₀.transport.due := by
  cases hpc : s.pc.offering with
  | true => exact (h.goes hpc).isPrefix
  | false => exact (h.stops hpc).1

theorem offered_start (rt : Runtime) (hpc : s₀.pc = .drain) : Offered rt s₀ s₀ [] where
  settings := rfl
  answered := by simp
  sent := by simp [hpc,Pc.awaiting]
  inflight := by simp [hpc,Pc.awaiting]
  requested := by simp [hpc,Pc.awaiting]
  goes _ := ⟨rfl,by simp,rfl⟩
  stops h := by simp [hpc,Pc.offering] at h

theorem Offered.of_idle (hs : Offered rt s₀ s answers)
    (hsettings : s'.transport.settings = s.transport.settings)
    (hanswered : s'.history.answered = s.history.answered)
    (hsent : s'.history.sent = s.history.sent) (hpc : s.pc.awaiting = [])
    (hpc' : s'.pc.awaiting = []) (hgoes : s'.pc.offering = true → Going s₀ s' answers)
    (hstops : s'.pc.offering = false →
      offers answers <+: s₀.transport.due ∧ Stops rt s₀ answers) : Offered rt s₀ s' answers where
  settings := hsettings.trans hs.settings
  answered := hanswered.trans hs.answered
  sent := by rw [hsent,hs.sent,hpc,hpc']
  inflight := by simp [hpc']
  requested := by
    have h := hs.requested
    rw [hpc] at h
    rwa [hpc']
  goes := hgoes
  stops := hstops

theorem Offered.of_stopped (hs : Offered rt s₀ s answers)
    (hsettings : s'.transport.settings = s.transport.settings)
    (hanswered : s'.history.answered = s.history.answered)
    (hsent : s'.history.sent = s.history.sent) (hpc : s.pc.offering = false)
    (hpc' : s'.pc.offering = false) : Offered rt s₀ s' answers := by
  have hidle {pc : Pc} (h : pc.offering = false) : pc.awaiting = [] := by
    cases pc with
    | await caller post => cases h
    | _ => rfl
  apply hs.of_idle hsettings hanswered hsent (hidle hpc) (hidle hpc')
  · intro h
    rw [hpc'] at h
    cases h
  · exact fun _ => hs.stops hpc

theorem url_eq (h : s.transport.settings = s₀.transport.settings) : s.url = s₀.url := by
  rw [url,url,h]

theorem Going.inflight_mem (h : Going s₀ s answers) (hne : s.transport.inflight ≠ []) :
    s.transport.inflight ∈ s₀.transport.due := by
  rw [← h.due,s.transport.due_of_inflight hne]
  simp

theorem Going.isPrefix_inflight (h : Going s₀ s answers) (hne : s.transport.inflight ≠ []) :
    offers answers ++ [s.transport.inflight] <+: s₀.transport.due := by
  refine ⟨s.transport.discardInflight.due,?_⟩
  rw [← h.due,s.transport.due_of_inflight hne]
  simp

theorem Flow.offering {t : Transport} {pc next : Pc} (h : Flow t pc next) (hpc : pc.Prepared t)
    (hgo : pc.GoesOn t next) : next.offering = pc.offering ∨
      pc.offering = true ∧ next.offering = false ∧
        (t.isTerminal = true ∨ t.buf = [] ∧ t.inflight = []) := by
  obtain ⟨hdraining,hknows⟩ := hpc
  cases h with
  | stay h => exact .inl rfl
  | stop h => rcases h with rfl | rfl <;> cases hdraining
  | dead caller h => exact .inr ⟨rfl,rfl,.inl h⟩
  | empty caller h => exact absurd h hknows
  | drainOn pending ok err =>
    rw [hgo rfl]
    exact .inl rfl
  | drained hb hi => exact .inr ⟨rfl,rfl,.inr ⟨hb,hi⟩⟩
  | select ok err => cases hdraining
  | _ => exact .inl rfl

theorem Flow.offered {pc : Pc} (h : Flow s.transport s.pc pc) (hpc : s.pc.Prepared s.transport)
    (hgo : s.pc.GoesOn s.transport pc) (hs : Offered rt s₀ s answers) (backoff : ℤ)
    (signalCh : Bool) : Offered rt s₀ { s with
      pc := pc
      backoff := backoff
      transport := { s.transport with signalCh := signalCh } } answers := by
  have hgoes (hoffering : s.pc.offering = true) : Going s₀ { s with
      pc := pc
      backoff := backoff
      transport := { s.transport with signalCh := signalCh } } answers := by
    have hgoing := hs.goes hoffering
    exact ⟨hgoing.terminalErr,hgoing.accepted,hgoing.due⟩
  refine ⟨hs.settings,hs.answered,?_,?_,?_,?_,?_⟩
  · rw [h.awaiting]
    exact hs.sent
  · rw [h.awaiting]
    exact hs.inflight
  · rw [h.awaiting]
    exact hs.requested
  · intro hnext
    rcases h.offering hpc hgo with hsame | ⟨hoffering,_,_⟩
    · exact hgoes (hsame ▸ hnext)
    · exact hgoes hoffering
  · intro hnext
    rcases h.offering hpc hgo with hsame | ⟨hoffering,_,hend⟩
    · exact hs.stops (hsame ▸ hnext)
    · have hgoing := hs.goes hoffering
      refine ⟨hgoing.isPrefix,?_⟩
      rcases hend with hterm | ⟨hbuf,hinflight⟩
      · apply Stops.dead
        rwa [Transport.isTerminal,← hgoing.terminalErr]
      · apply Stops.finished hgoing.accepted
        rw [← hgoing.due,s.transport.due_eq_nil hbuf hinflight,List.append_nil]

theorem Offered.answer {caller : Caller} {post : Post} (hs : Offered rt s₀ s answers)
    (hpc : s.pc = .await caller post) (answer : Answer) (ingested : Bool) {t : Transport} {pc : Pc}
    (ht : t.settings = s.transport.settings) (hawaiting : pc.awaiting = [])
    (hgoes : pc.offering = true →
      Going s₀ (((s.answered post answer ingested).setTransport t).goto pc)
        (answers ++ [(post,answer)]))
    (hstops : pc.offering = false → answer.outcome ≠ .accepted)
    (hne : s.transport.inflight ≠ []) :
    Offered rt s₀ (((s.answered post answer ingested).setTransport t).goto pc)
      (answers ++ [(post,answer)]) := by
  have hgoing := hs.goes (by rw [hpc]; rfl)
  have hevents := hs.inflight post (by rw [hpc]; exact List.mem_singleton_self post)
  refine ⟨ht.trans hs.settings,?_,?_,?_,?_,hgoes,fun hpc' => ⟨?_,?_⟩⟩
  · simp [Agent.answered,hs.answered]
  · have hsent := hs.sent
    rw [hpc,Pc.awaiting] at hsent
    simpa [Agent.answered,hawaiting] using hsent
  · simp [hawaiting]
  · intro _
    apply hs.requested
    simp [hpc,Pc.awaiting]
  · have h := hgoing.isPrefix_inflight hne
    simpa [offers,hevents] using h
  · exact .answered answers (post,answer) rfl hgoing.accepted (hstops hpc')

/-- The next state of a drain is again one that it reaches by POSTs of what was due. -/
theorem turned_offered (h : Turned rt x s s') (hpc : s.pc.Prepared s.transport)
    (hgo : s.pc.GoesOn s.transport s'.pc) (hs : Offered rt s₀ s answers) :
    ∃ answers', Offered rt s₀ s' answers' := by
  have hknows := hpc.knows
  cases h with
  | control backoff signalCh h => exact ⟨answers,h.offered hpc hgo hs backoff signalCh⟩
  | prune h =>
    have hdraining := hpc.draining
    rw [h] at hdraining
    cases hdraining
  | take h =>
    have hgoing := hs.goes (by rw [h]; rfl)
    rw [h] at hknows
    refine ⟨answers,hs.of_idle (by simp) rfl rfl (by rw [h]; rfl) rfl (fun _ => ?_) ?_⟩
    · refine ⟨?_,hgoing.accepted,?_⟩
      · simpa using hgoing.terminalErr
      · rw [goto_transport,setTransport_transport,s.transport.takeInflight_due hknows]
        exact hgoing.due
    · intro hpc'
      cases hpc'
  | @serialise caller text h hne hm =>
    have hgoing := hs.goes (by rw [h]; rfl)
    refine ⟨answers,hs.of_idle rfl rfl rfl (by rw [h]; rfl) rfl ?_ (fun _ => ?_)⟩
    · intro hpc'
      cases hpc'
    · refine ⟨hgoing.isPrefix,.unserialisable _ (hgoing.inflight_mem hne)
        (rt.newEventID s.minted) x.now (fun i => rt.newEventID (s.minted+1+i)) ?_⟩
      rw [← hs.settings]
      exact Option.ne_none_iff_exists'.mpr ⟨text,hm⟩
  | @refuse caller text h hne hm hr =>
    have hgoing := hs.goes (by rw [h]; rfl)
    refine ⟨answers,hs.of_idle (by simp) rfl rfl (by rw [h]; rfl) rfl ?_ (fun _ => ?_)⟩
    · intro hpc'
      cases hpc'
    · refine ⟨hgoing.isPrefix,.refused ?_ ?_⟩
      · exact List.ne_nil_of_mem (hgoing.inflight_mem hne)
      · rw [← url_eq hs.settings,hr]
        exact Option.some_ne_none text
  | post h hne hm hr =>
    have hgoing := hs.goes (by rw [h]; rfl)
    refine ⟨answers,hs.settings,hs.answered,?_,?_,fun _ => ?_,fun _ => ?_,?_⟩
    · simp [hs.sent,h,Pc.awaiting]
    · simp [Pc.awaiting,nextPost]
    · rw [← url_eq hs.settings,hr]
    · exact ⟨hgoing.terminalErr,hgoing.accepted,hgoing.due⟩
    · intro hpc'
      cases hpc'
  | @accept caller post h ha =>
    have hgoing := hs.goes (by rw [h]; rfl)
    have hevents := hs.inflight post (by rw [h]; exact List.mem_singleton_self post)
    have hdue := hgoing.due
    rw [h] at hknows
    refine ⟨_,hs.answer h x.answer x.ingested rfl rfl (fun _ => ?_) ?_ hknows⟩
    · refine ⟨hgoing.terminalErr,?_,?_⟩
      · simpa [ha,or_imp,forall_and] using hgoing.accepted
      · rw [s.transport.due_of_inflight hknows] at hdue
        simpa [offers,hevents] using hdue
    · intro hpc'
      cases hpc'
  | retry err h ha =>
    rw [h] at hknows
    refine ⟨_,hs.answer h x.answer x.ingested (by simp) rfl ?_ (fun _ => ?_) hknows⟩
    · intro hpc'
      cases hpc'
    · simp [ha]
  | giveUp err terminal h ha =>
    rw [h] at hknows
    refine ⟨_,hs.answer h x.answer x.ingested rfl rfl ?_ (fun _ => ?_) hknows⟩
    · intro hpc'
      cases hpc'
    · cases terminal <;> simp [ha]
  | @discard caller err terminal h =>
    refine ⟨answers,hs.of_stopped rfl rfl rfl (by rw [h]; rfl) ?_⟩
    cases terminal <;> rfl
  | setTerminal h ht => exact ⟨answers,hs.of_stopped (by simp) rfl rfl (by rw [h]; rfl) rfl⟩
  | reportTerminal h => exact ⟨answers,hs.of_stopped rfl rfl rfl (by rw [h]; rfl) rfl⟩
  | reportFlush h =>
    have hdraining := hpc.draining
    rw [h] at hdraining
    cases hdraining
  | setDrainErr h => exact ⟨answers,hs.of_stopped rfl rfl rfl (by rw [h]; rfl) rfl⟩
  | reportDrain h => exact ⟨answers,hs.of_stopped rfl rfl rfl (by rw [h]; rfl) rfl⟩

theorem Offered.frame (hs : Offered rt s₀ s answers) (signalCh stopCh : Bool)
    (signalling stopping : ℕ) (verdicts : List (Option GoError)) : Offered rt s₀ { s with
      transport := { s.transport with signalCh := signalCh, stopCh := stopCh }
      signalling := signalling
      stopping := stopping
      history := { s.history with verdicts := verdicts } } answers where
  settings := hs.settings
  answered := hs.answered
  sent := hs.sent
  inflight := hs.inflight
  requested := hs.requested
  goes h := ⟨(hs.goes h).terminalErr,(hs.goes h).accepted,(hs.goes h).due⟩
  stops := hs.stops

theorem step_offered (rt : Runtime) {l : Label} (hl : l.isPush = false)
    (hpc : s.pc.Prepared s.transport) (hs : ∃ answers, Offered rt s₀ s answers) :
    ∃ answers, Offered rt s₀ (s.step rt l) answers := by
  obtain ⟨answers,hs⟩ := hs
  apply step_kinds (P := fun s' => ∃ answers, Offered rt s₀ s' answers)
  case hidle => exact ⟨answers,hs⟩
  case hpush =>
    rintro e rfl
    cases hl
  case hsignal =>
    exact ⟨answers,hs.frame true s.transport.stopCh (s.signalling-1) s.stopping
      s.history.verdicts⟩
  case hstop =>
    intro _
    exact ⟨answers,hs.frame s.transport.signalCh true s.signalling (s.stopping+1)
      s.history.verdicts⟩
  case hreturn =>
    intro _
    exact ⟨answers,hs.frame s.transport.signalCh s.transport.stopCh s.signalling (s.stopping-1)
      (s.history.verdicts ++ [s.transport.verdict])⟩
  case hturn =>
    intro x _
    exact turned_offered (turn_turned rt s x) hpc (turn_goesOn hpc.knows) hs

theorem run_offered (rt : Runtime) (hpc : s₀.pc = .drain) {labels : List Label}
    (hlabels : ∀ l ∈ labels, l.isPush = false) :
    (s₀.run rt labels).pc.Prepared (s₀.run rt labels).transport ∧
      ∃ answers, Offered rt s₀ (s₀.run rt labels) answers := by
  apply foldl_invariant
    (I := fun s => s.pc.Prepared s.transport ∧ ∃ answers, Offered rt s₀ s answers)
  · rw [hpc]
    exact ⟨⟨rfl,trivial⟩,[],offered_start rt hpc⟩
  · rintro before l after rfl ⟨hprepared,hoffered⟩
    have hl := hlabels l (by simp)
    exact ⟨(step_descends rt hprepared l).1,step_offered rt hl hprepared hoffered⟩

theorem Offered.length_le (hs : Offered rt s₀ s answers) (hpc : s.pc.Prepared s.transport) :
    (answers.map Prod.fst ++ s.pc.awaiting).length ≤ s₀.transport.due.length := by
  have hanswers : (offers answers).length = answers.length := List.length_map _
  cases hawait : s.pc with
  | await caller post =>
    have hknows := hpc.knows
    rw [hawait] at hknows
    have hgoing := hs.goes (by rw [hawait]; rfl)
    have hle := (hgoing.isPrefix_inflight hknows).length_le
    simpa [Pc.awaiting,hanswers] using hle
  | _ => simpa [Pc.awaiting,hanswers] using hs.isPrefix.length_le

end Offered

end Agent

theorem Transport.length_due_le (t : Transport) :
    t.due.length ≤ t.pending ⌈/⌉ t.settings.batchCap+1 := by
  have hmono : t.buf.length ⌈/⌉ t.settings.batchCap ≤ t.pending ⌈/⌉ t.settings.batchCap := by
    rw [ceilDiv_le_iff_le_mul t.settings.batchCap_pos]
    calc t.buf.length ≤ t.pending := Nat.le_add_right _ _
      _ ≤ t.settings.batchCap*(t.pending ⌈/⌉ t.settings.batchCap) :=
        (ceilDiv_le_iff_le_mul t.settings.batchCap_pos).mp le_rfl
  unfold due
  rw [List.length_append,length_batches]
  split_ifs
  · simp only [List.length_nil]
    omega
  · simp only [List.length_singleton]
    omega

namespace Agent

/-- From any state in which the drain begins: it ends under every schedule with finitely many
pushes in which the loop keeps getting its turns, which includes that its POSTs are answered.
Without pushes it makes at most one POST for every `BatchSize` pending events, rounded up, and one
more. -/
theorem drain_terminates (rt : Runtime) (s : Agent) (hpc : s.pc = .drain) :
    (∀ schedule : ℕ → Label, {n | (schedule n).isPush = true}.Finite →
      {n | (schedule n).isLoop = true}.Infinite →
      ∃ n, (s.run rt ((List.range n).map schedule)).pc = .exited) ∧
    ∀ labels : List Label, (∀ l ∈ labels, l.isPush = false) →
      (s.run rt labels).history.sent.length ≤ s.history.sent.length+
        ((s.transport.buf.length+s.transport.inflight.length) ⌈/⌉
          s.transport.settings.batchCap+1) := by
  constructor
  · intro schedule hpushes hloops
    have hstart : s.pc.Prepared s.transport := by
      rw [hpc]
      exact ⟨rfl,trivial⟩
    apply (drain_spends rt).eventually_done hstart schedule
    · simpa using hpushes
    · simpa using hloops
  · intro labels hlabels
    obtain ⟨hprepared,answers,hoffered⟩ := run_offered rt hpc hlabels
    have hle := hoffered.length_le hprepared
    have hdue := s.transport.length_due_le
    rw [hoffered.sent,List.length_append]
    exact Nat.add_le_add_left (hle.trans hdue) _

/-- A drain of two events, with turns of the loop only. -/
theorem drain_terminates_two :
    let s := (start { batchSize := 1 }).run .counting
      [.push (requestAt 0),.push (requestAt 0),.stop,.loop { wake := .stop }]
    s.pc = .drain ∧ s.transport.buf.length = 2 ∧
      (∃ n, (s.run .counting ((List.range n).map fun _ => .loop {})).pc = .exited) ∧
      (s.run .counting (List.replicate 20 (.loop {}))).history.sent.length ≤
        s.history.sent.length+((s.transport.buf.length+s.transport.inflight.length) ⌈/⌉
          s.transport.settings.batchCap+1) := by
  intro s
  have h := drain_terminates .counting s rfl
  refine ⟨rfl,rfl,h.1 (fun _ => .loop {}) ?_ ?_,h.2 _ ?_⟩
  · simp [Label.isPush]
  · simpa [Label.isLoop] using Set.infinite_univ
  · intro l hl
    rw [List.eq_of_mem_replicate hl]
    rfl

end Agent
end ChainKit.CloudAgent
