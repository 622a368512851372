import ChainKit.Scoring.Counting
import ChainKit.Scoring.SharedScores

/-! Calls of `RecordEvent` that overlap leave the penalties and counters of the same calls made one
after the other. -/
namespace ChainKit
open Lib
variable {τ : Type}

namespace SharedEngine
variable {e : SharedEngine} {alone : Engine}

theorem Agrees.record_ignored (h : e.Agrees alone) {event : ScoreEvent}
    (hoff : e.config.enabled = false ∨ e.scores event.provider = none) :
    e.Agrees (alone.recordEvent event) := by
  refine ⟨h.config.trans (Engine.recordEvent_config alone event).symm,?_⟩
  rw [Engine.coreOf_recordEvent,← h.config]
  split_ifs with hon
  · exact (h.updateScore_none (hoff.resolve_left (by simp [hon])) _).core
  · exact h.core

theorem Agrees.record_apply (h : e.Agrees alone) (he : e.Apart) (hon : e.config.enabled = true)
    {event : ScoreEvent} {a : ℕ} (ha : e.scores event.provider = some a) :
    (e.setObject a (Engine.applyEvent e.config event.type)).Agrees (alone.recordEvent event) := by
  refine ⟨h.config.trans (Engine.recordEvent_config alone event).symm,?_⟩
  rw [Engine.coreOf_recordEvent,← h.config,if_pos hon]
  exact h.setObject he ha (core_applyEvent _ _)

end SharedEngine

/-- A step after which the engine no longer has the score of a provider that it had before. -/
def ScoreStep.Removes (name : String) : ScoreStep τ → Prop
  | .act (.unregister n) => n = name
  | .act (.load n _) => n = name
  | _ => False

def recorded (order : List (ScoreStep τ)) : List τ :=
  order.filterMap fun
    | .record t => some t
    | .act _ => none

theorem recorded_append (order order' : List (ScoreStep τ)) :
    recorded (order ++ order') = recorded order ++ recorded order' := by
  rw [recorded,List.filterMap_append]
  rfl

namespace SharedEngine
variable {e : SharedEngine}

theorem recordStep_done {event : ScoreEvent} {pc : RecordPc}
    (h : (e.recordStep event pc).2 = .done) :
    pc = .done ∨ (∃ a, pc = .apply a) ∨
      pc = .lookup ∧ (e.config.enabled = false ∨ e.scores event.provider = none) := by
  cases pc with
  | lookup =>
    refine .inr (.inr ⟨rfl,?_⟩)
    rw [recordStep_lookup] at h
    split at h
    · split_ifs at h
    next hnone =>
      by_cases hon : e.config.enabled = true
      · rw [if_pos hon] at hnone
        exact .inr hnone
      · exact .inl (by simpa using hon)
  | apply a => exact .inr (.inl ⟨a,rfl⟩)
  | done => exact .inl rfl
  | globalStats a =>
    simp only [recordStep] at h
    split_ifs at h
  | lookupAgain a excess =>
    simp only [recordStep] at h
    split at h <;> cases h
  | _ => cases h

theorem perform_keeps {name : String} {a : ScoreAct} {b : ℕ}
    (ha : ¬(ScoreStep.act a : ScoreStep τ).Removes name) (hb : e.scores name = some b) :
    (e.perform a).scores name = some b := by
  cases a with
  | register n priority =>
    simp only [perform]
    split
    · exact hb
    next hn =>
      have hne : name ≠ n := by
        rintro rfl
        rw [hn] at hb
        cases hb
      simpa [place,Function.update_of_ne hne] using hb
  | unregister n => simpa [perform,Function.update_of_ne (Ne.symm ha)] using hb
  | load n row => simpa [perform,place,Function.update_of_ne (Ne.symm ha)] using hb
  | decay n =>
    simp only [perform]
    split <;> exact hb
  | reset n =>
    simp only [perform]
    split <;> exact hb
  | track latencies => exact hb

end SharedEngine

namespace Scoring
variable [DecidableEq τ] {s : Scoring τ} {events : τ → ScoreEvent} {config : ScoringConfig}
  {order : List (ScoreStep τ)}

/-- The engine is the one after the calls of an order, up to latencies, and these are done. -/
structure Follows (s : Scoring τ) (config : ScoringConfig) (events : τ → ScoreEvent)
    (order : List (ScoreStep τ)) : Prop where
  agrees : s.engine.Agrees (order.foldl (Engine.serial events) (Engine.new config))
  apart : s.engine.Apart
  event : ∀ t, (s.calls t).event = events t
  held : ∀ t a, (s.calls t).pc.score = some a → s.engine.config.enabled = true ∧
    a < s.engine.next ∧ ∀ name, s.engine.scores name = some a → name = (events t).provider
  nodup : (recorded order).Nodup
  done : ∀ t ∈ recorded order, (s.calls t).pc = .done

omit [DecidableEq τ] in
theorem start_follows (config : ScoringConfig) (events : τ → ScoreEvent) :
    (start config events).Follows config events [] where
  agrees := ⟨rfl,rfl⟩
  apart := ⟨fun _ _ _ h => (nomatch h),fun _ _ h => (nomatch h)⟩
  event _ := rfl
  held _ _ h := nomatch h
  nodup := List.nodup_nil
  done _ h := nomatch h

/-- A step of a call changes the penalties and counters when the call takes effect, as the whole
call does. -/
theorem record_agrees (h : s.Follows config events order) (t : τ) :
    (s.step (.record t)).engine.Agrees
      ((order ++ (s.effect (.record t)).toList).foldl (Engine.serial events)
        (Engine.new config)) := by
  have hevent := h.event t
  rw [List.foldl_append]
  by_cases happly : ∃ a, (s.calls t).pc = .apply a
  · obtain ⟨a,hpc⟩ := happly
    obtain ⟨hon,_,hname⟩ := h.held t a (by rw [hpc]; rfl)
    simp only [step,hpc,SharedEngine.recordStep,effect,takesEffect,hevent,beq_iff_eq]
    split_ifs with hs
    · exact h.agrees.record_apply h.apart hon hs
    · refine ⟨h.agrees.config,?_⟩
      funext name
      refine (SharedEngine.coreOf_setObject_of_ne ?_ _).trans (congrFun h.agrees.core name)
      intro ha
      rw [hname name ha] at ha
      exact hs ha
  · have hcore := SharedEngine.recordStep_core (e := s.engine) (s.calls t).event
      (fun a ha => happly ⟨a,ha⟩)
    have hconfig := (SharedEngine.recordStep_scores (e := s.engine) (s.calls t).event
      (s.calls t).pc).1
    have hsame : (s.step (.record t)).engine.Agrees
        (order.foldl (Engine.serial events) (Engine.new config)) :=
      ⟨hconfig.trans h.agrees.config,hcore.trans h.agrees.core⟩
    by_cases hlookup : (s.calls t).pc = .lookup
    · simp only [effect,takesEffect,hlookup,hevent]
      split_ifs with hs
      · have hengine : (s.step (.record t)).engine = s.engine := by
          simp only [step,hlookup,SharedEngine.recordStep_lookup]
        rw [hengine]
        exact h.agrees.record_ignored (by simpa using hs)
      · exact hsame
    · have hnone : s.effect (.record t) = none := by
        unfold effect takesEffect
        cases hpc : (s.calls t).pc <;> simp_all
      rw [hnone]
      exact hsame

theorem done_of_takesEffect {t : τ} (h : s.takesEffect (.record t) = true) :
    (s.calls t).pc ≠ .done ∧ ((s.step (.record t)).calls t).pc = .done := by
  simp only [takesEffect] at h
  simp only [step,Function.update_self]
  cases hpc : (s.calls t).pc with
  | lookup =>
    rw [hpc] at h
    refine ⟨by decide,?_⟩
    have hnone : (if s.engine.config.enabled = true
        then s.engine.scores (s.calls t).event.provider else none) = none := by
      simpa [or_iff_not_imp_left] using h
    rw [SharedEngine.recordStep_lookup,hnone]
  | apply a => exact ⟨RecordPc.noConfusion,rfl⟩
  | _ => simp [hpc] at h

/-- Each step keeps the engine that of the calls that have taken effect. -/
theorem step_follows (h : s.Follows config events order) (step : ScoreStep τ) :
    (s.step step).Follows config events (order ++ (s.effect step).toList) := by
  cases step with
  | act a =>
    have hnewer := SharedEngine.perform_newer h.apart a
    have hrecorded : recorded (order ++ [.act a]) = recorded order := by
      rw [recorded_append]
      exact List.append_nil _
    refine ⟨?_,hnewer.apart,h.event,?_,?_,?_⟩
    · rw [List.foldl_append]
      exact SharedEngine.perform_agrees h.agrees h.apart a
    · intro t b hb
      obtain ⟨hon,hlt,hname⟩ := h.held t b hb
      refine ⟨?_,hlt.trans_le hnewer.next,?_⟩
      · exact hnewer.config ▸ hon
      · intro name hs
        exact hname name (hnewer.old name b hlt hs)
    · exact hrecorded ▸ h.nodup
    · exact fun t ht => h.done t (hrecorded ▸ ht)
  | record t =>
    obtain ⟨hconfig,hscores,hnext⟩ :=
      SharedEngine.recordStep_scores (e := s.engine) (s.calls t).event (s.calls t).pc
    have hnewer := SharedEngine.Newer.of_scores h.apart hconfig hscores hnext
    -- a call that has taken effect is done, and takes no further step
    have hdone : ∀ u ∈ recorded order, ((s.step (.record t)).calls u).pc = .done := by
      intro u hu
      have hpc := h.done u hu
      by_cases hut : u = t
      · subst hut
        simp [Scoring.step,hpc,SharedEngine.recordStep]
      · simpa [Scoring.step,Function.update_of_ne hut] using hpc
    refine ⟨record_agrees h t,hnewer.apart,?_,?_,?_,?_⟩
    · intro u
      by_cases hut : u = t
      · subst hut
        simpa [Scoring.step] using h.event u
      · simpa [Scoring.step,Function.update_of_ne hut] using h.event u
    · intro u a ha
      have hheld : (s.calls u).pc.score = some a ∨
          s.engine.config.enabled = true ∧ s.engine.scores (events u).provider = some a := by
        by_cases hut : u = t
        · subst hut
          simp only [Scoring.step,Function.update_self] at ha
          rw [← h.event u]
          exact SharedEngine.recordStep_score _ _ ha
        · simp only [Scoring.step,Function.update_of_ne hut] at ha
          exact .inl ha
      simp only [Scoring.step]
      rw [hnewer.config,hscores]
      obtain hpc | ⟨hon,hs⟩ := hheld
      · obtain ⟨hon,hlt,hname⟩ := h.held u a hpc
        exact ⟨hon,hlt.trans_le hnewer.next,hname⟩
      · refine ⟨hon,(h.apart.fresh _ a hs).trans_le hnewer.next,?_⟩
        intro name hname
        exact h.apart.inj name _ a hname hs
    · rw [recorded_append]
      unfold effect
      split_ifs with heffect
      · obtain ⟨hpc,_⟩ := done_of_takesEffect heffect
        apply h.nodup.append (List.nodup_singleton t)
        intro u hu hut
        obtain rfl := List.mem_singleton.mp hut
        exact hpc (h.done u hu)
      · exact (List.append_nil _).symm ▸ h.nodup
    · intro u hu
      rw [recorded_append] at hu
      obtain hu | hu := List.mem_append.mp hu
      · exact hdone u hu
      · unfold effect at hu
        split_ifs at hu with heffect
        · obtain rfl := List.mem_singleton.mp hu
          exact (done_of_takesEffect heffect).2
        · cases hu

/-- A call is done only after it has taken effect, while the engine has the score that it found. -/
structure Kept (s : Scoring τ) (event : ScoreEvent) (t : τ) (order : List (ScoreStep τ)) :
    Prop where
  has : ∀ a, (s.calls t).pc.score = some a → s.engine.scores event.provider = some a
  same : (s.calls t).event = event
  done : (s.calls t).pc = .done → t ∈ recorded order

theorem step_kept {event : ScoreEvent} {t : τ} (h : s.Kept event t order) {step : ScoreStep τ}
    (hstep : ¬step.Removes event.provider) :
    (s.step step).Kept event t (order ++ (s.effect step).toList) := by
  have hmem : t ∈ recorded order → t ∈ recorded (order ++ (s.effect step).toList) := by
    rw [recorded_append]
    exact List.mem_append_left _
  cases step with
  | act a =>
    refine ⟨?_,h.same,fun hpc => hmem (h.done hpc)⟩
    intro b hb
    exact SharedEngine.perform_keeps hstep (h.has b hb)
  | record u =>
    have hscores : (s.step (.record u)).engine.scores = s.engine.scores :=
      (SharedEngine.recordStep_scores (s.calls u).event (s.calls u).pc).2.1
    by_cases hut : t = u
    · subst hut
      have hsame := h.same
      have hcall : (s.step (.record t)).calls t =
          { s.calls t with pc := (s.engine.recordStep (s.calls t).event (s.calls t).pc).2 } := by
        simp [Scoring.step]
      refine ⟨?_,?_,?_⟩
      · intro a ha
        rw [hcall] at ha
        rw [hscores]
        obtain hpc | ⟨_,hs⟩ := SharedEngine.recordStep_score _ _ ha
        · exact h.has a hpc
        · exact hsame ▸ hs
      · rw [hcall]
        exact hsame
      · intro hpc
        rw [hcall] at hpc
        obtain hdone | ⟨a,hlast⟩ | ⟨hfirst,hoff⟩ := SharedEngine.recordStep_done hpc
        · exact hmem (h.done hdone)
        · have hs := h.has a (by rw [hlast]; rfl)
          have heffect : s.takesEffect (.record t) = true := by
            simp [takesEffect,hlast,hsame,hs]
          simp [effect,heffect,recorded]
        · have heffect : s.takesEffect (.record t) = true := by
            simpa [takesEffect,hfirst] using hoff
          simp [effect,heffect,recorded]
    · have hcall : (s.step (.record u)).calls t = s.calls t := by
        simp [Scoring.step,Function.update_of_ne hut]
      refine ⟨?_,?_,?_⟩
      · rw [hcall,hscores]
        exact h.has
      · rw [hcall]
        exact h.same
      · rw [hcall]
        exact fun hpc => hmem (h.done hpc)

end Scoring
end ChainKit
