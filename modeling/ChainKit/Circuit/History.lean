import ChainKit.Circuit.Breaker
import ChainKit.Lib.Schedule

/-! Histories of one provider: availability checks and recorded outcomes, applied to a
manager one after the other. The trackers of the provider follow the same history. -/
namespace ChainKit
variable {ι ε : Type}

/-- One call of the manager for a provider, with the clock readings that it takes. -/
inductive TrackingOp
  | check (now : ℤ)
  | success (closedAt requestAt scoredAt : ℤ)
  | failure (metadata : Option OperationMetadata) (err : GoError) (responseTime : ℤ)
      (now : ℤ)

namespace TrackingOp

def times : TrackingOp → List ℤ
  | .check now => [now]
  | .success closedAt requestAt scoredAt => [closedAt,requestAt,scoredAt]
  | .failure _ _ _ now => [now]

def isFailure : TrackingOp → Bool
  | .failure _ _ _ _ => true
  | _ => false

/-- A recorded success, or a failure whose error is no auth failure. -/
def IsGenericRecord : TrackingOp → Prop
  | .check _ => False
  | .success _ _ _ => True
  | .failure _ err _ _ => err.isAuth = false

end TrackingOp

namespace TrackingOp

def failAt (t : ℤ) : TrackingOp := .failure none (.plain "failed") 0 t

def authFailAt (t : ℤ) : TrackingOp := .failure none GoError.ErrAuthFailure 0 t

def successAt (t : ℤ) : TrackingOp := .success t t t

end TrackingOp

/-- The readings of a history start at `start` at the earliest and never go back. -/
def Chronological (start : ℤ) (ops : List TrackingOp) : Prop :=
  (start :: ops.flatMap TrackingOp.times).Pairwise (· ≤ ·)

/-- No reading of the history is later than `now`. -/
def Until (ops : List TrackingOp) (now : ℤ) : Prop :=
  ∀ t ∈ ops.flatMap TrackingOp.times, t ≤ now

theorem exists_until (ops : List TrackingOp) : ∃ now, Until ops now := by
  obtain ⟨now,h⟩ := (List.finite_toSet (ops.flatMap TrackingOp.times)).bddAbove
  exact ⟨now,fun t ht => h ht⟩

theorem chronological_append {start t t' : ℤ} (hs : start ≤ t) (ht : t ≤ t')
    {ops ops' : List TrackingOp} (h : ∀ u ∈ ops.flatMap TrackingOp.times, u = t)
    (h' : ∀ u ∈ ops'.flatMap TrackingOp.times, u = t') : Chronological start (ops ++ ops') := by
  have hconst : ∀ (c : ℤ) (l : List ℤ), (∀ u ∈ l, u = c) → l.Pairwise (· ≤ ·) := by
    intro c l hl
    rw [List.eq_replicate_of_mem hl]
    exact List.pairwise_replicate.mpr (Or.inr le_rfl)
  rw [Chronological,List.flatMap_append,List.pairwise_cons,List.pairwise_append]
  refine ⟨?_,hconst t _ h,hconst t' _ h',?_⟩
  · intro u hu
    rcases List.mem_append.mp hu with hu | hu
    · rw [h u hu]; exact hs
    · rw [h' u hu]; omega
  · intro u hu v hv
    rw [h u hu,h' v hv]
    exact ht

namespace ProviderManager

def track [ScoringEngine ε] (pm : ProviderManager ι ε) (name : String) :
    TrackingOp → ProviderManager ι ε
  | .check now => (pm.isProviderAvailable name now).2
  | .success closedAt requestAt scoredAt => pm.recordSuccess name closedAt requestAt scoredAt
  | .failure metadata err responseTime now =>
    pm.recordFailureWithError metadata name err responseTime now

def trackAll [ScoringEngine ε] (pm : ProviderManager ι ε) (name : String)
    (ops : List TrackingOp) : ProviderManager ι ε :=
  ops.foldl (fun pm op => pm.track name op) pm

end ProviderManager

namespace Breaker
variable (config : CircuitBreakerConfig)

def track (b : Breaker) : TrackingOp → Breaker
  | .check now => (b.check config now).2
  | .success closedAt _ _ => b.success config closedAt
  | .failure _ err _ now =>
    if err.isAuth then (b.fail config now).authFail now else b.fail config now

def trackAll (b : Breaker) (ops : List TrackingOp) : Breaker :=
  ops.foldl (fun b op => b.track config op) b

@[simp] theorem track_failAt (b : Breaker) (t : ℤ) :
    b.track config (.failAt t) = b.fail config t := rfl

@[simp] theorem track_authFailAt (b : Breaker) (t : ℤ) :
    b.track config (.authFailAt t) = (b.fail config t).authFail t := rfl

@[simp] theorem trackAll_append (b : Breaker) (ops ops' : List TrackingOp) :
    b.trackAll config (ops ++ ops') = (b.trackAll config ops).trackAll config ops' :=
  List.foldl_append

@[simp] theorem trackAll_singleton (b : Breaker) (op : TrackingOp) :
    b.trackAll config [op] = b.track config op := rfl

/-- An invariant of the single operations holds after every history. -/
theorem trackAll_invariant {config : CircuitBreakerConfig} {I : Breaker → Prop}
    (hstep : ∀ b op, I b → I (b.track config op)) {b : Breaker} (hb : I b)
    (ops : List TrackingOp) : I (b.trackAll config ops) :=
  Lib.foldl_invariant hb (fun _ op _ _ h => hstep _ op h)

theorem track_lastStateChange_le {config : CircuitBreakerConfig} {t : ℤ} {b : Breaker}
    (hb : b.circuit.lastStateChange ≤ t) {op : TrackingOp} (hop : ∀ u ∈ op.times, u ≤ t) :
    (b.track config op).circuit.lastStateChange ≤ t := by
  cases op with
  | check now =>
    have hn : now ≤ t := hop now (by simp [TrackingOp.times])
    simp only [track]
    rcases check_circuit config now b with hc | ⟨-,hc⟩
    · rw [hc]; exact hb
    · rw [hc]; exact hn
  | success closedAt requestAt scoredAt =>
    have hn : closedAt ≤ t := hop closedAt (by simp [TrackingOp.times])
    simp only [track,success,CircuitState.recordSuccess]
    split_ifs
    · exact hn
    · exact hb
  | failure metadata err responseTime now =>
    have hn : now ≤ t := hop now (by simp [TrackingOp.times])
    have hf : (b.fail config now).circuit.lastStateChange ≤ t := by
      simp only [fail,CircuitState.recordFailure]
      split_ifs
      all_goals first | exact hn | exact hb
    simp only [track]
    split_ifs
    · simp only [authFail]
      split_ifs
      · exact hf
      · exact hn
    · exact hf

theorem trackAll_lastStateChange_le {config : CircuitBreakerConfig} {t : ℤ} {b : Breaker}
    (hb : b.circuit.lastStateChange ≤ t) {ops : List TrackingOp} (hops : Until ops t) :
    (b.trackAll config ops).circuit.lastStateChange ≤ t := by
  induction ops using List.reverseRecOn with
  | nil => exact hb
  | append_singleton ops op ih =>
    simp only [Until,List.flatMap_append,List.mem_append] at hops
    rw [trackAll_append,trackAll_singleton]
    apply track_lastStateChange_le (ih (fun u hu => hops u (Or.inl hu)))
    intro u hu
    exact hops u (Or.inr (by simpa using hu))

end Breaker

namespace ProviderManager
variable [ScoringEngine ε] {pm : ProviderManager ι ε} {name : String} {b : Breaker}

theorem track_config (pm : ProviderManager ι ε) (name : String) (op : TrackingOp) :
    (pm.track name op).config = pm.config := by
  cases op with
  | check now => rfl
  | success closedAt requestAt scoredAt => rfl
  | failure metadata err responseTime now =>
    simp only [track,recordFailureWithError]
    split_ifs <;> rfl

theorem track_carries (h : (pm.states name).Carries b)
    (he : pm.config.circuitBreaker.enabled = true) (op : TrackingOp) :
    ((pm.track name op).states name).Carries (b.track pm.config.circuitBreaker op) := by
  cases op with
  | check now =>
    simp only [track,isProviderAvailable,updateState_states_self]
    exact h.check he now
  | success closedAt requestAt scoredAt =>
    simp only [track,recordSuccess,recordEvent_states,updateState_states_self]
    exact h.recordSuccess he closedAt requestAt
  | failure metadata err responseTime now =>
    have hf := h.updateFailureState he now
    simp only [track,recordFailureWithError,Breaker.track]
    split_ifs
    · simp only [handleAuthFailure,updateState_states_self,scoreFailure,recordEvent_states,
        recordEvent_config,updateFailureState,updateState_config]
      exact hf.handleAuthFailure he now
    · simp only [scoreFailure,recordEvent_states,updateFailureState,updateState_states_self]
      exact hf

/-- The trackers of a provider follow its history. -/
theorem trackAll_carries (h : (pm.states name).Carries b)
    (he : pm.config.circuitBreaker.enabled = true) (ops : List TrackingOp) :
    (pm.trackAll name ops).config = pm.config ∧
      ((pm.trackAll name ops).states name).Carries
        (b.trackAll pm.config.circuitBreaker ops) := by
  induction ops using List.reverseRecOn with
  | nil => exact ⟨rfl,h⟩
  | append_singleton ops op ih =>
    obtain ⟨hc,hs⟩ := ih
    have hop := track_carries hs (by rw [hc]; exact he) op
    rw [hc] at hop
    simp only [trackAll,List.foldl_append,List.foldl_cons,List.foldl_nil] at hc hop ⊢
    refine ⟨?_,?_⟩
    · rw [track_config,hc]
    · rw [Breaker.trackAll_append,Breaker.trackAll_singleton]
      exact hop

theorem added_carries (pm : ProviderManager ι ε) (slice : PrioritySort ι) (provider : ι)
    (priority : ℤ) (name : String) (changedAt checkedAt refilledAt : ℤ)
    (he : pm.config.circuitBreaker.enabled = true) (ops : List TrackingOp) :
    ((pm.addProvider slice (some provider) priority name changedAt checkedAt
      refilledAt).trackAll name ops).config = pm.config ∧
    (((pm.addProvider slice (some provider) priority name changedAt checkedAt
      refilledAt).trackAll name ops).states name).Carries
      ((Breaker.initial changedAt).trackAll pm.config.circuitBreaker ops) := by
  have hadd : ((pm.addProvider slice (some provider) priority name changedAt checkedAt
      refilledAt).states name).Carries (Breaker.initial changedAt) := by
    simp only [addProvider,Function.update_self]
    exact ProviderState.fresh_carries _ _ _ _
  exact trackAll_carries hadd he ops

end ProviderManager
end ChainKit
