import ChainKit.Circuit.Records

/-! The counter of auth failures. A success sets it back and an auth failure raises it, while a
generic failure leaves it alone: it is the trailing run of auth failures only as long as no
generic failure comes after an auth failure. -/
namespace ChainKit
open Lib TrackingOp
variable {ι ε : Type}

/-- No generic failure is recorded after an auth failure, unless there is a success between. -/
def Unmixed (ops : List TrackingOp) : Prop :=
  ∀ before op, before ++ [op] <+: ops → op.isGenericFailure = true → authsSinceSuccess before = 0

instance (ops : List TrackingOp) : Decidable (Unmixed ops) :=
  decidable_of_iff (∀ i : Fin ops.length, ops[i].isGenericFailure = true →
      authsSinceSuccess (ops.take i) = 0) (by
    constructor
    · rintro h before op ⟨after,rfl⟩ hop
      have hi := h ⟨before.length,by simp⟩
      simp only [Fin.getElem_fin,List.append_assoc,List.singleton_append,
        List.getElem_append_right le_rfl,Nat.sub_self,List.getElem_cons_zero,
        List.take_left] at hi
      exact hi hop
    · intro h i hi
      refine h (ops.take i) ops[i] ?_ hi
      rw [Fin.getElem_fin,List.take_concat_get' ops i i.isLt]
      exact List.take_prefix _ _)

theorem Unmixed.of_isPrefix {h ops : List TrackingOp} (hu : Unmixed ops) (hh : h <+: ops) :
    Unmixed h := by
  intro before op hop
  exact hu before op (hop.trans hh)

/-- The two ways to count agree along a history exactly when it is not mixed. -/
theorem authsSinceSuccess_eq_iff {ops : List TrackingOp} (hops : ∀ op ∈ ops, op.IsRecord) :
    (∀ h, h <+: ops → authsSinceSuccess h = trailingRun (h.map isAuthFailure)) ↔ Unmixed ops := by
  constructor
  · intro hall before op hop hgeneric
    have heq := hall _ hop
    cases op with
    | check now => cases hgeneric
    | success closedAt requestAt scoredAt => cases hgeneric
    | failure metadata err responseTime now =>
      have ha : err.isAuth = false := by
        simpa [isGenericFailure,isFailure,isAuthFailure] using hgeneric
      simpa [authsSinceSuccess_failure,isAuthFailure,ha] using heq
  · intro hu h
    induction h using List.reverseRecOn with
    | nil => simp
    | append_singleton h op ih =>
      intro hop
      have hh := ih ((List.prefix_append h [op]).trans hop)
      cases op with
      | check now => exact absurd (hops (.check now) (hop.subset (by simp))) id
      | success closedAt requestAt scoredAt => simp [isAuthFailure]
      | failure metadata err responseTime now =>
        cases ha : err.isAuth with
        | true => simp [authsSinceSuccess_failure,isAuthFailure,ha,hh]
        | false =>
          -- a generic failure ends the run, and the counter has nothing to keep
          have hzero := hu h _ hop (by simp [isGenericFailure,isFailure,isAuthFailure,ha])
          simp [authsSinceSuccess_failure,isAuthFailure,ha,hzero]

namespace Breaker
variable {config : CircuitBreakerConfig} {ops : List TrackingOp} {b : Breaker}

/-- The circuit while fewer failures are recorded than the circuit breaker tolerates. -/
structure OpenedByAuths (ops : List TrackingOp) (b : Breaker) : Prop where
  failures : b.circuit.consecutiveFailures ≤ ops.length
  notHalfOpen : b.circuit.state ≠ .halfOpen
  opened : b.circuit.state = .opened ↔
    List.replicate authFailureCircuitThreshold true <:+: ops.map isAuthFailure

theorem OpenedByAuths.success (h : b.OpenedByAuths ops) (closedAt requestAt scoredAt : ℤ) :
    (b.success config closedAt).OpenedByAuths
      (ops ++ [TrackingOp.success closedAt requestAt scoredAt]) where
  failures := by simp
  notHalfOpen := by
    rw [success_state_of_not_halfOpen config h.notHalfOpen]
    exact h.notHalfOpen
  opened := by
    rw [success_state_of_not_halfOpen config h.notHalfOpen,h.opened,List.map_append]
    exact (replicate_infix_unmarked (by decide) _).symm

theorem OpenedByAuths.fail_circuit (h : b.OpenedByAuths ops)
    (hF : (ops.length : ℤ)+1 < config.failureThreshold) (now : ℤ) :
    (b.fail config now).circuit.consecutiveFailures ≤ ops.length+1 ∧
      (b.fail config now).circuit.state = b.circuit.state := by
  have hle := h.failures
  constructor
  · simpa using hle
  · rw [fail_state,if_neg]
    push_cast
    omega

theorem OpenedByAuths.failure (h : b.OpenedByAuths ops)
    (hF : (ops.length : ℤ)+1 < config.failureThreshold)
    (hcount : b.failure.consecutiveAuthFailures = trailingRun (ops.map isAuthFailure))
    (metadata : Option OperationMetadata) (err : GoError) (responseTime now : ℤ) :
    (b.track config (.failure metadata err responseTime now)).OpenedByAuths
      (ops ++ [TrackingOp.failure metadata err responseTime now]) := by
  obtain ⟨hle,hstate⟩ := h.fail_circuit hF now
  have hlen : (ops ++ [TrackingOp.failure metadata err responseTime now]).length =
      ops.length+1 := by simp
  have hmarks : (ops ++ [TrackingOp.failure metadata err responseTime now]).map isAuthFailure =
      ops.map isAuthFailure ++ [err.isAuth] := by simp [isAuthFailure]
  cases ha : err.isAuth with
  | false =>
    rw [ha] at hmarks
    simp only [track,ha,Bool.false_eq_true,if_false]
    refine ⟨by omega,?_,?_⟩
    · rw [hstate]
      exact h.notHalfOpen
    · rw [hstate,h.opened,hmarks,replicate_infix_unmarked (by decide)]
  | true =>
    have hraised : (b.fail config now).failure.consecutiveAuthFailures+1 =
        trailingRun (ops.map isAuthFailure ++ [true]) := by
      rw [trailingRun_mark,← hcount]
      rfl
    rw [ha] at hmarks
    simp only [track,ha,if_true,authFail]
    rcases lt_or_ge ((b.fail config now).failure.consecutiveAuthFailures+1)
      authFailureCircuitThreshold with hlt | hge
    · rw [if_pos hlt]
      refine ⟨?_,?_,?_⟩
      · rw [hlen]
        exact hle
      · rw [hstate]
        exact h.notHalfOpen
      · rw [hstate,h.opened,hmarks,replicate_infix_snoc,← hraised]
        exact ⟨Or.inr,fun h' => h'.resolve_left (not_le.mpr hlt)⟩
    · rw [if_neg (not_lt.mpr hge)]
      refine ⟨?_,by simp [CircuitState.trip],?_⟩
      · simp only [CircuitState.trip]
        omega
      · rw [hmarks,replicate_infix_snoc,← hraised]
        exact iff_of_true rfl (Or.inl hge)

theorem trackAll_authCounter (hops : ∀ op ∈ ops, op.IsRecord) (hu : Unmixed ops)
    (changedAt : ℤ) :
    ((initial changedAt).trackAll config ops).failure.consecutiveAuthFailures =
      trailingRun (ops.map isAuthFailure) := by
  rw [trackAll_failure,← (authsSinceSuccess_eq_iff hops).mpr hu ops List.prefix_rfl]
  exact (FailureInfo.trackAll_tells config ops hops).auths

theorem trackAll_openedByAuths (hops : ∀ op ∈ ops, op.IsRecord) (hu : Unmixed ops)
    (hF : (ops.length : ℤ) < config.failureThreshold) (changedAt : ℤ) :
    ((initial changedAt).trackAll config ops).OpenedByAuths ops := by
  induction ops using List.reverseRecOn with
  | nil =>
    refine ⟨le_rfl,?_,?_⟩
    · simp [initial,trackAll]
    · simp [initial,trackAll,authFailureCircuitThreshold]
  | append_singleton ops op ih =>
    have hops' : ∀ o ∈ ops, o.IsRecord := fun o ho => hops o (List.mem_append_left _ ho)
    have hu' := hu.of_isPrefix (List.prefix_append ops [op])
    rw [List.length_append,List.length_singleton,Nat.cast_add,Nat.cast_one] at hF
    have h := ih hops' hu' (by omega)
    rw [trackAll_append,trackAll_singleton]
    cases op with
    | check now => exact absurd (hops (.check now) (by simp)) id
    | success closedAt requestAt scoredAt => exact h.success closedAt requestAt scoredAt
    | failure metadata err responseTime now =>
      exact h.failure hF (trackAll_authCounter hops' hu' changedAt) metadata err responseTime now

end Breaker

/-- The counter of a provider that was just added is the run of auth failures at the end of its
history, and the circuit is opened exactly by three of them in a row, all along a history of
records if and only if no generic failure comes after an auth failure without a success between. -/
theorem authCounter_iff [ScoringEngine ε] (pm : ProviderManager ι ε) (slice : PrioritySort ι)
    (provider : ι) (priority : ℤ) (name : String) (changedAt checkedAt refilledAt : ℤ)
    (ops : List TrackingOp) (hops : ∀ op ∈ ops, op.IsRecord) :
    (∀ h, h <+: ops →
      (∃ failure,
        (((pm.addProvider slice (some provider) priority name changedAt checkedAt
          refilledAt).trackAll name h).states name).failure = some failure ∧
        failure.consecutiveAuthFailures = trailingRun (h.map isAuthFailure)) ∧
      (pm.config.circuitBreaker.enabled = true →
        (h.length : ℤ) < pm.config.circuitBreaker.failureThreshold →
        ∃ cs, (((pm.addProvider slice (some provider) priority name changedAt checkedAt
            refilledAt).trackAll name h).states name).circuit = some cs ∧
          (cs.state = .opened ↔ List.replicate 3 true <:+: h.map isAuthFailure))) ↔
      Unmixed ops := by
  have hfailure : ∀ h, (((pm.addProvider slice (some provider) priority name changedAt checkedAt
      refilledAt).trackAll name h).states name).failure =
        some (({} : FailureInfo).trackAll pm.config.circuitBreaker h) := by
    intro h
    refine ProviderManager.trackAll_failure ?_ h
    simp only [ProviderManager.addProvider,Function.update_self]
    rfl
  rw [← authsSinceSuccess_eq_iff hops]
  constructor
  · intro hall h hh
    obtain ⟨⟨failure,hf,hcount⟩,-⟩ := hall h hh
    rw [hfailure] at hf
    cases hf
    rw [← hcount]
    exact (FailureInfo.trackAll_tells _ h (fun op ho => hops op (hh.subset ho))).auths.symm
  · intro hall h hh
    have hops' : ∀ op ∈ h, op.IsRecord := fun op ho => hops op (hh.subset ho)
    refine ⟨⟨_,hfailure h,?_⟩,?_⟩
    · rw [(FailureInfo.trackAll_tells _ h hops').auths,hall h hh]
    · intro he hF
      have hu := ((authsSinceSuccess_eq_iff hops).mp hall).of_isPrefix hh
      obtain ⟨-,hc⟩ := ProviderManager.added_carries pm slice provider priority name changedAt
        checkedAt refilledAt he h
      exact ⟨_,hc.2,(Breaker.trackAll_openedByAuths hops' hu hF changedAt).opened⟩

/-- Generic failures come before the auth failures, or a success comes between them. -/
theorem authCounter_iff_apart :
    ∃ failure, (((ProviderManager.single (defaultChainConfig .balanceFetchers) "a").trackAll "a"
        [authFailAt 0,successAt 1,failAt 2,authFailAt 3,authFailAt 4]).states "a").failure =
          some failure ∧
      failure.consecutiveAuthFailures = 2 :=
  ((authCounter_iff (.empty (fun _ => 0) (defaultChainConfig .balanceFetchers)) .insertion () 1 "a"
    0 0 0 [authFailAt 0,successAt 1,failAt 2,authFailAt 3,authFailAt 4] (by decide)).mpr
      (by decide) _ List.prefix_rfl).1

/-- A generic failure between the auth failures: the counter stands at three and the circuit is
open, though there were never three auth failures in a row. -/
theorem authCounter_mixed :
    ∃ failure cs,
      (((ProviderManager.single (defaultChainConfig .balanceFetchers) "a").trackAll "a"
        [authFailAt 0,failAt 1,authFailAt 2,authFailAt 3]).states "a").failure = some failure ∧
      (((ProviderManager.single (defaultChainConfig .balanceFetchers) "a").trackAll "a"
        [authFailAt 0,failAt 1,authFailAt 2,authFailAt 3]).states "a").circuit = some cs ∧
      failure.consecutiveAuthFailures = 3 ∧ cs.state = .opened ∧
      trailingRun ([authFailAt 0,failAt 1,authFailAt 2,authFailAt 3].map isAuthFailure) = 2 ∧
      ¬List.replicate 3 true <:+:
        [authFailAt 0,failAt 1,authFailAt 2,authFailAt 3].map isAuthFailure ∧
      4 < (defaultChainConfig .balanceFetchers).circuitBreaker.failureThreshold :=
  ⟨_,_,rfl,rfl,rfl,rfl,by decide,by decide,by decide⟩

end ChainKit
