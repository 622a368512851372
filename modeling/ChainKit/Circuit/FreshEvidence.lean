import ChainKit.Interleaving.System
import ChainKit.Lib.TrailingRun

/-! On what evidence a circuit closes. The count of successes that closes a half-open circuit
is not reset when the circuit turns half-open, so it may hold successes of earlier attempts
that were recorded while the circuit was open. -/
namespace ChainKit
open Lib
variable {τ ι ε δ : Type}

namespace Breaker
variable {config : CircuitBreakerConfig} {b b' : Breaker} {r : Option Bool}

theorem iterate_checked_of_not_opened (h : b.circuit.state ≠ .opened) (now : ℤ) (k : ℕ) :
    ((checked config now)^[k] b).circuit = b.circuit := by
  induction k with
  | zero => rfl
  | succ k ih =>
    rw [Function.iterate_succ_apply']
    rcases check_circuit config now ((checked config now)^[k] b) with hc | ⟨ho,-⟩
    · exact hc.trans ih
    · rw [ih] at ho
      exact absurd ho h

theorem iterate_checked_consecutiveSuccesses (now : ℤ) (k : ℕ) :
    ((checked config now)^[k] b).circuit.consecutiveSuccesses =
      b.circuit.consecutiveSuccesses := by
  induction k with
  | zero => rfl
  | succ k ih =>
    rw [Function.iterate_succ_apply']
    rcases check_circuit config now ((checked config now)^[k] b) with hc | ⟨-,hc⟩
    · rw [checked,hc,ih]
    · rw [checked,hc]
      exact ih

theorem authFail_state (now : ℤ) (b : Breaker) :
    (b.authFail now).circuit.state = b.circuit.state ∨
      (b.authFail now).circuit.state = .opened := by
  simp only [authFail]
  split_ifs
  · exact Or.inl rfl
  · exact Or.inr rfl

theorem success_state (config : CircuitBreakerConfig) (now : ℤ) (b : Breaker) :
    (b.success config now).circuit.state =
      if b.circuit.state = .halfOpen ∧
          config.successThreshold ≤ ((b.circuit.consecutiveSuccesses+1 : ℕ) : ℤ) then .closed
      else b.circuit.state := by
  simp only [success,CircuitState.recordSuccess]
  split_ifs <;> rfl

namespace Move

theorem halfOpen_source (h : Move config b r b') (hs : b'.circuit.state = .halfOpen) :
    b.circuit.state = .halfOpen ∨ b.circuit.state = .opened := by
  cases h with
  | checks now k =>
    by_cases ho : b.circuit.state = .opened
    · exact Or.inr ho
    · rw [iterate_checked_of_not_opened ho] at hs
      exact Or.inl hs
  | authFail now =>
    rcases authFail_state now b with ha | ha
    · exact Or.inl (ha.symm.trans hs)
    · rw [ha] at hs
      cases hs
  | success now =>
    rw [success_state] at hs
    split_ifs at hs
    exact Or.inl hs
  | fail now =>
    rw [fail_state] at hs
    split_ifs at hs
    exact Or.inl hs

/-- Only a recorded success closes a circuit, and only one that completes the threshold. -/
theorem closed_source (h : Move config b r b') (hb : b.circuit.state = .halfOpen)
    (hs : b'.circuit.state = .closed) :
    r = some true ∧
      config.successThreshold ≤ ((b.circuit.consecutiveSuccesses+1 : ℕ) : ℤ) := by
  cases h with
  | checks now k =>
    have hne : b.circuit.state ≠ .opened := by simp [hb]
    rw [iterate_checked_of_not_opened hne,hb] at hs
    cases hs
  | authFail now =>
    rcases authFail_state now b with ha | ha
    · rw [ha,hb] at hs
      cases hs
    · rw [ha] at hs
      cases hs
  | success now =>
    rw [success_state] at hs
    split_ifs at hs with hcond
    · exact ⟨rfl,hcond.2⟩
    · rw [hb] at hs
      cases hs
  | fail now =>
    rw [fail_state] at hs
    split_ifs at hs
    rw [hb] at hs
    cases hs

theorem opened_to_halfOpen (h : Move config b r b') (hb : b.circuit.state = .opened)
    (hs : b'.circuit.state = .halfOpen) :
    b'.circuit.consecutiveSuccesses = b.circuit.consecutiveSuccesses := by
  cases h with
  | checks now k => exact iterate_checked_consecutiveSuccesses now k
  | authFail now => exact authFail_consecutiveSuccesses now b
  | success now =>
    rw [success_state] at hs
    split_ifs at hs
    rw [hb] at hs
    cases hs
  | fail now =>
    rw [fail_state] at hs
    split_ifs at hs
    rw [hb] at hs
    cases hs

theorem consecutiveSuccesses_le (h : Move config b r b') {outcomes : List Bool}
    (hb : b.circuit.consecutiveSuccesses ≤ trailingRun outcomes) :
    b'.circuit.consecutiveSuccesses ≤ trailingRun (outcomes ++ r.toList) := by
  cases h with
  | checks now k =>
    rw [iterate_checked_consecutiveSuccesses]
    simpa using hb
  | authFail now => simpa using hb
  | success now =>
    simp only [success_consecutiveSuccesses,Option.toList_some,trailingRun_mark]
    omega
  | fail now => simp

end Move
end Breaker

namespace Sys

theorem status_eq {s : Sys τ ι ε δ} {name : String} {b : Breaker}
    (h : (s.pm.states name).Carries b) : s.status name = some b.circuit.state := by
  simp [status,h.2]

def NoSuccesses (name : String) (s : Sys τ ι ε δ) : Prop :=
  ∀ cs, (s.pm.states name).circuit = some cs → cs.consecutiveSuccesses = 0

variable [ScoringEngine ε] [DecidableEq τ] (host : Host) (name : String)

/-- The step of `t` takes the provider's circuit from `a` to `a'`. -/
def turns (a a' : CircuitStatus) (s : Sys τ ι ε δ) (t : τ) : Bool :=
  decide (s.status name = some a) && decide ((s.step host t).status name = some a')

/-- The steps of a run in which the provider's circuit goes from open to half-open. -/
def halfOpenings (s : Sys τ ι ε δ) (l : List τ) : List τ :=
  observe (step host) (fun s t => if s.turns host name .opened .halfOpen t then some t else none)
    s l

variable {host} {name}

theorem turns_eq_true {a a' : CircuitStatus} {s : Sys τ ι ε δ} {t : τ} :
    s.turns host name a a' t = true ↔
      s.status name = some a ∧ (s.step host t).status name = some a' := by
  simp [turns]

theorem turns_moves {s : Sys τ ι ε δ} (he : s.pm.config.circuitBreaker.enabled = true)
    {b : Breaker} (hb : (s.pm.states name).Carries b) {a a' : CircuitStatus} {t : τ}
    (h : s.turns host name a a' t = true) :
    ∃ b', ((s.step host t).pm.states name).Carries b' ∧ b.circuit.state = a ∧
      b'.circuit.state = a' ∧
      Breaker.Move s.pm.config.circuitBreaker b ((s.threads t).pc.records name) b' := by
  obtain ⟨b',hb',hmove⟩ := s.step_moves host t he hb
  rw [turns_eq_true,status_eq hb,status_eq hb',Option.some.injEq,Option.some.injEq] at h
  exact ⟨b',hb',h.1,h.2,hmove⟩

theorem NoSuccesses.halfOpening {s : Sys τ ι ε δ}
    (he : s.pm.config.circuitBreaker.enabled = true) {b : Breaker}
    (hb : (s.pm.states name).Carries b) {t : τ}
    (ht : s.turns host name .opened .halfOpen t = true) (h : s.NoSuccesses name) :
    (s.step host t).NoSuccesses name := by
  obtain ⟨b',hb',hopen,hhalf,hmove⟩ := turns_moves he hb ht
  intro cs hcs
  rw [hb'.2,Option.some.injEq] at hcs
  subst hcs
  rw [hmove.opened_to_halfOpen hopen hhalf]
  exact h b.circuit hb.2

theorem halfOpenings_concat {s : Sys τ ι ε δ} {l : List τ} {t : τ}
    (h : s.halfOpenings host name (l ++ [t]) = []) :
    s.halfOpenings host name l = [] ∧
      (s.run host l).turns host name .opened .halfOpen t = false := by
  have hlast := eq_none_of_observe h rfl
  rw [halfOpenings,observe_concat,List.append_eq_nil_iff] at h
  refine ⟨h.1,?_⟩
  simpa [run] using hlast

/-- While the circuit stays half-open, the count of successes is at most the successes
recorded since the last failure. -/
theorem consecutiveSuccesses_le {s : Sys τ ι ε δ} {p : ProviderConfig ι}
    (hp : p ∈ s.pm.providers) (he : s.pm.config.circuitBreaker.enabled = true)
    (hzero : s.NoSuccesses p.name) {l : List τ}
    (hno : s.halfOpenings host p.name l = [])
    (hend : (s.run host l).status p.name = some .halfOpen) {b : Breaker}
    (hb : ((s.run host l).pm.states p.name).Carries b) :
    b.circuit.consecutiveSuccesses ≤ trailingRun (s.outcomes host p.name l) := by
  induction l using List.reverseRecOn generalizing b with
  | nil =>
    rw [hzero b.circuit hb.2]
    exact Nat.zero_le _
  | append_singleton l t ih =>
    obtain ⟨hl,hturn⟩ := halfOpenings_concat hno
    obtain ⟨b₀,hb₀⟩ := s.run_carries host hp l
    have hconfig := (s.run_frame host l).1
    obtain ⟨b',hb',hmove⟩ := (s.run host l).step_moves host t (by rw [hconfig]; exact he) hb₀
    rw [run_concat] at hb hend
    have hbb : b' = b := hb'.unique hb
    subst hbb
    rw [status_eq hb',Option.some.injEq] at hend
    have hbefore : b₀.circuit.state = .halfOpen := by
      rcases hmove.halfOpen_source hend with h | h
      · exact h
      · have : (s.run host l).turns host p.name .opened .halfOpen t = true := by
          rw [turns_eq_true,status_eq hb₀,status_eq hb',h,hend]
          exact ⟨rfl,rfl⟩
        rw [hturn] at this
        cases this
    have hle := ih hl (by rw [status_eq hb₀,hbefore]) hb₀
    have := hmove.consecutiveSuccesses_le hle
    rwa [outcomes,observe_concat]

end Sys

/-- In every run in which a circuit turns half-open with no counted success, or one success is
enough, a half-open circuit closes on `SuccessThreshold` successes in a row that were recorded
since it turned half-open. -/
theorem closes_on_fresh_successes [ScoringEngine ε] [DecidableEq τ] (pm : ProviderManager ι ε)
    (calls : τ → Call ι δ) (host : Host) (he : pm.config.circuitBreaker.enabled = true)
    (p : ProviderConfig ι) (hp : p ∈ pm.providers) (sched : List τ)
    (hcond : ∀ before x after, sched = before ++ x :: after →
      ((Sys.start pm calls).run host before).turns host p.name .opened .halfOpen x = true →
      pm.config.circuitBreaker.successThreshold ≤ 1 ∨
        ((Sys.start pm calls).run host before).NoSuccesses p.name) :
    ∀ before x mid y after, sched = before ++ x :: (mid ++ y :: after) →
      ((Sys.start pm calls).run host before).turns host p.name .opened .halfOpen x = true →
      ((Sys.start pm calls).run host (before ++ [x])).halfOpenings host p.name (mid ++ [y]) = [] →
      ((Sys.start pm calls).run host (before ++ x :: mid)).turns host p.name .halfOpen .closed y =
        true →
      List.replicate pm.config.circuitBreaker.successThreshold.toNat true <:+
        ((Sys.start pm calls).run host (before ++ [x])).outcomes host p.name (mid ++ [y]) := by
  intro before x mid y after hsched hx hno hy
  set s₀ := (Sys.start pm calls).run host before with hs₀
  set s := (Sys.start pm calls).run host (before ++ [x]) with hs
  have hstep : s = s₀.step host x := Sys.run_concat host _ before x
  have hrun : (Sys.start pm calls).run host (before ++ x :: mid) = s.run host mid := by
    rw [hs,← Sys.run_append,List.append_assoc,List.singleton_append]
  rw [hrun] at hy
  obtain ⟨b₀,hb₀⟩ := (Sys.start pm calls).run_carries host hp before
  have hconfig₀ := ((Sys.start pm calls).run_frame host before).1
  obtain ⟨hconfigₛ,hprovidersₛ⟩ := (Sys.start pm calls).run_frame host (before ++ [x])
  obtain ⟨b,hb⟩ := (Sys.start pm calls).run_carries host hp (before ++ x :: mid)
  have hconfig := ((Sys.start pm calls).run_frame host (before ++ x :: mid)).1
  rw [hrun] at hconfig hb
  obtain ⟨b',-,hhalf,hclosed,hmove⟩ := Sys.turns_moves (by rw [hconfig]; exact he) hb hy
  rw [show (s.run host mid).pm.config = pm.config from hconfig] at hmove
  obtain ⟨hrecord,hreached⟩ := hmove.closed_source hhalf hclosed
  have houtcomes : s.outcomes host p.name (mid ++ [y]) = s.outcomes host p.name mid ++ [true] := by
    have : ((mid.foldl (Sys.step host) s).threads y).pc.records p.name = some true := hrecord
    rw [Sys.outcomes,observe_concat,this]
    rfl
  rw [houtcomes,replicate_suffix_iff,trailingRun_mark]
  rcases hcond before x (mid ++ y :: after) hsched hx with hone | hzero
  · omega
  · have hzero' : s.NoSuccesses p.name := by
      rw [hstep]
      exact hzero.halfOpening (by rw [hconfig₀]; exact he) hb₀ hx
    have hps : p ∈ s.pm.providers := by
      rw [hs,hprovidersₛ]
      exact hp
    have hes : s.pm.config.circuitBreaker.enabled = true := by
      rw [hs,hconfigₛ]
      exact he
    have hmid := (Sys.halfOpenings_concat hno).1
    have hle := Sys.consecutiveSuccesses_le hps hes hzero' hmid
      (by rw [Sys.status_eq hb,hhalf]) hb
    omega

def twoSuccessesConfig : ChainConfig :=
  { defaultChainConfig .balanceFetchers with
    circuitBreaker := { (defaultChainConfig .balanceFetchers).circuitBreaker with
      failureThreshold := 1, successThreshold := 2 } }

/-- Three calls: the first fails and its context is done before it can retry, the others succeed. -/
def abandonedCalls (t : Fin 3) : Call Unit ℕ where
  op _ _ := if t = 0 then .error (.plain "failed") else .ok 7
  wait _ := some (.plain "context canceled")

/-- The clock stands still for `n` readings and then goes on by half a minute. -/
def halfMinuteAfter (n : ℕ) : Host where
  now k := if k < n then 0 else 30*Duration.second
  now_mono := by
    intro j k hjk
    simp only [Duration.second,Duration.millisecond]
    split_ifs <;> omega
  toLower := id

instance (name : String) (s : Sys τ ι ε δ) : Decidable (s.NoSuccesses name) :=
  inferInstanceAs (Decidable (∀ cs ∈ (s.pm.states name).circuit, cs.consecutiveSuccesses = 0))

/-- The first call opens the circuit and leaves no success behind. Half a minute later the second
call turns it half-open and succeeds, and the success of the third one closes it. -/
theorem closes_on_two_fresh_successes :
    let s := Sys.start (.single twoSuccessesConfig "a") abandonedCalls
    let opened := List.replicate 11 0 ++ [1]
    let mid := List.replicate 8 1 ++ List.replicate 6 2
    (s.run (halfMinuteAfter 6) opened).turns (halfMinuteAfter 6) "a" .opened .halfOpen 1 = true ∧
    List.replicate 2 true <:+ (s.run (halfMinuteAfter 6) (opened ++ [1])).outcomes
      (halfMinuteAfter 6) "a" (mid ++ [2]) := by
  intro s opened mid
  refine ⟨by decide +kernel,?_⟩
  apply closes_on_fresh_successes (.single twoSuccessesConfig "a") abandonedCalls
    (halfMinuteAfter 6) rfl ⟨(),1,"a"⟩ (List.mem_singleton.mpr rfl) (opened ++ 1 :: (mid ++ [2]))
  · have halong : Along (Sys.step (halfMinuteAfter 6))
        (fun s t => s.turns (halfMinuteAfter 6) "a" .opened .halfOpen t = true →
          s.NoSuccesses "a") s (opened ++ 1 :: (mid ++ [2])) := by decide +kernel
    intro before x after hsched hx
    exact .inr (along_iff.mp halong before x after hsched hx)
  · rfl
  · decide +kernel
  · decide +kernel
  · decide +kernel

/-- Two calls: the first fails once and succeeds on its retry, the second succeeds at once. -/
def retriedCalls (t : Bool) : Call Unit ℕ where
  op k _ := if t = false ∧ k = 0 then .error (.plain "failed") else .ok 7

/-- The first call is over and the second is about to check its provider. -/
def beforeSecondCheck : Sys Bool Unit Unit ℕ :=
  (Sys.start (.single twoSuccessesConfig "a") retriedCalls).run (halfMinuteAfter 12)
    (List.replicate 15 false ++ [true])

/-- The success of the first call was recorded while the circuit was open. The second call finds
it half-open and closes it with the one success that it records. -/
theorem closes_on_stale_success :
    twoSuccessesConfig.circuitBreaker.successThreshold = 2 ∧
    beforeSecondCheck.turns (halfMinuteAfter 12) "a" .opened .halfOpen true = true ∧
    (beforeSecondCheck.step (halfMinuteAfter 12) true).halfOpenings (halfMinuteAfter 12) "a"
      (List.replicate 5 true) = [] ∧
    (beforeSecondCheck.run (halfMinuteAfter 12) (List.replicate 5 true)).turns
      (halfMinuteAfter 12) "a" .halfOpen .closed true = true ∧
    (beforeSecondCheck.step (halfMinuteAfter 12) true).outcomes (halfMinuteAfter 12) "a"
      (List.replicate 5 true) = [true] := by
  refine ⟨rfl,?_,?_,?_,?_⟩
  · decide
  · decide
  · decide
  · decide

end ChainKit
