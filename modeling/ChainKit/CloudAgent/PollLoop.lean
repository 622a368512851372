import ChainKit.CloudAgent.Poller

/-! The delays of the polling loop. -/
namespace ChainKit.CloudAgent

/-- The end of a turn of `loop`: the delay before the next tick, or none if the loop returns. A
duration is a signed 64-bit integer. -/
def loopBackoff (opts : Options) (backoff : ℤ) : Option GoError → Option ℤ
  | none => some opts.pollInterval
  | some err =>
    if err.is (.sentinel .canceled) then none
    else
      let backoff := (backoff*2).bmod (2^64)
      some (if backoff > opts.maxBackoff then opts.maxBackoff else backoff)

/-- The delay before the next tick, after ticks with these results. -/
def delayAfter (opts : Options) (results : List (Option GoError)) : Option ℤ :=
  results.foldlM (loopBackoff opts) opts.pollInterval

/-- The delay after a success is the interval, and after an error it is neither shorter than the
interval nor shorter than the delay before in the same run of errors. -/
structure BacksOff (opts : Options) : Prop where
  afterSuccess : ∀ results delay, delayAfter opts (results ++ [none]) = some delay →
    delay = opts.pollInterval
  afterError : ∀ results err delay, delayAfter opts (results ++ [some err]) = some delay →
    opts.pollInterval ≤ delay
  sameRun : ∀ results err err' delay delay',
    delayAfter opts (results ++ [some err]) = some delay →
    delayAfter opts (results ++ [some err] ++ [some err']) = some delay' → delay ≤ delay'

section
variable {opts : Options} {results : List (Option GoError)} {err : GoError} {backoff delay : ℤ}

theorem delayAfter_concat (opts : Options) (results : List (Option GoError))
    (result : Option GoError) :
    delayAfter opts (results ++ [result]) =
      (delayAfter opts results).bind (loopBackoff opts · result) := by
  simp [delayAfter]

theorem loopBackoff_error (h : loopBackoff opts backoff (some err) = some delay) :
    delay = if (backoff*2).bmod (2^64) > opts.maxBackoff then opts.maxBackoff
      else (backoff*2).bmod (2^64) := by
  simp only [loopBackoff,Option.ite_none_left_eq_some,Option.some.injEq] at h
  exact h.2.symm

theorem loopBackoff_le_maxBackoff (h : loopBackoff opts backoff (some err) = some delay) :
    delay ≤ opts.maxBackoff := by
  rw [loopBackoff_error h]
  split_ifs with hcap
  · exact le_refl _
  · exact not_lt.mp hcap

/-- Half the range of a duration can be doubled. -/
theorem loopBackoff_small (hpos : 0 < backoff) (hsmall : backoff < 2^62)
    (h : loopBackoff opts backoff (some err) = some delay) :
    delay = min (backoff*2) opts.maxBackoff := by
  have hdouble : (backoff*2).bmod (2^64) = backoff*2 :=
    Int.bmod_eq_of_le (by omega) (by omega)
  rw [loopBackoff_error h,hdouble]
  split_ifs with hcap
  · omega
  · omega

/-- The other half becomes negative. -/
theorem loopBackoff_large (hlarge : 2^62 ≤ backoff) (hfits : backoff < 2^63)
    (hmax : 0 < opts.maxBackoff) (h : loopBackoff opts backoff (some err) = some delay) :
    delay < 0 := by
  have hdouble : (backoff*2).bmod (2^64) = backoff*2-2^64 := by
    have hmod : backoff*2%(2^64 : ℕ) = backoff*2 := Int.emod_eq_of_lt (by omega) (by omega)
    rw [Int.bmod_def,hmod,if_neg (by omega)]
    rfl
  rw [loopBackoff_error h,hdouble]
  split_ifs with hcap
  · omega
  · omega

theorem delayAfter_bounds (hpos : 0 < opts.pollInterval)
    (hle : opts.pollInterval ≤ opts.maxBackoff) (hmax : opts.maxBackoff < 2^62)
    (h : delayAfter opts results = some delay) :
    opts.pollInterval ≤ delay ∧ delay ≤ opts.maxBackoff := by
  induction results using List.reverseRecOn generalizing delay with
  | nil =>
    cases h
    exact ⟨le_refl _,hle⟩
  | append_singleton results result ih =>
    rw [delayAfter_concat,Option.bind_eq_some_iff] at h
    obtain ⟨backoff,hbackoff,h⟩ := h
    obtain ⟨hlow,hhigh⟩ := ih hbackoff
    cases result with
    | none =>
      cases h
      exact ⟨le_refl _,hle⟩
    | some err =>
      rw [loopBackoff_small (by omega) (by omega) h]
      omega

theorem exists_delay_after_error (hcanceled : err.is (.sentinel .canceled) = false)
    (h : delayAfter opts results = some backoff) :
    ∃ delay, loopBackoff opts backoff (some err) = some delay ∧
      delayAfter opts (results ++ [some err]) = some delay := by
  have hnext : ∃ delay, loopBackoff opts backoff (some err) = some delay := by
    simp [loopBackoff,hcanceled]
  obtain ⟨delay,hdelay⟩ := hnext
  refine ⟨delay,hdelay,?_⟩
  rw [delayAfter_concat,h]
  exact hdelay

/-- If errors never shorten the delay and the bound leaves room, a run of errors doubles it. -/
theorem exists_delay_doubled (hback : BacksOff opts) (hpos : 0 < opts.pollInterval)
    (hpoll : opts.pollInterval < 2^63) (hroom : 2^62 ≤ opts.maxBackoff)
    (hmax : opts.maxBackoff < 2^63) (hcanceled : err.is (.sentinel .canceled) = false) (n : ℕ)
    (hn : n ≤ 62) : ∃ delay, delayAfter opts (List.replicate n (some err)) = some delay ∧
      2^n ≤ delay ∧ delay < 2^63 := by
  induction n with
  | zero => exact ⟨opts.pollInterval,rfl,by omega,hpoll⟩
  | succ n ih =>
    obtain ⟨backoff,hbackoff,hlow,hhigh⟩ := ih (by omega)
    obtain ⟨delay,hdelay,hnext⟩ := exists_delay_after_error hcanceled hbackoff
    have hnot := hback.afterError _ err delay hnext
    have hone : (1 : ℤ) ≤ 2^n := one_le_pow₀ (by decide)
    have hpow : (2 : ℤ)^(n+1) ≤ 2^62 := pow_le_pow_right₀ (by decide) hn
    rw [List.replicate_succ']
    refine ⟨delay,hnext,?_,?_⟩
    · by_cases hsmall : backoff < 2^62
      · rw [loopBackoff_small (by omega) hsmall hdelay,pow_succ]
        rw [pow_succ] at hpow
        omega
      · have := loopBackoff_large (by omega) hhigh (by omega) hdelay
        omega
    · have := loopBackoff_le_maxBackoff hdelay
      omega

end

/-- Errors never make the poller ask more often than successes exactly when the bound of the delay
is not below the interval and can be doubled: nothing relates the two options to each other. -/
theorem backsOff_iff (c : Settings) (hpoll : c.opts.pollInterval < 2^63)
    (hmax : c.opts.maxBackoff < 2^63) :
    BacksOff c.opts ↔
      c.opts.pollInterval ≤ c.opts.maxBackoff ∧ c.opts.maxBackoff < 2^62 := by
  have hpos := c.pollInterval
  constructor
  · intro hback
    have hcanceled : (GoError.plain "").is (.sentinel .canceled) = false := rfl
    refine ⟨?_,?_⟩
    · have hstart : delayAfter c.opts [] = some c.opts.pollInterval := rfl
      obtain ⟨delay,hdelay,hfirst⟩ := exists_delay_after_error hcanceled hstart
      exact (hback.afterError [] _ delay hfirst).trans (loopBackoff_le_maxBackoff hdelay)
    · by_contra hroom
      obtain ⟨backoff,hbackoff,hlarge,hfits⟩ :=
        exists_delay_doubled hback hpos hpoll (by omega) hmax hcanceled 62 (le_refl _)
      obtain ⟨delay,hdelay,hnext⟩ := exists_delay_after_error hcanceled hbackoff
      have hnot := hback.afterError _ _ delay hnext
      have hneg := loopBackoff_large hlarge hfits c.maxBackoff hdelay
      omega
  · rintro ⟨hle,hroom⟩
    refine ⟨?_,?_,?_⟩
    · intro results delay h
      rw [delayAfter_concat,Option.bind_eq_some_iff] at h
      obtain ⟨backoff,_,h⟩ := h
      cases h
      rfl
    · intro results err delay h
      exact (delayAfter_bounds hpos hle hroom h).1
    · intro results err err' delay delay' h h'
      obtain ⟨hlow,hhigh⟩ := delayAfter_bounds hpos hle hroom h
      rw [delayAfter_concat,h] at h'
      rw [loopBackoff_small (by omega) (by omega) h']
      omega

theorem backsOff_default : BacksOff ({} : Options).settings.opts :=
  (backsOff_iff ({} : Options).settings (by decide) (by decide)).mpr (by decide)

def rarePolls : Options := { pollInterval := 10*Duration.minute }

/-- After an error the poller asks again in half the time. -/
theorem error_shortens_delay :
    delayAfter rarePolls.settings.opts [none] = some (10*Duration.minute) ∧
      delayAfter rarePolls.settings.opts [some (.plain "get config: timeout")] =
        some (5*Duration.minute) := by
  decide

end ChainKit.CloudAgent
