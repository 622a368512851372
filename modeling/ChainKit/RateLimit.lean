import ChainKit.Config

/-! The sliding-window rate limiter with its burst tokens (`rateLimitState`). -/
namespace ChainKit

structure RateLimitState where
  requestTimes : List ℤ
  burstTokens : ℤ
  lastRefill : ℤ
  deriving DecidableEq

/-- The state of a provider that was just added, with the clock reading taken there. -/
def newRateLimitState (burstSize : ℤ) (now : ℤ) : RateLimitState := ⟨[],burstSize,now⟩

def minInt (a b : ℤ) : ℤ := if a < b then a else b

namespace RateLimitState

/-- The requests that `CanMakeRequest` keeps: those after the start of the window. -/
def validRequests (config : RateLimitConfig) (now : ℤ) (times : List ℤ) : List ℤ :=
  times.filter (fun reqTime => decide (now - config.window < reqTime))

/-- Drop the requests outside the window, lines 90-97. -/
def clean (rls : RateLimitState) (config : RateLimitConfig) (now : ℤ) : RateLimitState :=
  { rls with requestTimes := validRequests config now rls.requestTimes }

/-- The token bucket is filled up for the time that has passed, lines 107-114. Both
divisions truncate, and Go panics when a divisor is zero. -/
def refill (rls : RateLimitState) (config : RateLimitConfig) (now : ℤ) :
    Except Panic RateLimitState :=
  let timeSinceRefill := now - rls.lastRefill
  if config.maxRequests = 0 then .error .integerDivideByZero
  else
    let refillInterval := config.window.tdiv config.maxRequests
    if refillInterval = 0 then .error .integerDivideByZero
    else
      let tokensToAdd := timeSinceRefill.tdiv refillInterval
      if 0 < tokensToAdd then
        .ok { rls with
          burstTokens := minInt (rls.burstTokens+tokensToAdd) config.burstSize
          lastRefill := now }
      else .ok rls

/-- `CanMakeRequest`: the answer, and the state it leaves behind. An admission beyond the
window is paid with a burst token on the spot. -/
def canMakeRequest (rls : RateLimitState) (config : RateLimitConfig) (now : ℤ) :
    Except Panic Bool × RateLimitState :=
  if !config.enabled then (.ok true,rls)
  else
    let rls := rls.clean config now
    if (rls.requestTimes.length : ℤ) < config.maxRequests then (.ok true,rls)
    else if 0 < config.burstSize then
      match rls.refill config now with
      | .error panic => (.error panic,rls)
      | .ok rls =>
        if 0 < rls.burstTokens then (.ok true,{ rls with burstTokens := rls.burstTokens-1 })
        else (.ok false,rls)
    else (.ok false,rls)

/-- `RecordRequest`: note a request for the sliding window. -/
def recordRequest (rls : RateLimitState) (config : RateLimitConfig) (now : ℤ) :
    RateLimitState :=
  if !config.enabled then rls else { rls with requestTimes := rls.requestTimes ++ [now] }

@[simp] theorem clean_burstTokens (rls : RateLimitState) (config : RateLimitConfig) (now : ℤ) :
    (rls.clean config now).burstTokens = rls.burstTokens := rfl

@[simp] theorem clean_clean (rls : RateLimitState) (config : RateLimitConfig) (now : ℤ) :
    (rls.clean config now).clean config now = rls.clean config now := by
  simp [clean,validRequests,List.filter_filter]

end RateLimitState
end ChainKit
