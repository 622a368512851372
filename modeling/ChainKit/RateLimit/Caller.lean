import ChainKit.Lib.SlidingWindow
import ChainKit.RateLimit

/-! A caller of the rate limiter that records a request exactly when it was admitted. Without
burst tokens the limiter is a sliding window, neither over-used nor under-used. -/
namespace ChainKit
open Lib

/-- The limiter, the times of the requests that the caller has recorded, and among them those
that were made beyond the window, at the expense of a token. -/
structure Caller where
  rls : RateLimitState
  recorded : List ℤ := []
  spent : List ℤ := []

namespace Caller
variable (config : RateLimitConfig)

def new (start : ℤ) : Caller := { rls := newRateLimitState config.burstSize start }

/-- The noted requests that the limiter finds in its window. -/
def noted (c : Caller) (now : ℤ) : List ℤ := (c.rls.clean config now).requestTimes

/-- The limiter is asked, and the request is recorded when it may be made. -/
def request (c : Caller) (now : ℤ) : Caller :=
  let r := c.rls.canMakeRequest config now
  match r.1 with
  | .ok true =>
    { rls := r.2.recordRequest config now
      recorded := c.recorded ++ [now]
      spent := if ((c.noted config now).length : ℤ) < config.maxRequests then c.spent
        else c.spent ++ [now] }
  | _ => { c with rls := r.2 }

def requests (c : Caller) (times : List ℤ) : Caller := times.foldl (request config) c

@[simp] theorem requests_concat (c : Caller) (times : List ℤ) (now : ℤ) :
    c.requests config (times ++ [now]) = (c.requests config times).request config now := by
  simp [requests]

variable {config} {c : Caller} {now : ℤ}

theorem request_of_room (he : config.enabled = true)
    (h : ((c.noted config now).length : ℤ) < config.maxRequests) :
    (c.rls.canMakeRequest config now).1 = .ok true ∧
      c.request config now =
        ⟨⟨c.noted config now ++ [now],c.rls.burstTokens,c.rls.lastRefill⟩,
          c.recorded ++ [now],c.spent⟩ := by
  have hcan : c.rls.canMakeRequest config now = (.ok true,c.rls.clean config now) := by
    simp only [RateLimitState.canMakeRequest,he,Bool.not_true,Bool.false_eq_true,if_false]
    exact if_pos h
  refine ⟨by rw [hcan],?_⟩
  simp only [request,hcan,RateLimitState.recordRequest,he,if_pos h,Bool.not_true,
    Bool.false_eq_true,if_false]
  rfl

theorem request_of_token (he : config.enabled = true) (hb : 0 < config.burstSize)
    (h : config.maxRequests ≤ ((c.noted config now).length : ℤ)) {r : RateLimitState}
    (hr : (c.rls.clean config now).refill config now = .ok r) (ht : 0 < r.burstTokens) :
    c.request config now =
      ⟨⟨r.requestTimes ++ [now],r.burstTokens-1,r.lastRefill⟩,c.recorded ++ [now],
        c.spent ++ [now]⟩ := by
  have hcan : c.rls.canMakeRequest config now =
      (.ok true,{ r with burstTokens := r.burstTokens-1 }) := by
    have hfull : ¬((c.rls.clean config now).requestTimes.length : ℤ) < config.maxRequests :=
      not_lt.mpr h
    simp [RateLimitState.canMakeRequest,he,hfull,hb,hr,ht]
  simp only [request,hcan,RateLimitState.recordRequest,he,if_neg (not_lt.mpr h),Bool.not_true,
    Bool.false_eq_true,if_false]

theorem request_of_empty (he : config.enabled = true) (hb : 0 < config.burstSize)
    (h : config.maxRequests ≤ ((c.noted config now).length : ℤ)) {r : RateLimitState}
    (hr : (c.rls.clean config now).refill config now = .ok r) (ht : r.burstTokens ≤ 0) :
    c.request config now = ⟨r,c.recorded,c.spent⟩ := by
  have hcan : c.rls.canMakeRequest config now = (.ok false,r) := by
    have hfull : ¬((c.rls.clean config now).requestTimes.length : ℤ) < config.maxRequests :=
      not_lt.mpr h
    simp [RateLimitState.canMakeRequest,he,hfull,hb,hr,not_lt.mpr ht]
  simp only [request,hcan]

theorem request_of_full (he : config.enabled = true) (hb : config.burstSize = 0)
    (h : config.maxRequests ≤ ((c.noted config now).length : ℤ)) :
    (c.rls.canMakeRequest config now).1 = .ok false ∧
      c.request config now = ⟨c.rls.clean config now,c.recorded,c.spent⟩ := by
  have hcan : c.rls.canMakeRequest config now = (.ok false,c.rls.clean config now) := by
    have hfull : ¬((c.rls.clean config now).requestTimes.length : ℤ) < config.maxRequests :=
      not_lt.mpr h
    simp [RateLimitState.canMakeRequest,he,hfull,hb]
  exact ⟨by rw [hcan],by simp only [request,hcan]⟩

/-- The limiter has noted the recorded requests that still count, and none lies ahead. -/
structure Accounts (config : RateLimitConfig) (now : ℤ) (c : Caller) : Prop where
  keeps : Keeps now config.window c.recorded c.rls.requestTimes
  past : ∀ t ∈ c.recorded, t ≤ now

namespace Accounts

theorem new (config : RateLimitConfig) (start now : ℤ) :
    Accounts config now (Caller.new config start) := by
  refine ⟨fun x _ => rfl,?_⟩
  intro t ht
  simp [Caller.new] at ht

theorem mono (h : Accounts config now c) {now' : ℤ} (hn : now ≤ now') :
    Accounts config now' c :=
  ⟨h.keeps.mono hn,fun t ht => le_trans (h.past t ht) hn⟩

/-- The limiter counts exactly the recorded requests of its window. -/
theorem noted_length (h : Accounts config now c) :
    (c.noted config now).length = countWithin now config.window c.recorded :=
  h.keeps.length_eq h.past

theorem admitted (h : Accounts config now c) (tokens refilled : ℤ) (spent : List ℤ) :
    Accounts config now
      ⟨⟨c.noted config now ++ [now],tokens,refilled⟩,c.recorded ++ [now],spent⟩ := by
  refine ⟨h.keeps.drop.concat now,?_⟩
  intro t ht
  rcases List.mem_append.mp ht with ht | ht
  · exact h.past t ht
  · exact (List.mem_singleton.mp ht).le

theorem refuse (h : Accounts config now c) (tokens refilled : ℤ) :
    Accounts config now ⟨⟨c.noted config now,tokens,refilled⟩,c.recorded,c.spent⟩ :=
  ⟨h.keeps.drop,h.past⟩

/-- Along a sequence of times that does not go back, an account that every request keeps holds
up to the present. -/
theorem requests (start : ℤ) {times : List ℤ}
    (hstep : ∀ (c : Caller) now, Accounts config now c →
      Accounts config now (c.request config now))
    (hmono : times.Pairwise (· ≤ ·)) (hnow : ∀ t ∈ times, t ≤ now) :
    Accounts config now ((Caller.new config start).requests config times) := by
  induction times using List.reverseRecOn generalizing now with
  | nil => exact new config start now
  | append_singleton times t ih =>
    rw [List.pairwise_append] at hmono
    have hlast : ∀ u ∈ times, u ≤ t := fun u hu => hmono.2.2 u hu t (by simp)
    rw [requests_concat]
    exact (hstep _ t (ih hmono.1 hlast)).mono (hnow t (by simp))

end Accounts

theorem request_accounts (he : config.enabled = true) (hb : config.burstSize = 0)
    (h : Accounts config now c) : Accounts config now (c.request config now) := by
  rcases lt_or_ge ((c.noted config now).length : ℤ) config.maxRequests with hroom | hfull
  · rw [(request_of_room he hroom).2]
    exact h.admitted _ _ _
  · rw [(request_of_full he hb hfull).2]
    exact h.refuse _ _

theorem countWithin_room (h : Accounts config now c) {m : ℕ}
    (hroom : (c.noted config now).length < m) {t : ℤ}
    (hbound : countWithin t config.window c.recorded ≤ m) :
    countWithin t config.window (c.recorded ++ [now]) ≤ m := by
  rw [countWithin_concat]
  split_ifs with hin
  · have hle : countWithin t config.window c.recorded ≤ (c.noted config now).length := by
      rw [h.noted_length]
      exact countWithin_le_of_past hin.2 h.past
    omega
  · exact hbound

theorem requests_noBurst (he : config.enabled = true) (hb : config.burstSize = 0) {m : ℕ}
    (hm : config.maxRequests = m) (start : ℤ) {times : List ℤ} (hmono : times.Pairwise (· ≤ ·)) :
    (∀ now, (∀ t ∈ times, t ≤ now) →
      Accounts config now ((new config start).requests config times)) ∧
    ∀ t, countWithin t config.window ((new config start).requests config times).recorded ≤ m := by
  have hacc : ∀ {times : List ℤ} {now : ℤ}, times.Pairwise (· ≤ ·) → (∀ t ∈ times, t ≤ now) →
      Accounts config now ((new config start).requests config times) :=
    Accounts.requests start (fun _ _ h => request_accounts he hb h)
  refine ⟨fun _ => hacc hmono,?_⟩
  intro t
  induction times using List.reverseRecOn with
  | nil => exact Nat.zero_le m
  | append_singleton before now ih =>
    rw [List.pairwise_append] at hmono
    have hnow := hacc hmono.1 (fun u hu => hmono.2.2 u hu now (by simp))
    rw [requests_concat]
    rcases lt_or_ge ((((new config start).requests config before).noted config now).length : ℤ)
      config.maxRequests with hroom | hfull
    · rw [(request_of_room he hroom).2]
      exact countWithin_room hnow (by omega) (ih hmono.1)
    · rw [(request_of_full he hb hfull).2]
      exact ih hmono.1

end Caller

/-- Without burst tokens the limiter answers yes exactly when fewer than `MaxRequests` requests
were recorded in the window that ends now. So no window ever holds more than that, and a refusal
means that the window is full. -/
theorem slidingWindow_exact (config : RateLimitConfig) (m : ℕ) (he : config.enabled = true)
    (hm : config.maxRequests = m) (hb : config.burstSize = 0) (start : ℤ) (times : List ℤ)
    (hmono : times.Pairwise (· ≤ ·)) :
    (∀ before now after, times = before ++ now :: after →
      let c := (Caller.new config start).requests config before
      (c.rls.canMakeRequest config now).1 =
          .ok (decide (countWithin now config.window c.recorded < m)) ∧
        ((c.rls.canMakeRequest config now).1 = .ok false →
          countWithin now config.window c.recorded = m)) ∧
    ∀ t, countWithin t config.window
      ((Caller.new config start).requests config times).recorded ≤ m := by
  refine ⟨?_,(Caller.requests_noBurst he hb hm start hmono).2⟩
  intro before now after hsplit c
  rw [hsplit,List.pairwise_append] at hmono
  obtain ⟨hacc,hbound⟩ := Caller.requests_noBurst he hb hm start hmono.1
  have hnow : Caller.Accounts config now c :=
    hacc now (fun t ht => hmono.2.2 t ht now List.mem_cons_self)
  have hle : countWithin now config.window c.recorded ≤ m := hbound now
  rcases lt_or_ge ((c.noted config now).length : ℤ) config.maxRequests with hroom | hfull
  · rw [(Caller.request_of_room he hroom).1]
    rw [hnow.noted_length,hm] at hroom
    refine ⟨?_,by simp⟩
    rw [decide_eq_true (by omega)]
  · rw [(Caller.request_of_full he hb hfull).1]
    rw [hnow.noted_length,hm] at hfull
    refine ⟨?_,fun _ => by omega⟩
    rw [decide_eq_false (by omega)]

/-- Two requests per second: the third request at the same time is refused, and the window is
free again a second later. -/
theorem slidingWindow_exact_two :
    ((Caller.new ⟨true,2,Duration.second,0⟩ 0).requests ⟨true,2,Duration.second,0⟩
      [0,0,0,Duration.second]).recorded = [0,0,Duration.second] ∧
    ∀ t, countWithin t Duration.second ((Caller.new ⟨true,2,Duration.second,0⟩ 0).requests
      ⟨true,2,Duration.second,0⟩ [0,0,0,Duration.second]).recorded ≤ 2 :=
  ⟨by decide,(slidingWindow_exact ⟨true,2,Duration.second,0⟩ 2 rfl rfl rfl 0
    [0,0,0,Duration.second] (by decide)).2⟩

end ChainKit
