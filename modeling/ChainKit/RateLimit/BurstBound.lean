import ChainKit.RateLimit.Burst
import ChainKit.RateLimit.Caller

/-! How many requests get into one window with burst tokens. A token that was spent comes back
after `Window/MaxRequests`, when the request that it paid for may still be in the window. -/
namespace ChainKit
open Lib

def RateLimitConfig.refillInterval (config : RateLimitConfig) : ℤ :=
  config.window.tdiv config.maxRequests

namespace RateLimitState

theorem tdiv_pos_iff {a q : ℤ} (hq : 0 < q) : 0 < a.tdiv q ↔ q ≤ a := by
  rcases le_or_gt 0 a with ha | ha
  · have hle : 1 ≤ a/q ↔ 1*q ≤ a := Int.le_ediv_iff_mul_le hq
    rw [Int.tdiv_eq_ediv_of_nonneg ha]
    omega
  · have hneg : 0 ≤ (-a).tdiv q := Int.tdiv_nonneg (by omega) hq.le
    rw [Int.neg_tdiv] at hneg
    omega

theorem refill_eq {config : RateLimitConfig} (rls : RateLimitState) (now : ℤ)
    (hm : config.maxRequests ≠ 0) (hq : 0 < config.refillInterval) :
    rls.refill config now = .ok (if config.refillInterval ≤ now-rls.lastRefill then
      ⟨rls.requestTimes,
        min (rls.burstTokens+(now-rls.lastRefill)/config.refillInterval) config.burstSize,now⟩
      else rls) := by
  have hq' : ¬config.window.tdiv config.maxRequests = 0 := hq.ne'
  simp only [refill,if_neg hm,if_neg hq']
  by_cases h : config.refillInterval ≤ now-rls.lastRefill
  · have hpos := (tdiv_pos_iff hq).mpr h
    have hediv : (now-rls.lastRefill).tdiv config.refillInterval =
        (now-rls.lastRefill)/config.refillInterval :=
      Int.tdiv_eq_ediv_of_nonneg (hq.le.trans h)
    rw [if_pos h]
    simp only [RateLimitConfig.refillInterval] at hpos hediv ⊢
    rw [if_pos hpos,hediv,minInt]
    congr 2
    omega
  · have hpos := mt (tdiv_pos_iff hq).mp h
    rw [if_neg h]
    simp only [RateLimitConfig.refillInterval] at hpos
    rw [if_neg hpos]

end RateLimitState

namespace Caller
variable {config : RateLimitConfig} {c : Caller} {now t : ℤ}

/-- The request finds the window full and enough time passed for a token to come back. -/
def Refills (config : RateLimitConfig) (c : Caller) (now : ℤ) : Prop :=
  config.maxRequests ≤ ((c.noted config now).length : ℤ) ∧
    config.refillInterval ≤ now-c.rls.lastRefill

/-- As far as the window that ends at `t` is concerned, no token comes back after one was
spent. -/
def Steady (config : RateLimitConfig) (t : ℤ) (c : Caller) (now : ℤ) : Prop :=
  now ≤ t → c.Refills config now → ∀ x ∈ c.spent, x ≤ t-config.window

instance (config : RateLimitConfig) (t : ℤ) (c : Caller) (now : ℤ) :
    Decidable (c.Steady config t now) :=
  inferInstanceAs (Decidable (_ → _ ∧ _ → _))

/-- The tokens that were spent in the window that ends at `t`, and those that are left, came from
the bucket or came back since some refill; where the account is steady, none came back. -/
def Paid (config : RateLimitConfig) (t : ℤ) (steady : Prop) (spent : ℕ) (tokens refilled : ℤ) :
    Prop :=
  spent = 0 ∨ ∃ since ≤ refilled, t-config.window-config.refillInterval+2 ≤ since ∧
    (refilled = since ∨ refilled ≤ t ∧ ¬steady) ∧
    spent+tokens ≤ config.burstSize+(refilled-since)/config.refillInterval

namespace Paid
variable {steady : Prop} {spent : ℕ} {tokens refilled : ℤ}

theorem refill (h : Paid config t steady spent tokens refilled) (hq : 0 < config.refillInterval)
    (hdue : config.refillInterval ≤ now-refilled) (hnow : now ≤ t)
    (hsteady : spent ≠ 0 → ¬steady) {tokens' : ℤ}
    (htokens : tokens' ≤ tokens+(now-refilled)/config.refillInterval) :
    Paid config t steady spent tokens' now := by
  rcases h with h | ⟨since,hle,hlow,-,hsum⟩
  · exact Or.inl h
  · by_cases h0 : spent = 0
    · exact Or.inl h0
    · refine Or.inr ⟨since,by omega,hlow,Or.inr ⟨hnow,hsteady h0⟩,?_⟩
      have hadd : (refilled-since)/config.refillInterval+(now-refilled)/config.refillInterval ≤
          (refilled-since+(now-refilled))/config.refillInterval :=
        Int.ediv_add_ediv_le_add_ediv hq
      rw [show refilled-since+(now-refilled) = now-since by ring] at hadd
      omega

theorem waste (h : Paid config t steady spent tokens refilled) :
    Paid config t steady spent (tokens-1) refilled := by
  rcases h with h | ⟨since,hle,hlow,hsame,hsum⟩
  · exact Or.inl h
  · exact Or.inr ⟨since,hle,hlow,hsame,by omega⟩

theorem spend (h : Paid config t steady spent tokens refilled)
    (htokens : tokens ≤ config.burstSize) (hlater : t-config.window < now)
    (hrefilled : now-refilled < config.refillInterval) :
    Paid config t steady (spent+1) (tokens-1) refilled := by
  rcases h with rfl | ⟨since,hle,hlow,hsame,hsum⟩
  · refine Or.inr ⟨refilled,le_rfl,by omega,Or.inl rfl,?_⟩
    rw [sub_self,Int.zero_ediv]
    push_cast
    omega
  · refine Or.inr ⟨since,hle,hlow,hsame,?_⟩
    push_cast
    omega

/-- In a steady account no more is spent than the bucket holds. -/
theorem le_of_steady (h : Paid config t steady spent tokens refilled) (hs : steady)
    (htokens : 0 ≤ tokens) (hb : 0 ≤ config.burstSize) : (spent : ℤ) ≤ config.burstSize := by
  rcases h with rfl | ⟨since,-,-,hsame,hsum⟩
  · simpa using hb
  · rcases hsame with rfl | ⟨-,hnot⟩
    · rw [sub_self,Int.zero_ediv] at hsum
      omega
    · exact absurd hs hnot

/-- Without further assumptions the tokens of one window may come back in addition. -/
theorem le_add (h : Paid config t steady spent tokens refilled) (hq : 0 < config.refillInterval)
    (hw : 1 ≤ config.window) (htokens : 0 ≤ tokens) (hb : 0 ≤ config.burstSize) :
    (spent : ℤ) ≤ config.burstSize+
      (config.window+config.refillInterval-2)/config.refillInterval := by
  have hnonneg : 0 ≤ (config.window+config.refillInterval-2)/config.refillInterval :=
    Int.ediv_nonneg (by omega) hq.le
  rcases h with rfl | ⟨since,-,hlow,hsame,hsum⟩
  · push_cast
    omega
  · rcases hsame with rfl | ⟨hle,-⟩
    · rw [sub_self,Int.zero_ediv] at hsum
      omega
    · have hmono : (refilled-since)/config.refillInterval ≤
          (config.window+config.refillInterval-2)/config.refillInterval :=
        Int.ediv_le_ediv hq (by omega)
      omega

end Paid

/-- The account of the window that ends at `t`, as long as no request is later. Beyond
`MaxRequests` every request in the window was paid with a token. -/
structure Budget (config : RateLimitConfig) (t : ℤ) (steady : Prop) (c : Caller) : Prop where
  tokens_nonneg : 0 ≤ c.rls.burstTokens
  tokens_le : c.rls.burstTokens ≤ config.burstSize
  made : (countWithin t config.window c.recorded : ℤ) ≤
    config.maxRequests+countWithin t config.window c.spent
  paid : Paid config t steady (countWithin t config.window c.spent) c.rls.burstTokens
    c.rls.lastRefill

section
variable (he : config.enabled = true) (hm : 1 ≤ config.maxRequests)
  (hw : config.maxRequests ≤ config.window) (hb : 1 ≤ config.burstSize)
include hm hw

theorem refillInterval_pos : 0 < config.refillInterval :=
  (RateLimitState.tdiv_pos_iff (by omega)).mpr hw

include he hb

/-- What one request can do when the bucket cannot panic: it finds room, or the bucket is refilled
and the request is paid with a token or refused. -/
theorem request_cases (c : Caller) (now : ℤ) :
    (((c.noted config now).length : ℤ) < config.maxRequests ∧
      c.request config now =
        ⟨⟨c.noted config now ++ [now],c.rls.burstTokens,c.rls.lastRefill⟩,c.recorded ++ [now],
          c.spent⟩) ∨
    (config.maxRequests ≤ ((c.noted config now).length : ℤ) ∧ ∃ tokens refilled,
      (config.refillInterval ≤ now-c.rls.lastRefill ∧ refilled = now ∧
          tokens = min (c.rls.burstTokens+(now-c.rls.lastRefill)/config.refillInterval)
            config.burstSize ∨
        now-c.rls.lastRefill < config.refillInterval ∧ refilled = c.rls.lastRefill ∧
          tokens = c.rls.burstTokens) ∧
      (0 < tokens ∧ c.request config now =
          ⟨⟨c.noted config now ++ [now],tokens-1,refilled⟩,c.recorded ++ [now],c.spent ++ [now]⟩ ∨
        tokens ≤ 0 ∧ c.request config now =
          ⟨⟨c.noted config now,tokens,refilled⟩,c.recorded,c.spent⟩)) := by
  rcases lt_or_ge ((c.noted config now).length : ℤ) config.maxRequests with hroom | hfull
  · exact Or.inl ⟨hroom,(request_of_room he hroom).2⟩
  · have hrefill := (c.rls.clean config now).refill_eq now
      (show config.maxRequests ≠ 0 by omega) (refillInterval_pos hm hw)
    refine Or.inr ⟨hfull,?_⟩
    by_cases hdue : config.refillInterval ≤ now-c.rls.lastRefill
    · have hdue' : config.refillInterval ≤ now-(c.rls.clean config now).lastRefill := hdue
      rw [if_pos hdue'] at hrefill
      refine ⟨_,_,Or.inl ⟨hdue,rfl,rfl⟩,?_⟩
      rcases lt_or_ge 0 (min (c.rls.burstTokens+
        (now-c.rls.lastRefill)/config.refillInterval) config.burstSize) with ht | ht
      · exact Or.inl ⟨ht,request_of_token he (by omega) hfull hrefill ht⟩
      · exact Or.inr ⟨ht,request_of_empty he (by omega) hfull hrefill ht⟩
    · have hdue' : ¬config.refillInterval ≤ now-(c.rls.clean config now).lastRefill := hdue
      rw [if_neg hdue'] at hrefill
      refine ⟨_,_,Or.inr ⟨not_le.mp hdue,rfl,rfl⟩,?_⟩
      rcases lt_or_ge 0 c.rls.burstTokens with ht | ht
      · exact Or.inl ⟨ht,request_of_token he (by omega) hfull hrefill ht⟩
      · exact Or.inr ⟨ht,request_of_empty he (by omega) hfull hrefill ht⟩

theorem request_accounts_burst (h : Accounts config now c) :
    Accounts config now (c.request config now) := by
  rcases request_cases he hm hw hb c now with ⟨-,hr⟩ | ⟨-,tokens,refilled,-,⟨-,hr⟩ | ⟨-,hr⟩⟩
  · rw [hr]
    exact h.admitted _ _ _
  · rw [hr]
    exact h.admitted _ _ _
  · rw [hr]
    exact h.refuse _ _

/-- A request at `now ≤ t` keeps the account of the window that ends at `t`. -/
theorem Budget.request {steady : Prop} (h : Budget config t steady c)
    (hacc : Accounts config now c) (hnow : now ≤ t)
    (hsteady : steady → c.Steady config t now) :
    Budget config t steady (c.request config now) := by
  have hq := refillInterval_pos hm hw
  have hmade := h.made
  rcases request_cases he hm hw hb c now with
    ⟨hroom,hr⟩ | ⟨hfull,tokens,refilled,hrefill,hr⟩
  · rw [hr]
    refine ⟨h.tokens_nonneg,h.tokens_le,?_,h.paid⟩
    -- the request found room, so the window up to it holds at most `MaxRequests`
    have hle : countWithin t config.window c.recorded ≤ (c.noted config now).length := by
      rw [hacc.noted_length]
      exact countWithin_le_of_past hnow hacc.past
    simp only [countWithin_concat]
    split_ifs <;> push_cast <;> omega
  · have hspent : countWithin t config.window c.spent ≠ 0 →
        config.refillInterval ≤ now-c.rls.lastRefill → ¬steady := by
      intro hne hdue hs
      apply hne
      rw [countWithin,List.countP_eq_zero]
      intro x hx
      have := hsteady hs hnow ⟨hfull,hdue⟩ x hx
      simp [not_lt.mpr this]
    have hafter : 0 ≤ tokens ∧ tokens ≤ config.burstSize ∧
        now-refilled < config.refillInterval ∧
        Paid config t steady (countWithin t config.window c.spent) tokens refilled := by
      have h0 := h.tokens_nonneg
      have h1 := h.tokens_le
      rcases hrefill with ⟨hdue,rfl,rfl⟩ | ⟨hdue,rfl,rfl⟩
      · have := Int.ediv_nonneg (hq.le.trans hdue) hq.le
        refine ⟨by omega,by omega,by omega,?_⟩
        exact h.paid.refill hq hdue hnow (fun hne => hspent hne hdue) (min_le_left _ _)
      · exact ⟨h0,h1,hdue,h.paid⟩
    obtain ⟨hnonneg,hle,hrefilled,hpaid⟩ := hafter
    rcases hr with ⟨hpos,hr⟩ | ⟨-,hr⟩
    · rw [hr]
      refine ⟨by simp only; omega,by simp only; omega,?_,?_⟩
      · simp only [countWithin_concat]
        split_ifs <;> push_cast <;> omega
      · simp only [countWithin_concat]
        split_ifs with hin
        · exact hpaid.spend hle hin.1 hrefilled
        · exact hpaid.waste
    · rw [hr]
      exact ⟨hnonneg,hle,hmade,hpaid⟩

theorem requests_budget (start : ℤ) (steady : Prop) {times : List ℤ}
    (hmono : times.Pairwise (· ≤ ·)) (hle : ∀ x ∈ times, x ≤ t)
    (hsteady : steady →
      Along (request config) (fun c now => c.Steady config t now) (new config start) times) :
    Budget config t steady ((new config start).requests config times) := by
  induction times using List.reverseRecOn with
  | nil =>
    refine ⟨?_,le_rfl,?_,Or.inl rfl⟩
    · exact le_trans zero_le_one hb
    · have : (countWithin t config.window ([] : List ℤ) : ℤ) = 0 := rfl
      simp only [requests,new,List.foldl_nil,this]
      omega
  | append_singleton times now ih =>
    rw [List.pairwise_append] at hmono
    have hacc := Accounts.requests start (fun _ _ h => request_accounts_burst he hm hw hb h)
      hmono.1 (fun u hu => hmono.2.2 u hu now (by simp))
    rw [requests_concat]
    apply Budget.request he hm hw hb _ hacc (hle now (by simp))
    · intro hs
      exact ((along_append.mp (hsteady hs)).2).1
    · apply ih hmono.1 (fun x hx => hle x (by simp [hx]))
      intro hs
      exact (along_append.mp (hsteady hs)).1

omit hm hw hb he in
theorem request_countWithin_of_lt (h : t < now) :
    countWithin t config.window (c.request config now).recorded =
      countWithin t config.window c.recorded := by
  unfold request
  simp only
  split
  · simp [not_le.mpr h]
  · rfl

omit hm hw hb he in
theorem requests_upTo (config : RateLimitConfig) (start t : ℤ) {times : List ℤ}
    (hmono : times.Pairwise (· ≤ ·)) :
    ∃ before after, times = before ++ after ∧ (∀ x ∈ before, x ≤ t) ∧
      countWithin t config.window ((new config start).requests config times).recorded =
        countWithin t config.window ((new config start).requests config before).recorded := by
  induction times using List.reverseRecOn with
  | nil => exact ⟨[],[],rfl,by simp,rfl⟩
  | append_singleton times now ih =>
    rw [List.pairwise_append] at hmono
    rcases le_or_gt now t with hnow | hnow
    · refine ⟨times ++ [now],[],by simp,?_,rfl⟩
      intro x hx
      rcases List.mem_append.mp hx with hx | hx
      · exact le_trans (hmono.2.2 x hx now (by simp)) hnow
      · exact (List.mem_singleton.mp hx).le.trans hnow
    · obtain ⟨before,after,hsplit,hle,hcount⟩ := ih hmono.1
      refine ⟨before,after ++ [now],by rw [hsplit,List.append_assoc],hle,?_⟩
      rw [requests_concat,request_countWithin_of_lt hnow,hcount]

end
end Caller

/-- With burst tokens a window holds at most `MaxRequests + BurstSize` recorded requests if no
token comes back in it after one was spent in it. Whatever comes back, there are never more than
the tokens of one more window on top. -/
theorem burst_window_le (config : RateLimitConfig) (he : config.enabled = true)
    (hm : 1 ≤ config.maxRequests) (hw : config.maxRequests ≤ config.window)
    (hb : 1 ≤ config.burstSize) (start : ℤ) (times : List ℤ) (hmono : times.Pairwise (· ≤ ·))
    (t : ℤ) :
    (Along (Caller.request config) (fun c now => c.Steady config t now) (.new config start) times →
      (countWithin t config.window ((Caller.new config start).requests config times).recorded : ℤ) ≤
        config.maxRequests+config.burstSize) ∧
    (countWithin t config.window ((Caller.new config start).requests config times).recorded : ℤ) ≤
      config.maxRequests+config.burstSize+
        (config.window+config.refillInterval-2)/config.refillInterval := by
  obtain ⟨before,after,hsplit,hle,hcount⟩ := Caller.requests_upTo config start t hmono
  rw [hcount]
  rw [hsplit] at hmono ⊢
  have hbefore := (List.pairwise_append.mp hmono).1
  constructor
  · intro hsteady
    have h := Caller.requests_budget he hm hw hb start True hbefore hle
      (fun _ => (along_append.mp hsteady).1)
    have hspent := h.paid.le_of_steady trivial h.tokens_nonneg (by omega)
    have hmade := h.made
    omega
  · have h := Caller.requests_budget he hm hw hb start False hbefore hle
      False.elim
    have hspent := h.paid.le_add (Caller.refillInterval_pos hm hw) (by omega) h.tokens_nonneg
      (by omega)
    have hmade := h.made
    omega

/-- One request per ten seconds and one token: the window of the first two requests. -/
theorem burst_window_le_one :
    ((Caller.new ⟨true,1,10*Duration.second,1⟩ 0).requests ⟨true,1,10*Duration.second,1⟩
      [0,0,0,20*Duration.second]).recorded = [0,0,20*Duration.second] ∧
    (countWithin (5*Duration.second) (10*Duration.second)
      ((Caller.new ⟨true,1,10*Duration.second,1⟩ 0).requests ⟨true,1,10*Duration.second,1⟩
        [0,0,0,20*Duration.second]).recorded : ℤ) ≤ 1+1 :=
  ⟨by decide,(burst_window_le ⟨true,1,10*Duration.second,1⟩ rfl (by decide) (by decide) (by decide)
    0 [0,0,0,20*Duration.second] (by decide) (5*Duration.second)).1 (by decide)⟩

/-- Two requests per two seconds and one token: the token that pays for the third request is back
after one second, and the window holds four requests. -/
theorem burst_window_overrun :
    ((Caller.new ⟨true,2,2*Duration.second,1⟩ 0).requests ⟨true,2,2*Duration.second,1⟩
      [0,0,0,Duration.second]).recorded = [0,0,0,Duration.second] ∧
    countWithin Duration.second (2*Duration.second)
      ((Caller.new ⟨true,2,2*Duration.second,1⟩ 0).requests ⟨true,2,2*Duration.second,1⟩
        [0,0,0,Duration.second]).recorded = 4 := by decide

end ChainKit
