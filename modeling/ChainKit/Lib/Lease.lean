import Mathlib

/-! Leases: a cell keeps the token of the party that has set it, up to a deadline, and is only set
while it is free. A party gives its lease back by its token. -/
namespace ChainKit.Lib
variable {ν α : Type}

/-- A deadline that is not there does not pass. -/
def unexpired (deadline : Option ℕ) (now : ℕ) : Bool := deadline.all (now < ·)

/-- What stands in the cell, with the party that has set it. -/
structure Lease (ν α : Type) where
  token : ν
  deadline : Option ℕ
  owner : α

/-- The lease that the cell shows at a time: one that has expired is not there any more. -/
def current (now : ℕ) (lease : Option (Lease ν α)) : Option (Lease ν α) :=
  lease.filter fun l => unexpired l.deadline now

def giveBack [DecidableEq ν] (now : ℕ) (token : ν) (lease : Option (Lease ν α)) :
    Option (Lease ν α) :=
  if (current now lease).any (fun l => decide (l.token = token)) then none else lease

/-- One cell, the tokens that the parties have drawn, and the deadlines of the leases that were
granted to them and that they have not given back. -/
structure LeaseCell (ν α : Type) where
  now : ℕ
  lease : Option (Lease ν α)
  token : α → Option ν
  granted : α → Option (Option ℕ)

namespace LeaseCell
variable {c c' : LeaseCell ν α}

/-- The party has a lease that has neither expired nor been given back. -/
def Holds (c : LeaseCell ν α) (a : α) : Prop :=
  ∃ deadline, c.granted a = some deadline ∧ unexpired deadline c.now = true

/-- The tokens are those of different parties, a lease has the token of its owner, and whoever
holds a lease finds it in the cell. -/
structure Sound (c : LeaseCell ν α) : Prop where
  distinct : ∀ a b v, c.token a = some v → c.token b = some v → a = b
  owned : ∀ l, c.lease = some l → c.token l.owner = some l.token
  held : ∀ a deadline, c.granted a = some deadline → unexpired deadline c.now = true →
    ∃ l, c.lease = some l ∧ l.owner = a ∧ l.deadline = deadline

theorem sound_start (now : ℕ) : Sound (⟨now,none,fun _ => none,fun _ => none⟩ : LeaseCell ν α) :=
  ⟨by simp,by simp,by simp⟩

/-- Two parties do not hold a lease at the same time. -/
theorem Sound.exclusive (hc : c.Sound) {a b : α} (ha : c.Holds a) (hb : c.Holds b) : a = b := by
  obtain ⟨d,hd,hlive⟩ := ha
  obtain ⟨d',hd',hlive'⟩ := hb
  obtain ⟨l,hl,howner,_⟩ := hc.held a d hd hlive
  obtain ⟨l',hl',howner',_⟩ := hc.held b d' hd' hlive'
  rw [hl] at hl'
  cases hl'
  rw [← howner,← howner']

theorem Sound.giveBack_of_ne [DecidableEq ν] (hc : c.Sound) {a : α} {v : ν}
    (ha : c.token a = some v) {l : Lease ν α} (hl : c.lease = some l) (hne : l.owner ≠ a) :
    giveBack c.now v c.lease = c.lease := by
  have htoken : l.token ≠ v := by
    intro hv
    have howned := hc.owned l hl
    rw [hv] at howned
    exact hne (hc.distinct _ _ v howned ha)
  have hnone : (current c.now c.lease).any (fun l => decide (l.token = v)) = false := by
    rw [hl,current,Option.filter_some]
    split_ifs
    · simpa using htoken
    · rfl
  rw [giveBack,hnone]
  rfl

theorem Sound.free (hc : c.Sound) (hfree : current c.now c.lease = none) {a : α}
    {deadline : Option ℕ} (ha : c.granted a = some deadline) :
    unexpired deadline c.now = false := by
  by_contra hlive
  rw [Bool.not_eq_false] at hlive
  obtain ⟨l,hl,_,rfl⟩ := hc.held a deadline ha hlive
  rw [hl,current,Option.filter_some,if_pos hlive] at hfree
  cases hfree

theorem unexpired_of_add {deadline : Option ℕ} {now t : ℕ}
    (h : unexpired deadline (now+t) = true) : unexpired deadline now = true := by
  cases deadline with
  | none => rfl
  | some d =>
    simp only [unexpired,Option.all_some,decide_eq_true_eq] at h ⊢
    omega

variable [DecidableEq ν] [DecidableEq α]

/-- The steps of the parties. The answer to a party that has set the cell may get lost. -/
inductive Move (c : LeaseCell ν α) : LeaseCell ν α → Prop
  | skip : Move c c
  | wait (t : ℕ) : Move c { c with now := c.now+t }
  | draw (a : α) (v : ν) : c.token a = none → (∀ b, c.token b ≠ some v) →
      Move c { c with token := Function.update c.token a (some v) }
  | set (a : α) (v : ν) (deadline : Option ℕ) : c.token a = some v →
      current c.now c.lease = none → Move c { c with lease := some ⟨v,deadline,a⟩ }
  | grant (a : α) (v : ν) (deadline : Option ℕ) : c.token a = some v →
      current c.now c.lease = none →
      Move c { c with
        lease := some ⟨v,deadline,a⟩
        granted := Function.update c.granted a (some deadline) }
  | release (a : α) (v : ν) : c.token a = some v →
      Move c { c with
        lease := giveBack c.now v c.lease
        granted := Function.update c.granted a none }

theorem Move.sound (h : c.Move c') (hc : c.Sound) : c'.Sound := by
  cases h with
  | skip => exact hc
  | wait t =>
    refine ⟨hc.distinct,hc.owned,?_⟩
    intro a deadline ha hlive
    exact hc.held a deadline ha (unexpired_of_add hlive)
  | draw a v hnone hfresh =>
    refine ⟨?_,?_,hc.held⟩
    · intro b b' w hb hb'
      by_cases hab : b = a <;> by_cases hab' : b' = a
      · rw [hab,hab']
      · simp only [hab,Function.update_self,Function.update_of_ne hab'] at hb hb'
        cases hb
        exact absurd hb' (hfresh b')
      · simp only [hab',Function.update_self,Function.update_of_ne hab] at hb hb'
        cases hb'
        exact absurd hb (hfresh b)
      · simp only [Function.update_of_ne hab,Function.update_of_ne hab'] at hb hb'
        exact hc.distinct b b' w hb hb'
    · intro l hl
      have howned := hc.owned l hl
      have hne : l.owner ≠ a := by
        intro ha
        rw [ha,hnone] at howned
        cases howned
      exact (Function.update_of_ne hne _ _).trans howned
  | set a v deadline hv hfree =>
    refine ⟨hc.distinct,?_,?_⟩
    · intro l hl
      cases hl
      exact hv
    · intro b d hb hlive
      have hdead := hc.free hfree hb
      rw [hlive] at hdead
      cases hdead
  | grant a v deadline hv hfree =>
    refine ⟨hc.distinct,?_,?_⟩
    · intro l hl
      cases hl
      exact hv
    · intro b d hb hlive
      by_cases hba : b = a
      · subst hba
        simp only [Function.update_self] at hb
        cases hb
        exact ⟨_,rfl,rfl,rfl⟩
      · simp only [Function.update_of_ne hba] at hb
        have hdead := hc.free hfree hb
        rw [hlive] at hdead
        cases hdead
  | release a v hv =>
    refine ⟨hc.distinct,?_,?_⟩
    · intro l hl
      simp only [giveBack] at hl
      split_ifs at hl
      exact hc.owned l hl
    · intro b d hb hlive
      have hba : b ≠ a := by
        rintro rfl
        simp only [Function.update_self] at hb
        cases hb
      simp only [Function.update_of_ne hba] at hb
      obtain ⟨l,hl,rfl,rfl⟩ := hc.held b d hb hlive
      refine ⟨l,?_,rfl,rfl⟩
      exact (hc.giveBack_of_ne hv hl hba).trans hl

end LeaseCell
end ChainKit.Lib
