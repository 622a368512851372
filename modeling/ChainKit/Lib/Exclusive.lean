import Mathlib.Logic.Function.Basic

/-! Mutual exclusion: the component that has a property, if any, is known. -/
namespace ChainKit.Lib
variable {τ α : Type} {P : α → Prop} {threads : τ → α} {owner : Option τ}

def Owned (P : α → Prop) (threads : τ → α) (owner : Option τ) : Prop :=
  ∀ t, P (threads t) ↔ owner = some t

theorem Owned.eq_none {Q : α → Prop} {other : Option τ} (h : Owned P threads none)
    (hQ : ∀ a, Q a → P a) (hother : Owned Q threads other) : other = none := by
  rw [Option.eq_none_iff_forall_ne_some]
  intro t ht
  exact absurd ((h t).mp (hQ _ ((hother t).mpr ht))) (Option.some_ne_none t).symm

variable [DecidableEq τ] {t : τ} {a : α}

theorem Owned.same (h : Owned P threads owner) (ha : P a ↔ P (threads t)) :
    Owned P (Function.update threads t a) owner := by
  intro u
  by_cases hu : u = t
  · subst hu
    rw [Function.update_self,ha]
    exact h u
  · rw [Function.update_of_ne hu]
    exact h u

theorem Owned.acquire (h : Owned P threads none) (ha : P a) :
    Owned P (Function.update threads t a) (some t) := by
  intro u
  by_cases hu : u = t
  · subst hu
    rw [Function.update_self]
    exact iff_of_true ha rfl
  · rw [Function.update_of_ne hu,h u]
    constructor
    · intro hnone
      cases hnone
    · intro hsome
      exact absurd (Option.some.inj hsome).symm hu

theorem Owned.release (h : Owned P threads owner) (ht : P (threads t)) (ha : ¬P a) :
    Owned P (Function.update threads t a) none := by
  have howner := (h t).mp ht
  intro u
  by_cases hu : u = t
  · subst hu
    rw [Function.update_self]
    exact iff_of_false ha (Option.some_ne_none u).symm
  · rw [Function.update_of_ne hu,h u,howner]
    refine iff_of_false ?_ (Option.some_ne_none u).symm
    intro hsome
    exact hu (Option.some.inj hsome).symm

end ChainKit.Lib
