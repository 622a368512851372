import Mathlib

/-! Runs of a deterministic machine, given by its step function. -/
namespace ChainKit.Lib
variable {σ : Type} {f : σ → σ} {a b c : σ}

/-- A number of steps leads from `a` to `b`. -/
def Reaches (f : σ → σ) (a b : σ) : Prop := ∃ n, f^[n] a = b

theorem Reaches.refl (f : σ → σ) (a : σ) : Reaches f a a := ⟨0,rfl⟩

theorem Reaches.trans (h : Reaches f a b) (h' : Reaches f b c) : Reaches f a c := by
  obtain ⟨n,hn⟩ := h
  obtain ⟨m,hm⟩ := h'
  refine ⟨m+n,?_⟩
  rw [Function.iterate_add_apply,hn,hm]

theorem Reaches.head (h : f a = b) (h' : Reaches f b c) : Reaches f a c :=
  Reaches.trans ⟨1,h⟩ h'

/-- What holds at the start and is kept by every step holds wherever the machine gets. -/
theorem Reaches.invariant {I : σ → Prop} (h : Reaches f a b) (ha : I a)
    (hstep : ∀ s, I s → I (f s)) : I b := by
  obtain ⟨n,rfl⟩ := h
  induction n with
  | zero => exact ha
  | succ n ih =>
    rw [Function.iterate_succ_apply']
    exact hstep _ ih

theorem Reaches.of_iterate (h : Reaches f a b) (hb : f b = b) (n : ℕ) :
    Reaches f (f^[n] a) b := by
  obtain ⟨m,hm⟩ := h
  refine ⟨m,?_⟩
  rw [← Function.iterate_add_apply,Nat.add_comm,Function.iterate_add_apply,hm]
  exact Function.iterate_fixed hb n

theorem Reaches.total (h : Reaches f a b) (h' : Reaches f a c) :
    Reaches f b c ∨ Reaches f c b := by
  obtain ⟨n,rfl⟩ := h
  obtain ⟨m,rfl⟩ := h'
  rcases le_total n m with hle | hle
  · left
    exact ⟨m-n,by rw [← Function.iterate_add_apply,Nat.sub_add_cancel hle]⟩
  · right
    exact ⟨n-m,by rw [← Function.iterate_add_apply,Nat.sub_add_cancel hle]⟩

theorem Reaches.rest_unique (h : Reaches f a b) (hb : f b = b) (h' : Reaches f a c)
    (hc : f c = c) : b = c := by
  obtain ⟨n,hn⟩ := h
  obtain ⟨m,hm⟩ := h'
  have hb' : ∀ k, f^[k] b = b := fun k => Function.iterate_fixed hb k
  have hc' : ∀ k, f^[k] c = c := fun k => Function.iterate_fixed hc k
  calc
    b = f^[m] (f^[n] a) := by rw [hn,hb']
    _ = f^[n] (f^[m] a) := by rw [← Function.iterate_add_apply,← Function.iterate_add_apply,
        Nat.add_comm]
    _ = c := by rw [hm,hc']

end ChainKit.Lib
