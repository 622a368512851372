import Mathlib

/-! Computations that end with a value or an error. -/
namespace ChainKit.Lib
variable {ε ε' α β : Type}

/-- Go on under a condition, or end with an error. -/
def require (cond : Prop) [Decidable cond] (e : ε) : Except ε Unit :=
  if cond then .ok () else .error e

@[simp] theorem require_eq_ok (cond : Prop) [Decidable cond] (e : ε) (u : Unit) :
    require cond e = .ok u ↔ cond := by
  unfold require
  split_ifs with h <;> simp [h]

section
variable {x : Except ε α} {f : α → Except ε β}

theorem bind_eq_ok {b : β} : (x >>= f) = .ok b ↔ ∃ a, x = .ok a ∧ f a = .ok b := by
  cases x with
  | error e => simp [bind,Except.bind]
  | ok a => simp [bind,Except.bind]

theorem bind_eq_error {e : ε} :
    (x >>= f) = .error e ↔ x = .error e ∨ ∃ a, x = .ok a ∧ f a = .error e := by
  cases x with
  | error e' => simp [bind,Except.bind]
  | ok a => simp [bind,Except.bind]

@[simp] theorem mapError_eq_ok {g : ε → ε'} {a : α} : x.mapError g = .ok a ↔ x = .ok a := by
  cases x with
  | error e => simp [Except.mapError]
  | ok a' => simp [Except.mapError]

theorem exists_eq_ok (h : x.toOption.isSome = true) : ∃ a, x = .ok a := by
  cases x with
  | error e => cases h
  | ok a => exact ⟨a,rfl⟩

end

/-- Two loops whose bodies agree on what both compute agree on their results. -/
theorem mapM_agree {f : α → Except ε β} {g : α → Except ε' β} {xs : List α} {ys ys' : List β}
    (hagree : ∀ x y y', f x = .ok y → g x = .ok y' → y = y')
    (hf : xs.mapM f = .ok ys) (hg : xs.mapM g = .ok ys') : ys = ys' := by
  induction xs generalizing ys ys' with
  | nil =>
    cases hf
    cases hg
    rfl
  | cons x xs ih =>
    simp only [List.mapM_cons,bind_eq_ok] at hf hg
    obtain ⟨y,hy,rest,hrest,hys⟩ := hf
    obtain ⟨y',hy',rest',hrest',hys'⟩ := hg
    cases hys
    cases hys'
    rw [hagree x y y' hy hy',ih hrest hrest']

/-- What the body of a loop makes sure of holds of all that the loop computes. -/
theorem forall_of_mapM {f : α → Except ε β} {P : β → Prop} {xs : List α} {ys : List β}
    (hbody : ∀ x y, f x = .ok y → P y) (h : xs.mapM f = .ok ys) : ∀ y ∈ ys, P y := by
  induction xs generalizing ys with
  | nil =>
    cases h
    simp
  | cons x xs ih =>
    simp only [List.mapM_cons,bind_eq_ok] at h
    obtain ⟨y,hy,rest,hrest,hys⟩ := h
    cases hys
    rw [List.forall_mem_cons]
    exact ⟨hbody x y hy,ih hrest⟩

theorem length_of_mapM {f : α → Except ε β} {xs : List α} {ys : List β}
    (h : xs.mapM f = .ok ys) : ys.length = xs.length := by
  induction xs generalizing ys with
  | nil =>
    cases h
    rfl
  | cons x xs ih =>
    simp only [List.mapM_cons,bind_eq_ok] at h
    obtain ⟨y,_,rest,hrest,hys⟩ := h
    cases hys
    rw [List.length_cons,List.length_cons,ih hrest]

theorem map_eq_of_mapM {γ : Type} {f : α → Except ε β} {g : α → γ} {g' : β → γ} {xs : List α}
    {ys : List β} (hbody : ∀ x y, f x = .ok y → g x = g' y) (h : xs.mapM f = .ok ys) :
    xs.map g = ys.map g' := by
  induction xs generalizing ys with
  | nil =>
    cases h
    rfl
  | cons x xs ih =>
    simp only [List.mapM_cons,bind_eq_ok] at h
    obtain ⟨y,hy,rest,hrest,hys⟩ := h
    cases hys
    rw [List.map_cons,List.map_cons,hbody x y hy,ih hrest]

end ChainKit.Lib
