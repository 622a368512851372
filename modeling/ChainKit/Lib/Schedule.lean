import Mathlib

/-! Schedules: a system that takes one labelled step after the other, what is observed along
the way, and the number of its components in some condition. -/
namespace ChainKit.Lib
variable {σ τ α β : Type}

/-- An invariant of the steps that are taken holds in the end. -/
theorem foldl_invariant {f : σ → τ → σ} {I : σ → Prop} {s : σ} {l : List τ} (hs : I s)
    (hstep : ∀ before t after, l = before ++ t :: after → I (before.foldl f s) →
      I (f (before.foldl f s) t)) : I (l.foldl f s) := by
  induction l using List.reverseRecOn with
  | nil => exact hs
  | append_singleton l t ih =>
    have hl : I (l.foldl f s) := by
      apply ih
      intro before u after hsplit
      apply hstep before u (after ++ [t])
      rw [hsplit]
      simp
    rw [List.foldl_append]
    exact hstep l t [] rfl hl

/-- What the steps of a schedule show, in order. -/
def observe (f : σ → τ → σ) (g : σ → τ → Option β) (s : σ) : List τ → List β
  | [] => []
  | t :: ts => (g s t).toList ++ observe f g (f s t) ts

theorem observe_append (f : σ → τ → σ) (g : σ → τ → Option β) (s : σ) (l l' : List τ) :
    observe f g s (l ++ l') = observe f g s l ++ observe f g (l.foldl f s) l' := by
  induction l generalizing s with
  | nil => rfl
  | cons t ts ih => simp [observe,ih]

@[simp] theorem observe_concat (f : σ → τ → σ) (g : σ → τ → Option β) (s : σ) (l : List τ)
    (t : τ) : observe f g s (l ++ [t]) = observe f g s l ++ (g (l.foldl f s) t).toList := by
  simp [observe_append,observe]

theorem eq_none_of_observe {f : σ → τ → σ} {g : σ → τ → Option β} {s : σ} {l : List τ}
    (h : observe f g s l = []) {before : List τ} {t : τ} {after : List τ}
    (hl : l = before ++ t :: after) : g (before.foldl f s) t = none := by
  rw [hl,observe_append,List.append_eq_nil_iff] at h
  have ht := (List.append_eq_nil_iff.mp h.2).1
  simpa using ht

/-- Every step meets a condition in the state before it. -/
def Along (f : σ → τ → σ) (P : σ → τ → Prop) : σ → List τ → Prop
  | _,[] => True
  | s,t :: ts => P s t ∧ Along f P (f s t) ts

instance Along.decidable (f : σ → τ → σ) (P : σ → τ → Prop) [∀ s t, Decidable (P s t)] (s : σ) :
    (l : List τ) → Decidable (Along f P s l)
  | [] => .isTrue trivial
  | t :: ts =>
    have := Along.decidable f P (f s t) ts
    inferInstanceAs (Decidable (P s t ∧ Along f P (f s t) ts))

theorem along_iff {f : σ → τ → σ} {P : σ → τ → Prop} {s : σ} {l : List τ} :
    Along f P s l ↔ ∀ before t after, l = before ++ t :: after → P (before.foldl f s) t := by
  induction l generalizing s with
  | nil => simp [Along]
  | cons u rest ih =>
    rw [Along,ih]
    constructor
    · rintro ⟨hhead,htail⟩ before t after hsplit
      cases before with
      | nil =>
        obtain ⟨rfl,_⟩ := List.cons.inj hsplit
        exact hhead
      | cons v before =>
        obtain ⟨rfl,hrest⟩ := List.cons.inj hsplit
        exact htail before t after hrest
    · intro h
      refine ⟨h [] u rest rfl,?_⟩
      intro before t after hsplit
      exact h (u :: before) t after (by rw [hsplit,List.cons_append])

theorem along_append {f : σ → τ → σ} {P : σ → τ → Prop} {s : σ} {l l' : List τ} :
    Along f P s (l ++ l') ↔ Along f P s l ∧ Along f P (l.foldl f s) l' := by
  induction l generalizing s with
  | nil => simp [Along]
  | cons t ts ih => rw [List.cons_append,Along,Along,ih,and_assoc,List.foldl_cons]

/-- If a property after a step says that it held before and that the step was sound, then it says
in the end that every step was. -/
theorem foldl_sound {f : σ → τ → σ} {Q : σ → Prop} {sound : σ → τ → Prop} {s : σ} {l : List τ}
    (hstep : ∀ (before : List τ) t, Q (f (before.foldl f s) t) →
      Q (before.foldl f s) ∧ sound (before.foldl f s) t) (h : Q (l.foldl f s)) :
    Q s ∧ ∀ before t after, l = before ++ t :: after → sound (before.foldl f s) t := by
  induction l generalizing s with
  | nil => exact ⟨h,by simp⟩
  | cons t l ih =>
    obtain ⟨hnext,htail⟩ := ih (fun before u => hstep (t :: before) u) h
    obtain ⟨hs,hhead⟩ := hstep [] t hnext
    exact ⟨hs,along_iff.mp ⟨hhead,along_iff.mpr htail⟩⟩

/-- If a property is kept by exactly the sound steps, it holds in the end if and only if it holds
at the start and every step is sound. -/
theorem foldl_iff {f : σ → τ → σ} {Q : σ → Prop} {sound : σ → τ → Prop} {s : σ} {l : List τ}
    (hstep : ∀ (before : List τ) t, Q (f (before.foldl f s) t) ↔
      Q (before.foldl f s) ∧ sound (before.foldl f s) t) :
    Q (l.foldl f s) ↔ Q s ∧
      ∀ before t after, l = before ++ t :: after → sound (before.foldl f s) t := by
  constructor
  · exact foldl_sound (fun before t => (hstep before t).mp)
  · rintro ⟨hs,h⟩
    apply foldl_invariant hs
    intro before t after hsplit hbefore
    exact (hstep before t).mpr ⟨hbefore,h before t after hsplit⟩

variable [Fintype τ] [DecidableEq τ]

/-- The number of components with a property. -/
def countOf (P : α → Bool) (threads : τ → α) : ℕ := ∑ t, (P (threads t)).toNat

theorem countOf_update (P : α → Bool) (threads : τ → α) (t : τ) (a : α) :
    countOf P (Function.update threads t a)+(P (threads t)).toNat =
      countOf P threads+(P a).toNat := by
  have hrest : ∑ u ∈ Finset.univ.erase t, (P (Function.update threads t a u)).toNat =
      ∑ u ∈ Finset.univ.erase t, (P (threads u)).toNat := by
    apply Finset.sum_congr rfl
    intro u hu
    rw [Function.update_of_ne (Finset.ne_of_mem_erase hu)]
  unfold countOf
  rw [← Finset.add_sum_erase _ _ (Finset.mem_univ t),hrest,
    ← Finset.add_sum_erase _ (fun u => (P (threads u)).toNat) (Finset.mem_univ t),
    Function.update_self]
  omega

end ChainKit.Lib
