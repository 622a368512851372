import ChainKit.Lib.Schedule

/-! What has been observed of a run, step by step. -/
namespace ChainKit.Lib
variable {σ τ β : Type}

/-- If each step keeps a relation between the state and all that has been observed, then each run
does. -/
theorem observe_invariant {f : σ → τ → σ} {o : σ → τ → Option β} {R : σ → List β → Prop} {s : σ}
    {l : List τ} (hs : R s [])
    (hstep : ∀ s seen, ∀ t ∈ l, R s seen → R (f s t) (seen ++ (o s t).toList)) :
    R (l.foldl f s) (observe f o s l) := by
  induction l using List.reverseRecOn with
  | nil => exact hs
  | append_singleton l t ih =>
    rw [List.foldl_append,observe_concat]
    apply hstep _ _ t (List.mem_append_right l List.mem_cons_self)
    apply ih
    intro s seen u hu
    exact hstep s seen u (List.mem_append_left [t] hu)

theorem observe_sublist {f : σ → τ → σ} {o : σ → τ → Option τ}
    (ho : ∀ s t u, o s t = some u → u = t) (s : σ) (l : List τ) :
    (observe f o s l).Sublist l := by
  induction l generalizing s with
  | nil => exact List.Sublist.refl []
  | cons t l ih =>
    rw [observe]
    cases h : o s t with
    | none => exact (ih (f s t)).cons t
    | some u =>
      obtain rfl := ho s t u h
      exact (ih (f s u)).cons_cons u

end ChainKit.Lib
