import ChainKit.Lib.Schedule

/-! Systems that come to an end because some of their steps use up a potential, which others may
raise. -/
namespace ChainKit.Lib
variable {σ τ : Type}

/-- The steps lower a potential by what they pay and raise it by at most what they gain, until the
system is done. -/
structure Spends (f : σ → τ → σ) (pays gains : τ → ℕ) (I done : σ → Prop) (potential : σ → ℕ) :
    Prop where
  keeps : ∀ s t, I s → I (f s t)
  stays : ∀ s t, I s → done s → done (f s t)
  spends : ∀ s t, I s → ¬done s → potential (f s t)+pays t ≤ potential s+gains t
  left : ∀ s, I s → ¬done s → 0 < potential s

namespace Spends
variable {f : σ → τ → σ} {pays gains : τ → ℕ} {I done : σ → Prop} {potential : σ → ℕ} {s : σ}

theorem foldl_keeps (h : Spends f pays gains I done potential) (hs : I s) (l : List τ) :
    I (l.foldl f s) :=
  foldl_invariant hs (fun _ t _ _ hbefore => h.keeps _ t hbefore)

theorem foldl_stays (h : Spends f pays gains I done potential) (hs : I s) (hdone : done s)
    (l : List τ) : done (l.foldl f s) := by
  induction l generalizing s with
  | nil => exact hdone
  | cons t l ih => exact ih (h.keeps s t hs) (h.stays s t hs hdone)

theorem foldl_spends (h : Spends f pays gains I done potential) (hs : I s) {l : List τ}
    (hdone : ¬done (l.foldl f s)) :
    potential (l.foldl f s)+(l.map pays).sum ≤ potential s+(l.map gains).sum := by
  induction l generalizing s with
  | nil => simp
  | cons t l ih =>
    have hfirst : ¬done s := fun hs' => hdone (h.foldl_stays hs hs' (t :: l))
    have hstep := h.spends s t hs hfirst
    have hrest := ih (h.keeps s t hs) hdone
    simp only [List.foldl_cons,List.map_cons,List.sum_cons]
    omega

/-- A system that has paid all that it had and gained is done. -/
theorem done_of_le (h : Spends f pays gains I done potential) (hs : I s) {l : List τ}
    (hl : potential s+(l.map gains).sum ≤ (l.map pays).sum) : done (l.foldl f s) := by
  by_contra hdone
  have hspent := h.foldl_spends hs hdone
  have hleft := h.left _ (h.foldl_keeps hs l) hdone
  omega

/-- A system that gains finitely often and pays again and again is done at some time. -/
theorem eventually_done (h : Spends f pays gains I done potential) (hs : I s) (schedule : ℕ → τ)
    (hgains : {n | gains (schedule n) ≠ 0}.Finite)
    (hpays : {n | pays (schedule n) ≠ 0}.Infinite) :
    ∃ n, done (((List.range n).map schedule).foldl f s) := by
  have hsum (g : τ → ℕ) (n : ℕ) :
      (((List.range n).map schedule).map g).sum = ∑ i ∈ Finset.range n, g (schedule i) := by
    rw [List.map_map]
    rfl
  obtain ⟨paid,hpaid,hcard⟩ := hpays.exists_subset_card_eq
    (potential s+∑ i ∈ hgains.toFinset, gains (schedule i))
  refine ⟨paid.sup id+1,h.done_of_le hs ?_⟩
  rw [hsum,hsum]
  have hgained : ∑ i ∈ Finset.range (paid.sup id+1), gains (schedule i) ≤
      ∑ i ∈ hgains.toFinset, gains (schedule i) := by
    apply Finset.sum_le_sum_of_ne_zero
    intro i _ hi
    exact hgains.mem_toFinset.mpr hi
  have hrange : paid ⊆ Finset.range (paid.sup id+1) := by
    intro i hi
    exact Finset.mem_range.mpr (Nat.lt_succ_of_le (Finset.le_sup (f := id) hi))
  calc potential s+∑ i ∈ Finset.range (paid.sup id+1), gains (schedule i)
      ≤ potential s+∑ i ∈ hgains.toFinset, gains (schedule i) := Nat.add_le_add_left hgained _
    _ = ∑ _i ∈ paid, 1 := by rw [← hcard,Finset.card_eq_sum_ones]
    _ ≤ ∑ i ∈ paid, pays (schedule i) :=
      Finset.sum_le_sum fun i hi => Nat.one_le_iff_ne_zero.mpr (hpaid hi)
    _ ≤ ∑ i ∈ Finset.range (paid.sup id+1), pays (schedule i) :=
      Finset.sum_le_sum_of_subset hrange

end Spends

end ChainKit.Lib
