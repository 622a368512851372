import Mathlib

/-! The heaviest sub-collections of a list: among all sub-collections with at most `k` elements,
the `k` elements of greatest weight weigh most. -/
namespace ChainKit.Lib
variable {α M : Type*}

section
variable [AddCommMonoid M] (w : α → M)

def weight (l : List α) : M := (l.map w).sum

@[simp] theorem weight_nil : weight w [] = 0 := rfl

@[simp] theorem weight_cons (x : α) (l : List α) : weight w (x :: l) = w x+weight w l := by
  simp [weight]

@[simp] theorem weight_append (l l' : List α) : weight w (l ++ l') = weight w l+weight w l' := by
  simp [weight]

theorem weight_perm {l l' : List α} (h : l.Perm l') : weight w l = weight w l' :=
  (h.map w).sum_eq

end

section
variable [LinearOrder M] (w : α → M)

def heaviest (k : ℕ) (l : List α) : List α := (l.insertionSort fun x y => w y ≤ w x).take k

theorem heaviest_subperm (k : ℕ) (l : List α) : (heaviest w k l).Subperm l :=
  (List.take_sublist _ _).subperm.trans (List.perm_insertionSort _ l).subperm

theorem length_heaviest_le (k : ℕ) (l : List α) : (heaviest w k l).length ≤ k :=
  List.length_take_le _ _

end

variable [AddCommMonoid M] [LinearOrder M] [IsOrderedAddMonoid M] {w : α → M}

theorem weight_nonneg {l : List α} (h : ∀ x ∈ l, 0 ≤ w x) : 0 ≤ weight w l :=
  List.sum_nonneg (by simpa using h)

theorem weight_le_take {l s : List α} {k : ℕ} (hsorted : l.Pairwise fun x y => w y ≤ w x)
    (hweights : ∀ x ∈ l, 0 ≤ w x) (hs : s.Sublist l) (hlength : s.length ≤ k) :
    weight w s ≤ weight w (l.take k) := by
  induction l generalizing s k with
  | nil => simp [List.sublist_nil.mp hs]
  | cons a l ih =>
    have hrest : ∀ x ∈ l, 0 ≤ w x := fun x hx => hweights x (by simp [hx])
    cases s with
    | nil =>
      rw [weight_nil]
      exact weight_nonneg fun x hx => hweights x (List.mem_of_mem_take hx)
    | cons x s =>
      cases k with
      | zero => simp at hlength
      | succ k =>
        -- The first element chosen weighs no more than the front, and the others are chosen
        -- from what is behind it.
        have hfirst : w x ≤ w a := by
          rcases List.mem_cons.mp (hs.subset List.mem_cons_self) with rfl | hx
          · exact le_refl _
          · exact (List.pairwise_cons.mp hsorted).1 x hx
        have hothers : weight w s ≤ weight w (l.take k) :=
          ih (List.pairwise_cons.mp hsorted).2 hrest hs.tail (by simpa using hlength)
        rw [List.take_succ_cons,weight_cons,weight_cons]
        exact add_le_add hfirst hothers

theorem weight_le_heaviest {l s : List α} {k : ℕ} (hweights : ∀ x ∈ l, 0 ≤ w x)
    (hs : s.Subperm l) (hlength : s.length ≤ k) : weight w s ≤ weight w (heaviest w k l) := by
  have hsort := List.perm_insertionSort (fun x y => w y ≤ w x) l
  obtain ⟨s',hperm,hsub⟩ := hs.trans hsort.symm.subperm
  have : Std.Total fun x y => w y ≤ w x := ⟨fun x y => le_total _ _⟩
  have : IsTrans α fun x y => w y ≤ w x := ⟨fun _ _ _ h h' => h'.trans h⟩
  rw [← weight_perm w hperm,heaviest]
  apply weight_le_take (List.pairwise_insertionSort _ l)
  · intro x hx
    exact hweights x (hsort.mem_iff.mp hx)
  · exact hsub
  · rw [hperm.length_eq]
    exact hlength

/-- Some sub-collection of at most `k` elements reaches a bound exactly when the heaviest one
does. -/
theorem exists_reaches_iff {l : List α} {k : ℕ} {bound : M} (hweights : ∀ x ∈ l, 0 ≤ w x) :
    (∃ s, s.Subperm l ∧ s.length ≤ k ∧ bound ≤ weight w s) ↔
      bound ≤ weight w (heaviest w k l) := by
  constructor
  · rintro ⟨s,hs,hlength,hbound⟩
    exact hbound.trans (weight_le_heaviest hweights hs hlength)
  · intro hbound
    exact ⟨heaviest w k l,heaviest_subperm w k l,length_heaviest_le w k l,hbound⟩

end ChainKit.Lib
