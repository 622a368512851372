import Mathlib

/-! In-place rearrangements of a slice, as functions on lists: the exchange sort and the bubble
sort written with two index loops, the downward shuffle driven by a stream of draws, and the turns
that a rotation gives to the elements of a list. -/
namespace ChainKit.Lib
variable {α : Type*}

/-- One round of the outer loop: the element in front meets every later position in turn
and changes places with each element that it has to follow. -/
def exchangePass (follows : α → α → Bool) (x : α) : List α → α × List α
  | [] => (x,[])
  | y :: ys =>
    if follows x y then
      let r := exchangePass follows y ys
      (r.1,x :: r.2)
    else
      let r := exchangePass follows x ys
      (r.1,y :: r.2)

theorem exchangePass_perm (follows : α → α → Bool) (x : α) (l : List α) :
    ((exchangePass follows x l).1 :: (exchangePass follows x l).2).Perm (x :: l) := by
  induction l generalizing x with
  | nil => simp [exchangePass]
  | cons y ys ih =>
    simp only [exchangePass]
    split_ifs
    · exact (List.Perm.swap _ _ _).trans ((ih y).cons x)
    · exact (List.Perm.swap _ _ _).trans (((ih x).cons y).trans (List.Perm.swap _ _ _))

/-- The first `n` rounds of the outer loop. -/
def exchangeRounds (follows : α → α → Bool) : ℕ → List α → List α
  | 0,l => l
  | _+1,[] => []
  | n+1,x :: xs =>
    let r := exchangePass follows x xs
    r.1 :: exchangeRounds follows n r.2

/-- The whole sort. The last position starts no round. -/
def exchangeSort (follows : α → α → Bool) (l : List α) : List α :=
  exchangeRounds follows (l.length-1) l

theorem exchangeRounds_perm (follows : α → α → Bool) (n : ℕ) (l : List α) :
    (exchangeRounds follows n l).Perm l := by
  induction n generalizing l with
  | zero => exact List.Perm.refl l
  | succ n ih =>
    cases l with
    | nil => exact List.Perm.refl []
    | cons x xs =>
      exact ((ih (exchangePass follows x xs).2).cons _).trans (exchangePass_perm follows x xs)

theorem exchangeSort_perm (follows : α → α → Bool) (l : List α) :
    (exchangeSort follows l).Perm l := exchangeRounds_perm follows _ l

section Key
variable {β γ : Type*} [LinearOrder β] [LinearOrder γ] (key : α → β) (cls : α → γ)

theorem exchangePass_key (x : α) (l : List α) :
    key x ≤ key (exchangePass (fun a b => decide (key a < key b)) x l).1 ∧
      ∀ y ∈ (exchangePass (fun a b => decide (key a < key b)) x l).2,
        key y ≤ key (exchangePass (fun a b => decide (key a < key b)) x l).1 := by
  induction l generalizing x with
  | nil => simp [exchangePass]
  | cons y ys ih =>
    simp only [exchangePass,decide_eq_true_eq]
    split_ifs with h
    · obtain ⟨hy,hle⟩ := ih y
      refine ⟨h.le.trans hy,?_⟩
      intro z hz
      rcases List.mem_cons.mp hz with rfl | hz
      · exact h.le.trans hy
      · exact hle z hz
    · obtain ⟨hx,hle⟩ := ih x
      refine ⟨hx,?_⟩
      intro z hz
      rcases List.mem_cons.mp hz with rfl | hz
      · exact (not_lt.mp h).trans hx
      · exact hle z hz

theorem exchangeRounds_sorted (n : ℕ) (l : List α) (hn : l.length ≤ n+1) :
    (exchangeRounds (fun a b => decide (key a < key b)) n l).Pairwise
      (fun a b => key b ≤ key a) := by
  induction n generalizing l with
  | zero =>
    cases l with
    | nil => exact List.Pairwise.nil
    | cons x xs =>
      have hxs : xs = [] := by
        rw [List.length_cons] at hn
        exact List.eq_nil_of_length_eq_zero (by omega)
      subst hxs
      exact List.pairwise_singleton _ x
  | succ n ih =>
    cases l with
    | nil => exact List.Pairwise.nil
    | cons x xs =>
      have hlen := (exchangePass_perm (fun a b => decide (key a < key b)) x xs).length_eq
      simp only [List.length_cons] at hlen hn
      simp only [exchangeRounds,List.pairwise_cons]
      refine ⟨?_,ih _ (by omega)⟩
      intro y hy
      exact (exchangePass_key key x xs).2 y ((exchangeRounds_perm _ _ _).subset hy)

theorem exchangeSort_sorted (l : List α) :
    (exchangeSort (fun a b => decide (key a < key b)) l).Pairwise (fun a b => key b ≤ key a) :=
  exchangeRounds_sorted key _ l (by omega)

theorem exchangeSort_ascending (l : List α) :
    (exchangeSort (fun a b => decide (key b < key a)) l).Pairwise (fun a b => key a ≤ key b) :=
  exchangeSort_sorted (fun a => OrderDual.toDual (key a)) l

variable {key cls}

/-- In a list that is in the order of its classes, a round exchanges elements of one class only
when no element of a later class has a greater key. -/
theorem exchangePass_map (x : α) (l : List α) (hsorted : ((x :: l).map cls).Pairwise (· ≤ ·))
    (hkeep : ∀ a ∈ x :: l, ∀ b ∈ x :: l, cls a < cls b → key b ≤ key a) :
    cls (exchangePass (fun a b => decide (key a < key b)) x l).1 = cls x ∧
      (exchangePass (fun a b => decide (key a < key b)) x l).2.map cls = l.map cls := by
  induction l generalizing x with
  | nil => simp [exchangePass]
  | cons y ys ih =>
    simp only [List.map_cons,List.pairwise_cons] at hsorted
    obtain ⟨hx,hy,hys⟩ := hsorted
    simp only [exchangePass,decide_eq_true_eq]
    split_ifs with h
    · have hxy : cls x = cls y := by
        apply le_antisymm (hx _ List.mem_cons_self)
        by_contra hlt
        exact absurd (hkeep x (by simp) y (by simp) (not_le.mp hlt)) (not_le.mpr h)
      obtain ⟨h₁,h₂⟩ := ih y (List.pairwise_cons.mpr ⟨hy,hys⟩)
        (fun a ha b hb => hkeep a (List.mem_cons_of_mem _ ha) b (List.mem_cons_of_mem _ hb))
      refine ⟨h₁.trans hxy.symm,?_⟩
      rw [List.map_cons,List.map_cons,h₂,hxy]
    · have hsub : ∀ a ∈ x :: ys, a ∈ x :: y :: ys := by
        intro a ha
        rcases List.mem_cons.mp ha with rfl | ha
        · exact List.mem_cons_self
        · exact List.mem_cons_of_mem _ (List.mem_cons_of_mem _ ha)
      have hx' : ∀ c ∈ ys.map cls, cls x ≤ c := fun c hc => hx c (List.mem_cons_of_mem _ hc)
      obtain ⟨h₁,h₂⟩ := ih x (List.pairwise_cons.mpr ⟨hx',hys⟩)
        (fun a ha b hb => hkeep a (hsub a ha) b (hsub b hb))
      refine ⟨h₁,?_⟩
      rw [List.map_cons,List.map_cons,h₂]

theorem exchangeRounds_map (n : ℕ) (l : List α) (hsorted : (l.map cls).Pairwise (· ≤ ·))
    (hkeep : ∀ a ∈ l, ∀ b ∈ l, cls a < cls b → key b ≤ key a) :
    (exchangeRounds (fun a b => decide (key a < key b)) n l).map cls = l.map cls := by
  induction n generalizing l with
  | zero => rfl
  | succ n ih =>
    cases l with
    | nil => rfl
    | cons x xs =>
      obtain ⟨h₁,h₂⟩ := exchangePass_map x xs hsorted hkeep
      have hmem := (exchangePass_perm (fun a b => decide (key a < key b)) x xs).subset
      simp only [exchangeRounds,List.map_cons,h₁]
      rw [ih,h₂]
      · rw [h₂]
        simp only [List.map_cons,List.pairwise_cons] at hsorted
        exact hsorted.2
      · exact fun a ha b hb => hkeep a (hmem (List.mem_cons_of_mem _ ha)) b
          (hmem (List.mem_cons_of_mem _ hb))

/-- Sorting by key keeps a list in the order of its classes exactly when no element of a later
class has a greater key. -/
theorem exchangeSort_classes_iff (key : α → β) (cls : α → γ) (l : List α)
    (hsorted : (l.map cls).Pairwise (· ≤ ·)) :
    ((exchangeSort (fun a b => decide (key a < key b)) l).map cls).Pairwise (· ≤ ·) ↔
      ∀ a ∈ l, ∀ b ∈ l, cls a < cls b → key b ≤ key a := by
  constructor
  · intro h a ha b hb hab
    have hperm := exchangeSort_perm (fun a b => decide (key a < key b)) l
    let R (x y : α) : Prop := cls x ≤ cls y ∧ key y ≤ key x
    have : Std.Symm (fun x y => R x y ∨ R y x) := ⟨fun _ _ h => h.symm⟩
    have hR : (exchangeSort (fun a b => decide (key a < key b)) l).Pairwise
        (fun x y => R x y ∨ R y x) :=
      ((List.pairwise_map.mp h).and (exchangeSort_sorted key l)).imp Or.inl
    have hne : a ≠ b := by
      rintro rfl
      exact lt_irrefl _ hab
    rcases hR.forall (hperm.symm.subset ha) (hperm.symm.subset hb) hne with h | h
    · exact h.2
    · exact absurd h.1 (not_le.mpr hab)
  · intro h
    rw [exchangeSort,exchangeRounds_map _ l hsorted h]
    exact hsorted

end Key

/-- Exchange the contents of two positions; an index outside the list changes nothing. -/
def swapAt (l : List α) (i j : ℕ) : List α :=
  match l[i]?,l[j]? with
  | some a,some b => (l.set i b).set j a
  | _,_ => l

theorem swapAt_perm (l : List α) (i j : ℕ) : (swapAt l i j).Perm l := by
  unfold swapAt
  split
  · rename_i a b ha hb
    obtain ⟨hi,rfl⟩ := List.getElem?_eq_some_iff.mp ha
    obtain ⟨hj,rfl⟩ := List.getElem?_eq_some_iff.mp hb
    exact List.set_set_perm hi hj
  · exact List.Perm.refl l

/-- The shuffle loop from index `i` down to 1. Position `i` changes places with a position
drawn from `0..i`; the number of draws used so far is carried along. -/
def shuffleFrom (draw : ℕ → ℕ) : ℕ → ℕ → List α → List α × ℕ
  | 0,used,l => (l,used)
  | i+1,used,l => shuffleFrom draw i (used+1) (swapAt l (i+1) (draw used % (i+2)))

theorem shuffleFrom_perm (draw : ℕ → ℕ) (i used : ℕ) (l : List α) :
    (shuffleFrom draw i used l).1.Perm l := by
  induction i generalizing used l with
  | zero => exact List.Perm.refl l
  | succ i ih => exact (ih _ _).trans (swapAt_perm l _ _)

/-- The elements in front of `m` successive rotations, the first by `c` positions. -/
def turns (l : List α) (c : ℕ) : ℕ → List α
  | 0 => []
  | m+1 => (l.rotate c).head?.toList ++ turns l (c+1) m

theorem turns_add (l : List α) (c a b : ℕ) :
    turns l c (a+b) = turns l c a ++ turns l (c+a) b := by
  induction a generalizing c with
  | zero => simp [turns]
  | succ a ih =>
    rw [Nat.succ_add,turns,turns,ih (c+1),List.append_assoc]
    congr 3
    omega

theorem turns_eq_take (l : List α) (c m : ℕ) (hm : m ≤ l.length) :
    turns l c m = (l.rotate c).take m := by
  induction m generalizing c with
  | zero => simp [turns]
  | succ m ih =>
    rw [turns,ih (c+1) (by omega),← List.rotate_rotate]
    have hlen : (l.rotate c).length = l.length := List.length_rotate l c
    cases hl : l.rotate c with
    | nil =>
      rw [hl,List.length_nil] at hlen
      omega
    | cons x xs =>
      rw [hl,List.length_cons] at hlen
      rw [List.rotate_cons_succ,List.rotate_zero,List.take_append_of_le_length (by omega)]
      rfl

/-- Over whole rounds every element has the same number of turns. -/
theorem count_turns [DecidableEq α] (l : List α) (c k : ℕ) (a : α) :
    (turns l c (l.length*k)).count a = k*l.count a := by
  induction k generalizing c with
  | zero => simp [turns]
  | succ k ih =>
    rw [Nat.mul_succ,Nat.add_comm,turns_add,List.count_append,ih,turns_eq_take l c _ le_rfl,
      ← List.length_rotate l c,List.take_length,(List.rotate_perm l c).count_eq]
    ring

section Bubble
variable [LinearOrder α]

/-- One round of the inner loop: the first `n` neighbours are compared from the left and change
places when they are in the wrong order. -/
def bubblePass : ℕ → List α → List α
  | n+1,x :: y :: l => if y < x then y :: bubblePass n (x :: l) else x :: bubblePass n (y :: l)
  | _,l => l

/-- The rounds of the outer loop, each with one comparison less. -/
def bubbleRounds : ℕ → List α → List α
  | 0,l => l
  | n+1,l => bubbleRounds n (bubblePass (n+1) l)

def bubbleSort (l : List α) : List α := bubbleRounds (l.length-1) l

/-- A round takes the greatest of the elements that it compares to their end, and does not touch
the others. -/
theorem bubblePass_append (n : ℕ) (l rest : List α) (hl : l.length = n+1) :
    ∃ l' x, bubblePass n (l ++ rest) = l' ++ x :: rest ∧ (l' ++ [x]).Perm l ∧ ∀ y ∈ l', y ≤ x := by
  induction n generalizing l with
  | zero =>
    obtain ⟨x,rfl⟩ := List.length_eq_one_iff.mp hl
    exact ⟨[],x,by simp [bubblePass],List.Perm.refl _,by simp⟩
  | succ n ih =>
    match l,hl with
    | x :: y :: l,hl =>
      simp only [List.length_cons] at hl
      by_cases hswap : y < x
      · obtain ⟨l',z,hpass,hperm,hle⟩ := ih (x :: l) (by simp only [List.length_cons]; omega)
        refine ⟨y :: l',z,?_,?_,?_⟩
        · simp only [List.cons_append,bubblePass,if_pos hswap] at hpass ⊢
          rw [hpass]
        · exact (hperm.cons y).trans (List.Perm.swap _ _ _)
        · intro w hw
          rcases List.mem_cons.mp hw with rfl | hw
          · have hx : x ∈ l' ++ [z] := hperm.symm.subset List.mem_cons_self
            rcases List.mem_append.mp hx with hx | hx
            · exact hswap.le.trans (hle x hx)
            · exact hswap.le.trans (List.mem_singleton.mp hx).le
          · exact hle w hw
      · obtain ⟨l',z,hpass,hperm,hle⟩ := ih (y :: l) (by simp only [List.length_cons]; omega)
        refine ⟨x :: l',z,?_,hperm.cons x,?_⟩
        · simp only [List.cons_append,bubblePass,if_neg hswap] at hpass ⊢
          rw [hpass]
        · intro w hw
          rcases List.mem_cons.mp hw with rfl | hw
          · have hy : y ∈ l' ++ [z] := hperm.symm.subset List.mem_cons_self
            rcases List.mem_append.mp hy with hy | hy
            · exact (not_lt.mp hswap).trans (hle y hy)
            · exact (not_lt.mp hswap).trans (List.mem_singleton.mp hy).le
          · exact hle w hw

theorem bubbleRounds_append (n : ℕ) (l rest : List α) (hl : l.length = n+1)
    (hrest : rest.Pairwise (· ≤ ·)) (hle : ∀ x ∈ l, ∀ y ∈ rest, x ≤ y) :
    (bubbleRounds n (l ++ rest)).Perm (l ++ rest) ∧
      (bubbleRounds n (l ++ rest)).Pairwise (· ≤ ·) := by
  induction n generalizing l rest with
  | zero =>
    obtain ⟨x,rfl⟩ := List.length_eq_one_iff.mp hl
    exact ⟨List.Perm.refl _,List.pairwise_cons.mpr ⟨hle x List.mem_cons_self,hrest⟩⟩
  | succ n ih =>
    obtain ⟨l',x,hpass,hperm,hmax⟩ := bubblePass_append (n+1) l rest hl
    have hmem : ∀ y ∈ l' ++ [x], ∀ z ∈ rest, y ≤ z := fun y hy => hle y (hperm.subset hy)
    obtain ⟨hperm',hsorted⟩ := ih l' (x :: rest)
      (by
        have hlength := hperm.length_eq
        simp only [List.length_append,List.length_singleton] at hlength
        omega)
      (List.pairwise_cons.mpr ⟨hmem x (by simp),hrest⟩)
      (by
        intro y hy z hz
        rcases List.mem_cons.mp hz with rfl | hz
        · exact hmax y hy
        · exact hmem y (by simp [hy]) z hz)
    rw [bubbleRounds,hpass]
    refine ⟨hperm'.trans ?_,hsorted⟩
    have hsplit : l' ++ x :: rest = l' ++ [x] ++ rest := by simp
    rw [hsplit]
    exact hperm.append_right rest

theorem bubbleSort_spec (l : List α) :
    (bubbleSort l).Perm l ∧ (bubbleSort l).Pairwise (· ≤ ·) := by
  cases l with
  | nil => exact ⟨List.Perm.refl _,List.Pairwise.nil⟩
  | cons x l =>
    have h := bubbleRounds_append l.length (x :: l) [] (by simp) List.Pairwise.nil (by simp)
    simpa [bubbleSort] using h

theorem bubbleSort_perm (l : List α) : (bubbleSort l).Perm l := (bubbleSort_spec l).1

theorem bubbleSort_sorted (l : List α) : (bubbleSort l).Pairwise (· ≤ ·) := (bubbleSort_spec l).2

end Bubble

end ChainKit.Lib
