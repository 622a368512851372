import Mathlib

/-! A list cut into batches of a given size, the last of which may be smaller. -/
namespace ChainKit.Lib
variable {α : Type}

def batches (n : ℕ) (l : List α) : List (List α) :=
  (List.range (l.length ⌈/⌉ n)).map fun i => (l.drop (n*i)).take n

section
variable {n : ℕ} {l : List α}

@[simp] theorem length_batches (n : ℕ) (l : List α) :
    (batches n l).length = l.length ⌈/⌉ n := by
  simp [batches]

@[simp] theorem batches_nil (n : ℕ) : batches n ([] : List α) = [] := by
  simp [batches]

theorem ceilDiv_eq_succ {m : ℕ} (hn : 0 < n) (hm : 0 < m) : m ⌈/⌉ n = (m-n) ⌈/⌉ n+1 := by
  apply eq_of_forall_ge_iff
  intro k
  cases k with
  | zero => simp [ceilDiv_le_iff_le_mul hn,hm.ne']
  | succ k =>
    rw [Nat.succ_le_succ_iff,ceilDiv_le_iff_le_mul hn,ceilDiv_le_iff_le_mul hn,Nat.mul_succ]
    omega

theorem batches_of_ne_nil (hn : 0 < n) (hl : l ≠ []) :
    batches n l = l.take n :: batches n (l.drop n) := by
  have hlength : 0 < l.length := List.length_pos_of_ne_nil hl
  rw [batches,ceilDiv_eq_succ hn hlength,List.range_succ_eq_map,List.map_cons,List.map_map,
    batches,List.length_drop]
  congr 1
  apply List.map_congr_left
  intro i _
  simp only [Function.comp_apply,List.drop_drop]
  rw [Nat.mul_succ,Nat.add_comm]

theorem flatten_batches (hn : 0 < n) (l : List α) : (batches n l).flatten = l := by
  induction hlength : l.length using Nat.strong_induction_on generalizing l with
  | h m ih =>
    by_cases hl : l = []
    · rw [hl,batches_nil,List.flatten_nil]
    · have hpos := List.length_pos_of_ne_nil hl
      have hshort : (l.drop n).length < m := by
        rw [List.length_drop]
        omega
      rw [batches_of_ne_nil hn hl,List.flatten_cons,ih _ hshort _ rfl,List.take_append_drop]

theorem ne_nil_of_mem_batches (hn : 0 < n) {batch : List α} (h : batch ∈ batches n l) :
    batch ≠ [] := by
  obtain ⟨i,hi,rfl⟩ := List.mem_map.mp h
  rw [List.mem_range,← not_le,ceilDiv_le_iff_le_mul hn] at hi
  apply List.ne_nil_of_length_pos
  rw [List.length_take,List.length_drop]
  omega

/-- A front of some batches that has all their items is all of them. -/
theorem eq_of_isPrefix {front all : List (List α)} (hfront : front <+: all)
    (hne : ∀ batch ∈ all, batch ≠ []) (hnodup : all.flatten.Nodup)
    (hitems : ∀ a ∈ all.flatten, a ∈ front.flatten) : front = all := by
  obtain ⟨rest,rfl⟩ := hfront
  cases rest with
  | nil => simp
  | cons batch rest =>
    exfalso
    obtain ⟨a,ha⟩ := List.exists_mem_of_ne_nil batch (hne batch (by simp))
    rw [List.flatten_append] at hnodup
    have hrest : a ∈ (batch :: rest).flatten := by simp [ha]
    have hfront : a ∈ front.flatten := hitems a (by simp [ha])
    exact List.disjoint_of_nodup_append hnodup hfront hrest

end

end ChainKit.Lib
