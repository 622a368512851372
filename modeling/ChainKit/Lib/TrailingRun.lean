import Mathlib

/-! The run of marked positions at the end of a history, which is what a counter holds that
is raised at each mark and set back otherwise. -/
namespace ChainKit.Lib

/-- The number of marks at the end of a history. -/
def trailingRun (h : List Bool) : ℕ := (h.reverse.takeWhile id).length

@[simp] theorem trailingRun_nil : trailingRun [] = 0 := rfl

@[simp] theorem trailingRun_mark (h : List Bool) : trailingRun (h ++ [true]) = trailingRun h+1 := by
  simp [trailingRun]

@[simp] theorem trailingRun_unmarked (h : List Bool) : trailingRun (h ++ [false]) = 0 := by
  simp [trailingRun]

theorem replicate_prefix_iff (k : ℕ) (l : List Bool) :
    List.replicate k true <+: l ↔ k ≤ (l.takeWhile id).length := by
  induction l generalizing k with
  | nil => cases k <;> simp [List.replicate_succ]
  | cons a l ih =>
    cases k with
    | zero => simp
    | succ k =>
      rw [List.replicate_succ,List.cons_prefix_cons,ih k]
      cases a <;> simp

/-- A history ends in `k` marks exactly when its trailing run is that long. -/
theorem replicate_suffix_iff (k : ℕ) (h : List Bool) :
    List.replicate k true <:+ h ↔ k ≤ trailingRun h := by
  rw [← List.reverse_prefix,List.reverse_replicate,replicate_prefix_iff]
  rfl

theorem replicate_infix_snoc (k : ℕ) (h : List Bool) (a : Bool) :
    List.replicate k true <:+: h ++ [a] ↔
      k ≤ trailingRun (h ++ [a]) ∨ List.replicate k true <:+: h := by
  rw [List.infix_concat_iff,replicate_suffix_iff]

theorem replicate_infix_unmarked {k : ℕ} (hk : 1 ≤ k) (h : List Bool) :
    List.replicate k true <:+: h ++ [false] ↔ List.replicate k true <:+: h := by
  rw [replicate_infix_snoc,trailingRun_unmarked]
  constructor
  · rintro (h0 | h0)
    · omega
    · exact h0
  · exact Or.inr

end ChainKit.Lib
